import SkinCompiler.Text.Basic
import SkinCompiler.Text.CharClassTable

/-!
# Character classes

Blanks, word characters, digits and printable characters in the sense of Unicode, and the text
operations that depend on them.  The ASCII part of every class is found within the first runs of
its table.
-/

namespace SkinCompiler

namespace Text.CharClass

/-- The point lies in one of the runs, given two by two in ascending order. -/
def within : List Nat → Nat → Bool
  | first :: stop :: runs, n => if n < first then false else n < stop || within runs n
  | _, _ => false

end Text.CharClass

namespace Text

open CharClass

/-- Blanks: the Unicode white space characters and the four information separators
U+001C to U+001F. -/
def isBlank (c : Char) : Bool :=
  let n := c.toNat
  (9 ≤ n && n ≤ 13) || (28 ≤ n && n ≤ 32) || n == 0x85 || n == 0xA0 || n == 0x1680
    || (0x2000 ≤ n && n ≤ 0x200A) || n == 0x2028 || n == 0x2029 || n == 0x202F
    || n == 0x205F || n == 0x3000

/-- Letters, digits, other numerals and the low line. -/
def isWord (c : Char) : Bool := within wordRuns c.toNat

/-- Decimal digits of any script. -/
def isDecimal (c : Char) : Bool := within decimalRuns c.toNat

/-- Decimal digits and the digit forms such as superscripts. -/
def isDigit (c : Char) : Bool := within digitRuns c.toNat

/-- Characters that a quoted text shows as themselves. -/
def isPrintable (c : Char) : Bool := within printableRuns c.toNat

/-- The value of a decimal digit: its distance from the zero of its decade. -/
def decimalValue (c : Char) : Nat :=
  let rec go : List Nat → Nat
    | first :: stop :: runs => if c.toNat < stop then (c.toNat - first) % 10 else go runs
    | _ => 0
  go decimalRuns

/-- ASCII letters. -/
def isAsciiLetter (c : Char) : Bool := ('a' ≤ c && c ≤ 'z') || ('A' ≤ c && c ≤ 'Z')

/-- ASCII lower-case letters. -/
def isAsciiLower (c : Char) : Bool := 'a' ≤ c && c ≤ 'z'

/-- ASCII upper-case letters. -/
def isAsciiUpper (c : Char) : Bool := 'A' ≤ c && c ≤ 'Z'

/-- The digits `0` to `9`. -/
def isAsciiDigit (c : Char) : Bool := '0' ≤ c && c ≤ '9'

/-- Hexadecimal digits. -/
def isHexDigit (c : Char) : Bool :=
  isAsciiDigit c || ('a' ≤ c && c ≤ 'f') || ('A' ≤ c && c ≤ 'F')

/-! ## Blanks in a text -/

/-- Drop the blanks at both ends. -/
def strip (t : Text) : Text := trimBoth isBlank t

/-- The maximal runs of characters that are not blank. -/
def words (t : Text) : List Text := (cutWhere isBlank t).filter (!·.isEmpty)

/-- Every run of blanks becomes one space, and none stands at either end. -/
def collapse (t : Text) : Text := join " ".toList (words t)

/-- Only blanks, or nothing at all. -/
def isBlankText (t : Text) : Bool := t.all isBlank

/-- At least one character, and digits only. -/
def isDigits (t : Text) : Bool := !t.isEmpty && t.all isDigit

/-- The number that a row of decimal digits denotes. -/
def decimalNumber (t : Text) : Nat := t.foldl (fun n c => 10 * n + decimalValue c) 0

end Text

end SkinCompiler
