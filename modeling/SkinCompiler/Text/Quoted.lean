import SkinCompiler.Text.CharClass

/-!
# Quoted texts

How a text is shown inside a message and written as an object key: between single quotes, or
between double quotes when it holds a single quote and no double one.  The quote in use and the
backslash are escaped, and so is every character that cannot be printed.
-/

namespace SkinCompiler.Text

/-- The digits of `n` in base sixteen, at least `width` of them. -/
def hex (width n : Nat) : Text :=
  let digits := Nat.toDigits 16 n
  List.replicate (width - digits.length) '0' ++ digits

namespace Quoted

/-- The quote that `quoted` puts around a text. -/
def quoteFor (t : Text) : Char := if t.contains '\'' && !t.contains '"' then '"' else '\''

/-- A character between two quotes `quote`. -/
def escape (quote c : Char) : Text :=
  if c == quote || c == '\\' then ['\\', c]
  else if c == '\n' then "\\n"
  else if c == '\r' then "\\r"
  else if c == '\t' then "\\t"
  else if isPrintable c then [c]
  else if c.toNat ≤ 0xFF then "\\x" ++ hex 2 c.toNat
  else if c.toNat ≤ 0xFFFF then "\\u" ++ hex 4 c.toNat
  else "\\U" ++ hex 8 c.toNat

end Quoted

/-- The text between quotes, on one line and free of characters that cannot be printed. -/
def quoted (t : Text) : Text :=
  let quote := Quoted.quoteFor t
  quote :: t.flatMap (Quoted.escape quote) ++ [quote]

end SkinCompiler.Text
