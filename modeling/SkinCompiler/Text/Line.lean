import SkinCompiler.Text.Basic

/-!
# Lines

How a text falls into lines, and the line and column of a position.
-/

namespace SkinCompiler.Text

/-- Characters that end a line: line feed, vertical tab, form feed, carriage return, the
separators U+001C to U+001E, next line, and the line and paragraph separators. -/
def isLineEnd (c : Char) : Bool :=
  let n := c.toNat
  (10 ≤ n && n ≤ 13) || (28 ≤ n && n ≤ 30) || n == 0x85 || n == 0x2028 || n == 0x2029

/-- The lines of a text without their ends.  A carriage return and the line feed after it are one
end; the end of the last line opens no further line. -/
def lines : Text → List Text
  | [] => []
  | '\r' :: '\n' :: t => [] :: lines t
  | c :: t =>
    if isLineEnd c then [] :: lines t
    else match lines t with
      | [] => [[c]]
      | line :: rest => (c :: line) :: rest

/-- The text without one line feed at its end. -/
def chomp (t : Text) : Text :=
  match t.reverse with
  | '\n' :: before => before.reverse
  | _ => t

/-- Carriage returns, with or without a line feed after them, become line feeds. -/
def unifyLineEnds : Text → Text
  | [] => []
  | '\r' :: '\n' :: t => '\n' :: unifyLineEnds t
  | '\r' :: t => '\n' :: unifyLineEnds t
  | c :: t => c :: unifyLineEnds t

end SkinCompiler.Text
