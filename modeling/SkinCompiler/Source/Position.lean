import SkinCompiler.Text.Quoted

/-!
# Positions of errors

What is wrong with a source, and where: the line and the column of a position, both counted from
one.
-/

namespace SkinCompiler.Source

/-- A line and a column.  The end of a whole source lies before its first column. -/
structure Place where
  /-- The line, counted from one. -/
  line : Nat
  /-- The column, counted from one. -/
  column : Int
  deriving DecidableEq

/-- The place of a position.  A negative position is counted from the end of the source when the
lines before it are counted, while its column is counted from the beginning. -/
def Place.of (source : Text) (position : Int) : Place :=
  let before := source.take
    (if position < 0 then position + source.length else position).toNat
  let lineStart := before.length - (before.reverse.takeWhile (· != '\n')).length
  ⟨before.count '\n' + 1, position - lineStart + 1⟩

/-- What is wrong with a source. -/
inductive Fault where
  /-- A character with which nothing can go on. -/
  | unexpected (c : Char)
  /-- The source ends too early. -/
  | unfinished
  /-- An element that another tag closes. -/
  | closingTag (opening closing : Text)
  deriving DecidableEq

/-- The text of a fault. -/
def Fault.message : Fault → Text
  | .unexpected c => "Unexpected character " ++ Text.quoted [c]
  | .unfinished => "Unexpected end of input"
  | .closingTag opening closing =>
    "Expected closing tag </" ++ opening ++ "> but found </" ++ closing ++ ">"

/-- The piece of the source that a fault is about. -/
def Fault.token? : Fault → Option Text
  | .unexpected c => some [c]
  | .unfinished => none
  | .closingTag _ closing => some closing

/-- A source that cannot be read. -/
structure Unreadable where
  /-- What is wrong. -/
  fault : Fault
  /-- Where it is wrong. -/
  place : Place
  deriving DecidableEq

/-- The text of the error, with its place. -/
def Unreadable.message (e : Unreadable) : Text :=
  e.fault.message ++ " (line " ++ Text.ofNat e.place.line ++ ", column "
    ++ Text.ofInt e.place.column ++ ")"

end SkinCompiler.Source
