import SkinCompiler.Text.Basic

/-!
# Markup trees

Elements with attributes, and texts between them, and how they are written: an element that holds
nothing but texts stands on one line, and any other one has a line for each of its children.
-/

namespace SkinCompiler.Markup

/-- An attribute; one without a value is a bare name. -/
structure Attribute where
  /-- The name. -/
  name : Text
  /-- The value. -/
  value : Option Text := none
  deriving DecidableEq

/-- A piece of markup. -/
inductive Tree where
  /-- An element. -/
  | element (tag : Text) (attributes : List Attribute) (children : List Tree)
  /-- A text. -/
  | text (t : Text)

/-- A character inside an attribute value. -/
def escapeChar (c : Char) : Text :=
  if c == '&' then "&amp;" else if c == '"' then "&quot;" else [c]

/-- An attribute with the space before it. -/
def Attribute.write (a : Attribute) : Text :=
  match a.value with
  | none => ' ' :: a.name
  | some v => ' ' :: a.name ++ "=\"" ++ v.flatMap escapeChar ++ "\""

namespace Tree

/-- The text, if the piece is one. -/
def text? : Tree → Option Text
  | .text t => some t
  | .element _ _ _ => none

/-- The opening tag of an element. -/
def openingTag (tag : Text) (attributes : List Attribute) : Text :=
  '<' :: tag ++ attributes.flatMap Attribute.write ++ ">"

/-- The closing tag of an element. -/
def closingTag (tag : Text) : Text := "</" ++ tag ++ ">"

mutual

/-- The lines of a piece of markup `margin` blanks from the left; every level adds `step` more. -/
def write (step margin : Nat) : Tree → Text
  | .text t => Text.spaces margin ++ t
  | .element tag attributes children =>
    let opening := Text.spaces margin ++ openingTag tag attributes
    match children.mapM text? with
    | some texts => opening ++ Text.join " " texts ++ closingTag tag
    | none => Text.join "\n"
      (opening :: writeAll step (margin + step) children ++ [Text.spaces margin ++ closingTag tag])

/-- The lines of pieces of markup. -/
def writeAll (step margin : Nat) : List Tree → List Text
  | [] => []
  | t :: ts => write step margin t :: writeAll step margin ts

end

end Tree

end SkinCompiler.Markup
