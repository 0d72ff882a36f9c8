import SkinCompiler.Text.CharClass

/-!
# Stylesheets

Rules with their declarations, and how they are written.  Selectors, parameters and values are kept
as texts.
-/

namespace SkinCompiler

/-- A property with the value it is given. -/
structure Declaration where
  /-- The property. -/
  property : Text
  /-- The value. -/
  value : Text
  /-- The declaration overrides those that are not important. -/
  important : Bool := false
  deriving DecidableEq

/-- A rule of a stylesheet. -/
inductive Rule where
  /-- Declarations for whatever a selector matches. -/
  | style (selector : Text) (declarations : List Declaration)
  /-- An at-rule with a block of rules. -/
  | block (name params : Text) (rules : List Rule)
  /-- An at-rule that is a statement. -/
  | statement (name params : Text)
  deriving Inhabited

/-- A stylesheet: its rules in order. -/
abbrev Stylesheet := List Rule

/-- The text of a declaration. -/
def Declaration.write (d : Declaration) : Text :=
  d.property ++ ": " ++ d.value ++ (if d.important then " !important;" else ";").toList

namespace Rule

/-- The line that opens an at-rule. -/
def prelude (name params : Text) : Text :=
  Text.trimRight Text.isBlank ('@' :: name ++ ' ' :: params)

/-- The margin of a line `depth` levels deep. -/
def margin (indent depth : Nat) : Text := Text.spaces (indent * depth)

/-- A block of lines with a head before it. -/
def braced (pad head inner : Text) : Text :=
  pad ++ head ++ " \x7b\n" ++ inner ++ "\n" ++ pad ++ "\x7d"

mutual

/-- The text of a rule `depth` levels deep. -/
def writeAt (indent depth : Nat) : Rule → Text
  | .statement name params => margin indent depth ++ prelude name params ++ ";"
  | .block name params rules =>
    braced (margin indent depth) (prelude name params)
      (Text.join "\n\n" (writeRulesAt indent (depth + 1) rules))
  | .style selector declarations =>
    let pad := margin indent depth
    Text.join "\n" ((pad ++ selector ++ " \x7b")
      :: declarations.map (fun d => margin indent (depth + 1) ++ d.write) ++ [pad ++ "\x7d"])

/-- The texts of rules `depth` levels deep. -/
def writeRulesAt (indent depth : Nat) : List Rule → List Text
  | [] => []
  | r :: rs => writeAt indent depth r :: writeRulesAt indent depth rs

end

end Rule

namespace Stylesheet

/-- The rules with an empty line between each two. -/
def writeRules (indent : Nat) (s : Stylesheet) : Text :=
  Text.join "\n\n" (Rule.writeRulesAt indent 0 s)

/-- The text of a stylesheet; it ends with a line feed unless it is empty. -/
def write (indent : Nat) (s : Stylesheet) : Text :=
  let t := writeRules indent s
  if t.isEmpty then [] else t ++ ['\n']

end Stylesheet

end SkinCompiler
