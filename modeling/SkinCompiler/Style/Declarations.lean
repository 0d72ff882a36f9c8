import SkinCompiler.Style.FunctionalUtility
import SkinCompiler.Stylesheet.Basic

/-!
# Declarations of candidates

The declarations that a class token stands for, whatever its variants, and the type that an
arbitrary value should have at a root.
-/

namespace SkinCompiler.Style

/-- What a utility with a value assigns. -/
def functionalAssignments? (theme : Theme) (root : Text) (s : Setting) : Option Assignments :=
  match Scheme.ofRoot? root with
  | none => none
  | some scheme =>
    if s.negative && !Scheme.negatable.contains root then none else scheme.assignments? theme s

/-- What a candidate assigns. -/
def assignments? (theme : Theme) (c : Candidate) : Option Assignments :=
  match c.utility with
  | .static root _ => StaticUtility.assignments? root
  | .property name content _ => some [(name, arbitraryText content)]
  | .functional root value modifier =>
    functionalAssignments? theme root { value, modifier, negative := c.negative }
  | .other root (some value) modifier =>
    functionalAssignments? theme root { value, modifier, negative := c.negative }
  | .other _ none _ => none

/-- The declarations of a candidate; none if its value means nothing to its root. -/
def declarations? (theme : Theme) (c : Candidate) : Option (List Declaration) :=
  match assignments? theme c with
  | none | some [] => none
  | some assignments => some (assignments.map fun (property, value) =>
    { property, value, important := c.important })

/-- The types of arbitrary values at roots that do not read a length from the scale of spacing. -/
def valueTypes : Table Text := [
  ("opacity", "number"), ("z", "number"), ("order", "number"), ("grow", "number"),
  ("shrink", "number"), ("rotate", "angle"), ("fill", "color"), ("accent", "color"),
  ("caret", "color"), ("from", "color"), ("via", "color"), ("to", "color")]

/-- The type that an arbitrary value should have at a root, if it takes one only. -/
def expectedType? (root : Text) : Option Text :=
  match Scheme.ofRoot? root with
  | some (.spacing _ _ _) => some "length"
  | _ => Table.get? root valueTypes

end SkinCompiler.Style
