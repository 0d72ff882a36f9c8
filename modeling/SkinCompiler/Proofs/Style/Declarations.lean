import SkinCompiler.Style.Declarations

/-!
# Declarations of utilities with a value

A utility with a value has the declarations of what its scheme assigns, all of the importance of the
candidate.

* `declarations?_eq` -- the declarations of a utility with a value;
* `declared_injective` -- they tell what is assigned.
-/

namespace SkinCompiler.Style

/-- The declarations of assignments. -/
def declared (important : Bool) (assignments : Assignments) : List Declaration :=
  assignments.map fun (property, value) => { property, value, important }

theorem declared_injective (important : Bool) : Function.Injective (declared important) := by
  intro a b hab
  refine (List.map_inj_right fun p q hpq => ?_).1 hab
  rw [Declaration.mk.injEq] at hpq
  exact Prod.ext hpq.1 hpq.2.1

variable {theme : Theme} {c : Candidate} {root : Text} {value : Value} {modifier : Option Modifier}

/-- A root assigns what its scheme does, if it takes the sign. -/
theorem functionalAssignments?_eq {scheme : Scheme} (hroot : Scheme.ofRoot? root = some scheme)
    (s : Setting) : functionalAssignments? theme root s
      = if s.negative && !Scheme.negatable.contains root then none
        else scheme.assignments? theme s := by
  rw [functionalAssignments?, hroot]

theorem assignments?_functional (hc : c.utility = .functional root value modifier) :
    assignments? theme c
      = functionalAssignments? theme root { value, modifier, negative := c.negative } := by
  rw [assignments?, hc]

theorem declarations?_eq (h : assignments? theme c ≠ some []) :
    declarations? theme c = (assignments? theme c).map (declared c.important) := by
  rw [declarations?]
  cases hassigned : assignments? theme c with
  | none => rfl
  | some assignments =>
    cases assignments with
    | nil => exact absurd hassigned h
    | cons p rest => rfl

/-- There are declarations just where something is assigned. -/
theorem declarations?_eq_some_iff {declarations : List Declaration} :
    declarations? theme c = some declarations ↔ ∃ assignments, assignments? theme c
      = some assignments ∧ assignments ≠ [] ∧ declarations = declared c.important assignments := by
  rw [declarations?]
  cases assignments? theme c with
  | none => simp
  | some assignments =>
    cases assignments with
    | nil => simp
    | cons p rest =>
      simp only [Option.some.injEq, exists_eq_left', ne_eq, reduceCtorEq, not_false_eq_true,
        true_and]
      exact eq_comm

end SkinCompiler.Style
