import Mathlib.Data.List.Forall2
import Mathlib.Tactic.Common

/-!
# Computations that may fail

When steps one after another, or one for each member of a list, come to a result, and where the
error comes from when they do not.
-/

namespace SkinCompiler

variable {ε α β : Type} {x : Except ε α} {e : ε}

/-! ## One step after another -/

theorem bind_eq_ok_iff {f : α → Except ε β} {y : β} :
    x >>= f = .ok y ↔ ∃ a, x = .ok a ∧ f a = .ok y := by
  cases x <;> simp [bind, Except.bind]

theorem bind_eq_error_iff {f : α → Except ε β} :
    x >>= f = .error e ↔ x = .error e ∨ ∃ a, x = .ok a ∧ f a = .error e := by
  cases x <;> simp [bind, Except.bind]

/-- What is made of a result adds no error. -/
theorem bind_pure_eq_error_iff {f : α → β} :
    (do let a ← x; return f a) = .error e ↔ x = .error e := by
  cases x <;> simp [bind, Except.bind, pure, Except.pure]

/-! ## One step for each member -/

variable {f : α → Except ε β} {xs : List α} {ys : List β}

theorem mapM_eq_ok_iff : xs.mapM f = .ok ys ↔ List.Forall₂ (fun x y => f x = .ok y) xs ys := by
  induction xs generalizing ys with
  | nil => cases ys <;> simp [pure, Except.pure]
  | cons x xs ih =>
    simp only [List.mapM_cons, bind_eq_ok_iff, ih]
    constructor
    · rintro ⟨y, hy, zs, hzs, h⟩
      cases h
      exact .cons hy hzs
    · rintro (_ | ⟨hy, hys⟩)
      exact ⟨_, hy, _, hys, rfl⟩

/-- Every result comes of a member. -/
theorem exists_of_mapM_eq_ok {y : β} (h : xs.mapM f = .ok ys) (hy : y ∈ ys) :
    ∃ x ∈ xs, f x = .ok y := by
  induction mapM_eq_ok_iff.1 h with
  | nil => cases hy
  | @cons x z xs ys hxz hrest ih =>
    rcases List.mem_cons.1 hy with rfl | hy
    · exact ⟨x, List.mem_cons_self, hxz⟩
    · obtain ⟨w, hw, hwy⟩ := ih (mapM_eq_ok_iff.2 hrest) hy
      exact ⟨w, List.mem_cons_of_mem _ hw, hwy⟩

/-- Every member has a result. -/
theorem exists_eq_ok_of_mapM_eq_ok {x : α} (h : xs.mapM f = .ok ys) (hx : x ∈ xs) :
    ∃ y, f x = .ok y := by
  induction mapM_eq_ok_iff.1 h with
  | nil => cases hx
  | @cons z y xs ys hz hrest ih =>
    rcases List.mem_cons.1 hx with rfl | hx
    · exact ⟨y, hz⟩
    · exact ih (mapM_eq_ok_iff.2 hrest) hx

/-- The error is that of a member. -/
theorem exists_of_mapM_eq_error (h : xs.mapM f = .error e) : ∃ x ∈ xs, f x = .error e := by
  induction xs with
  | nil => cases h
  | cons x xs ih =>
    rw [List.mapM_cons, bind_eq_error_iff] at h
    rcases h with hx | ⟨y, -, h⟩
    · exact ⟨x, List.mem_cons_self, hx⟩
    · obtain ⟨z, hz, hfz⟩ := ih (bind_pure_eq_error_iff.1 h)
      exact ⟨z, List.mem_cons_of_mem _ hz, hfz⟩

/-! ## What is told of the outcome -/

/-- What succeeds is told apart by what is told of its result. -/
theorem exists_eq_ok {g : α → β} {y : β} (h : x.toOption.map g = some y) :
    ∃ a, x = .ok a ∧ g a = y := by
  cases x with
  | error _ => cases h
  | ok a => exact ⟨a, rfl, Option.some.inj h⟩

theorem exists_eq_ok_of_bind {g : α → Option β} {y : β} (h : x.toOption.bind g = some y) :
    ∃ a, x = .ok a ∧ g a = some y := by
  cases x with
  | error _ => cases h
  | ok a => exact ⟨a, rfl, h⟩

/-- What fails is told apart by its error. -/
theorem eq_error_of_error? (h : (match x with | .ok _ => none | .error e => some e) = some e) :
    x = .error e := by
  cases x with
  | ok _ => cases h
  | error _ => rw [Option.some.inj h]

end SkinCompiler
