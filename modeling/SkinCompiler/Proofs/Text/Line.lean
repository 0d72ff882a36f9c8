import SkinCompiler.Proofs.Text.Basic

/-!
# The lines of a text

How the lines of a text come about character by character.

* `lines_append` -- text without the end of a line stands in front of the first line;
* `flatten_lines` -- the lines hold the text but for the ends of its lines.
-/

namespace SkinCompiler.Text

variable {a l t : Text} {c : Char}

/-- Lines with more text in front of the first one. -/
def extendLines (a : Text) : List Text → List Text
  | [] => [a]
  | l :: ls => (a ++ l) :: ls

theorem lines_cons (h : isLineEnd c = false) : lines (c :: t) = extendLines [c] (lines t) := by
  have hreturn : c ≠ '\r' := fun hc => by simp [hc, isLineEnd] at h
  rw [lines]
  · rw [h]
    cases lines t <;> rfl
  · exact fun _ hc _ => hreturn hc

theorem lines_append (ha : a ≠ []) (h : ∀ c ∈ a, isLineEnd c = false) :
    lines (a ++ t) = extendLines a (lines t) := by
  induction a with
  | nil => exact absurd rfl ha
  | cons c a ih =>
    rw [List.cons_append, lines_cons (h c List.mem_cons_self)]
    rcases eq_or_ne a [] with rfl | hne
    · rfl
    · rw [ih hne fun x hx => h x (List.mem_cons_of_mem _ hx)]
      cases lines t <;> rfl

theorem lines_return (t : Text) : lines ('\r' :: '\n' :: t) = [] :: lines t := rfl

theorem lines_end (h : isLineEnd c = true) (hreturn : c = '\r' → t.head? ≠ some '\n') :
    lines (c :: t) = [] :: lines t := by
  rw [lines]
  · rw [if_pos h]
  · rintro t' hc rfl
    exact hreturn hc rfl

/-- The first line begins with the first character, unless that ends the line. -/
theorem head?_line {ls : List Text} (h : lines t = l :: ls) : l.head? = none ∨ l.head? = t.head? := by
  cases t with
  | nil => cases h
  | cons c t =>
    cases hend : isLineEnd c with
    | false =>
      rw [lines_cons hend] at h
      right
      cases hlines : lines t <;> rw [hlines] at h <;> cases h <;> rfl
    | true =>
      left
      rw [lines.eq_def] at h
      split at h
      · cases h
      · cases h
        rfl
      · rename_i heq
        cases heq
        rw [if_pos hend] at h
        cases h
        rfl

/-- The lines hold the text but for the ends of its lines. -/
theorem flatten_lines (t : Text) : (lines t).flatten = t.filter fun c => !isLineEnd c := by
  fun_induction lines t with
  | case1 => rfl
  | case2 t ih => simpa [isLineEnd] using ih
  | case3 c t hcrlf hend ih => simp [hend, ih]
  | case4 c t hcrlf hend hlines ih => simp [hend, ← ih, hlines]
  | case5 c t hcrlf hend first others hlines ih => simp [hend, ← ih, hlines]

theorem of_mem_lines (hl : l ∈ lines t) (hc : c ∈ l) : c ∈ t ∧ isLineEnd c = false := by
  have hmem := List.mem_flatten_of_mem hl hc
  rw [flatten_lines, List.mem_filter] at hmem
  simpa using hmem

end SkinCompiler.Text
