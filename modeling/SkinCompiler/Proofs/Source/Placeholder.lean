import Mathlib.Data.List.Basic
import SkinCompiler.Source.Escape

/-!
# Placeholders of template literals

The placeholders of a template literal are pieces of it that follow one another.

* `isPlaceholder_of_mem` -- a placeholder stands in the literal where its position says;
* `templateCodes_pairwise` -- placeholders end before the next one begins.
-/

namespace SkinCompiler.Source

variable {t : Text} {c : Char} {k bound position : Nat} {x : Text × Nat}

theorem templateCodes_character (c : Char) (pieces : List TemplatePiece) :
    templateCodes (.character c :: pieces) = templateCodes pieces := rfl

theorem templateCodes_placeholder (code : Text) (p : Nat) (pieces : List TemplatePiece) :
    templateCodes (.placeholder code p :: pieces) = (code, p) :: templateCodes pieces := rfl

/-- A code stands at its position in a text that begins at `position`, and not before `bound`. -/
structure IsPlaceholder (t : Text) (position bound : Nat) (x : Text × Nat) : Prop where
  /-- It begins at the bound at the earliest. -/
  le_start : bound ≤ x.2
  /-- It ends in the text. -/
  stop_le : x.2 + x.1.length ≤ position + t.length
  /-- It is what stands there. -/
  code_isPrefix : x.1 <+: t.drop (x.2 - position)

theorem IsPlaceholder.cons (h : IsPlaceholder t (position + 1) bound x)
    (hbound : position < bound) (c : Char) : IsPlaceholder (c :: t) position bound x := by
  obtain ⟨hstart, hstop, hcode⟩ := h
  refine ⟨hstart, ?_, ?_⟩
  · rw [List.length_cons]
    omega
  · have hsub : x.2 - position = x.2 - (position + 1) + 1 := by omega
    rwa [hsub, List.drop_succ_cons]

theorem IsPlaceholder.mono {b : Nat} (h : IsPlaceholder t position bound x) (hb : b ≤ bound) :
    IsPlaceholder t position b x :=
  ⟨Nat.le_trans hb h.le_start, h.stop_le, h.code_isPrefix⟩

/-- Every placeholder among the pieces of a text stands in that text, after the characters that
have been dealt with. -/
theorem isPlaceholder_of_mem (h : x ∈ templateCodes (templatePieces k position t)) :
    IsPlaceholder t position (position + k) x := by
  induction k, position, t using templatePieces.induct with
  | case1 | case2 => simp [templatePieces, templateCodes] at h
  | case3 k position c t hne ih =>
    rw [templatePieces] at h
    case x_3 => exact hne
    have hrest := (ih h).cons (by omega) c
    exact hrest.mono (by omega)
  | case4 position c d t hescape ih =>
    rw [templatePieces, if_pos hescape, templateCodes_character] at h
    have hrest := (ih h).cons (by omega) c
    exact hrest.mono (by omega)
  | case5 position c d t hescape hopen length ih =>
    rw [templatePieces, if_neg hescape, if_pos hopen] at h
    dsimp only at h
    rw [templateCodes_placeholder, List.mem_cons] at h
    rcases h with rfl | h
    · refine ⟨by omega, ?_, ?_⟩
      · have htake := List.length_take_le' (placeholderLength 0 none t) t
        simp only [List.length_cons]
        omega
      · have hsub : position + 2 - position = 2 := by omega
        rw [hsub]
        exact List.take_prefix _ _
    · have hrest := (ih h).cons (by omega) c
      exact hrest.mono (by omega)
  | case6 position c d t hescape hopen ih =>
    rw [templatePieces, if_neg hescape, if_neg hopen, templateCodes_character] at h
    have hrest := (ih h).cons (by omega) c
    exact hrest.mono (by omega)

/-- A placeholder ends before the next one begins. -/
theorem templateCodes_pairwise :
    (templateCodes (templatePieces k position t)).Pairwise fun x y => x.2 + x.1.length ≤ y.2 := by
  induction k, position, t using templatePieces.induct with
  | case1 | case2 => simp [templatePieces, templateCodes]
  | case3 k position c t hne ih =>
    rw [templatePieces]
    case x_3 => exact hne
    exact ih
  | case4 position c d t hescape ih =>
    rwa [templatePieces, if_pos hescape, templateCodes_character]
  | case5 position c d t hescape hopen length ih =>
    rw [templatePieces, if_neg hescape, if_pos hopen]
    dsimp only
    rw [templateCodes_placeholder, List.pairwise_cons]
    refine ⟨?_, ih⟩
    intro y hy
    have hstart := (isPlaceholder_of_mem hy).le_start
    have htake := List.length_take_le (placeholderLength 0 none t) t
    dsimp only
    omega
  | case6 position c d t hescape hopen ih =>
    rwa [templatePieces, if_neg hescape, if_neg hopen, templateCodes_character]

end SkinCompiler.Source
