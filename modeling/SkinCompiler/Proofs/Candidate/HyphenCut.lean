import Mathlib.Tactic.Common
import SkinCompiler.Candidate.Reader

/-!
# Cuts at hyphens

A utility and a variant are cut at a hyphen into a root and what is read behind it.

* `mem_hyphenCuts_iff`, `hyphenCuts_sorted` -- the cuts at hyphens behind roots without brackets are
  all found, the longest root first;
* `RootsDescend.findSome?_eq_some_iff` -- hence of the cuts that work the one with the longest root
  is taken;
* `findSome?_hyphenCuts` -- where nothing comes of the longer roots, the cut behind a root without
  brackets is taken.
-/

namespace SkinCompiler

open Text

variable {base root rest t : Text} {α : Type}

/-! ## What is cut -/

/-- A cut puts the text together again with a hyphen, and neither part is empty. -/
theorem exists_of_mem_hyphenCutsAfter {before : Text} {depth : Int} {p : Text × Text}
    (h : p ∈ hyphenCutsAfter before depth t) :
    (∃ x, p.1 = before.reverse ++ x ∧ t = x ++ '-' :: p.2) ∧ p.1 ≠ [] ∧ p.2 ≠ [] := by
  induction t generalizing before depth with
  | nil => simp [hyphenCutsAfter] at h
  | cons c t ih =>
    have hlater : ∀ d, p ∈ hyphenCutsAfter (c :: before) d t →
        (∃ x, p.1 = before.reverse ++ x ∧ c :: t = x ++ '-' :: p.2) ∧ p.1 ≠ [] ∧ p.2 ≠ [] := by
      intro d hp
      obtain ⟨⟨x, hx, ht⟩, hne⟩ := ih hp
      exact ⟨⟨c :: x, by simp [hx], by simp [← ht]⟩, hne⟩
    rw [hyphenCutsAfter] at h
    split_ifs at h with h₁ h₂ h₃
    · exact hlater _ h
    · exact hlater _ h
    · rcases List.mem_append.1 h with h | h
      · exact hlater _ h
      · simp only [Bool.and_eq_true, beq_iff_eq, Bool.not_eq_true',
          List.isEmpty_eq_false_iff] at h₃
        rw [List.mem_singleton.1 h]
        exact ⟨⟨[], by simp, by simp [h₃]⟩, by simpa using h₃.1.2, h₃.2⟩
    · exact hlater _ h

theorem eq_of_mem_hyphenCuts (h : (root, rest) ∈ hyphenCuts t) : t = root ++ '-' :: rest := by
  obtain ⟨⟨x, hx, ht⟩, -⟩ := exists_of_mem_hyphenCutsAfter h
  simp only [List.reverse_nil, List.nil_append] at hx
  rw [hx]
  exact ht

theorem ne_nil_of_mem_hyphenCuts (h : (root, rest) ∈ hyphenCuts t) : root ≠ [] ∧ rest ≠ [] :=
  (exists_of_mem_hyphenCutsAfter h).2

/-- The brackets in which no hyphen is cut at. -/
def hyphenGuards : List Char := ['[', ']', '(', ')']

/-- The text holds none of these brackets. -/
def IsUnguarded (t : Text) : Prop := ∀ c ∈ t, c ∉ hyphenGuards

instance decidableIsUnguarded (t : Text) : Decidable (IsUnguarded t) :=
  List.decidableBAll (fun c => c ∉ hyphenGuards) t

/-- The hyphen behind a text without brackets is cut at, whatever stands on its other side. -/
theorem mem_hyphenCutsAfter (before : Text) (h : IsUnguarded root) (hb : before ++ root ≠ [])
    (hr : rest ≠ []) :
    (before.reverse ++ root, rest) ∈ hyphenCutsAfter before 0 (root ++ '-' :: rest) := by
  induction root generalizing before with
  | nil =>
    rw [List.append_nil] at hb
    rw [List.nil_append, hyphenCutsAfter]
    simp [hb, hr]
  | cons c root ih =>
    have hc := h c List.mem_cons_self
    simp only [hyphenGuards, List.mem_cons, not_or] at hc
    have hlater := ih (c :: before) (fun x hx => h x (List.mem_cons_of_mem _ hx)) (by simp)
    rw [List.reverse_cons, List.append_assoc, List.singleton_append] at hlater
    rw [List.cons_append, hyphenCutsAfter, if_neg (by simp [hc]), if_neg (by simp [hc])]
    dsimp only
    split_ifs
    · exact List.mem_append_left _ hlater
    · exact hlater

/-- A root without brackets is cut off exactly where a hyphen stands between it and something. -/
theorem mem_hyphenCuts_iff (h : IsUnguarded root) :
    (root, rest) ∈ hyphenCuts base ↔ root ≠ [] ∧ rest ≠ [] ∧ base = root ++ '-' :: rest := by
  constructor
  · intro hmem
    obtain ⟨hroot, hrest⟩ := ne_nil_of_mem_hyphenCuts hmem
    exact ⟨hroot, hrest, eq_of_mem_hyphenCuts hmem⟩
  · rintro ⟨hroot, hrest, rfl⟩
    exact mem_hyphenCutsAfter [] h (by simpa using hroot) hrest

/-! ## The order of the cuts -/

/-- Longer roots come before shorter ones. -/
def RootsDescend (cuts : List (Text × Text)) : Prop :=
  cuts.Pairwise fun p q => q.1.length < p.1.length

theorem hyphenCutsAfter_sorted (before : Text) (depth : Int) (t : Text) :
    RootsDescend (hyphenCutsAfter before depth t) := by
  induction t generalizing before depth with
  | nil => exact List.Pairwise.nil
  | cons c t ih =>
    rw [hyphenCutsAfter]
    split_ifs
    · exact ih ..
    · exact ih ..
    · refine List.pairwise_append.2 ⟨ih .., List.pairwise_singleton .., ?_⟩
      intro p hp q hq
      obtain ⟨⟨x, hx, -⟩, -⟩ := exists_of_mem_hyphenCutsAfter hp
      rw [List.mem_singleton.1 hq, hx]
      simp only [List.length_reverse, List.length_append, List.length_cons]
      omega
    · exact ih ..

theorem hyphenCuts_sorted (t : Text) : RootsDescend (hyphenCuts t) := hyphenCutsAfter_sorted [] 0 t

/-- Of cuts in this order, the first that works has the longest root of those that work. -/
theorem RootsDescend.findSome?_eq_some_iff {cuts : List (Text × Text)} (h : RootsDescend cuts)
    {f : Text × Text → Option α} {a : α} : cuts.findSome? f = some a ↔
      ∃ p ∈ cuts, f p = some a ∧ ∀ q ∈ cuts, f q ≠ none → q.1.length ≤ p.1.length := by
  constructor
  · intro hf
    obtain ⟨longer, p, shorter, rfl, hp, hnone⟩ := List.findSome?_eq_some_iff.1 hf
    refine ⟨p, by simp, hp, ?_⟩
    intro q hq hne
    have hafter := (List.pairwise_cons.1 (List.pairwise_append.1 h).2.1).1
    rcases List.mem_append.1 hq with hq | hq
    · exact absurd (hnone q hq) hne
    · rcases List.mem_cons.1 hq with rfl | hq
      · exact Nat.le_refl _
      · exact Nat.le_of_lt (hafter q hq)
  · rintro ⟨p, hp, hf, hmax⟩
    obtain ⟨longer, shorter, rfl⟩ := List.append_of_mem hp
    refine List.findSome?_eq_some_iff.2 ⟨longer, p, shorter, rfl, hf, ?_⟩
    intro q hq
    have hlt : p.1.length < q.1.length := (List.pairwise_append.1 h).2.2 q hq p List.mem_cons_self
    by_contra hne
    have hle := hmax q (List.mem_append_left _ hq) hne
    omega

/-- A longer root goes on behind the hyphen. -/
theorem exists_of_longer_root {root' rest' : Text}
    (h : root ++ '-' :: rest = root' ++ '-' :: rest') (hlt : root.length < root'.length) :
    ∃ x, root' = root ++ '-' :: x ∧ rest = x ++ '-' :: rest' := by
  rcases List.append_eq_append_iff.1 h with ⟨x, rfl, hx⟩ | ⟨x, rfl, -⟩
  · cases x with
    | nil => simp at hlt
    | cons c x =>
      rw [List.cons_append, List.cons.injEq] at hx
      obtain ⟨rfl, hrest⟩ := hx
      exact ⟨x, rfl, hrest⟩
  · rw [List.length_append] at hlt
    omega

/-- Where nothing comes of the longer roots, the cut behind a root without brackets is taken. -/
theorem findSome?_hyphenCuts {f : Text × Text → Option α} {a : α} (hu : IsUnguarded root)
    (hn : root ≠ []) (hr : rest ≠ [])
    (hf : ∀ x y, rest = x ++ '-' :: y → f (root ++ '-' :: x, y) = none)
    (h : f (root, rest) = some a) : (hyphenCuts (root ++ '-' :: rest)).findSome? f = some a := by
  have hmem := (mem_hyphenCuts_iff hu).2 ⟨hn, hr, rfl⟩
  refine (hyphenCuts_sorted _).findSome?_eq_some_iff.2 ⟨(root, rest), hmem, h, ?_⟩
  rintro ⟨root', y⟩ hmem' hne
  by_contra hlt
  obtain ⟨x, rfl, hx⟩ :=
    exists_of_longer_root (eq_of_mem_hyphenCuts hmem') (Nat.lt_of_not_le hlt)
  exact hne (hf x y hx)

end SkinCompiler
