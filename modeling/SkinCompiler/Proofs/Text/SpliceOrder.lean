import Mathlib.Algebra.BigOperators.Group.List.Basic
import Mathlib.Algebra.Ring.Int.Defs
import SkinCompiler.Proofs.Text.Splice

/-!
# Edits one at a time

Applying edits all at once comes to the same as applying them one at a time, from the last one to
the first, since an edit moves nothing in front of it.  Edits are taken in their stable order: by
start and end, and edits of the same range as they were given.  There is one such order only, so
whatever keeps edits of the same range in order changes nothing.

* `isStableOrder_iff` -- the stable order of edits is the one they are sorted into;
* `spliceFrom_foldr` -- edits in order, applied from the last one to the first;
* `length_spliceFrom` -- what edits add to the length of a text;
* `splice_simultaneous` -- when edits can be applied, and what comes of it.
-/

namespace SkinCompiler.Text

namespace Edit

variable {edits edits' ordered : List Edit} {a b e : Edit}

/-! ## The stable order -/

/-- The other edit has the same range. -/
def sameRange (e b : Edit) : Bool := b.start == e.start && b.stop == e.stop

theorem le_refl (a : Edit) : le a a = true := by simpa using le_total a a

theorem sameRange_iff : sameRange e b = true ↔ b.start = e.start ∧ b.stop = e.stop := by
  simp [sameRange]

/-- The same edits in an order that keeps edits of the same range as they were. -/
structure IsReordering (edits edits' : List Edit) : Prop where
  /-- They are the same edits. -/
  perm : edits'.Perm edits
  /-- Those of any one range stand in the same order. -/
  stable : ∀ e, edits'.filter (sameRange e) = edits.filter (sameRange e)

/-- The edits in order, by start and end, and those of the same range as they were. -/
structure IsStableOrder (edits ordered : List Edit) : Prop extends IsReordering edits ordered where
  /-- They are in order. -/
  sorted : ordered.Pairwise fun a b => le a b = true

theorem IsReordering.trans {edits'' : List Edit} (h : IsReordering edits edits')
    (h' : IsReordering edits' edits'') : IsReordering edits edits'' :=
  ⟨h'.perm.trans h.perm, fun e => (h'.stable e).trans (h.stable e)⟩

theorem IsReordering.symm (h : IsReordering edits edits') : IsReordering edits' edits :=
  ⟨h.perm.symm, fun e => (h.stable e).symm⟩

/-- Sorting keeps edits of the same range in order. -/
theorem filter_sorted (e : Edit) (edits : List Edit) :
    (sorted edits).filter (sameRange e) = edits.filter (sameRange e) := by
  have hrange : (edits.filter (sameRange e)).Pairwise fun a b => le a b = true := by
    refine List.pairwise_of_forall_mem_list ?_
    intro a ha b hb
    have ha := sameRange_iff.1 (List.mem_filter.1 ha).2
    have hb := sameRange_iff.1 (List.mem_filter.1 hb).2
    rw [le_iff]
    omega
  have hsub : (edits.filter (sameRange e)).Sublist (sorted edits) := by
    refine List.sublist_mergeSort ?_ le_total hrange List.filter_sublist
    intro a b c hab hbc
    exact le_trans hab hbc
  have hfilter := hsub.filter (sameRange e)
  rw [List.filter_filter] at hfilter
  simp only [Bool.and_self] at hfilter
  exact (hfilter.eq_of_length ((sorted_perm edits).filter _).length_eq.symm).symm

theorem isStableOrder_sorted (edits : List Edit) : IsStableOrder edits (sorted edits) where
  perm := sorted_perm edits
  stable e := filter_sorted e edits
  sorted := pairwise_sorted edits

/-- Edits in order are determined by those of each range. -/
theorem eq_of_sorted (h : ordered.Pairwise fun a b => le a b = true)
    (h' : edits.Pairwise fun a b => le a b = true) (hsame : IsReordering edits ordered) :
    ordered = edits := by
  induction ordered generalizing edits with
  | nil => exact hsame.perm.nil_eq
  | cons a ordered ih =>
    cases edits with
    | nil => exact absurd hsame.perm.length_eq (by simp)
    | cons b edits =>
      obtain ⟨ha, hordered⟩ := List.pairwise_cons.1 h
      obtain ⟨hb, hedits⟩ := List.pairwise_cons.1 h'
      -- each of the two first edits comes no later than the other one
      have hab : le a b = true := by
        rcases List.mem_cons.1 (hsame.perm.mem_iff.2 List.mem_cons_self) with rfl | hmem
        · exact le_refl _
        · exact ha b hmem
      have hba : le b a = true := by
        rcases List.mem_cons.1 (hsame.perm.mem_iff.1 List.mem_cons_self) with rfl | hmem
        · exact le_refl _
        · exact hb a hmem
      have hrange : sameRange a b = true := by
        rw [le_iff] at hab hba
        rw [sameRange_iff]
        omega
      have hself : sameRange a a = true := by simp [sameRange]
      have hfirst := hsame.stable a
      rw [List.filter_cons_of_pos hself, List.filter_cons_of_pos hrange, List.cons.injEq] at hfirst
      obtain ⟨rfl, -⟩ := hfirst
      congr 1
      refine ih hordered hedits ⟨(List.perm_cons _).1 hsame.perm, ?_⟩
      intro e
      have hboth := hsame.stable e
      by_cases he : sameRange e a = true
      · rw [List.filter_cons_of_pos he, List.filter_cons_of_pos he] at hboth
        exact (List.cons.inj hboth).2
      · rwa [List.filter_cons_of_neg he, List.filter_cons_of_neg he] at hboth

/-- There is one stable order only. -/
theorem isStableOrder_iff : IsStableOrder edits ordered ↔ ordered = sorted edits := by
  constructor
  · intro h
    have hsame := (isStableOrder_sorted edits).toIsReordering.symm.trans h.toIsReordering
    exact eq_of_sorted h.sorted (pairwise_sorted edits) hsame
  · rintro rfl
    exact isStableOrder_sorted edits

/-- Edits in another order are sorted alike if those of the same range are. -/
theorem IsReordering.sorted_eq (h : IsReordering edits edits') : sorted edits' = sorted edits := by
  have hsame := h.trans (isStableOrder_sorted edits').toIsReordering
  exact isStableOrder_iff.1 ⟨hsame, pairwise_sorted edits'⟩

/-! ## One edit after another -/

/-- The text with the range of a single edit replaced. -/
def apply (e : Edit) (t : Text) : Text := t.take e.start.toNat ++ e.text ++ t.drop e.stop.toNat

/-- What an edit adds to the length of a text. -/
def growth (e : Edit) : Int := e.text.length - (e.stop - e.start)

/-- Edits in order overlap nowhere if none overlaps the one that follows it. -/
theorem isChain_iff_pairwise (h : ∀ e ∈ edits, e.start ≤ e.stop) :
    edits.IsChain (fun a b => a.stop ≤ b.start) ↔ edits.Pairwise fun a b => a.stop ≤ b.start := by
  induction edits with
  | nil => simp
  | cons a edits ih =>
    have hrest := ih fun e he => h e (List.mem_cons_of_mem _ he)
    cases edits with
    | nil => simp
    | cons b edits =>
      rw [List.isChain_cons_cons, hrest, List.pairwise_cons (a := a)]
      refine and_congr_left fun hpairwise => ?_
      constructor
      · intro hab e he
        rcases List.mem_cons.1 he with rfl | he
        · exact hab
        · have hb := h b (by simp)
          have hbe := (List.pairwise_cons.1 hpairwise).1 e he
          omega
      · intro hall
        exact hall b List.mem_cons_self

end Edit

variable {source rest t : Text} {edits : List Edit} {done : Nat}

/-- Edits in order leave what comes before all of them, and the last one can be applied first. -/
theorem spliceFrom_foldr (h : spliceFrom done (source.drop done) edits = .ok t)
    (hdone : done ≤ source.length) : edits.foldr Edit.apply source = source.take done ++ t := by
  induction edits generalizing done t with
  | nil =>
    obtain rfl := Except.ok.inj h
    exact (List.take_append_drop done source).symm
  | cons e edits ih =>
    obtain ⟨start, stop, after, hstart, hstop, hfirst, hle, hlast, hafter, rfl⟩ :=
      spliceFrom_cons h
    rw [List.length_drop] at hlast
    rw [List.drop_drop, Nat.add_sub_cancel' (by omega)] at hafter
    have hkept : (source.take stop).length = stop := by
      rw [List.length_take]
      omega
    rw [List.foldr_cons, ih hafter (by omega), Edit.apply, hstart, hstop, Int.toNat_natCast,
      Int.toNat_natCast, List.take_append_of_le_length (by omega), List.take_take,
      Nat.min_eq_left hle, List.drop_left' hkept, ← List.append_assoc, ← List.append_assoc]
    -- what comes before the range is what the earlier edits leave and what follows on it
    have hbefore : source.take start = source.take done ++ (source.drop done).take (start - done) := by
      rw [← List.take_add, Nat.add_sub_cancel' hfirst]
    rw [hbefore]

/-- Every edit adds to the length of the text what it puts in beyond what it takes out. -/
theorem length_spliceFrom (h : spliceFrom done rest edits = .ok t) :
    (t.length : Int) = rest.length + (edits.map Edit.growth).sum := by
  induction edits generalizing done rest t with
  | nil =>
    obtain rfl := Except.ok.inj h
    simp
  | cons e edits ih =>
    obtain ⟨start, stop, after, hstart, hstop, hfirst, hle, hlast, hafter, rfl⟩ :=
      spliceFrom_cons h
    have hrest := ih hafter
    rw [List.length_drop] at hrest
    rw [List.map_cons, List.sum_cons, Edit.growth, hstart, hstop, List.length_append,
      List.length_append, List.length_take]
    push_cast
    omega

/-- What cannot be applied is the range of one of the edits. -/
theorem exists_of_spliceFrom_error {bad : BadRange} (h : spliceFrom done rest edits = .error bad) :
    ∃ e ∈ edits, bad = ⟨e.start, e.stop⟩ := by
  induction edits generalizing done rest with
  | nil => cases h
  | cons e edits ih =>
    rw [spliceFrom] at h
    split at h
    · exact ⟨e, List.mem_cons_self, (Except.error.inj h).symm⟩
    · obtain ⟨b, hb, hbad⟩ := ih (bind_pure_eq_error_iff.1 h)
      exact ⟨b, List.mem_cons_of_mem _ hb, hbad⟩

/-- Edits replace their ranges all at once.  In their stable order they can be applied just if they
lie in the text and each one ends before the next one begins; else the range of one of them is
reported.  What they make is what they make one at a time, from the last one to the first, and each
of them adds to the length.  Edits of different ranges can be given in any order. -/
theorem splice_simultaneous (source : Text) (edits : List Edit) :
    ∃ ordered, (∀ l, Edit.IsStableOrder edits l ↔ l = ordered) ∧
      ((∃ t, splice source edits = .ok t) ↔ (∀ e ∈ ordered, e.IsIn source.length) ∧
        ordered.IsChain fun a b => a.stop ≤ b.start) ∧
      (∀ t, splice source edits = .ok t → t = ordered.foldr Edit.apply source ∧
        (t.length : Int) = source.length + (edits.map Edit.growth).sum) ∧
      (∀ bad, splice source edits = .error bad → ∃ e ∈ edits, bad = ⟨e.start, e.stop⟩) ∧
      ∀ edits', Edit.IsReordering edits edits' → splice source edits' = splice source edits := by
  have hperm := Edit.sorted_perm edits
  refine ⟨Edit.sorted edits, fun l => Edit.isStableOrder_iff, ?_, ?_, ?_, ?_⟩
  · unfold splice
    rw [spliceFrom_isOk_iff, Nat.zero_add]
    constructor
    · rintro ⟨hin, hpairwise⟩
      refine ⟨fun e he => (hin e he).2, ?_⟩
      exact (Edit.isChain_iff_pairwise fun e he => (hin e he).2.le).2 hpairwise
    · rintro ⟨hin, hchain⟩
      refine ⟨fun e he => ⟨(hin e he).nonneg, hin e he⟩, ?_⟩
      exact (Edit.isChain_iff_pairwise fun e he => (hin e he).le).1 hchain
  · intro t ht
    constructor
    · have hstart : spliceFrom 0 (source.drop 0) (Edit.sorted edits) = .ok t := ht
      rw [spliceFrom_foldr hstart (Nat.zero_le _), List.take_zero, List.nil_append]
    · rw [length_spliceFrom ht, (hperm.map _).sum_eq]
  · intro bad hbad
    obtain ⟨e, he, hrange⟩ := exists_of_spliceFrom_error hbad
    exact ⟨e, hperm.mem_iff.1 he, hrange⟩
  · intro edits' h
    unfold splice
    rw [h.sorted_eq]

/-- Of insertions at one place the one given first comes first, whatever is given between them. -/
example : splice "abc" [⟨1, 1, "x"⟩, ⟨0, 1, "y"⟩, ⟨1, 1, "z"⟩, ⟨1, 3, ""⟩] = .ok "yxz" := by
  cbv

end SkinCompiler.Text
