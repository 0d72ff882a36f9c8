import SkinCompiler.Proofs.Except
import SkinCompiler.Text.Splice

/-!
# Edits of a text

Edits can be applied all at once just if their ranges lie in the text and keep clear of one another.
What is outside the ranges then stays as it is, and the new texts stand between.

* `spliceFrom_isOk_iff` -- edits in order can be applied if each ends before the next one begins;
* `splice_isOk_iff` -- edits in any order can be applied if no two of them overlap;
* `isLeft_iff` -- what no edit replaces is left at its place;
* `splice_slice` -- a range that no edit touches stays together;
* `splice_text` -- what is put in the place of a range;
* `splice_around` -- what stands around it.
-/

namespace SkinCompiler.Text

namespace Edit

variable {a b : Edit} {length : Nat}

/-- The range lies in a text of that length. -/
structure IsIn (length : Nat) (e : Edit) : Prop where
  /-- It begins in the text. -/
  nonneg : 0 ≤ e.start
  /-- Its ends are in order. -/
  le : e.start ≤ e.stop
  /-- It ends in the text. -/
  le_length : e.stop ≤ length

theorem isIn_of_le {start stop : Nat} (text : Text) (hle : start ≤ stop) (hlength : stop ≤ length) :
    IsIn length ⟨start, stop, text⟩ :=
  ⟨Int.natCast_nonneg _, Int.ofNat_le.2 hle, Int.ofNat_le.2 hlength⟩

/-- One of the ranges ends before the other one begins. -/
def IsApart (a b : Edit) : Prop := a.stop ≤ b.start ∨ b.stop ≤ a.start

theorem IsApart.symm (h : IsApart a b) : IsApart b a := Or.symm h

theorem le_iff : le a b = true ↔ a.start < b.start ∨ a.start = b.start ∧ a.stop ≤ b.stop := by
  simp [le]

theorem le_trans {c : Edit} (hab : le a b = true) (hbc : le b c = true) : le a c = true := by
  rw [le_iff] at *
  omega

theorem sorted_perm (edits : List Edit) : (sorted edits).Perm edits := List.mergeSort_perm _ _

theorem le_total (a b : Edit) : (le a b || le b a) = true := by
  rw [Bool.or_eq_true, le_iff, le_iff]
  omega

theorem pairwise_sorted (edits : List Edit) : (sorted edits).Pairwise fun a b => le a b = true := by
  refine List.pairwise_mergeSort ?_ le_total edits
  intro a b c hab hbc
  exact le_trans hab hbc

/-- Of two edits in order that keep clear of one another, the first one ends before the other one
begins. -/
theorem stop_le_iff (hle : le a b = true) (ha : a.IsIn length) (hb : b.IsIn length) :
    a.stop ≤ b.start ↔ IsApart a b := by
  have haorder := ha.le
  have hborder := hb.le
  rw [le_iff] at hle
  unfold IsApart
  constructor
  · exact Or.inl
  · rintro (h | h)
    · exact h
    · -- both ranges are empty and at the same place
      omega

end Edit

variable {source rest : Text} {edits : List Edit} {done : Nat}

/-- Edits in order can be applied to the rest of a text. -/
theorem spliceFrom_isOk_iff :
    (∃ t, spliceFrom done rest edits = .ok t) ↔
      (∀ e ∈ edits, (done : Int) ≤ e.start ∧ e.IsIn (done + rest.length)) ∧
        edits.Pairwise fun a b => a.stop ≤ b.start := by
  induction edits generalizing done rest with
  | nil => simp [spliceFrom]
  | cons e edits ih =>
    rw [spliceFrom]
    by_cases hbad : (decide (e.start < done) || decide (e.stop < e.start) ||
        decide ((done : Int) + rest.length < e.stop)) = true
    · rw [if_pos hbad]
      simp only [Bool.or_eq_true, decide_eq_true_eq] at hbad
      constructor
      · rintro ⟨t, ht⟩
        cases ht
      · rintro ⟨hin, -⟩
        obtain ⟨hstart, -, horder, hstop⟩ := hin e List.mem_cons_self
        omega
    · rw [if_neg hbad]
      simp only [Bool.or_eq_true, decide_eq_true_eq] at hbad
      -- the edits that follow are applied to what is left of the text
      have hdone : (e.stop.toNat : Int) = e.stop := by omega
      have hlength : e.stop.toNat + (rest.drop (e.stop.toNat - done)).length =
          done + rest.length := by
        rw [List.length_drop]
        omega
      have hrest : (∃ t, (do
          let after ← spliceFrom e.stop.toNat (rest.drop (e.stop.toNat - done)) edits
          return rest.take (e.start.toNat - done) ++ e.text ++ after : Except BadRange Text) =
            .ok t) ↔ ∃ t, spliceFrom e.stop.toNat (rest.drop (e.stop.toNat - done)) edits =
              .ok t := by
        simp [bind_eq_ok_iff, pure, Except.pure]
      rw [hrest, ih, hlength, hdone, List.pairwise_cons]
      constructor
      · rintro ⟨hin, hpairwise⟩
        refine ⟨?_, fun b hb => (hin b hb).1, hpairwise⟩
        intro b hb
        rcases List.mem_cons.1 hb with rfl | hb
        · refine ⟨by omega, ⟨by omega, by omega, ?_⟩⟩
          push_cast
          omega
        · obtain ⟨hstart, hb'⟩ := hin b hb
          exact ⟨by omega, hb'⟩
      · rintro ⟨hin, hfirst, hpairwise⟩
        exact ⟨fun b hb => ⟨hfirst b hb, (hin b (List.mem_cons_of_mem _ hb)).2⟩, hpairwise⟩

/-- Edits can be applied just if they lie in the text and no two of them overlap. -/
theorem splice_isOk_iff :
    (∃ t, splice source edits = .ok t) ↔
      (∀ e ∈ edits, e.IsIn source.length) ∧ edits.Pairwise Edit.IsApart := by
  have hperm := Edit.sorted_perm edits
  have hpairwise : edits.Pairwise Edit.IsApart ↔ (Edit.sorted edits).Pairwise Edit.IsApart :=
    (hperm.pairwise_iff fun h => h.symm).symm
  have hin : (∀ e ∈ edits, e.IsIn source.length) ↔
      ∀ e ∈ Edit.sorted edits, ((0 : Nat) : Int) ≤ e.start ∧ e.IsIn (0 + source.length) := by
    simp only [hperm.mem_iff, Nat.zero_add]
    exact ⟨fun h e he => ⟨(h e he).nonneg, h e he⟩, fun h e he => (h e he).2⟩
  unfold splice
  rw [spliceFrom_isOk_iff, hpairwise, hin]
  refine and_congr_right fun h => ?_
  constructor
  · intro hp
    exact hp.imp fun hab => Or.inl hab
  · intro hp
    refine ((Edit.pairwise_sorted edits).and hp).imp_of_mem ?_
    rintro a b ha hb ⟨hle, hab⟩
    exact (Edit.stop_le_iff hle (h a ha).2 (h b hb).2).2 hab

/-! ## What stays -/

namespace Edit

/-- The position is outside the range. -/
def Spares (e : Edit) (p : Nat) : Prop := (p : Int) < e.start ∨ e.stop ≤ p

/-- By how many places an edit moves a position after its range. -/
def shift (p : Nat) (e : Edit) : Int :=
  if e.stop ≤ (p : Int) then (e.text.length : Int) - (e.stop - e.start) else 0

/-- Where a position that all edits spare goes. -/
def place (edits : List Edit) (p : Nat) : Int := edits.foldr (fun e q => q + shift p e) (p : Int)

theorem place_cons (e : Edit) (edits : List Edit) (p : Nat) :
    place (e :: edits) p = place edits p + shift p e := rfl

/-- The order of the edits does not matter. -/
theorem place_perm {edits edits' : List Edit} (h : edits.Perm edits') (p : Nat) :
    place edits p = place edits' p := by
  induction h with
  | nil => rfl
  | cons e _ ih => rw [place_cons, place_cons, ih]
  | swap e b edits =>
    simp only [place_cons]
    omega
  | trans _ _ ih ih' => exact ih.trans ih'

theorem place_eq_self {edits : List Edit} {p : Nat} (h : ∀ e ∈ edits, (p : Int) < e.stop) :
    place edits p = p := by
  induction edits with
  | nil => simp [place]
  | cons e edits ih =>
    have hstop := h e List.mem_cons_self
    rw [place_cons, ih fun b hb => h b (List.mem_cons_of_mem _ hb), shift, if_neg (by omega)]
    omega

/-- What follows on a position stays there if nothing is put between them. -/
theorem place_succ {edits : List Edit} {p : Nat}
    (hlt : ∀ e ∈ edits, e.stop = (p + 1 : Nat) → e.start < e.stop)
    (hp : ∀ e ∈ edits, e.Spares p) : place edits (p + 1) = place edits p + 1 := by
  induction edits with
  | nil => simp [place]
  | cons e edits ih =>
    have hrest := ih (fun b hb => hlt b (List.mem_cons_of_mem _ hb))
      fun b hb => hp b (List.mem_cons_of_mem _ hb)
    have hshift : shift (p + 1) e = shift p e := by
      unfold shift
      by_cases hbehind : e.stop ≤ (p : Int)
      · rw [if_pos (by omega), if_pos hbehind]
      · have hne : e.stop ≠ (p + 1 : Nat) := by
          intro hstop
          have hstart := hlt e List.mem_cons_self hstop
          rcases hp e List.mem_cons_self with hbefore | hle
          · omega
          · exact hbehind hle
        rw [if_neg (by omega), if_neg hbehind]
    rw [place_cons, place_cons, hrest, hshift]
    omega

theorem place_add {edits : List Edit} {p k : Nat} (hlt : ∀ e ∈ edits, e.start < e.stop)
    (hspares : ∀ q, p ≤ q → q < p + k → ∀ e ∈ edits, e.Spares q) :
    place edits (p + k) = place edits p + k := by
  induction k with
  | zero => simp
  | succ k ih =>
    have hplace := place_succ (fun e he _ => hlt e he) (hspares (p + k) (by omega) (by omega))
    rw [← Nat.add_assoc, hplace, ih fun q hq hle => hspares q hq (by omega)]
    push_cast
    omega

end Edit

variable {p : Nat} {e : Edit} {t : Text}

/-- One edit after another: the text before the range, the new text, and the rest. -/
theorem spliceFrom_cons (h : spliceFrom done rest (e :: edits) = .ok t) :
    ∃ start stop after, e.start = (start : Nat) ∧ e.stop = (stop : Nat) ∧ done ≤ start ∧
      start ≤ stop ∧ stop ≤ done + rest.length ∧
      spliceFrom stop (rest.drop (stop - done)) edits = .ok after ∧
      t = rest.take (start - done) ++ e.text ++ after := by
  rw [spliceFrom] at h
  split at h
  · cases h
  · rename_i hbad
    simp only [Bool.or_eq_true, decide_eq_true_eq] at hbad
    obtain ⟨after, hafter, h⟩ := bind_eq_ok_iff.1 h
    cases h
    exact ⟨e.start.toNat, e.stop.toNat, after, by omega, by omega, by omega, by omega, by omega,
      hafter, rfl⟩

/-- No edit that is still to come ends before the position that the ones before have reached. -/
theorem lt_stop_of_spliceFrom (h : spliceFrom done rest edits = .ok t) (hp : p < done) :
    ∀ e ∈ edits, (p : Int) < e.stop := by
  intro e he
  obtain ⟨hstart, -, hle, -⟩ := (spliceFrom_isOk_iff.1 ⟨t, h⟩).1 e he
  omega

theorem spliceFrom_getElem? (h : spliceFrom done rest edits = .ok t) (hdone : done ≤ p)
    (hp : p < done + rest.length) (hspares : ∀ e ∈ edits, e.Spares p) :
    ∃ k : Nat, (done : Int) + k = Edit.place edits p ∧ t[k]? = rest[p - done]? := by
  induction edits generalizing done rest t with
  | nil =>
    obtain rfl := Except.ok.inj h
    refine ⟨p - done, ?_, rfl⟩
    rw [Edit.place_eq_self (by simp)]
    omega
  | cons e edits ih =>
    obtain ⟨start, stop, after, hstart, hstop, hfirst, hle, hlast, hafter, rfl⟩ :=
      spliceFrom_cons h
    have hkept : (rest.take (start - done)).length = start - done := by
      rw [List.length_take]
      omega
    rw [Edit.place_cons, Edit.shift]
    rcases hspares e List.mem_cons_self with hbefore | hbehind
    · -- the position comes before the range, and so before all ranges
      refine ⟨p - done, ?_, ?_⟩
      · rw [Edit.place_eq_self (lt_stop_of_spliceFrom hafter (by omega)), if_neg (by omega)]
        omega
      · rw [List.append_assoc, List.getElem?_append_left (by omega),
          List.getElem?_take_of_lt (by omega)]
    · obtain ⟨k, hk, hget⟩ := ih hafter (by omega) (by rw [List.length_drop]; omega)
        fun b hb => hspares b (List.mem_cons_of_mem _ hb)
      refine ⟨(start - done) + e.text.length + k, ?_, ?_⟩
      · rw [← hk, if_pos hbehind]
        push_cast
        omega
      · rw [List.getElem?_append_right (by rw [List.length_append]; omega), List.length_append,
          hkept, Nat.add_sub_cancel_left, hget, List.getElem?_drop]
        congr 1
        omega

theorem spliceFrom_text (h : spliceFrom done rest edits = .ok t) (he : e ∈ edits)
    (hlt : e.start < e.stop) (hp : e.start = (p : Int)) :
    ∃ k : Nat, (done : Int) + k = Edit.place edits p ∧ e.text <+: t.drop k := by
  induction edits generalizing done rest t with
  | nil => cases he
  | cons b edits ih =>
    obtain ⟨start, stop, after, hstart, hstop, hfirst, hle, hlast, hafter, rfl⟩ :=
      spliceFrom_cons h
    have hkept : (rest.take (start - done)).length = start - done := by
      rw [List.length_take]
      omega
    rw [Edit.place_cons, Edit.shift]
    rcases List.mem_cons.1 he with rfl | he
    · refine ⟨start - done, ?_, ?_⟩
      · rw [Edit.place_eq_self (lt_stop_of_spliceFrom hafter (by omega)), if_neg (by omega)]
        omega
      · rw [List.append_assoc, List.drop_left' hkept]
        exact List.prefix_append _ _
    · obtain ⟨hbehind, -⟩ := (spliceFrom_isOk_iff.1 ⟨after, hafter⟩).1 e he
      obtain ⟨k, hk, htext⟩ := ih hafter he
      refine ⟨(start - done) + b.text.length + k, ?_, ?_⟩
      · rw [← hk, if_pos (by omega)]
        push_cast
        omega
      · rwa [← List.drop_drop, List.drop_left' (by rw [List.length_append, hkept])]

/-- What no edit replaces stays, at its place. -/
theorem splice_getElem? (h : splice source edits = .ok t) (hp : p < source.length)
    (hspares : ∀ e ∈ edits, e.Spares p) :
    ∃ k : Nat, (k : Int) = Edit.place edits p ∧ t[k]? = source[p]? := by
  have hperm := Edit.sorted_perm edits
  obtain ⟨k, hk, hget⟩ := spliceFrom_getElem? h (Nat.zero_le p) (by omega)
    fun e he => hspares e (hperm.mem_iff.1 he)
  refine ⟨k, ?_, by simpa using hget⟩
  rw [← Edit.place_perm hperm, ← hk]
  omega

/-- Edits that are in order are applied as they come. -/
theorem splice_of_pairwise (h : edits.Pairwise fun a b => Edit.le a b = true) :
    splice source edits = spliceFrom 0 source edits := by
  rw [splice, Edit.sorted, List.mergeSort_of_pairwise h]

/-- A single edit: the text before the range, the new text, and the text after it. -/
theorem splice_singleton {start stop : Nat} (text : Text) (hle : start ≤ stop)
    (hlength : stop ≤ source.length) : splice source [⟨start, stop, text⟩] =
      .ok (source.take start ++ text ++ source.drop stop) := by
  rw [splice_of_pairwise (List.pairwise_singleton _ _), spliceFrom, if_neg (by simp; omega)]
  rfl

/-- A range that no edit touches stays together. -/
theorem splice_slice {a b : Nat} (h : splice source edits = .ok t)
    (hlt : ∀ e ∈ edits, e.start < e.stop) (hab : a < b) (hb : b ≤ source.length)
    (hspares : ∀ p, a ≤ p → p < b → ∀ e ∈ edits, e.Spares p) :
    ∃ k : Nat, (k : Int) = Edit.place edits a ∧ slice source a b <+: t.drop k := by
  obtain ⟨k, hk, -⟩ := splice_getElem? h (by omega) (hspares a (Nat.le_refl _) hab)
  refine ⟨k, hk, ?_⟩
  rw [List.prefix_iff_getElem?]
  intro i hi
  have hlength : i < b - a := Nat.lt_of_lt_of_le hi (List.length_take_le _ _)
  obtain ⟨m, hm, hget⟩ := splice_getElem? h (p := a + i) (by omega)
    (hspares (a + i) (by omega) (by omega))
  have hmk : m = k + i := by
    rw [Edit.place_add hlt fun q hq hle => hspares q hq (by omega)] at hm
    omega
  rw [List.getElem?_drop, ← hmk, hget, ← List.getElem?_eq_getElem hi, slice,
    List.getElem?_take_of_lt hlength, List.getElem?_drop]

/-- The new text stands where the range was. -/
theorem splice_text (h : splice source edits = .ok t) (he : e ∈ edits) (hlt : e.start < e.stop)
    (hp : e.start = (p : Int)) :
    ∃ k : Nat, (k : Int) = Edit.place edits p ∧ e.text <+: t.drop k := by
  have hperm := Edit.sorted_perm edits
  obtain ⟨k, hk, htext⟩ := spliceFrom_text h (hperm.mem_iff.2 he) hlt hp
  refine ⟨k, ?_, htext⟩
  rw [← Edit.place_perm hperm, ← hk]
  omega

theorem Edit.spares_of_isApart {b : Edit} (h : b.IsApart e) (hstart : e.start ≤ p)
    (hstop : (p : Int) < e.stop) : b.Spares p := by
  unfold Edit.IsApart at h
  unfold Edit.Spares
  omega

/-- Behind a new text goes on what stood behind its range. -/
theorem place_stop {start stop : Nat} (h : splice source edits = .ok t)
    (hlt : ∀ b ∈ edits, b.start < b.stop) (he : e ∈ edits) (hstart : e.start = start)
    (hstop : e.stop = stop) :
    Edit.place edits stop = Edit.place edits start + e.text.length := by
  have hperm := List.perm_cons_erase he
  have hapart := ((splice_isOk_iff.1 ⟨t, h⟩).2.perm hperm fun hab => hab.symm)
  have horder := hlt e he
  rw [List.pairwise_cons] at hapart
  obtain ⟨k, rfl⟩ : ∃ k, stop = start + k := ⟨stop - start, by omega⟩
  have hrest : Edit.place (edits.erase e) (start + k) = Edit.place (edits.erase e) start + k := by
    refine Edit.place_add (fun b hb => hlt b (List.mem_of_mem_erase hb)) ?_
    intro q hle hq b hb
    exact Edit.spares_of_isApart (hapart.1 b hb).symm (by omega) (by omega)
  rw [Edit.place_perm hperm, Edit.place_perm hperm, Edit.place_cons, Edit.place_cons, hrest,
    Edit.shift, Edit.shift, if_pos (by omega), if_neg (by omega)]
  omega

theorem prefix_append_drop {a b : Text} {k : Nat} (ha : a <+: t.drop k)
    (hb : b <+: t.drop (k + a.length)) : a ++ b <+: t.drop k := by
  obtain ⟨r, hr⟩ := ha
  rw [← List.drop_drop, ← hr, List.drop_left] at hb
  rw [← hr]
  exact (List.prefix_append_right_inj a).2 hb

/-- A range in which one edit stands and that no other edit touches: what is in front of the new
text, the new text, and what is behind it. -/
theorem splice_around {a b start stop : Nat} (h : splice source edits = .ok t)
    (hlt : ∀ b ∈ edits, b.start < b.stop) (he : e ∈ edits) (hstart : e.start = start)
    (hstop : e.stop = stop) (ha : a ≤ start) (hb : stop ≤ b) (hlength : b ≤ source.length)
    (hspares : ∀ e' ∈ edits, e' ≠ e → ∀ p, a ≤ p → p < b → e'.Spares p) :
    ∃ k : Nat, (k : Int) = Edit.place edits a ∧
      slice source a start ++ e.text ++ slice source stop b <+: t.drop k := by
  have horder := hlt e he
  have hbefore : ∀ p, a ≤ p → p < start → ∀ e' ∈ edits, e'.Spares p := by
    intro p hp hlt' e' he'
    by_cases heq : e' = e
    · subst heq
      exact Or.inl (by omega)
    · exact hspares e' he' heq p hp (by omega)
  have hbehind : ∀ p, stop ≤ p → p < b → ∀ e' ∈ edits, e'.Spares p := by
    intro p hp hlt' e' he'
    by_cases heq : e' = e
    · subst heq
      exact Or.inr (by omega)
    · exact hspares e' he' heq p (by omega) hlt'
  obtain ⟨m, hm, htext⟩ := splice_text h he (by omega) hstart
  have hplace := place_stop h hlt he hstart hstop
  have hfirst : Edit.place edits start = Edit.place edits a + (start - a : Nat) := by
    have hadd := Edit.place_add (p := a) (k := start - a) hlt fun q hq hlt' =>
      hbefore q hq (by omega)
    rwa [Nat.add_sub_cancel' ha] at hadd
  have hlead : ∃ k : Nat, (k : Int) = Edit.place edits a ∧ slice source a start <+: t.drop k := by
    rcases Nat.eq_or_lt_of_le ha with rfl | hlt'
    · refine ⟨m, hm, ?_⟩
      simp [slice]
    · exact splice_slice h hlt hlt' (by omega) hbefore
  obtain ⟨k, hk, hlead⟩ := hlead
  have hleadLength : (slice source a start).length = start - a := by
    rw [slice, List.length_take, List.length_drop]
    omega
  refine ⟨k, hk, prefix_append_drop (prefix_append_drop hlead ?_) ?_⟩
  · have hmk : k + (slice source a start).length = m := by omega
    rwa [hmk]
  · rcases Nat.eq_or_lt_of_le hb with rfl | hlt'
    · simp [slice]
    · obtain ⟨l, hl, htail⟩ := splice_slice h hlt hlt' hlength hbehind
      have hlk : k + (slice source a start ++ e.text).length = l := by
        rw [List.length_append]
        omega
      rwa [hlk]

end SkinCompiler.Text
