import SkinCompiler.Proofs.Text.Splice

/-!
# Edits between two positions

Edits in order can be applied to a stretch of a text by itself, and the stretches put together.

* `AreBetween`, `spliceBetween` -- edits of a stretch, and what it becomes;
* `eq_spliceBetween` -- the whole text is one stretch;
* `spliceBetween_append` -- stretches put together;
* `AreBetween.exists_append` -- edits before a position and behind it.
-/

namespace SkinCompiler.Text

variable {source t : Text} {e : Edit} {es es' : List Edit} {a b m n p q : Nat}

/-- The edits are in order, keep clear of one another and lie between two positions. -/
def AreBetween (p : Nat) : List Edit → Nat → Prop
  | [], q => p ≤ q
  | e :: es, q => (p : Int) ≤ e.start ∧ e.start ≤ e.stop ∧ AreBetween e.stop.toNat es q

/-- What the stretch between two positions becomes. -/
def spliceBetween (source : Text) (p : Nat) : List Edit → Nat → Text
  | [], q => slice source p q
  | e :: es, q =>
    slice source p e.start.toNat ++ e.text ++ spliceBetween source e.stop.toNat es q

theorem areBetween_cons : AreBetween p (e :: es) q ↔
    (p : Int) ≤ e.start ∧ e.start ≤ e.stop ∧ AreBetween e.stop.toNat es q := Iff.rfl

theorem AreBetween.le (h : AreBetween p es q) : p ≤ q := by
  induction es generalizing p with
  | nil => exact h
  | cons e es ih =>
    obtain ⟨hstart, hle, hes⟩ := h
    have hstop := ih hes
    omega

theorem AreBetween.bounds (h : AreBetween p es q) (he : e ∈ es) :
    (p : Int) ≤ e.start ∧ e.start ≤ e.stop ∧ e.stop ≤ q := by
  induction es generalizing p with
  | nil => cases he
  | cons f es ih =>
    obtain ⟨hstart, hle, hes⟩ := h
    have hstop := hes.le
    rcases List.mem_cons.1 he with rfl | he
    · exact ⟨hstart, hle, by omega⟩
    · obtain ⟨hstart', hle', hstop'⟩ := ih hes he
      exact ⟨by omega, hle', hstop'⟩

theorem AreBetween.pairwise (h : AreBetween p es q) : es.Pairwise fun e f => e.stop ≤ f.start := by
  induction es generalizing p with
  | nil => exact .nil
  | cons e es ih =>
    obtain ⟨hstart, hle, hes⟩ := h
    refine List.pairwise_cons.2 ⟨fun f hf => ?_, ih hes⟩
    have hf' := (hes.bounds hf).1
    omega

/-- Edits may lie in a wider stretch. -/
theorem AreBetween.mono (h : AreBetween m es n) (hp : p ≤ m) (hq : n ≤ q) : AreBetween p es q := by
  induction es generalizing p m with
  | nil => exact Nat.le_trans hp (Nat.le_trans h hq)
  | cons e es ih =>
    obtain ⟨hstart, hle, hes⟩ := h
    exact ⟨by omega, hle, ih hes (Nat.le_refl _)⟩

/-- Edits may lie in a narrower stretch. -/
theorem AreBetween.of_le_start (h : AreBetween p es q) (hm : m ≤ q)
    (hstart : ∀ e ∈ es, (m : Int) ≤ e.start) : AreBetween m es q := by
  cases es with
  | nil => exact hm
  | cons e es => exact ⟨hstart e List.mem_cons_self, h.2⟩

theorem areBetween_append_iff (hp : p ≤ m) (hq : m ≤ q) (hfirst : ∀ e ∈ es, e.stop ≤ (m : Int))
    (hlast : ∀ e ∈ es', (m : Int) ≤ e.start) :
    AreBetween p (es ++ es') q ↔ AreBetween p es m ∧ AreBetween m es' q := by
  induction es generalizing p with
  | nil =>
    rw [List.nil_append]
    refine ⟨fun h => ⟨hp, ?_⟩, fun h => h.2.mono hp (Nat.le_refl q)⟩
    cases es' with
    | nil => exact hq
    | cons e es' => exact ⟨hlast e List.mem_cons_self, h.2.1, h.2.2⟩
  | cons e es ih =>
    have he := hfirst e List.mem_cons_self
    rw [List.cons_append, areBetween_cons, areBetween_cons]
    constructor
    · rintro ⟨hstart, hle, h⟩
      obtain ⟨h, h'⟩ := (ih (by omega) fun f hf => hfirst f (List.mem_cons_of_mem _ hf)).1 h
      exact ⟨⟨hstart, hle, h⟩, h'⟩
    · rintro ⟨⟨hstart, hle, h⟩, h'⟩
      exact ⟨hstart, hle,
        (ih (by omega) fun f hf => hfirst f (List.mem_cons_of_mem _ hf)).2 ⟨h, h'⟩⟩

/-- Edits in order are divided by a position: those that `P` holds of come before those that begin
behind the position. -/
theorem AreBetween.exists_append {P : Edit → Prop} (h : AreBetween p es q)
    (hor : ∀ e ∈ es, P e ∨ (n : Int) ≤ e.start) :
    ∃ first last, es = first ++ last ∧ (∀ e ∈ first, P e) ∧ ∀ e ∈ last, (n : Int) ≤ e.start := by
  induction es generalizing p with
  | nil => exact ⟨[], [], rfl, by simp, by simp⟩
  | cons e es ih =>
    obtain ⟨hstart, hle, hes⟩ := h
    rcases hor e List.mem_cons_self with he | hbehind
    · obtain ⟨first, last, rfl, hfirst, hlast⟩ :=
        ih hes fun f hf => hor f (List.mem_cons_of_mem _ hf)
      refine ⟨e :: first, last, rfl, ?_, hlast⟩
      intro f hf
      rcases List.mem_cons.1 hf with rfl | hf
      · exact he
      · exact hfirst f hf
    · refine ⟨[], e :: es, rfl, by simp, ?_⟩
      intro f hf
      rcases List.mem_cons.1 hf with rfl | hf
      · exact hbehind
      · have hf' := (hes.bounds hf).1
        omega

/-! ## Stretches -/

theorem slice_append_slice (hpm : p ≤ m) (hmq : m ≤ q) :
    slice source p m ++ slice source m q = slice source p q := by
  have hsplit : q - p = (m - p) + (q - m) := by omega
  rw [slice, slice, slice, hsplit, List.take_add, List.drop_drop, Nat.add_sub_cancel' hpm]

theorem slice_append_spliceBetween (hpm : p ≤ m) (h : AreBetween m es q) :
    slice source p m ++ spliceBetween source m es q = spliceBetween source p es q := by
  cases es with
  | nil => exact slice_append_slice hpm h
  | cons e es =>
    obtain ⟨hstart, -, -⟩ := h
    rw [spliceBetween, spliceBetween, ← List.append_assoc, ← List.append_assoc,
      slice_append_slice hpm (by omega)]

theorem spliceBetween_append (h : AreBetween p es m) (h' : AreBetween m es' q) :
    spliceBetween source p es m ++ spliceBetween source m es' q =
      spliceBetween source p (es ++ es') q := by
  induction es generalizing p with
  | nil => exact slice_append_spliceBetween h h'
  | cons e es ih =>
    rw [List.cons_append, spliceBetween, spliceBetween, List.append_assoc, ih h.2.2]

theorem eq_spliceBetween_of_spliceFrom (h : spliceFrom p (source.drop p) es = .ok t)
    (hp : p ≤ source.length) :
    AreBetween p es source.length ∧ t = spliceBetween source p es source.length := by
  induction es generalizing p t with
  | nil =>
    refine ⟨hp, ?_⟩
    rw [spliceBetween, slice, ← List.length_drop, List.take_length]
    exact (Except.ok.inj h).symm
  | cons e es ih =>
    obtain ⟨start, stop, after, hstart, hstop, hle, hlt, hlength, hafter, rfl⟩ := spliceFrom_cons h
    rw [List.length_drop] at hlength
    have hdrop : (source.drop p).drop (stop - p) = source.drop stop := by
      rw [List.drop_drop, Nat.add_sub_cancel' (by omega)]
    rw [hdrop] at hafter
    obtain ⟨hbetween, rfl⟩ := ih hafter (by omega)
    rw [spliceBetween, areBetween_cons, hstart, hstop, Int.toNat_natCast, Int.toNat_natCast]
    exact ⟨⟨by omega, by omega, hbetween⟩, rfl⟩

/-- A text with its edits is one stretch. -/
theorem eq_spliceBetween (h : splice source es = .ok t) :
    AreBetween 0 (Edit.sorted es) source.length ∧
      t = spliceBetween source 0 (Edit.sorted es) source.length :=
  eq_spliceBetween_of_spliceFrom h (Nat.zero_le _)

end SkinCompiler.Text
