import Mathlib.Data.List.Forall2
import SkinCompiler.Proofs.Candidate.Utility

/-!
# Class tokens written and read

A class token that was read and is written again need not be read as the same candidate: an escape
or a hint that was taken off when it was read is not always put back.  `Candidate.ReadsBack` says of
every part of a candidate when it is, and `Candidate.read?_write_iff` that nothing else matters.
-/

namespace SkinCompiler

open Text Arbitrary DesignSystem

variable {raw t rest : Text} {c : Candidate} {mark sep : Char} {b : Bool}

/-- Every part of the candidate is read back from the text written for it. -/
def Candidate.ReadsBack (c : Candidate) : Prop :=
  (∀ v ∈ c.variants, v.ReadsBack) ∧ c.utility.ReadsBack

instance decidableCandidateReadsBack (c : Candidate) : Decidable c.ReadsBack :=
  inferInstanceAs (Decidable (_ ∧ _))

/-! ## Segments -/

/-- Pieces with a separator after each of them. -/
def terminated (sep : Char) (pieces : List Text) : Text := pieces.flatMap (· ++ [sep])

/-- The segments of a text are uncut, and closed but for the last one. -/
theorem segments_spec (sep : Char) (t : Text) : ∃ pieces last,
    segments [sep] t = pieces ++ [last] ∧ t = terminated sep pieces ++ last ∧
      Scope.Uncut sep {} last ∧ ∀ p ∈ pieces, p.IsClosed ∧ Scope.Uncut sep {} p := by
  induction h : segments [sep] t generalizing t with
  | nil => exact absurd h (segments_ne_nil sep t)
  | cons p rest ih =>
    cases rest with
    | nil =>
      obtain ⟨rfl, hu⟩ := segments_eq_singleton h
      exact ⟨[], p, rfl, rfl, hu, by simp⟩
    | cons q rest =>
      obtain ⟨t', rfl, hc, hu, hs⟩ := segments_eq_cons_cons h
      obtain ⟨pieces, last, hp, rfl, hlast, hall⟩ := ih t' hs
      refine ⟨p :: pieces, last, by rw [hp]; rfl, by simp [terminated], hlast, ?_⟩
      rintro x hx
      rcases List.mem_cons.1 hx with rfl | hx
      · exact ⟨hc, hu⟩
      · exact hall x hx

theorem eq_terminated {pieces : List Text} {last : Text} (h : segments [sep] t = pieces ++ [last]) :
    t = terminated sep pieces ++ last ∧ Scope.Uncut sep {} last ∧
      ∀ p ∈ pieces, p.IsClosed ∧ Scope.Uncut sep {} p := by
  obtain ⟨pieces', last', hseg, hspec⟩ := segments_spec sep t
  rw [h] at hseg
  obtain ⟨rfl, hlast⟩ := List.append_inj' hseg rfl
  cases hlast
  exact hspec

/-- Closed pieces that are cut nowhere are the first segments, whatever follows them. -/
theorem segments_terminated_append {pieces : List Text} (hs : Scope.isPlain sep = true)
    (h : ∀ p ∈ pieces, p.IsClosed ∧ Scope.Uncut sep {} p) (t : Text) :
    segments [sep] (terminated sep pieces ++ t) = pieces ++ segments [sep] t := by
  induction pieces with
  | nil => rfl
  | cons p pieces ih =>
    have hp := h p List.mem_cons_self
    have htext : terminated sep (p :: pieces) ++ t = p ++ sep :: (terminated sep pieces ++ t) := by
      simp [terminated]
    rw [htext, segments_append_cons hs hp.1 hp.2, ih fun q hq => h q (List.mem_cons_of_mem _ hq)]
    rfl

/-- Closed pieces that are cut nowhere are the segments of a text again. -/
theorem segments_terminated {pieces : List Text} {last : Text} (hs : Scope.isPlain sep = true)
    (h : ∀ p ∈ pieces, p.IsClosed ∧ Scope.Uncut sep {} p) (hl : Scope.Uncut sep {} last) :
    segments [sep] (terminated sep pieces ++ last) = pieces ++ [last] := by
  rw [segments_terminated_append hs h, segments_of_uncut hl]

theorem isClosed_terminated {pieces : List Text} (hs : Scope.isPlain sep = true)
    (h : ∀ p ∈ pieces, p.IsClosed) : (terminated sep pieces).IsClosed := by
  induction pieces with
  | nil => rfl
  | cons p pieces ih =>
    have hsep : IsClosed [sep] := isClosed_of_plain (by simpa using hs)
    have htext : terminated sep (p :: pieces) = p ++ [sep] ++ terminated sep pieces := by
      simp [terminated]
    have hp := h p List.mem_cons_self
    rw [htext, isClosed_append ((isClosed_append hp).2 hsep)]
    exact ih fun q hq => h q (List.mem_cons_of_mem _ hq)

/-! ## Marks -/

/-- A mark that is there, or nothing. -/
def markText (mark : Char) (b : Bool) : Text := if b then [mark] else []

theorem takeMark_eq (h : takeMark mark t = (b, rest)) : t = markText mark b ++ rest := by
  rw [takeMark] at h
  split at h
  · rename_i hr
    cases h
    exact after?_eq_some_iff.1 hr
  · cases h
    rfl

theorem takeMark_append (h : rest.head? ≠ some mark) :
    takeMark mark (markText mark b ++ rest) = (b, rest) := by
  have hnone : after? [mark] rest = none := by
    rw [Option.eq_none_iff_forall_ne_some]
    rintro x hx
    rw [after?_eq_some_iff.1 hx] at h
    exact h rfl
  cases b with
  | false => simp [takeMark, markText, hnone]
  | true => simp [takeMark, markText, after?]

theorem isBalanced_markText (hm : Scope.isPlain mark = true) :
    isBalanced (markText mark b ++ rest) = isBalanced rest := by
  refine isBalanced_append ?_
  cases b with
  | false => rfl
  | true => exact isClosed_of_plain (by simpa [markText] using hm)

theorem weight_markText (hm : charWeight mark = 1) (b : Bool) :
    weight (markText mark b) = if b then 1 else 0 := by
  cases b <;> simp [markText, hm]

/-- The mark of importance counts the same at both ends. -/
theorem takeImportance_spec (h : takeImportance t = (b, rest)) (ht : isBalanced t = true) :
    isBalanced rest = true ∧ weight t = weight rest + if b then 1 else 0 := by
  have hmark : charWeight '!' = 1 := by decide
  rw [takeImportance] at h
  rcases hm : takeMark '!' t with ⟨b', rest'⟩
  rw [hm] at h
  have heq := takeMark_eq hm
  cases b' with
  | true =>
    cases h
    rw [heq, isBalanced_markText (by decide)] at ht
    refine ⟨ht, ?_⟩
    rw [heq, weight_append, weight_markText hmark]
    omega
  | false =>
    simp only at h
    split_ifs at h with hl
    · cases h
      obtain ⟨init, rfl⟩ := List.getLast?_eq_some_iff.1 hl
      rw [List.dropLast_concat]
      exact ⟨isBalanced_of_concat (by decide) ht, by simp [hmark]⟩
    · cases h
      exact ⟨ht, by simp⟩

theorem mapM_eq_some_iff {α β : Type} {f : α → Option β} {l : List α} {l' : List β} :
    l.mapM f = some l' ↔ List.Forall₂ (fun a b => f a = some b) l l' := by
  induction l generalizing l' with
  | nil => simp [eq_comm]
  | cons a l ih =>
    rw [List.mapM_cons]
    cases hf : f a with
    | none => cases l' <;> simp [hf]
    | some x =>
      cases l' with
      | nil => cases List.mapM f l <;> simp
      | cons b l' =>
        rw [List.forall₂_cons, ← ih, hf]
        cases List.mapM f l <;> simp

/-- The conditions under which a text is read as a variant of a token. -/
def Variant.IsText (r : Text) (v : Variant) : Prop :=
  Variant.Reads r v ∧ r.IsClosed ∧ Scope.Uncut ':' {} r

theorem forall₂_isText {texts : List Text} {variants : List Variant}
    (h : texts.mapM (Variant.read? builtIn) = some variants)
    (ht : ∀ r ∈ texts, r.IsClosed ∧ Scope.Uncut ':' {} r) :
    List.Forall₂ Variant.IsText texts variants := by
  rw [mapM_eq_some_iff] at h
  induction h with
  | nil => exact .nil
  | @cons r v texts variants hr _ ih =>
    have htr := ht r List.mem_cons_self
    exact .cons ⟨(Variant.read?_eq_some_iff htr.1).1 hr, htr⟩
      (ih fun x hx => ht x (List.mem_cons_of_mem _ hx))

/-- What is read as a candidate: texts of its variants with a colon after each, the text of its
utility, and marks. -/
theorem Candidate.exists_of_read? (h : Candidate.read? builtIn raw = some c) : ∃ texts last,
    List.Forall₂ Variant.IsText texts c.variants ∧
      Utility.read? builtIn last = some c.utility ∧ last.IsClosed ∧
      (c.negative = true → c.utility.isFunctional = true) ∧
      weight (markText '!' c.important) + weight (terminated ':' texts)
        + weight (markText '-' c.negative) + weight last ≤ weight raw := by
  have hbang : charWeight '!' = 1 := by decide
  have hminus : charWeight '-' = 1 := by decide
  rw [Candidate.read?] at h
  split at h
  · cases h
  · rename_i hbal
    rw [Bool.not_eq_true', Bool.not_eq_false] at hbal
    rcases h₁ : takeMark '!' raw with ⟨important, t₁⟩
    rcases h₂ : takeMark '-' t₁ with ⟨negative, t₂⟩
    rw [h₁] at h
    dsimp only at h
    rw [h₂] at h
    dsimp only at h
    split at h
    · cases h
    · obtain ⟨texts, last, hs, ht, -, htexts⟩ := segments_spec ':' t₂
      rw [hs, List.getLastD_concat, List.dropLast_concat] at h
      rcases h₃ : takeImportance last with ⟨important', last₁⟩
      rw [h₃] at h
      dsimp only at h
      rcases h₄ : takeMark '-' last₁ with ⟨negative', last₂⟩
      rw [h₄] at h
      dsimp only at h
      split at h
      · rename_i variants utility hvs hu
        split_ifs at h with hn
        cases h
        have hraw := takeMark_eq h₁
        have ht₁ := takeMark_eq h₂
        rw [hraw, isBalanced_markText (by decide), ht₁, isBalanced_markText (by decide), ht,
          isBalanced_append (isClosed_terminated (by decide) fun p hp => (htexts p hp).1)] at hbal
        obtain ⟨hbal₁, hlast⟩ := takeImportance_spec h₃ hbal
        have hlast₁ := takeMark_eq h₄
        rw [hlast₁, isBalanced_markText (by decide)] at hbal₁
        refine ⟨texts, last₂, forall₂_isText hvs htexts, hu,
          Utility.isClosed_of_read? hu hbal₁, ?_, ?_⟩
        · simp only [Bool.or_eq_true, Bool.and_eq_true, Bool.not_eq_true', not_or, not_and,
            Bool.not_eq_false] at hn
          simpa using hn.2
        · rw [hlast₁] at hlast
          rw [hraw, ht₁, ht]
          simp only [weight_append, weight_markText hbang, weight_markText hminus] at hlast ⊢
          rw [hlast]
          cases important <;> cases important' <;> cases negative <;> cases negative' <;> simp <;> omega
      · cases h

/-! ## Reading what is written -/

theorem forall₂_write {texts : List Text} {variants : List Variant}
    (h : List.Forall₂ Variant.IsText texts variants) (hb : ∀ v ∈ variants, v.ReadsBack) :
    ∀ v ∈ variants, Variant.IsText v.write v := by
  induction h with
  | nil => simp
  | @cons r v texts variants hr _ ih =>
    intro x hx
    rcases List.mem_cons.1 hx with rfl | hx
    · obtain ⟨hw, hc, hu⟩ := hr.1.write hr.2.1 (hb _ List.mem_cons_self)
      exact ⟨hw, hc, hu ':' (Or.inl rfl) hr.2.2⟩
    · exact ih (fun y hy => hb y (List.mem_cons_of_mem _ hy)) x hx

theorem takeImportance_eq (hh : t.head? ≠ some '!') (hl : t.getLast? ≠ some '!') :
    takeImportance t = (false, t) := by
  have hm := takeMark_append (b := false) hh
  rw [markText, if_neg (by simp), List.nil_append] at hm
  rw [takeImportance, hm]
  simp [hl]

theorem Candidate.write_eq (c : Candidate) : c.write = markText '!' c.important
    ++ (terminated ':' (c.variants.map Variant.write) ++ (markText '-' c.negative
      ++ c.utility.write)) := by
  simp [Candidate.write, markText, terminated, List.flatMap_map]

/-- A text that begins with a variant begins with no mark. -/
theorem head?_terminated {variants : List Variant} (hn : variants ≠ [])
    (hv : ∀ v ∈ variants, Variant.IsText v.write v) (rest : Text) :
    ∀ e ∈ (terminated ':' (variants.map Variant.write) ++ rest).head?, e ≠ '!' ∧ e ≠ '-' := by
  obtain ⟨v, variants, rfl⟩ := List.exists_cons_of_ne_nil hn
  have hr := (hv v List.mem_cons_self).1
  have hmark := hr.head?
  obtain ⟨e, text, ht⟩ := List.exists_cons_of_ne_nil hr.ne_nil
  rw [List.map_cons, terminated, List.flatMap_cons, ht]
  rw [ht] at hmark
  exact hmark

/-- Of a sign in front of the utility, the reader finds the one half before and the other half after
it takes the variants off. -/
theorem exists_takeMark {variants : List Variant} {u : Text} (negative : Bool)
    (hv : ∀ v ∈ variants, Variant.IsText v.write v) (hu : ∀ e ∈ u.head?, e ≠ '!' ∧ e ≠ '-') :
    ∃ n₁ n₂, (n₁ || n₂) = negative ∧
      takeMark '-' (terminated ':' (variants.map Variant.write) ++ (markText '-' negative ++ u))
        = (n₁, terminated ':' (variants.map Variant.write) ++ (markText '-' n₂ ++ u)) := by
  by_cases hn : variants = []
  · subst hn
    exact ⟨negative, false, by simp, takeMark_append fun h => (hu _ h).2 rfl⟩
  · exact ⟨false, negative, by simp,
      takeMark_append (b := false) fun h => (head?_terminated hn hv _ _ h).2 rfl⟩

section

variable (hv : ∀ v ∈ c.variants, Variant.IsText v.write v)
  (hu : Utility.read? builtIn c.utility.write = some c.utility) (hc : c.utility.write.IsClosed)
  (huc : Scope.Uncut ':' {} c.utility.write)
  (hn : c.negative = true → c.utility.isFunctional = true)

include hv hu in
theorem Candidate.head?_write :
    (terminated ':' (c.variants.map Variant.write) ++ (markText '-' c.negative
      ++ c.utility.write)).head? ≠ some '!' := by
  intro h
  by_cases hnil : c.variants = []
  · rw [hnil] at h
    cases hneg : c.negative with
    | false =>
      rw [hneg] at h
      exact ((Utility.head?_of_read? hu).2 _ h).1 rfl
    | true =>
      rw [hneg] at h
      cases h
  · exact (head?_terminated hnil hv _ _ h).1 rfl

include hv hu hc huc hn in
/-- Written texts of variants and of a utility, with marks, are read as the candidate. -/
theorem Candidate.read?_of_texts : Candidate.read? builtIn c.write = some c := by
  obtain ⟨hne, hhead⟩ := Utility.head?_of_read? hu
  obtain ⟨e, hlast, -, hbang⟩ := Utility.getLast?_of_read? hu
  have hall : ∀ p ∈ c.variants.map Variant.write, p ≠ [] ∧ p.IsClosed ∧ Scope.Uncut ':' {} p := by
    intro p hp
    obtain ⟨v, hvm, rfl⟩ := List.mem_map.1 hp
    exact ⟨(hv v hvm).1.ne_nil, (hv v hvm).2⟩
  have hterm : IsClosed (terminated ':' (c.variants.map Variant.write)) :=
    isClosed_terminated (by decide) fun p hp => (hall p hp).2.1
  have hbal : isBalanced c.write = true := by
    rw [Candidate.write_eq, isBalanced_markText (by decide), isBalanced_append hterm,
      isBalanced_markText (by decide)]
    exact hc.isBalanced
  obtain ⟨n₁, n₂, hneg, hminus⟩ := exists_takeMark c.negative hv hhead
  have hu₂ : Scope.Uncut ':' {} (markText '-' n₂ ++ c.utility.write) := by
    cases n₂ with
    | false => exact huc
    | true => exact (uncut_append_of_closed (a := ['-']) rfl).2 ⟨rfl, huc⟩
  have hseg := segments_terminated (by decide) (fun p hp => (hall p hp).2) hu₂
  have himp : takeImportance (markText '-' n₂ ++ c.utility.write)
      = (false, markText '-' n₂ ++ c.utility.write) := by
    refine takeImportance_eq ?_ ?_
    · cases n₂ with
      | false => exact fun h => (hhead _ h).1 rfl
      | true => simp [markText]
    · rw [List.getLast?_append, hlast]
      simpa using hbang
  have hmap : (c.variants.map Variant.write).mapM (Variant.read? builtIn) = some c.variants := by
    rw [mapM_eq_some_iff, List.forall₂_map_left_iff, List.forall₂_same]
    exact fun v hvm => (Variant.read?_eq_some_iff (hv v hvm).2.1).2 (hv v hvm).1
  have hempty : (c.variants.map Variant.write ++ [markText '-' n₂ ++ c.utility.write]).any
      (·.isEmpty) = false := by
    simp only [List.any_append, List.any_cons, List.any_nil, Bool.or_false, Bool.or_eq_false_iff,
      List.any_eq_false, List.isEmpty_iff, List.isEmpty_eq_false_iff]
    exact ⟨fun p hp => (hall p hp).1, by simp [hne]⟩
  rw [Candidate.read?, if_neg (by simp [hbal]), Candidate.write_eq,
    takeMark_append (Candidate.head?_write hv hu)]
  dsimp only
  rw [hminus]
  dsimp only
  rw [hseg, hempty, if_neg (by simp), List.getLastD_concat, himp]
  dsimp only
  rw [takeMark_append fun h => (hhead _ h).2 rfl, List.dropLast_concat, hmap, hu]
  dsimp only
  rw [hneg, if_neg]
  · simp
  · simpa [hne] using hn

end

theorem weight_terminated_le {texts : List Text} {variants : List Variant}
    (h : List.Forall₂ Variant.IsText texts variants) :
    ((∀ v ∈ variants, v.ReadsBack) ∨
        weight (terminated ':' (variants.map Variant.write)) < weight (terminated ':' texts)) ∧
      weight (terminated ':' (variants.map Variant.write)) ≤ weight (terminated ':' texts) := by
  induction h with
  | nil => simp
  | @cons r v texts variants hr _ ih =>
    simp only [terminated, List.map_cons, List.flatMap_cons, weight_append] at ih ⊢
    rcases hr.1.readsBack_or_weight_lt hr.2.1 with ⟨hw, hb⟩ | hlt
    · rw [hw]
      refine ⟨?_, by omega⟩
      rcases ih.1 with hall | hlt
      · exact Or.inl (by simpa [hb] using hall)
      · exact Or.inr (by omega)
    · exact ⟨Or.inr (by omega), by omega⟩

/-- A candidate that was read is read again from its own token exactly when every part of it reads
back. -/
theorem Candidate.read?_write_iff (h : Candidate.read? builtIn raw = some c) :
    Candidate.read? builtIn c.write = some c ↔ c.ReadsBack := by
  constructor
  · -- the token is not lighter than itself, so no part of it was read from a heavier text
    intro hw
    obtain ⟨texts, last, hvs, hu, hc, -, hle⟩ := Candidate.exists_of_read? hw
    obtain ⟨hv, hvle⟩ := weight_terminated_le hvs
    have hul := Utility.readsBack_or_weight_lt hu hc
    rw [Candidate.write_eq] at hle
    simp only [weight_append] at hle
    have hule : weight c.utility.write ≤ weight last := by
      rcases hul with ⟨hw, -⟩ | hlt
      · exact Int.le_of_eq (congrArg weight hw)
      · omega
    refine ⟨hv.resolve_right (by omega), (hul.resolve_right (by omega)).2⟩
  · rintro ⟨hbv, hbu⟩
    obtain ⟨texts, last, hvs, hu, hc, hn, -⟩ := Candidate.exists_of_read? h
    obtain ⟨hread, hclosed, huncut⟩ := Utility.read?_write hu hc hbu
    exact Candidate.read?_of_texts (forall₂_write hvs hbv) hread hclosed huncut hn

/-- The stack of variants, the data type and both marks of this token come back. -/
theorem Candidate.read?_write_stack :
    ∃ c, Candidate.read? builtIn "group-data-[state=open]/menu:-w-[length:var(--w)]!" = some c ∧
      c.ReadsBack ∧ Candidate.read? builtIn c.write = some c := by
  obtain ⟨c, hc⟩ : ∃ c, Candidate.read? builtIn
      "group-data-[state=open]/menu:-w-[length:var(--w)]!" = some c :=
    Option.isSome_iff_exists.1 (by decide +kernel)
  have hb : c.ReadsBack := by
    have : ∀ c ∈ Candidate.read? builtIn "group-data-[state=open]/menu:-w-[length:var(--w)]!",
        c.ReadsBack := by decide +kernel
    exact this c hc
  exact ⟨c, hc, hb, (Candidate.read?_write_iff hc).2 hb⟩

/-- The type hint of a declaration in brackets is lost when its token is written. -/
theorem Candidate.read?_write_hinted_property :
    ∃ c, Candidate.read? builtIn "[width:length:var(--w)]" = some c ∧
      c.write = "[width:var(--w)]" ∧ Candidate.read? builtIn c.write ≠ some c := by
  refine ⟨⟨.property "width" ⟨"var(--w)", some "length"⟩ none, [], false, false⟩, ?_⟩
  decide +kernel

end SkinCompiler
