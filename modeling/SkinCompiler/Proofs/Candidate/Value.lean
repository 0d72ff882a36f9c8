import SkinCompiler.Candidate.Reader
import SkinCompiler.Proofs.Candidate.Arbitrary
import SkinCompiler.Proofs.Text.Basic

/-!
# Values and modifiers written and read

Which values and modifiers are read back from the text that is written for them.

* `Value.read?_eq_some_iff`, `Modifier.read?_eq_some_iff` -- the forms of a value and of a modifier
  are what is read as one;
* `Value.Reads.write`, `Modifier.Tail.write` -- what reads back is a form of its own as it is
  written;
* `Value.Reads.readsBack_or_weight_lt`, `Modifier.Tail.readsBack_or_weight_lt` -- anything else is
  written with less than was read.
-/

namespace SkinCompiler

/-! ## Words -/

open Text Arbitrary

/-- Characters that no name holds. -/
def reserved : List Char :=
  ['[', ']', '(', ')', '{', '}', '\'', '"', '`', '\\', '/', ':', '!']

/-- The text holds none of the characters that class tokens are cut or opened at. -/
def IsWord (t : Text) : Prop := ∀ c ∈ t, c ∉ reserved

instance decidableIsWord (t : Text) : Decidable (IsWord t) :=
  List.decidableBAll (fun c => c ∉ reserved) t

variable {a b r t : Text} {c sep o : Char} {v : Value} {m : Modifier} {inner : Text}

theorem IsWord.append (ha : IsWord a) (hb : IsWord b) : IsWord (a ++ b) := fun c hc =>
  (List.mem_append.1 hc).elim (ha c) (hb c)

theorem IsWord.isClosed (h : IsWord t) : t.IsClosed := isClosed_of_plain fun c hc => by
  have hr := h c hc
  simp only [reserved, List.mem_cons, not_or] at hr
  simp [Scope.isPlain, Scope.isQuote, Scope.isCloser, Scope.closer?, hr]

theorem IsWord.uncut (h : IsWord t) (hs : sep ∈ reserved) : Scope.Uncut sep {} t :=
  Scope.uncut_of_not_mem (fun hc => h sep hc hs) (by rw [h.isClosed]; simp)

theorem IsWord.getLast? (h : IsWord t) (hn : t ≠ []) :
    ∃ c, t.getLast? = some c ∧ c ≠ '\\' ∧ c ≠ '!' := by
  have hr := h _ (List.getLast_mem hn)
  refine ⟨t.getLast hn, List.getLast?_eq_some_getLast hn, ?_, ?_⟩
  · intro hc
    rw [hc] at hr
    exact hr (by decide)
  · intro hc
    rw [hc] at hr
    exact hr (by decide)

/-- The text is closed, and neither a colon nor a slash cuts it. -/
def IsSolid (t : Text) : Prop := t.IsClosed ∧ Scope.Uncut ':' {} t ∧ Scope.Uncut '/' {} t

theorem IsWord.isSolid (h : IsWord t) : IsSolid t :=
  ⟨h.isClosed, h.uncut (by decide), h.uncut (by decide)⟩

theorem IsSolid.append (ha : IsSolid a) (hb : IsSolid b) : IsSolid (a ++ b) :=
  ⟨(isClosed_append ha.1).2 hb.1, (uncut_append_of_closed ha.1).2 ⟨ha.2.1, hb.2.1⟩,
    (uncut_append_of_closed ha.1).2 ⟨ha.2.2, hb.2.2⟩⟩

theorem isSolid_bracket (h : inner.IsClosed) : IsSolid ('[' :: inner ++ [']']) :=
  ⟨h.bracket rfl, uncut_bracket h rfl (by decide) (by decide),
    uncut_bracket h rfl (by decide) (by decide)⟩

/-- A text that is a word but for a line feed at its end is one. -/
theorem IsWord.of_chomp (h : IsWord (chomp t)) : IsWord t := by
  rcases eq_chomp_or t with ht | ht
  · rwa [ht]
  · rw [ht]
    refine h.append fun c hc => ?_
    rw [List.mem_singleton.1 hc]
    decide

theorem isWord_of_all {p : Char → Bool} (hp : reserved.all (fun c => !p c) = true)
    (h : t.all p = true) : IsWord t := fun c hc hr => by
  have hpc := List.all_eq_true.1 h c hc
  have hnot := List.all_eq_true.1 hp c hr
  rw [hpc] at hnot
  cases hnot

theorem isWord_of_isValueName (h : isValueName t = true) : IsWord t := by
  refine IsWord.of_chomp fun c hc hr => ?_
  rcases mem_of_mem_cut (c := '-') hc with rfl | ⟨piece, hp, hcp⟩
  · exact absurd hr (by decide)
  · have hall := List.all_eq_true.1 h piece hp
    rw [Bool.and_eq_true] at hall
    exact isWord_of_all (p := isNameChar) (by decide) hall.2 c hcp hr

theorem isWord_of_isModifierName (h : isModifierName t = true) : IsWord t := by
  rw [isModifierName, Bool.and_eq_true] at h
  exact IsWord.of_chomp (isWord_of_all (by decide) h.2)

theorem ne_nil_of_isValueName (h : isValueName t = true) : t ≠ [] := by
  rintro rfl
  cases h

theorem ne_nil_of_isModifierName (h : isModifierName t = true) : t ≠ [] := by
  rintro rfl
  cases h

/-! ## Brackets -/

theorem between?_eq_some_iff : between? o c t = some inner ↔ t = o :: inner ++ [c] := by
  cases t with
  | nil => simp [between?]
  | cons x t =>
    rw [between?]
    constructor
    · intro h
      split_ifs at h with hc
      rw [Bool.and_eq_true, beq_iff_eq, beq_iff_eq] at hc
      obtain ⟨rfl, hl⟩ := hc
      cases h
      obtain ⟨init, rfl⟩ := List.getLast?_eq_some_iff.1 hl
      simp
    · intro h
      rw [List.cons_append, List.cons.injEq] at h
      obtain ⟨rfl, rfl⟩ := h
      simp

theorem between?_of_head (h : t.head? ≠ some o) : between? o c t = none := by
  cases t with
  | nil => rfl
  | cons x t =>
    have hx : ¬x = o := by simpa using h
    simp [between?, hx]

theorem IsWord.between? (h : IsWord t) (ho : o ∈ reserved) : between? o c t = none :=
  between?_of_head fun hh => h o (List.mem_of_mem_head? hh) ho

/-! ## Values -/

/-- The forms of a value, as `Value.read?` takes them. -/
inductive Value.Reads : Text → Value → Prop where
  | bracketed {inner : Text} {d : Decoded} (h : decode inner = some d) :
      Reads ('[' :: inner ++ [']']) (.arbitrary d)
  | custom {name : Text} (h : startsWith name "--" = true) (hl : 3 ≤ name.length) :
      Reads ('(' :: name ++ [')']) (.arbitrary ⟨customProperty name, some "custom-property"⟩)
  | named {name : Text} (h : isValueName name = true) : Reads name (.named name none)

/-- The value is read back from the text written for it. -/
def Value.ReadsBack : Value → Prop
  | .named _ _ => True
  | .arbitrary d => d.ReadsBack

instance decidableValueReadsBack : (v : Value) → Decidable v.ReadsBack
  | .named _ _ => inferInstanceAs (Decidable True)
  | .arbitrary d => inferInstanceAs (Decidable d.ReadsBack)

theorem Value.read?_eq_some_iff : Value.read? r = some v ↔ Value.Reads r v := by
  constructor
  · intro h
    rw [Value.read?] at h
    split at h
    · rename_i hb
      obtain ⟨d, hd, rfl⟩ := Option.map_eq_some_iff.1 h
      rw [between?_eq_some_iff.1 hb]
      exact .bracketed hd
    · rename_i hb
      split_ifs at h with hc
      rw [Bool.and_eq_true, decide_eq_true_eq] at hc
      cases h
      rw [between?_eq_some_iff.1 hb]
      exact .custom hc.1 hc.2
    · split_ifs at h with hn
      cases h
      exact .named hn
  · intro h
    cases h with
    | bracketed h =>
      rw [Value.read?, between?_eq_some_iff.2 rfl]
      exact Option.map_eq_some_iff.2 ⟨_, h, rfl⟩
    | custom h hl =>
      rw [Value.read?, between?_of_head (by simp), between?_eq_some_iff.2 rfl]
      exact if_pos (by rw [h, Bool.true_and, decide_eq_true hl])
    | named h =>
      have hw := isWord_of_isValueName h
      rw [Value.read?, hw.between? (by decide), hw.between? (by decide), if_pos h]

theorem weight_customProperty_lt (name : Text) :
    weight ('[' :: customProperty name ++ [']']) < weight ('(' :: name ++ [')']) := by
  have hvar : weight "var(" = 1 := by decide
  have hopen : charWeight '[' = -1 := by decide
  have hclose : charWeight ']' = -1 := by decide
  have hround : charWeight '(' = 1 := by decide
  have hround' : weight ")" = charWeight ')' := by decide
  simp only [customProperty, weight_append, weight_cons, weight_nil]
  omega

theorem isTyped_customProperty (name : Text) :
    Decoded.IsTyped ⟨customProperty name, some "custom-property"⟩ := by
  refine ⟨by simp [customProperty], Or.inl ?_⟩
  have hs : strip (customProperty name) = customProperty name := by
    have hlast : (customProperty name).getLast? = some ')' := List.getLast?_concat
    refine strip_eq_self (by simp [customProperty]; decide) ?_
    rw [hlast]
    simp only [Option.mem_def, Option.some.injEq, forall_eq']
    decide
  have hv : startsWith (customProperty name) "var(" = true := by
    rw [customProperty, List.append_assoc]
    exact startsWith_append ..
  rw [classify, hs, classifyStripped, if_neg (by simp [customProperty]), startsWithAny,
    List.any_cons, hv, Bool.true_or, if_pos rfl]

theorem Value.Reads.isTyped {d : Decoded} (h : Value.Reads r (.arbitrary d)) : d.IsTyped := by
  cases h with
  | bracketed h => exact isTyped_of_decode h
  | custom => exact isTyped_customProperty _

/-- A value that reads back is a form of value as it is written. -/
theorem Value.Reads.write (h : Value.Reads r v) (hb : v.ReadsBack) : Value.Reads v.write v := by
  cases v with
  | arbitrary d =>
    rw [Value.write, Decoded.write_eq]
    exact .bracketed (decode_write h.isTyped hb)
  | named name fraction =>
    cases h
    exact .named ‹_›

theorem Value.Reads.readsBack_or_weight_lt (h : Value.Reads r v) (hc : r.IsClosed) :
    (v.write = r ∧ v.ReadsBack) ∨ weight v.write < weight r := by
  cases h with
  | @bracketed inner d h =>
    have hinner := isClosed_of_bracket (decode_eq_some h).2.1 rfl hc.isBalanced
    rw [Value.write, Decoded.write_eq]
    rcases Arbitrary.readsBack_or_weight_lt h hinner with ⟨rfl, hb⟩ | hlt
    · exact Or.inl ⟨rfl, hb⟩
    · right
      simp only [weight_append, weight_cons, List.cons_append] at hlt ⊢
      omega
  | @custom name h hl =>
    right
    have hh : Decoded.hint ⟨customProperty name, some "custom-property"⟩ = [] := by
      rcases (isTyped_customProperty name).hint_eq with ⟨hh, -⟩ | ⟨hint, hm, hd, -⟩
      · exact hh
      · rw [← Option.some.inj hd] at hm
        exact absurd hm (by decide)
    rw [Value.write, Decoded.write_eq, hh]
    exact weight_customProperty_lt name
  | named h => exact Or.inl ⟨rfl, trivial⟩

/-- The last character of a value takes nothing after it as it is, and is no mark. -/
theorem Value.Reads.getLast? (h : Value.Reads r v) :
    ∃ c, r.getLast? = some c ∧ c ≠ '\\' ∧ c ≠ '!' := by
  cases h with
  | bracketed => exact ⟨']', List.getLast?_concat, by decide, by decide⟩
  | custom => exact ⟨')', List.getLast?_concat, by decide, by decide⟩
  | named h => exact (isWord_of_isValueName h).getLast? (ne_nil_of_isValueName h)

theorem Value.Reads.isSolid_write (h : Value.Reads r v) (hb : v.ReadsBack) :
    IsSolid v.write := by
  cases v with
  | arbitrary d =>
    rw [Value.write, Decoded.write_eq]
    exact isSolid_bracket (isClosed_hint_value h.isTyped hb)
  | named name fraction =>
    cases h
    exact (isWord_of_isValueName ‹_›).isSolid

/-! ## Modifiers -/

/-- The forms of a modifier, as `Modifier.read?` takes them. -/
inductive Modifier.Reads : Text → Modifier → Prop where
  | bracketed {inner : Text} {d : Decoded} (h : decode inner = some d) :
      Reads ('[' :: inner ++ [']']) (.arbitrary d.value)
  | custom {name : Text} (h : startsWith name "--" = true) :
      Reads ('(' :: name ++ [')']) (.arbitrary (customProperty name))
  | named {name : Text} (h : isModifierName name = true) : Reads name (.named name)

/-- The modifier is read back from the text written for it. -/
def Modifier.ReadsBack : Modifier → Prop
  | .named _ | .other _ => True
  | .arbitrary t => StandsBare t

instance decidableModifierReadsBack : (m : Modifier) → Decidable m.ReadsBack
  | .named _ | .other _ => inferInstanceAs (Decidable True)
  | .arbitrary t => inferInstanceAs (Decidable (StandsBare t))

theorem Modifier.read?_eq_some_iff : Modifier.read? r = some m ↔ Modifier.Reads r m := by
  constructor
  · intro h
    rw [Modifier.read?] at h
    split at h
    · rename_i hb
      obtain ⟨d, hd, rfl⟩ := Option.map_eq_some_iff.1 h
      rw [between?_eq_some_iff.1 hb]
      exact .bracketed hd
    · rename_i hb
      split_ifs at h with hc
      cases h
      rw [between?_eq_some_iff.1 hb]
      exact .custom hc
    · split_ifs at h with hn
      cases h
      exact .named hn
  · intro h
    cases h with
    | bracketed h =>
      rw [Modifier.read?, between?_eq_some_iff.2 rfl]
      exact Option.map_eq_some_iff.2 ⟨_, h, rfl⟩
    | custom h =>
      rw [Modifier.read?, between?_of_head (by simp), between?_eq_some_iff.2 rfl]
      exact if_pos h
    | named h =>
      have hw := isWord_of_isModifierName h
      rw [Modifier.read?, hw.between? (by decide), hw.between? (by decide), if_pos h]

theorem Modifier.Reads.getLast? (h : Modifier.Reads r m) :
    ∃ c, r.getLast? = some c ∧ c ≠ '\\' ∧ c ≠ '!' := by
  cases h with
  | bracketed => exact ⟨']', List.getLast?_concat, by decide, by decide⟩
  | custom => exact ⟨')', List.getLast?_concat, by decide, by decide⟩
  | named h => exact (isWord_of_isModifierName h).getLast? (ne_nil_of_isModifierName h)

/-- What may stand after a root and its value: nothing, or a slash and a modifier. -/
inductive Modifier.Tail : Text → Option Modifier → Prop where
  | absent : Tail [] none
  | present {r : Text} {m : Modifier} (h : Modifier.Reads r m) (hu : Scope.Uncut '/' {} r) :
      Tail ('/' :: r) (some m)

variable {tail base : Text} {om : Option Modifier}

/-- A modifier that reads back may stand as it is written. -/
theorem Modifier.Tail.write (h : Modifier.Tail tail om) (hb : ∀ x ∈ om, x.ReadsBack) :
    Modifier.Tail (Modifier.write om) om := by
  cases h with
  | absent => exact .absent
  | @present r m h hu =>
    have hb := hb m rfl
    cases m with
    | arbitrary t =>
      have hr := Modifier.Reads.bracketed (decode_of_standsBare hb)
      simpa [Modifier.write] using .present hr (isSolid_bracket hb.1.1).2.2
    | named name =>
      cases h
      exact .present (.named ‹_›) hu
    | other => cases h

theorem Modifier.Tail.isClosed_write (h : Modifier.Tail tail om) (hb : ∀ x ∈ om, x.ReadsBack) :
    IsClosed (Modifier.write om) ∧ Scope.Uncut ':' {} (Modifier.write om) := by
  have hslash : IsClosed ['/'] ∧ Scope.Uncut ':' {} ['/'] := ⟨rfl, rfl⟩
  have hsolid : ∀ t, IsSolid t → IsClosed ('/' :: t) ∧ Scope.Uncut ':' {} ('/' :: t) :=
    fun t ht => ⟨(isClosed_append hslash.1).2 ht.1,
      (uncut_append_of_closed hslash.1).2 ⟨hslash.2, ht.2.1⟩⟩
  cases h with
  | absent => exact ⟨rfl, rfl⟩
  | @present r m h hu =>
    have hb := hb m rfl
    cases m with
    | arbitrary t => simpa [Modifier.write] using hsolid _ (isSolid_bracket hb.1.1)
    | named name =>
      cases h
      exact hsolid _ (isWord_of_isModifierName ‹_›).isSolid
    | other => cases h

/-- A slash that cuts nothing is not there, and neither is a modifier. -/
theorem Modifier.Tail.eq_none (h : Modifier.Tail tail om) (hu : Scope.Uncut '/' {} tail) :
    om = none := by
  cases h with
  | absent => rfl
  | present =>
    have hstep : ({} : Scope).step '/' = some {} := rfl
    rw [Scope.uncut_cons hstep] at hu
    exact absurd ⟨rfl, rfl⟩ hu.1

/-- A modifier is cut nowhere where the text it was read from is not. -/
theorem Modifier.Tail.uncut_write (h : Modifier.Tail tail om) (hb : ∀ x ∈ om, x.ReadsBack)
    (hs : sep = ':' ∨ sep = '/') (hu : Scope.Uncut sep {} tail) :
    Scope.Uncut sep {} (Modifier.write om) := by
  rcases hs with rfl | rfl
  · exact (h.isClosed_write hb).2
  · cases h with
    | absent => exact hu
    | present h hu' => cases (Modifier.Tail.present h hu').eq_none hu

theorem Modifier.Tail.readsBack_or_weight_lt (h : Modifier.Tail tail om) (hc : tail.IsClosed) :
    (Modifier.write om = tail ∧ ∀ x ∈ om, x.ReadsBack) ∨
      weight (Modifier.write om) < weight tail := by
  cases h with
  | absent => exact Or.inl ⟨rfl, by simp⟩
  | @present r m h hu =>
    have hslash : IsClosed ['/'] := by decide
    have hr : r.IsClosed := (isClosed_append (b := r) hslash).1 hc
    cases h with
    | @bracketed inner d h =>
      have hinner := isClosed_of_bracket (decode_eq_some h).2.1 rfl hr.isBalanced
      rcases standsBare_or_weight_lt h hinner with ⟨rfl, hs, -⟩ | hlt
      · left
        simpa [Modifier.write, Modifier.ReadsBack] using hs
      · right
        simpa [Modifier.write] using hlt
    | @custom name h =>
      right
      simpa [Modifier.write] using weight_customProperty_lt name
    | named h => exact Or.inl ⟨rfl, by simp [Modifier.ReadsBack]⟩

/-- What is taken off a text as its modifier is its end. -/
theorem exists_of_splitModifier? (h : splitModifier? t = some (base, om)) :
    ∃ tail, t = base ++ tail ∧ Scope.Uncut '/' {} base ∧ Modifier.Tail tail om ∧
      (tail = [] ∨ base.IsClosed ∧ base ≠ []) := by
  rw [splitModifier?] at h
  split at h
  · rename_i hs
    cases h
    exact ⟨[], by simp, (segments_eq_singleton hs).2, .absent, Or.inl rfl⟩
  · rename_i first second hs
    split_ifs at h with he
    obtain ⟨m, hm, h⟩ := Option.map_eq_some_iff.1 h
    cases h
    obtain ⟨t', rfl, hclosed, hu, hs'⟩ := segments_eq_cons_cons hs
    obtain ⟨rfl, hu'⟩ := segments_eq_singleton hs'
    refine ⟨'/' :: second, rfl, hu, .present (Modifier.read?_eq_some_iff.1 hm) hu',
      Or.inr ⟨hclosed, ?_⟩⟩
    rintro rfl
    simp at he
  · cases h

theorem splitModifier?_append (hc : base.IsClosed) (hu : Scope.Uncut '/' {} base)
    (ht : Modifier.Tail tail om) (hn : base ≠ []) :
    splitModifier? (base ++ tail) = some (base, om) := by
  cases ht with
  | absent => rw [List.append_nil, splitModifier?, segments_of_uncut hu]
  | @present r m h hu' =>
    have hbase : base.isEmpty = false := List.isEmpty_eq_false_iff.2 hn
    have hr : r.isEmpty = false := by
      obtain ⟨c, hl, -⟩ := h.getLast?
      rw [List.isEmpty_eq_false_iff]
      rintro rfl
      cases hl
    rw [splitModifier?, segments_append_cons (by decide) hc hu, segments_of_uncut hu']
    simp only [hbase, hr, Modifier.read?_eq_some_iff.2 h]
    rfl

end SkinCompiler
