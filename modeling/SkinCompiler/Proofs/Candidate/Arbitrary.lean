import SkinCompiler.Candidate.Printer
import SkinCompiler.Proofs.Candidate.Segment
import SkinCompiler.Proofs.Text.Blank

/-!
# Arbitrary values written and decoded

Which arbitrary values are decoded from the text that is written for them between brackets.

* `decode_of_standsBare` -- a text that stands bare between brackets is decoded to itself;
* `decode_write` -- a value that reads back is decoded from what is written for it;
* `readsBack_or_weight_lt` -- any other value is written with less than was read.

To compare the written text with the one that was read, every character has a weight.  What is lost
in reading (an escape, a hint, the round brackets of a custom property) makes the text lighter, and
nothing makes it heavier.
-/

namespace SkinCompiler

/-! ## The weight of a text -/

namespace Text

variable {a b : Text}

/-- The weight of a character: the square brackets and `var` that a custom property is written with
do not count against the round brackets it may be read in. -/
def charWeight (c : Char) : Int :=
  if c = '[' ∨ c = ']' then -1
  else if c = 'v' ∨ c = 'a' ∨ c = 'r' then 0
  else if c = '%' then 3
  else 1

/-- The weight of a text. -/
def weight : Text → Int
  | [] => 0
  | c :: t => charWeight c + weight t

@[simp] theorem weight_nil : weight [] = 0 := rfl

@[simp] theorem weight_cons (c : Char) (t : Text) : weight (c :: t) = charWeight c + weight t := rfl

@[simp] theorem weight_append : weight (a ++ b) = weight a + weight b := by
  induction a with
  | nil => simp
  | cons c a ih => rw [List.cons_append, weight_cons, weight_cons, ih, Int.add_assoc]

theorem charWeight_le (c : Char) : charWeight c ≤ 3 := by
  rw [charWeight]
  split_ifs <;> decide

theorem charWeight_nonneg {c : Char} (h : c ≠ '[' ∧ c ≠ ']') : 0 ≤ charWeight c := by
  rw [charWeight, if_neg (by simp [h])]
  split_ifs <;> decide

end Text

/-! ## Decoding -/

namespace Arbitrary

open Text

variable {t r : Text} {d : Decoded}

/-- The text means itself between brackets. -/
def IsLiteral (t : Text) : Prop := t.IsClosed ∧ unescape t = t

/-- The text means itself between brackets, and no part of it is taken for a hint. -/
def StandsBare (t : Text) : Prop := IsLiteral t ∧ isBlankText t = false ∧ hinted? t = none

/-- The hint that is written before a value. -/
def Decoded.hint (d : Decoded) : Text :=
  match d.dataType with
  | some type => if type.isEmpty || classify d.value = some type then [] else type ++ ":"
  | none => []

/-- The value is decoded from the text written for it. -/
def Decoded.ReadsBack (d : Decoded) : Prop :=
  if d.hint = [] then StandsBare d.value else IsLiteral d.value

instance decidableIsLiteral (t : Text) : Decidable (IsLiteral t) :=
  inferInstanceAs (Decidable (_ ∧ _))

instance decidableStandsBare (t : Text) : Decidable (StandsBare t) :=
  inferInstanceAs (Decidable (_ ∧ _))

instance decidableDecodedReadsBack (d : Decoded) : Decidable d.ReadsBack := by
  rw [Decoded.ReadsBack]
  infer_instance

theorem Decoded.write_eq (d : Decoded) : d.write = '[' :: (d.hint ++ d.value) ++ [']'] := by
  rw [Decoded.write, Decoded.hint]
  cases d.dataType <;> simp

/-! ### Escapes -/

theorem charWeight_nonneg_of_isHexDigit {c : Char} (h : isHexDigit c = true) : 0 ≤ charWeight c := by
  refine charWeight_nonneg ⟨?_, ?_⟩ <;> rintro rfl <;> revert h <;> decide

theorem eq_of_isHexDigit_of_charWeight {c : Char} (h : isHexDigit c = true)
    (hw : charWeight c = 0) : c = 'a' := by
  rw [charWeight] at hw
  split_ifs at hw with h₁ h₂ h₃ <;> try cases hw
  rcases h₂ with rfl | rfl | rfl
  · exact absurd h (by decide)
  · rfl
  · exact absurd h (by decide)

/-- An escape weighs more than the character it stands for. -/
theorem charWeight_escape_lt {x y : Char} (hx : isHexDigit x = true) (hy : isHexDigit y = true) :
    charWeight (Char.ofNat (16 * hexValue x + hexValue y)) < 3 + charWeight x + charWeight y := by
  have hx' := charWeight_nonneg_of_isHexDigit hx
  have hy' := charWeight_nonneg_of_isHexDigit hy
  by_cases h : charWeight x = 0 ∧ charWeight y = 0
  · rw [eq_of_isHexDigit_of_charWeight hx h.1, eq_of_isHexDigit_of_charWeight hy h.2]
    decide
  · have hle := charWeight_le (Char.ofNat (16 * hexValue x + hexValue y))
    omega

theorem unescape_eq_or_weight_lt (t : Text) : unescape t = t ∨ weight (unescape t) < weight t := by
  induction t using unescape.induct with
  | case1 x y t h ih =>
    right
    rw [Bool.and_eq_true] at h
    have hlt := charWeight_escape_lt h.1 h.2
    have hpercent : charWeight '%' = 3 := by decide
    rw [unescape, if_pos (by simp [h])]
    simp only [weight_cons, hpercent]
    rcases ih with ih | ih
    · rw [ih]
      omega
    · omega
  | case2 x y t h ih =>
    rw [unescape, if_neg h]
    rcases ih with ih | ih
    · exact Or.inl (by rw [ih])
    · exact Or.inr (by simpa using ih)
  | case3 c t h ih =>
    rw [unescape]
    · rcases ih with ih | ih
      · exact Or.inl (by rw [ih])
      · exact Or.inr (by simpa using ih)
    · exact h
  | case4 => exact Or.inl rfl

theorem unescape_ne_nil (h : t ≠ []) : unescape t ≠ [] := by
  induction t using unescape.induct with
  | case1 x y t hx _ =>
    rw [unescape, if_pos hx]
    simp
  | case2 x y t hx _ =>
    rw [unescape, if_neg hx]
    simp
  | case3 c t hc _ =>
    rw [unescape]
    · simp
    · exact hc
  | case4 => exact absurd rfl h

/-! ### Hints -/

theorem typeHints_plain : ∀ h ∈ typeHints, h.all Scope.isPlain = true := by decide

theorem typeHints_colon : ∀ h ∈ typeHints, ':' ∉ h := by decide

theorem typeHints_ne_nil : ∀ h ∈ typeHints, h ≠ [] := by decide

theorem typeHints_weight : ∀ h ∈ typeHints, 0 < weight (h ++ [':']) := by decide

/-- A hint is one of the known ones, before the first colon and a value. -/
theorem hinted?_eq_some_iff {h v : Text} :
    hinted? r = some (h, v) ↔ r = h ++ ':' :: v ∧ h ∈ typeHints ∧ v ≠ [] := by
  have hhalves : ∀ p : Text × Text, halves? ":" r = some p ↔ r = p.1 ++ ':' :: p.2 ∧ ':' ∉ p.1 :=
    fun p => halves?_eq_some_iff
  rw [hinted?]
  constructor
  · intro hh
    split at hh
    · rename_i a b hab
      split_ifs at hh with hc
      simp only [Option.some.injEq, Prod.mk.injEq] at hh
      obtain ⟨rfl, rfl⟩ := hh
      simp only [Bool.and_eq_true, List.contains_iff_mem, Bool.not_eq_true',
        List.isEmpty_eq_false_iff] at hc
      exact ⟨((hhalves _).1 hab).1, hc.1, hc.2⟩
    · cases hh
  · rintro ⟨rfl, hm, hv⟩
    rw [(hhalves (h, v)).2 ⟨rfl, typeHints_colon h hm⟩]
    simp [hm, hv]

/-! ### What is decoded -/

theorem decode_of_standsBare (h : StandsBare t) : decode t = some ⟨t, classify t⟩ := by
  obtain ⟨⟨hc, hu⟩, hb, hh⟩ := h
  rw [decode, hb, hc.isBalanced, hh, hu]
  rfl

theorem isClosed_hint {h : Text} (hm : h ∈ typeHints) : IsClosed (h ++ [':']) :=
  isClosed_of_plain fun c hc => by
    rcases List.mem_append.1 hc with hc | hc
    · exact List.all_eq_true.1 (typeHints_plain h hm) c hc
    · rw [List.mem_singleton.1 hc]
      decide

theorem isClosed_hint_append {h v : Text} (hm : h ∈ typeHints) :
    IsClosed (h ++ ':' :: v) ↔ v.IsClosed := by
  have := isClosed_append (b := v) (isClosed_hint hm)
  rwa [List.append_assoc] at this

theorem decode_hinted {h v : Text} (hm : h ∈ typeHints) (hv : v ≠ []) (hc : v.IsClosed) :
    decode (h ++ ':' :: v) = some ⟨unescape v, some h⟩ := by
  have hclosed := (isClosed_hint_append hm).2 hc
  have hblank : isBlankText (h ++ ':' :: v) = false := by
    simp only [isBlankText, List.all_append, List.all_cons]
    rw [show isBlank ':' = false by decide]
    simp
  rw [decode, hblank, hclosed.isBalanced, hinted?_eq_some_iff.2 ⟨rfl, hm, hv⟩]
  rfl

theorem decode_of_hint {h v : Text} (hm : h ∈ typeHints) (hv : v ≠ []) (hl : IsLiteral v) :
    decode (h ++ ':' :: v) = some ⟨v, some h⟩ := by
  rw [decode_hinted hm hv hl.1, hl.2]

theorem decode_eq_some (h : decode r = some d) :
    isBlankText r = false ∧ isBalanced r = true ∧
      ((∃ hint v, r = hint ++ ':' :: v ∧ hint ∈ typeHints ∧ v ≠ [] ∧ d = ⟨unescape v, some hint⟩) ∨
        (hinted? r = none ∧ d = ⟨unescape r, classify (unescape r)⟩)) := by
  rw [decode] at h
  split_ifs at h with hc
  simp only [Bool.or_eq_true, Bool.not_eq_true', not_or, Bool.not_eq_true, Bool.not_eq_false] at hc
  refine ⟨hc.1, hc.2, ?_⟩
  split at h
  · rename_i hint v hh
    obtain ⟨hr, hm, hv⟩ := hinted?_eq_some_iff.1 hh
    cases h
    exact Or.inl ⟨hint, v, hr, hm, hv, rfl⟩
  · rename_i hh
    cases h
    exact Or.inr ⟨hh, rfl⟩

/-- What is decoded has a value, and the type is the one it looks like or one that a hint names. -/
def Decoded.IsTyped (d : Decoded) : Prop :=
  d.value ≠ [] ∧ (d.dataType = classify d.value ∨ ∃ hint ∈ typeHints, d.dataType = some hint)

theorem isTyped_of_decode (h : decode r = some d) : d.IsTyped := by
  obtain ⟨hb, -, ⟨hint, v, -, hm, hv, rfl⟩ | ⟨-, rfl⟩⟩ := decode_eq_some h
  · exact ⟨unescape_ne_nil hv, Or.inr ⟨hint, hm, rfl⟩⟩
  · refine ⟨unescape_ne_nil ?_, Or.inl rfl⟩
    rintro rfl
    cases hb

theorem Decoded.IsTyped.hint_eq (h : d.IsTyped) :
    (d.hint = [] ∧ d.dataType = classify d.value) ∨
      ∃ hint ∈ typeHints, d.dataType = some hint ∧ d.hint = hint ++ [':'] := by
  obtain ⟨value, dataType⟩ := d
  obtain ⟨-, hd⟩ := h
  simp only at hd
  by_cases hc : dataType = classify value
  · left
    subst hc
    refine ⟨?_, rfl⟩
    simp only [hint]
    cases classify value <;> simp
  · obtain ⟨hint, hm, rfl⟩ := hd.resolve_left hc
    right
    exact ⟨hint, hm, rfl, by simp [Decoded.hint, typeHints_ne_nil hint hm, Ne.symm hc]⟩

/-- A value that reads back is decoded from what is written between its brackets. -/
theorem decode_write (ht : d.IsTyped) (h : d.ReadsBack) : decode (d.hint ++ d.value) = some d := by
  obtain ⟨value, dataType⟩ := d
  rw [Decoded.ReadsBack] at h
  rcases ht.hint_eq with ⟨hh, hd⟩ | ⟨hint, hm, hd, hh⟩
  · rw [if_pos hh] at h
    rw [hh, List.nil_append, decode_of_standsBare h, ← hd]
  · rw [if_neg (by simp [hh])] at h
    rw [hh, List.append_assoc]
    simp only at hd
    rw [hd]
    exact decode_of_hint hm ht.1 h

theorem isClosed_hint_value (ht : d.IsTyped) (h : d.ReadsBack) :
    IsClosed (d.hint ++ d.value) := by
  rw [Decoded.ReadsBack] at h
  rcases ht.hint_eq with ⟨hh, -⟩ | ⟨hint, hm, -, hh⟩
  · rw [if_pos hh] at h
    rw [hh]
    exact h.1.1
  · rw [if_neg (by simp [hh])] at h
    rw [hh]
    exact (isClosed_append (isClosed_hint hm)).2 h.1

/-- What is decoded stands bare as it was, or is lighter. -/
theorem standsBare_or_weight_lt (h : decode r = some d) (hc : r.IsClosed) :
    (d.value = r ∧ StandsBare r ∧ d.dataType = classify r) ∨ weight d.value < weight r := by
  obtain ⟨hb, -, ⟨hint, v, rfl, hm, hv, rfl⟩ | ⟨hn, rfl⟩⟩ := decode_eq_some h
  · right
    have hpos := typeHints_weight hint hm
    simp only [weight_append, weight_cons, weight_nil] at hpos ⊢
    rcases unescape_eq_or_weight_lt v with hu | hu
    · rw [hu]
      omega
    · omega
  · rcases unescape_eq_or_weight_lt r with hu | hu
    · exact Or.inl ⟨hu, ⟨⟨hc, hu⟩, hb, hn⟩, by rw [hu]⟩
    · exact Or.inr hu

/-- What is decoded reads back from the same text, or is written with a lighter one. -/
theorem readsBack_or_weight_lt (h : decode r = some d) (hc : r.IsClosed) :
    (d.hint ++ d.value = r ∧ d.ReadsBack) ∨ weight (d.hint ++ d.value) < weight r := by
  rcases (isTyped_of_decode h).hint_eq with ⟨hh, hd⟩ | ⟨hint, hm, hd, hh⟩
  · rw [hh, List.nil_append, Decoded.ReadsBack, if_pos hh]
    rcases standsBare_or_weight_lt h hc with ⟨rfl, hs, -⟩ | hlt
    · exact Or.inl ⟨rfl, hs⟩
    · exact Or.inr hlt
  · rw [hh, Decoded.ReadsBack, if_neg (by simp [hh])]
    obtain ⟨hb, -, ⟨hint', v, rfl, hm', hv, rfl⟩ | ⟨hn, rfl⟩⟩ := decode_eq_some h
    · cases hd
      rcases unescape_eq_or_weight_lt v with hu | hu
      · left
        simp only [hu]
        exact ⟨by simp, (isClosed_hint_append hm).1 hc, hu⟩
      · right
        simpa using hu
    · simp only at hd hh
      simp [Decoded.hint, hd] at hh

end Arbitrary

end SkinCompiler
