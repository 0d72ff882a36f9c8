import SkinCompiler.Markup.Name
import SkinCompiler.Proofs.Text.Blank

/-!
# The class of a style key

A style key is an ASCII letter with letters, digits, low lines and hyphens after it.  Its class is a
single word of the same characters.

* `toLower_of_ascii` -- lower case in ASCII goes character by character;
* `words_kebabCase` -- the class of a style key is one class;
* `hyphen_mem_toLower` -- lower case keeps every hyphen.
-/

namespace SkinCompiler

open Text

variable {a b t key : Text} {c : Char}

namespace Text

/-! ## ASCII -/

/-- What holds of each of the ASCII characters. -/
theorem of_ascii {p : Char → Bool} (h : ∀ n < 128, p (Char.ofNat n) = true) (hc : c.toNat < 128) :
    p c = true := by
  have := h c.toNat hc
  rwa [Char.ofNat_toNat] at this

/-! ## Lower case -/

open LetterCase

theorem lowerAfter_of_ascii (before : Text) (h : ∀ c ∈ t, c.toNat < 128) :
    lowerAfter before t = t.map (shift lowerRuns) := by
  induction t generalizing before with
  | nil => rfl
  | cons c t ih =>
    have hc := h c List.mem_cons_self
    have hsigma : (c.toNat == 0x3A3) = false := beq_false_of_ne (by omega)
    have hdot : (c.toNat == 0x130) = false := beq_false_of_ne (by omega)
    rw [lowerAfter, ih _ fun x hx => h x (List.mem_cons_of_mem _ hx)]
    simp [hsigma, hdot]

theorem toLower_of_ascii (h : ∀ c ∈ t, c.toNat < 128) : toLower t = t.map (shift lowerRuns) :=
  lowerAfter_of_ascii [] h

theorem hyphen_mem_lowerAfter (before : Text) (h : '-' ∈ t) : '-' ∈ lowerAfter before t := by
  induction t generalizing before with
  | nil => cases h
  | cons c t ih =>
    rw [lowerAfter, List.mem_append]
    rcases List.mem_cons.1 h with rfl | h
    · have hshift : shift lowerRuns '-' = '-' := by decide
      simp [hshift]
    · exact Or.inr (ih _ h)

theorem toLower_ne_nil (h : t ≠ []) : toLower t ≠ [] := by
  obtain ⟨c, t, rfl⟩ := List.exists_cons_of_ne_nil h
  rw [toLower, lowerAfter]
  split
  · split <;> simp
  · split <;> simp

theorem hyphen_mem_toLower (h : '-' ∈ t) : '-' ∈ toLower t := hyphen_mem_lowerAfter [] h

end Text

namespace Markup

/-! ## Style keys -/

/-- What a style key goes on with. -/
def isKeyPart (c : Char) : Bool := isAsciiLetter c || isAsciiDigit c || c == '_' || c == '-'

/-- The text is a style key. -/
def IsStyleKey (key : Text) : Prop :=
  key.head?.any isAsciiLetter = true ∧ key.all isKeyPart = true

instance decidableIsStyleKey (key : Text) : Decidable (IsStyleKey key) :=
  inferInstanceAs (Decidable (_ ∧ _))

theorem IsStyleKey.isKeyPart (h : IsStyleKey key) : ∀ c ∈ key, isKeyPart c = true :=
  List.all_eq_true.1 h.2

theorem toNat_lt_of_isKeyPart (h : isKeyPart c = true) : c.toNat < 128 := by
  simp only [isKeyPart, isAsciiLetter, isAsciiDigit, Bool.or_eq_true, Bool.and_eq_true,
    decide_eq_true_eq, beq_iff_eq, Char.le_def, UInt32.le_iff_toNat_le] at h
  rcases h with (((h | h) | h) | rfl) | rfl
  · exact Nat.lt_of_le_of_lt h.2 (by decide)
  · exact Nat.lt_of_le_of_lt h.2 (by decide)
  · exact Nat.lt_of_le_of_lt h.2 (by decide)
  · decide
  · decide

/-- What holds of each ASCII character that a style key goes on with. -/
theorem of_isKeyPart {p : Char → Bool}
    (hp : ∀ n < 128, (!isKeyPart (Char.ofNat n) || p (Char.ofNat n)) = true)
    (h : isKeyPart c = true) : p c = true := by
  have := of_ascii (p := fun c => !isKeyPart c || p c) hp (toNat_lt_of_isKeyPart h)
  simpa [h] using this

theorem isKeyPart_lower (h : isKeyPart c = true) :
    isKeyPart (LetterCase.shift LetterCase.lowerRuns c) = true :=
  of_isKeyPart (p := fun c => isKeyPart (LetterCase.shift LetterCase.lowerRuns c))
    (by decide) h

theorem isBlank_of_isKeyPart (h : isKeyPart c = true) : isBlank c = false := by
  simpa using of_isKeyPart (p := fun c => !isBlank c) (by decide) h

theorem isWord_of_isKeyPart (h : isKeyPart c = true) : isWord c = true ∨ c = '-' := by
  simpa using of_isKeyPart (p := fun c => isWord c || c == '-') (by decide) h

theorem isKeyPart_toLower (h : ∀ c ∈ t, isKeyPart c = true) : ∀ c ∈ toLower t, isKeyPart c = true := by
  rw [toLower_of_ascii fun c hc => toNat_lt_of_isKeyPart (h c hc)]
  intro c hc
  obtain ⟨x, hx, rfl⟩ := List.mem_map.1 hc
  exact isKeyPart_lower (h x hx)

/-! ## The class of a style key -/

theorem mem_markWords (h : c ∈ t) : c ∈ markWords t := by
  induction t using markWords.induct with
  | case1 a b t hw ih =>
    rw [markWords, if_pos hw]
    rcases List.mem_cons.1 h with rfl | h
    · exact List.mem_cons_self
    · exact List.mem_cons_of_mem _ (List.mem_cons_of_mem _ (ih h))
  | case2 a b t hw ih =>
    rw [markWords, if_neg hw]
    rcases List.mem_cons.1 h with rfl | h
    · exact List.mem_cons_self
    · exact List.mem_cons_of_mem _ (ih h)
  | case3 t hw => rwa [markWords.eq_2 t hw]

theorem of_mem_markWords (h : c ∈ markWords t) : c ∈ t ∨ c = '-' := by
  induction t using markWords.induct with
  | case1 a b t hw ih =>
    rw [markWords, if_pos hw] at h
    simp only [List.mem_cons] at h ih ⊢
    tauto
  | case2 a b t hw ih =>
    rw [markWords, if_neg hw] at h
    simp only [List.mem_cons] at h ih ⊢
    tauto
  | case3 t hw => exact Or.inl (by rwa [markWords.eq_2 t hw] at h)

theorem flatten_nameParts (t : Text) :
    (nameParts t).flatten = t.filter fun c => !isSeparator c := by
  rw [nameParts, List.flatten_filter_not_isEmpty, flatten_cutWhere]

/-- The words of a name bring in no characters but hyphens. -/
theorem of_mem_joinedParts (h : c ∈ join "-" (nameParts (markWords key))) : c ∈ key ∨ c = '-' := by
  rcases mem_of_mem_join h with hc | ⟨piece, hp, hc⟩
  · exact .inr (by simpa using hc)
  · have hmem : c ∈ (nameParts (markWords key)).flatten := List.mem_flatten.2 ⟨piece, hp, hc⟩
    rw [flatten_nameParts, List.mem_filter] at hmem
    exact of_mem_markWords hmem.1

theorem isKeyPart_join (h : ∀ c ∈ key, isKeyPart c = true) :
    ∀ c ∈ join "-" (nameParts (markWords key)), isKeyPart c = true := by
  intro c hc
  rcases of_mem_joinedParts hc with hc | rfl
  · exact h c hc
  · decide

theorem isKeyPart_kebabCase (h : ∀ c ∈ key, isKeyPart c = true) :
    ∀ c ∈ kebabCase key, isKeyPart c = true := isKeyPart_toLower (isKeyPart_join h)

/-- A character that does not stand between words shows in the class. -/
theorem kebabCase_ne_nil_of_mem (hc : c ∈ key) (hsep : isSeparator c = false) :
    kebabCase key ≠ [] := by
  have hmem : c ∈ (nameParts (markWords key)).flatten := by
    rw [flatten_nameParts, List.mem_filter]
    exact ⟨mem_markWords hc, by rw [hsep]; rfl⟩
  obtain ⟨piece, hp, hc⟩ := List.mem_flatten.1 hmem
  refine toLower_ne_nil fun hnil => ?_
  have hjoin : c ∈ join "-" (nameParts (markWords key)) := mem_join_of_mem hp hc
  rw [hnil] at hjoin
  cases hjoin

theorem kebabCase_ne_nil (h : IsStyleKey key) : kebabCase key ≠ [] := by
  obtain ⟨c, hc, hletter⟩ := (Option.any_eq_true ..).1 h.1
  have hkey : c ∈ key := List.mem_of_head? hc
  have hsep := of_ascii (p := fun c => !isAsciiLetter c || !isSeparator c) (by decide)
    (toNat_lt_of_isKeyPart (h.isKeyPart c hkey))
  exact kebabCase_ne_nil_of_mem hkey (by simpa [hletter] using hsep)

/-- The class of a style key is one class. -/
theorem words_kebabCase (h : IsStyleKey key) : words (kebabCase key) = [kebabCase key] :=
  words_eq_singleton (kebabCase_ne_nil h) fun c hc =>
    isBlank_of_isKeyPart (isKeyPart_kebabCase h.isKeyPart c hc)

/-! ## The lead of custom elements -/

theorem exists_withLead (name : Text) : ∃ rest, withLead name = elementLead ++ rest := by
  rw [withLead]
  split
  · rename_i h
    exact startsWith_iff.1 h
  · exact ⟨name, rfl⟩

end Markup

end SkinCompiler
