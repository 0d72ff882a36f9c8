import Mathlib.Data.List.Chain
import SkinCompiler.Proofs.Markup.Name

/-!
# Kebab case is a normal form

A name in ASCII is written in kebab case as its words in small letters with single hyphens between
them.  Names in this form stay as they are, and apart from the hyphens no character of a word gets
lost or comes in.

* `IsKebabCase` -- the form of names in kebab case;
* `kebabCase_eq_join` -- kebab case is the small words of a name with hyphens between them;
* `kebabCase_join` -- small words with hyphens between them stay as they are;
* `kebabCase_isNormal` -- kebab case is a normal form, and so are the names of elements.
-/

namespace SkinCompiler.Markup

open Text LetterCase

variable {name t : Text} {ws : List Text} {c : Char}

/-! ## Small letters in ASCII -/

theorem shift_lowerRuns (hc : c.toNat < 128) : shift lowerRuns c = c.toLower := by
  simpa using of_ascii (p := fun c => shift lowerRuns c == c.toLower) (by decide) hc

theorem toLower_eq_map (h : ∀ c ∈ t, c.toNat < 128) : toLower t = t.map Char.toLower := by
  rw [toLower_of_ascii h]
  exact List.map_congr_left fun c hc => shift_lowerRuns (h c hc)

/-- A character of a name in kebab case: ASCII and no capital. -/
structure IsSmall (c : Char) : Prop where
  /-- The character is one of ASCII. -/
  ascii : c.toNat < 128
  /-- It is its own small letter. -/
  lower : c.toLower = c

theorem isSmall_toLower (hc : c.toNat < 128) : IsSmall c.toLower := by
  have hsmall := of_ascii
    (p := fun c => decide (c.toLower.toNat < 128) && c.toLower.toLower == c.toLower)
    (by decide) hc
  rw [Bool.and_eq_true, decide_eq_true_eq, beq_iff_eq] at hsmall
  exact ⟨hsmall.1, hsmall.2⟩

theorem isSeparator_toLower (hc : c.toNat < 128) : isSeparator c.toLower = isSeparator c := by
  simpa using of_ascii (p := fun c => isSeparator c.toLower == isSeparator c) (by decide +kernel) hc

theorem IsSmall.isUpper (h : IsSmall c) : Text.isUpper c = false := by
  have hupper := of_ascii (p := fun c => c.toLower != c || !Text.isUpper c) (by decide)
    h.ascii
  simpa [h.lower] using hupper

theorem IsSmall.isAsciiUpper (h : IsSmall c) : Text.isAsciiUpper c = false := by
  have hupper := of_ascii (p := fun c => c.toLower != c || !Text.isAsciiUpper c)
    (by decide) h.ascii
  simpa [h.lower] using hupper

theorem isSmall_hyphen : IsSmall '-' := ⟨by decide, by decide⟩

theorem toLower_of_isSmall (h : ∀ c ∈ t, IsSmall c) : toLower t = t := by
  rw [toLower_eq_map fun c hc => (h c hc).ascii]
  conv_rhs => rw [← List.map_id t]
  exact List.map_congr_left fun c hc => (h c hc).lower

/-! ## Words of a name -/

theorem of_mem_nameParts {w : Text} (h : w ∈ nameParts t) :
    w ≠ [] ∧ ∀ c ∈ w, isSeparator c = false ∧ c ∈ t := by
  refine ⟨by simpa using (List.mem_filter.1 h).2, fun c hc => ?_⟩
  have hmem : c ∈ (nameParts t).flatten := List.mem_flatten_of_mem h hc
  rw [flatten_nameParts, List.mem_filter] at hmem
  exact ⟨by simpa using hmem.2, hmem.1⟩

/-- The hyphens before new words are the only characters that come in. -/
theorem filter_markWords (t : Text) :
    (markWords t).filter (fun c => !isSeparator c) = t.filter fun c => !isSeparator c := by
  have hhyphen : isSeparator '-' = true := by decide
  induction t using markWords.induct with
  | case1 a b t hw ih =>
    rw [markWords, if_pos hw, List.filter_cons, List.filter_cons, ih, hhyphen]
    conv_rhs => rw [List.filter_cons]
    rfl
  | case2 a b t hw ih =>
    rw [markWords, if_neg hw, List.filter_cons, ih]
    conv_rhs => rw [List.filter_cons]
  | case3 t hw => rw [markWords.eq_2 t hw]

/-- Without capitals no new word begins inside another one. -/
theorem markWords_of_isSmall (h : ∀ c ∈ t, IsSmall c) : markWords t = t := by
  induction t using markWords.induct with
  | case1 a b t hw ih =>
    have hb := (h b (by simp)).isAsciiUpper
    simp [startsWord, hb] at hw
  | case2 a b t hw ih =>
    rw [markWords, if_neg hw, ih fun c hc => h c (List.mem_cons_of_mem _ hc)]
  | case3 t hw => exact markWords.eq_2 t hw

theorem map_join (f : Char → Char) (sep : Text) (ws : List Text) :
    (join sep ws).map f = join (sep.map f) (ws.map (List.map f)) := by
  induction ws with
  | nil => rfl
  | cons w ws ih =>
    cases ws with
    | nil => rfl
    | cons next ws =>
      rw [join, List.map_append, List.map_append, ih]
      rfl

/-- The words of a name in small letters. -/
def smallWords (name : Text) : List Text :=
  (nameParts (markWords name)).map (List.map Char.toLower)

/-- Kebab case is the small words of a name with hyphens between them. -/
theorem kebabCase_eq_join (h : ∀ c ∈ name, c.toNat < 128) :
    kebabCase name = join "-" (smallWords name) := by
  have hascii : ∀ c ∈ join "-" (nameParts (markWords name)), c.toNat < 128 := by
    intro c hc
    rcases of_mem_joinedParts hc with hc | rfl
    · exact h c hc
    · decide
  rw [kebabCase, toLower_eq_map hascii, map_join]
  rfl

/-- A word of a name in kebab case. -/
structure IsSmallWord (w : Text) : Prop where
  /-- The word has characters. -/
  ne_nil : w ≠ []
  /-- They are small. -/
  small : ∀ c ∈ w, IsSmall c
  /-- None of them stands between words. -/
  solid : ∀ c ∈ w, isSeparator c = false

theorem isSmallWord_of_mem (h : ∀ c ∈ name, c.toNat < 128) :
    ∀ w ∈ smallWords name, IsSmallWord w := by
  intro w hw
  obtain ⟨part, hpart, rfl⟩ := List.mem_map.1 hw
  obtain ⟨hne, hsolid⟩ := of_mem_nameParts hpart
  have hascii : ∀ c ∈ part, c.toNat < 128 := by
    intro c hc
    rcases of_mem_markWords (hsolid c hc).2 with hmem | rfl
    · exact h c hmem
    · decide
  refine ⟨by simpa using hne, ?_, ?_⟩
  · exact List.forall_mem_map.2 fun c hc => isSmall_toLower (hascii c hc)
  · refine List.forall_mem_map.2 fun c hc => ?_
    rw [isSeparator_toLower (hascii c hc)]
    exact (hsolid c hc).1

/-- The words hold the characters of the name that do not stand between words. -/
theorem flatten_smallWords (name : Text) :
    (smallWords name).flatten = (name.filter fun c => !isSeparator c).map Char.toLower := by
  rw [smallWords, ← List.map_flatten, flatten_nameParts, filter_markWords]

/-! ## Words with hyphens between them -/

/-- The form of a name in kebab case. -/
structure IsKebabCase (t : Text) : Prop where
  /-- There are no capitals, blanks, points and low lines. -/
  plain : ∀ c ∈ t, isUpper c = false ∧ isBlank c = false ∧ c ≠ '.' ∧ c ≠ '_'
  /-- Of two neighbours one is not a hyphen. -/
  single : t.IsChain fun a b => a ≠ '-' ∨ b ≠ '-'
  /-- It does not begin with a hyphen. -/
  head : t.head? ≠ some '-'
  /-- It does not end with a hyphen. -/
  last : t.getLast? ≠ some '-'

theorem isSmall_of_mem_join (h : ∀ w ∈ ws, IsSmallWord w) : ∀ c ∈ join "-" ws, IsSmall c := by
  intro c hc
  rcases mem_of_mem_join hc with hc | ⟨w, hw, hc⟩
  · obtain rfl : c = '-' := by simpa using hc
    exact isSmall_hyphen
  · exact (h w hw).small c hc

theorem IsSmallWord.ne_hyphen {w : Text} (h : IsSmallWord w) (hc : c ∈ w) : c ≠ '-' := by
  rintro rfl
  exact absurd (h.solid _ hc) (by decide)

theorem IsSmallWord.isKebabCase {w : Text} (h : IsSmallWord w) : IsKebabCase w where
  plain c hc := by
    have hsolid : ((isBlank c = false ∧ c ≠ '.') ∧ c ≠ '_') ∧ c ≠ '-' := by
      simpa [isSeparator] using h.solid c hc
    exact ⟨(h.small c hc).isUpper, hsolid.1.1.1, hsolid.1.1.2, hsolid.1.2⟩
  single := by
    refine List.Pairwise.isChain (List.pairwise_of_forall_mem_list ?_)
    intro a ha b _
    exact .inl (h.ne_hyphen ha)
  head hc := h.ne_hyphen (List.mem_of_head? hc) rfl
  last hc := h.ne_hyphen (List.mem_of_getLast? hc) rfl

/-- A word in front of a name in kebab case, with a hyphen between them. -/
theorem IsKebabCase.cons {w : Text} (hw : IsSmallWord w) (h : IsKebabCase t) (hne : t ≠ []) :
    IsKebabCase (w ++ '-' :: t) where
  plain c hc := by
    rcases List.mem_append.1 hc with hc | hc
    · exact hw.isKebabCase.plain c hc
    · rcases List.mem_cons.1 hc with rfl | hc
      · decide
      · exact h.plain c hc
  single := by
    refine List.isChain_append.2 ⟨hw.isKebabCase.single, ?_, ?_⟩
    · refine List.isChain_cons.2 ⟨fun b hb => .inr ?_, h.single⟩
      rintro rfl
      exact h.head hb
    · intro a ha b _
      exact .inl (hw.ne_hyphen (List.mem_of_getLast? ha))
  head := by
    obtain ⟨a, w', rfl⟩ := List.exists_cons_of_ne_nil hw.ne_nil
    simpa using hw.isKebabCase.head
  last := by
    obtain ⟨a, t', rfl⟩ := List.exists_cons_of_ne_nil hne
    simpa using h.last

/-- Small words with hyphens between them are in kebab case. -/
theorem isKebabCase_join (h : ∀ w ∈ ws, IsSmallWord w) : IsKebabCase (join "-" ws) := by
  induction ws with
  | nil => constructor <;> simp [join]
  | cons w ws ih =>
    have hw := h w List.mem_cons_self
    have hws : ∀ v ∈ ws, IsSmallWord v := fun v hv => h v (List.mem_cons_of_mem _ hv)
    rcases eq_or_ne ws [] with rfl | hne
    · exact hw.isKebabCase
    · rw [join_cons_of_ne_nil hne, List.append_assoc]
      refine .cons hw (ih hws) ?_
      -- the first of the other words shows
      obtain ⟨v, ws', rfl⟩ := List.exists_cons_of_ne_nil hne
      obtain ⟨c, hc⟩ := List.exists_mem_of_ne_nil v (hws v List.mem_cons_self).ne_nil
      exact List.ne_nil_of_mem (mem_join_of_mem List.mem_cons_self hc)

/-- Small words with hyphens between them stay as they are. -/
theorem kebabCase_join (h : ∀ w ∈ ws, IsSmallWord w) : kebabCase (join "-" ws) = join "-" ws := by
  have hsmall := isSmall_of_mem_join h
  have hparts : nameParts (join "-" ws) = ws :=
    filter_cutWhere_join (by decide) fun w hw => ⟨(h w hw).ne_nil, (h w hw).solid⟩
  rw [kebabCase, markWords_of_isSmall hsmall, hparts, toLower_of_isSmall hsmall]

/-- Without the hyphens the words remain. -/
theorem filter_join (h : ∀ w ∈ ws, IsSmallWord w) :
    (join "-" ws).filter (· != '-') = ws.flatten := by
  induction ws with
  | nil => rfl
  | cons w ws ih =>
    have hw : w.filter (· != '-') = w :=
      List.filter_eq_self.2 fun c hc => by simpa using (h w List.mem_cons_self).ne_hyphen hc
    rcases eq_or_ne ws [] with rfl | hne
    · simpa [join] using hw
    · rw [join_cons_of_ne_nil hne, List.filter_append, List.filter_append, hw,
        ih fun v hv => h v (List.mem_cons_of_mem _ hv)]
      simp

/-! ## Names of elements -/

/-- The name of a custom element is that of an element. -/
theorem elementName_withLead (h : ∀ c ∈ t, IsSmall c) :
    elementName (withLead t) = withLead t := by
  have hlead : ∀ c ∈ elementLead, IsSmall c := by
    have hall : elementLead.all (fun c => c.toNat < 128 && c.toLower == c) = true := by
      decide
    intro c hc
    have hsmall : c.toNat < 128 ∧ c.toLower = c := by simpa using List.all_eq_true.1 hall c hc
    exact ⟨hsmall.1, hsmall.2⟩
  have hsmall : ∀ c ∈ withLead t, IsSmall c := by
    rw [withLead]
    split
    · exact h
    · exact fun c hc => (List.mem_append.1 hc).elim (hlead c) (h c)
  have hhyphen : '-' ∈ withLead t := by
    obtain ⟨rest, hrest⟩ := exists_withLead t
    rw [hrest]
    exact List.mem_append_left _ (by decide)
  rw [elementName, if_pos]
  simp [hhyphen, toLower_of_isSmall hsmall]

/-- A name that is kept stays kept. -/
theorem elementName_elementName (h : ∀ c ∈ name, c.toNat < 128) :
    elementName (elementName name) = elementName name := by
  by_cases hkept : (isBuiltIn name || (name.contains '-' && toLower name = name)) = true
  · have hname : elementName name = name := if_pos hkept
    rw [hname, hname]
  · have hname : elementName name = withLead (kebabCase name) := if_neg hkept
    rw [hname, kebabCase_eq_join h]
    exact elementName_withLead (isSmall_of_mem_join (isSmallWord_of_mem h))

/-! ## The normal form -/

/-- Kebab case is a normal form of names in ASCII that loses none of their letters, and the names
of elements are settled. -/
theorem kebabCase_isNormal (h : ∀ c ∈ name, c.toNat < 128) :
    IsKebabCase (kebabCase name) ∧
      kebabCase (kebabCase name) = kebabCase name ∧
      (kebabCase name).filter (· != '-') = (name.map Char.toLower).filter
        (fun c => !(isBlank c || c == '.' || c == '_' || c == '-')) ∧
      elementName (elementName name) = elementName name := by
  have hwords := isSmallWord_of_mem h
  have hjoin := kebabCase_eq_join h
  refine ⟨?_, ?_, ?_, elementName_elementName h⟩
  · rw [hjoin]
    exact isKebabCase_join hwords
  · rw [hjoin]
    exact kebabCase_join hwords
  · rw [hjoin, filter_join hwords, flatten_smallWords, List.filter_map]
    congr 1
    refine List.filter_congr fun c hc => ?_
    rw [← isSeparator_toLower (h c hc)]
    rfl

theorem kebabCase_isNormal_timeRange :
    (∀ c ∈ "HTMLTime_Range..Root2B".toList, c.toNat < 128) ∧
      kebabCase "HTMLTime_Range..Root2B" = "html-time-range-root2-b".toList ∧
      IsKebabCase (kebabCase "HTMLTime_Range..Root2B") := by
  have hall : "HTMLTime_Range..Root2B".toList.all (fun c => c.toNat < 128) = true := by
    decide
  have hascii : ∀ c ∈ "HTMLTime_Range..Root2B".toList, c.toNat < 128 :=
    fun c hc => of_decide_eq_true (List.all_eq_true.1 hall c hc)
  exact ⟨hascii, by decide, (kebabCase_isNormal hascii).1⟩

end SkinCompiler.Markup
