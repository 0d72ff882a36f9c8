import SkinCompiler.Proofs.Text.Blank

/-!
# Words of texts put together

Texts that are put together keep their words, except where a word at the end of one text meets a
word at the beginning of the next: those two become one.

* `words_append_eq`, `length_words_append` -- the words of two texts put together;
* `words_join_space` -- with a space between them, all texts keep their words;
* `words_flatten_iff` -- without anything between them, they keep their words just if no two of them
  meet.
-/

namespace SkinCompiler.Text

variable {a b : Text} {pieces : List Text}

/-! ## Two texts -/

/-- A word at the end of the first text meets one at the beginning of the second. -/
def Meets (a b : Text) : Prop :=
  (∃ x ∈ a.getLast?, isBlank x = false) ∧ ∃ y ∈ b.head?, isBlank y = false

instance decidableMeets (a b : Text) : Decidable (Meets a b) :=
  decidable_of_iff (a.getLast?.any (!isBlank ·) = true ∧ b.head?.any (!isBlank ·) = true) <| by
    simp [Meets, Option.any_eq_true]

/-- A text that ends in a blank keeps its words, whatever follows. -/
theorem words_append_of_getLast? (h : ∀ x ∈ a.getLast?, isBlank x = true) (b : Text) :
    words (a ++ b) = words a ++ words b := by
  rcases List.eq_nil_or_concat a with rfl | ⟨a, x, rfl⟩
  · rfl
  · have hx : isBlankText [x] = true := by simpa [isBlankText] using h
    rw [List.concat_eq_append, words_append (by simp) hx, words_of_blank_right hx]

/-- A text that begins with a blank keeps its words, whatever stands before it. -/
theorem words_append_of_head? (h : ∀ y ∈ b.head?, isBlank y = true) (a : Text) :
    words (a ++ b) = words a ++ words b := by
  cases b with
  | nil => simp [words, cutWhere]
  | cons y b =>
    have hy : isBlankText [y] = true := by simpa [isBlankText] using h
    rw [← List.singleton_append, ← List.append_assoc, words_append (by simp) hy, words_of_blank hy]

/-- The word at the beginning of a text, and what follows on it. -/
theorem exists_first_word (h : ∃ y ∈ b.head?, isBlank y = false) : ∃ first after,
    b = first ++ after ∧ first ≠ [] ∧ (∀ c ∈ first, isBlank c = false) ∧
      ∀ y ∈ after.head?, isBlank y = true := by
  rcases hspan : b.span (fun c => !isBlank c) with ⟨first, after⟩
  obtain ⟨rfl, hfirst, hafter⟩ := span_eq_iff.1 hspan
  simp only [Bool.not_eq_true'] at hfirst
  have hne : first ≠ [] := by
    rintro rfl
    obtain ⟨y, hy, hblank⟩ := h
    have := hafter y hy
    simp [hblank] at this
  refine ⟨first, after, rfl, hne, hfirst, ?_⟩
  intro y hy
  simpa using hafter y hy

/-- Texts that do not meet keep their words. -/
theorem words_append_eq (h : ¬Meets a b) : words (a ++ b) = words a ++ words b := by
  by_cases ha : ∃ x ∈ a.getLast?, isBlank x = false
  · refine words_append_of_head? ?_ a
    intro y hy
    by_contra hblank
    exact h ⟨ha, y, hy, by simpa using hblank⟩
  · refine words_append_of_getLast? ?_ b
    intro x hx
    by_contra hblank
    exact ha ⟨x, hx, by simpa using hblank⟩

/-- Texts that meet have one word less together. -/
theorem length_words_append (h : Meets a b) :
    (words (a ++ b)).length + 1 = (words a).length + (words b).length := by
  obtain ⟨hlast, hfirst⟩ := h
  obtain ⟨first, after, rfl, hne, hsolid, hafter⟩ := exists_first_word hfirst
  -- the last word of a text is the first one of the reversed text
  have hreverse : ∃ x ∈ a.reverse.head?, isBlank x = false := by simpa using hlast
  obtain ⟨last, before, heq, hne', hsolid', hbefore⟩ := exists_first_word hreverse
  obtain rfl : a = before.reverse ++ last.reverse := by
    rw [← List.reverse_append, ← heq, List.reverse_reverse]
  have hbefore : ∀ x ∈ before.reverse.getLast?, isBlank x = true := by simpa using hbefore
  have hwhole : ∀ c ∈ last.reverse ++ first, isBlank c = false := by
    intro c hc
    rcases List.mem_append.1 hc with hc | hc
    · exact hsolid' c (List.mem_reverse.1 hc)
    · exact hsolid c hc
  have hsplit : before.reverse ++ last.reverse ++ (first ++ after) =
      before.reverse ++ (last.reverse ++ first ++ after) := by simp
  rw [hsplit, words_append_of_getLast? hbefore, words_append_of_head? hafter,
    words_append_of_getLast? hbefore, words_append_of_head? hafter,
    words_eq_singleton (by simp [hne]) hwhole, words_eq_singleton hne hsolid,
    words_eq_singleton (by simpa using hne') fun c hc => hsolid' c (List.mem_reverse.1 hc)]
  simp
  omega

/-! ## Many texts -/

/-- With a space between each two of them, texts keep their words. -/
theorem words_join_space (pieces : List Text) : words (join " " pieces) = pieces.flatMap words := by
  induction pieces with
  | nil => rfl
  | cons a pieces ih =>
    rcases eq_or_ne pieces [] with rfl | hne
    · simp [join]
    · rw [join_cons_of_ne_nil hne, words_append (by simp) (by decide), ih, List.flatMap_cons]

theorem length_words_flatten_le (pieces : List Text) :
    (words pieces.flatten).length ≤ (pieces.flatMap words).length := by
  induction pieces with
  | nil => exact Nat.le_refl _
  | cons a pieces ih =>
    rw [List.flatten_cons, List.flatMap_cons, List.length_append]
    by_cases h : Meets a pieces.flatten
    · have hless := length_words_append h
      omega
    · rw [words_append_eq h, List.length_append]
      omega

/-- Texts of which none is empty keep their words just if none of them meets the next one. -/
theorem words_flatten_iff_isChain (h : ∀ a ∈ pieces, a ≠ []) :
    words pieces.flatten = pieces.flatMap words ↔ pieces.IsChain fun a b => ¬Meets a b := by
  induction pieces with
  | nil => simp [words, cutWhere]
  | cons a rest ih =>
    have hrest := ih fun b hb => h b (List.mem_cons_of_mem _ hb)
    cases rest with
    | nil => simp
    | cons b rest =>
      -- what follows begins with the first character of the next text
      have hmeets : Meets a (b :: rest).flatten ↔ Meets a b := by
        obtain ⟨y, b, rfl⟩ := List.exists_cons_of_ne_nil (h b (by simp))
        simp [Meets]
      rw [List.isChain_cons_cons, ← hrest, ← hmeets, List.flatten_cons, List.flatMap_cons]
      constructor
      · intro heq
        have hlength := congrArg List.length heq
        rw [List.length_append] at hlength
        have hnot : ¬Meets a (b :: rest).flatten := by
          intro hmeet
          have hless := length_words_append hmeet
          have hle := length_words_flatten_le (b :: rest)
          omega
        rw [words_append_eq hnot] at heq
        exact ⟨hnot, List.append_cancel_left heq⟩
      · rintro ⟨hnot, heq⟩
        rw [words_append_eq hnot, heq]

/-- No text meets the one that follows it, empty ones left out. -/
def AreApart (pieces : List Text) : Prop :=
  (pieces.filter (!·.isEmpty)).IsChain fun a b => ¬Meets a b

instance decidableAreApart (pieces : List Text) : Decidable (AreApart pieces) :=
  inferInstanceAs (Decidable (List.IsChain _ _))

/-- Texts put together keep their words just if none of them meets the one that follows it. -/
theorem words_flatten_iff (pieces : List Text) :
    words pieces.flatten = pieces.flatMap words ↔ AreApart pieces := by
  have hflatten : (pieces.filter (!·.isEmpty)).flatten = pieces.flatten :=
    List.flatten_filter_not_isEmpty
  have hwords : (pieces.filter (!·.isEmpty)).flatMap words = pieces.flatMap words := by
    clear hflatten
    induction pieces with
    | nil => rfl
    | cons a pieces ih =>
      cases a with
      | nil => simpa [words, cutWhere] using ih
      | cons x a => simpa using ih
  rw [← hflatten, ← hwords, AreApart]
  refine words_flatten_iff_isChain ?_
  intro a ha
  simpa using (List.mem_filter.1 ha).2

end SkinCompiler.Text
