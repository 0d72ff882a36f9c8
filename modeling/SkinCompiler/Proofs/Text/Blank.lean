import SkinCompiler.Proofs.Text.Basic
import SkinCompiler.Text.CharClass

/-!
# Blanks around and inside a text

Reading passes over blanks.  `ink` is what is left of a text without them: taking off the margins of
a text or collapsing its blanks leaves the ink as it is.
-/

namespace SkinCompiler.Text

variable {a b t gap : Text} {c : Char}

/-! ## Blank texts -/

theorem isBlankText_iff : isBlankText t = true ↔ ∀ c ∈ t, isBlank c = true := List.all_eq_true

theorem isBlankText_append : isBlankText (a ++ b) = true ↔ isBlankText a ∧ isBlankText b := by
  simp [isBlankText]

theorem isBlankText_spaces (n : Nat) : isBlankText (spaces n) = true := by
  rw [isBlankText_iff]
  intro c hc
  rw [List.eq_of_mem_replicate hc]
  decide

/-- The points of the blanks. -/
def blankPoints : List Nat := [
  9, 10, 11, 12, 13, 28, 29, 30, 31, 32, 0x85, 0xA0, 0x1680, 0x2000, 0x2001, 0x2002, 0x2003,
  0x2004, 0x2005, 0x2006, 0x2007, 0x2008, 0x2009, 0x200A, 0x2028, 0x2029, 0x202F, 0x205F, 0x3000]

theorem mem_blankPoints (h : isBlank c = true) : c.toNat ∈ blankPoints := by
  simp only [isBlank, Bool.or_eq_true, Bool.and_eq_true, decide_eq_true_eq, beq_iff_eq] at h
  simp only [blankPoints, List.mem_cons, List.not_mem_nil, or_false]
  omega

/-- A class of characters without any of the blanks. -/
theorem isBlank_eq_false {p : Char → Bool} (h : ∀ n ∈ blankPoints, p (Char.ofNat n) = false)
    (hc : p c = true) : isBlank c = false := by
  by_contra hblank
  have hmem := h c.toNat (mem_blankPoints (by simpa using hblank))
  rw [Char.ofNat_toNat, hc] at hmem
  cases hmem

/-- The last of the first `n` characters of a text is there and is not blank. -/
def IsSolidAt (t : Text) (n : Nat) : Prop := ∃ c, t[n - 1]? = some c ∧ isBlank c = false

/-! ## Margins -/

theorem trimLeft_of_blank (h : isBlankText gap = true) (t : Text) :
    trimLeft isBlank (gap ++ t) = trimLeft isBlank t :=
  List.dropWhile_append_of_pos (isBlankText_iff.1 h)

theorem trimRight_eq (t : Text) : trimRight isBlank t = (trimLeft isBlank t.reverse).reverse := rfl

theorem isBlankText_reverse (t : Text) : isBlankText t.reverse = isBlankText t := by
  rw [isBlankText, isBlankText, List.all_reverse]

theorem trimRight_of_blank (h : isBlankText gap = true) (t : Text) :
    trimRight isBlank (t ++ gap) = trimRight isBlank t := by
  rw [trimRight_eq, List.reverse_append, trimLeft_of_blank (by rwa [isBlankText_reverse]),
    trimRight_eq]

/-- A text falls into a blank margin and a part that does not begin with a blank. -/
theorem exists_trimLeft (t : Text) : ∃ gap, isBlankText gap = true ∧ t = gap ++ trimLeft isBlank t ∧
    ∀ c ∈ (trimLeft isBlank t).head?, isBlank c = false := by
  refine ⟨t.takeWhile isBlank, List.all_takeWhile,
    (List.takeWhile_append_dropWhile).symm, ?_⟩
  intro c hc
  have := List.head?_dropWhile_not isBlank t
  rw [trimLeft, Option.mem_def] at hc
  rw [hc] at this
  simpa using this

theorem trimLeft_eq_self (h : ∀ c ∈ t.head?, isBlank c = false) : trimLeft isBlank t = t := by
  cases t with
  | nil => rfl
  | cons c t => rw [trimLeft, List.dropWhile_cons_of_neg (by simp [h c rfl])]

theorem trimRight_eq_self (h : ∀ c ∈ t.getLast?, isBlank c = false) : trimRight isBlank t = t := by
  rw [trimRight_eq, trimLeft_eq_self (by simpa using h), List.reverse_reverse]

theorem exists_trimRight (t : Text) : ∃ gap, isBlankText gap = true ∧
    t = trimRight isBlank t ++ gap ∧ ∀ c ∈ (trimRight isBlank t).getLast?, isBlank c = false := by
  obtain ⟨gap, hg, ht, hh⟩ := exists_trimLeft t.reverse
  refine ⟨gap.reverse, by rwa [isBlankText_reverse], ?_, ?_⟩
  · rw [trimRight_eq, ← List.reverse_append, ← ht, List.reverse_reverse]
  · rw [trimRight_eq, List.getLast?_reverse]
    exact hh

theorem strip_eq_trimRight (t : Text) : strip t = trimRight isBlank (trimLeft isBlank t) := rfl

/-- A text falls into its stripped form and two blank margins. -/
theorem exists_strip (t : Text) : ∃ g₁ g₂, isBlankText g₁ = true ∧ isBlankText g₂ = true ∧
    t = g₁ ++ strip t ++ g₂ := by
  obtain ⟨g₁, h₁, ht, -⟩ := exists_trimLeft t
  obtain ⟨g₂, h₂, ht', -⟩ := exists_trimRight (trimLeft isBlank t)
  refine ⟨g₁, g₂, h₁, h₂, ?_⟩
  rw [strip_eq_trimRight, List.append_assoc, ← ht', ← ht]

/-- The stripped form has no blank at either end. -/
theorem strip_ends (t : Text) : (∀ c ∈ (strip t).head?, isBlank c = false) ∧
    ∀ c ∈ (strip t).getLast?, isBlank c = false := by
  obtain ⟨g₁, h₁, ht, hh⟩ := exists_trimLeft t
  obtain ⟨g₂, h₂, ht', hl⟩ := exists_trimRight (trimLeft isBlank t)
  refine ⟨?_, hl⟩
  intro c hc
  refine hh c ?_
  rw [ht', Option.mem_def, List.head?_append]
  rw [strip_eq_trimRight, Option.mem_def] at hc
  rw [hc]
  rfl

theorem strip_of_blank (ha : isBlankText a = true) (hb : isBlankText b = true) (t : Text) :
    strip (a ++ t ++ b) = strip t := by
  rw [strip_eq_trimRight, List.append_assoc, trimLeft_of_blank ha]
  obtain ⟨gap, hg, ht, hh⟩ := exists_trimLeft t
  cases hc : trimLeft isBlank t with
  | nil =>
    rw [hc, List.append_nil] at ht
    have hblank : isBlankText (t ++ b) = true := isBlankText_append.2 ⟨ht ▸ hg, hb⟩
    have h := trimLeft_of_blank hblank []
    rw [List.append_nil] at h
    rw [h, strip_eq_trimRight, hc]
    rfl
  | cons c rest =>
    rw [hc] at ht hh
    rw [ht, List.append_assoc, trimLeft_of_blank hg, List.cons_append,
      trimLeft_eq_self (by simpa using hh), ← List.cons_append, trimRight_of_blank hb,
      strip_eq_trimRight, trimLeft_of_blank hg, trimLeft_eq_self (by simpa using hh)]

theorem strip_eq_self (hh : ∀ c ∈ t.head?, isBlank c = false)
    (hl : ∀ c ∈ t.getLast?, isBlank c = false) : strip t = t := by
  rw [strip_eq_trimRight, trimLeft_eq_self hh, trimRight_eq_self hl]

theorem strip_strip (t : Text) : strip (strip t) = strip t :=
  strip_eq_self (strip_ends t).1 (strip_ends t).2

/-- A beginning of a text without blanks at its ends needs to be trimmed on the right only. -/
theorem strip_trimRight_of_append (h : strip (a ++ b) = a ++ b) :
    strip (trimRight isBlank a) = trimRight isBlank a := by
  obtain ⟨gap, -, ha, hlast⟩ := exists_trimRight a
  refine strip_eq_self ?_ hlast
  intro c hc
  have hhead := (strip_ends (a ++ b)).1
  rw [h] at hhead
  refine hhead c ?_
  rw [ha, List.append_assoc, Option.mem_def, List.head?_append, Option.mem_def.1 hc]
  rfl

/-! ## Ink -/

/-- The characters of a text that are not blank. -/
def ink (t : Text) : Text := t.filter fun c => !isBlank c

@[simp] theorem ink_nil : ink [] = [] := rfl

@[simp] theorem ink_append : ink (a ++ b) = ink a ++ ink b := List.filter_append ..

theorem ink_cons (h : isBlank c = false) (t : Text) : ink (c :: t) = c :: ink t :=
  List.filter_cons_of_pos (by rw [h]; rfl)

theorem ink_cons_blank (h : isBlank c = true) (t : Text) : ink (c :: t) = ink t :=
  List.filter_cons_of_neg (by rw [h]; simp)

theorem ink_of_blank (h : isBlankText t = true) : ink t = [] := by
  rw [ink, List.filter_eq_nil_iff]
  intro c hc
  simpa using isBlankText_iff.1 h c hc

@[simp] theorem ink_trimLeft (t : Text) : ink (trimLeft isBlank t) = ink t := by
  obtain ⟨gap, hg, ht, -⟩ := exists_trimLeft t
  conv_rhs => rw [ht, ink_append, ink_of_blank hg, List.nil_append]

@[simp] theorem ink_trimRight (t : Text) : ink (trimRight isBlank t) = ink t := by
  obtain ⟨gap, hg, ht, -⟩ := exists_trimRight t
  conv_rhs => rw [ht, ink_append, ink_of_blank hg, List.append_nil]

@[simp] theorem ink_strip (t : Text) : ink (strip t) = ink t := by
  rw [strip_eq_trimRight, ink_trimRight, ink_trimLeft]

/-- The stripped form begins with the first character that is not blank. -/
theorem head?_strip (t : Text) : (strip t).head? = (ink t).head? := by
  have hink := ink_strip t
  have hends := (strip_ends t).1
  cases hs : strip t with
  | nil =>
    rw [hs] at hink
    rw [← hink]
    rfl
  | cons c s =>
    rw [hs] at hink hends
    rw [← hink, ink_cons (hends c rfl)]
    rfl

theorem mem_ink_iff : c ∈ ink t ↔ c ∈ t ∧ isBlank c = false := by
  rw [ink, List.mem_filter, Bool.not_eq_true']

/-! ## Words -/

theorem words_cons_blank (h : isBlank c = true) (t : Text) : words (c :: t) = words t := by
  simp [words, cutWhere, h]

theorem words_of_blank (h : isBlankText gap = true) (t : Text) : words (gap ++ t) = words t := by
  induction gap with
  | nil => rfl
  | cons c gap ih =>
    rw [isBlankText_iff] at h
    rw [List.cons_append, words_cons_blank (h c List.mem_cons_self)]
    exact ih (isBlankText_iff.2 fun x hx => h x (List.mem_cons_of_mem _ hx))

theorem cutWhere_append_cons {p : Char → Bool} (h : p c = true) (a b : Text) :
    cutWhere p (a ++ c :: b) = cutWhere p a ++ cutWhere p b := by
  induction a with
  | nil => simp [cutWhere, h]
  | cons x a ih =>
    rw [List.cons_append, cutWhere, cutWhere, ih]
    split_ifs
    · rfl
    · obtain ⟨piece, pieces, hp⟩ := List.exists_cons_of_ne_nil (cutWhere_ne_nil p a)
      rw [hp]
      rfl

/-- The words on both sides of blanks are the words of the whole. -/
theorem words_append (hne : gap ≠ []) (h : isBlankText gap = true) (a b : Text) :
    words (a ++ gap ++ b) = words a ++ words b := by
  obtain ⟨c, gap, rfl⟩ := List.exists_cons_of_ne_nil hne
  rw [isBlankText, List.all_cons, Bool.and_eq_true] at h
  rw [List.append_assoc, List.cons_append, words, cutWhere_append_cons h.1, List.filter_append]
  exact congrArg (words a ++ ·) (words_of_blank h.2 b)

theorem words_concat_blank (h : isBlank c = true) (t : Text) : words (t ++ [c]) = words t := by
  rw [words, cutWhere_append_cons h, List.filter_append]
  simp [words, cutWhere]

theorem words_of_blank_right (h : isBlankText gap = true) (t : Text) :
    words (t ++ gap) = words t := by
  induction gap generalizing t with
  | nil => rw [List.append_nil]
  | cons c gap ih =>
    rw [isBlankText_iff] at h
    rw [List.append_cons, ih (isBlankText_iff.2 fun x hx => h x (List.mem_cons_of_mem _ hx)),
      words_concat_blank (h c List.mem_cons_self)]

theorem collapse_strip (t : Text) : collapse (strip t) = collapse t := by
  obtain ⟨g₁, g₂, h₁, h₂, ht⟩ := exists_strip t
  conv_rhs => rw [ht, collapse, words_of_blank_right h₂, words_of_blank h₁]
  rfl

theorem collapse_of_blank (ha : isBlankText a = true) (hb : isBlankText b = true) (t : Text) :
    collapse (a ++ t ++ b) = collapse t := by
  rw [collapse, words_of_blank_right hb, words_of_blank ha, collapse]

theorem flatten_cutWhere (p : Char → Bool) (t : Text) :
    (cutWhere p t).flatten = t.filter fun c => !p c := by
  induction t with
  | nil => rfl
  | cons c t ih =>
    rw [cutWhere]
    by_cases h : p c = true
    · simp [h, ih]
    · cases hc : cutWhere p t with
      | nil => simp [hc, h] at ih ⊢; exact ih
      | cons piece pieces => simp [hc, h] at ih ⊢; exact ih

theorem words_eq_singleton (hne : t ≠ []) (h : ∀ c ∈ t, isBlank c = false) : words t = [t] := by
  rw [words, cutWhere_of_none h]
  simpa using hne

theorem flatten_words (t : Text) : (words t).flatten = ink t := by
  rw [ink, ← flatten_cutWhere, words, List.flatten_filter_not_isEmpty]

theorem of_mem_words {w : Text} (h : w ∈ words t) : w ≠ [] ∧ ∀ c ∈ w, isBlank c = false := by
  refine ⟨by simpa using (List.mem_filter.1 h).2, fun c hc => ?_⟩
  have hink : c ∈ ink t := by
    rw [← flatten_words]
    exact List.mem_flatten_of_mem h hc
  exact (mem_ink_iff.1 hink).2

theorem words_eq_nil_iff : words t = [] ↔ isBlankText t = true := by
  constructor
  · intro h
    rw [isBlankText_iff]
    intro c hc
    by_contra hblank
    have hink : c ∈ ink t := mem_ink_iff.2 ⟨hc, by simpa using hblank⟩
    rw [← flatten_words, h] at hink
    cases hink
  · intro h
    have hwords := words_of_blank h []
    rwa [List.append_nil] at hwords

/-- Pieces with a separator between each two of them are found again. -/
theorem filter_cutWhere_join {p : Char → Bool} {ws : List Text} (hsep : p c = true)
    (h : ∀ w ∈ ws, w ≠ [] ∧ ∀ x ∈ w, p x = false) :
    (cutWhere p (join [c] ws)).filter (!·.isEmpty) = ws := by
  induction ws with
  | nil => rfl
  | cons w ws ih =>
    obtain ⟨hne, hsolid⟩ := h w List.mem_cons_self
    have hw : (cutWhere p w).filter (!·.isEmpty) = [w] := by
      rw [cutWhere_of_none hsolid]
      simpa using hne
    rcases eq_or_ne ws [] with rfl | hws
    · exact hw
    · rw [join_cons_of_ne_nil hws, List.append_assoc, List.singleton_append,
        cutWhere_append_cons hsep, List.filter_append, hw,
        ih fun v hv => h v (List.mem_cons_of_mem _ hv)]
      rfl

/-- Words with a space between each two of them are found again. -/
theorem words_join {ws : List Text} (h : ∀ w ∈ ws, w ≠ [] ∧ ∀ c ∈ w, isBlank c = false) :
    words (join " " ws) = ws := filter_cutWhere_join (by decide) h

theorem words_collapse (t : Text) : words (collapse t) = words t :=
  words_join fun _ hw => of_mem_words hw

theorem collapse_collapse (t : Text) : collapse (collapse t) = collapse t := by
  rw [collapse, words_collapse]
  rfl

/-- Collapsing blanks leaves the ink. -/
@[simp] theorem ink_collapse (t : Text) : ink (collapse t) = ink t := by
  have hjoin : ∀ l : List Text, ink (join " " l) = ink l.flatten := by
    intro l
    induction l with
    | nil => rfl
    | cons a l ih =>
      cases l with
      | nil => simp [join]
      | cons b l =>
        rw [join, ink_append, ink_append, ih, ink_of_blank (t := " ") (by decide),
          List.append_nil, ← ink_append, ← List.flatten_cons]
  rw [collapse, hjoin, flatten_words, ink, ink, List.filter_filter]
  simp

/-- A text with its blanks collapsed begins with the first character that is not blank. -/
theorem head?_collapse (t : Text) : (collapse t).head? = (ink t).head? := by
  have hjoin : ∀ l : List Text, (∀ p ∈ l, p ≠ []) → (join " " l).head? = l.flatten.head? := by
    intro l hl
    cases l with
    | nil => rfl
    | cons p l =>
      obtain ⟨c, p, rfl⟩ := List.exists_cons_of_ne_nil (hl p List.mem_cons_self)
      cases l <;> rfl
  rw [collapse, ← flatten_words]
  refine hjoin _ ?_
  intro p hp
  simpa using (List.mem_filter.1 hp).2

end SkinCompiler.Text
