import SkinCompiler.Proofs.Text.Blank
import SkinCompiler.Stylesheet.Reader

/-!
# Declarations written and read

What the text of a single declaration is read as.

* `declaration?_text` -- a declaration with a property name is read as its settled form;
* `ink_of_declaration?` -- reading a declaration loses nothing but blanks.
-/

namespace SkinCompiler

open Text Stylesheet

variable {p rest t gap : Text} {d : Declaration} {c : Char}

/-! ## Property names -/

/-- The text is taken whole as a property. -/
def IsProperty (p : Text) : Prop := property? p = some (p, [])

instance decidableIsProperty (p : Text) : Decidable (IsProperty p) :=
  inferInstanceAs (Decidable (_ = _))

/-- The name at the beginning of a text, after the hyphens before it. -/
def nameAfter? (hyphens : Text) : Text → Option (Text × Text)
  | [] => none
  | c :: s =>
    if isNameStart c then
      some (hyphens ++ ((c :: s).span isNamePart).1, ((c :: s).span isNamePart).2)
    else none

theorem property?_eq (t : Text) : ∃ hyphens s,
    (hyphens = [] ∨ hyphens = ['-'] ∨ hyphens = ['-', '-']) ∧ t = hyphens ++ s ∧
      property? t = nameAfter? hyphens s := by
  rcases t with _ | ⟨x, t⟩
  · exact ⟨[], [], by simp, rfl, rfl⟩
  by_cases hx : x = '-'
  · subst hx
    rcases t with _ | ⟨y, t⟩
    · exact ⟨['-'], [], by simp, rfl, rfl⟩
    by_cases hy : y = '-'
    · subst hy
      exact ⟨['-', '-'], t, by simp, rfl, by cases t <;> rfl⟩
    · exact ⟨['-'], y :: t, by simp, rfl, by simp [property?, hy, nameAfter?]⟩
  · exact ⟨[], x :: t, by simp, rfl, by simp [property?, hx, nameAfter?]⟩

theorem of_nameAfter?_eq_some {hyphens s : Text} (h : nameAfter? hyphens s = some (p, rest)) :
    ∃ c name, isNameStart c = true ∧ (∀ x ∈ c :: name, isNamePart x = true) ∧
      (∀ x ∈ rest.head?, isNamePart x = false) ∧ p = hyphens ++ c :: name ∧
      s = c :: name ++ rest := by
  cases s with
  | nil => cases h
  | cons c s =>
    rw [nameAfter?] at h
    split_ifs at h with hc
    rcases hspan : (c :: s).span isNamePart with ⟨name, rest'⟩
    rw [hspan] at h
    cases h
    obtain ⟨heq, hall, hrest⟩ := span_eq_iff.1 hspan
    cases name with
    | nil =>
      rw [List.nil_append] at heq
      rw [← heq] at hrest
      have := hrest c rfl
      simp [isNamePart, hc] at this
    | cons x name =>
      rw [List.cons_append, List.cons.injEq] at heq
      obtain ⟨rfl, rfl⟩ := heq
      exact ⟨c, name, hc, hall, hrest, rfl, rfl⟩

/-- A property is a name after at most two hyphens, and it is taken as far as it goes. -/
theorem property?_eq_some_iff : property? t = some (p, rest) ↔
    ∃ hyphens c name, (hyphens = [] ∨ hyphens = ['-'] ∨ hyphens = ['-', '-']) ∧
      isNameStart c = true ∧ (∀ x ∈ c :: name, isNamePart x = true) ∧
      (∀ x ∈ rest.head?, isNamePart x = false) ∧ p = hyphens ++ c :: name ∧
      t = hyphens ++ (c :: name ++ rest) := by
  have hminus : isNameStart '-' = false := by decide
  constructor
  · intro h
    obtain ⟨hyphens, s, hh, rfl, heq⟩ := property?_eq t
    rw [heq] at h
    obtain ⟨c, name, hc, hall, hrest, hp, rfl⟩ := of_nameAfter?_eq_some h
    exact ⟨hyphens, c, name, hh, hc, hall, hrest, hp, rfl⟩
  · rintro ⟨hyphens, c, name, hh, hc, hall, hrest, rfl, rfl⟩
    have hne : c ≠ '-' := by
      rintro rfl
      rw [hminus] at hc
      cases hc
    have hspan : (c :: name ++ rest).span isNamePart = (c :: name, rest) :=
      span_eq_iff.2 ⟨rfl, hall, hrest⟩
    rw [List.span_eq_takeWhile_dropWhile, Prod.mk.injEq, List.cons_append] at hspan
    rcases hh with rfl | rfl | rfl <;> simp [property?, hne, hc, hspan.1, hspan.2]

theorem isProperty_iff : IsProperty p ↔ ∃ hyphens c name,
    (hyphens = [] ∨ hyphens = ['-'] ∨ hyphens = ['-', '-']) ∧ isNameStart c = true ∧
      (∀ x ∈ c :: name, isNamePart x = true) ∧ p = hyphens ++ c :: name := by
  rw [IsProperty, property?_eq_some_iff]
  constructor
  · rintro ⟨hyphens, c, name, hh, hc, hall, -, hp, -⟩
    exact ⟨hyphens, c, name, hh, hc, hall, hp⟩
  · rintro ⟨hyphens, c, name, hh, hc, hall, hp⟩
    exact ⟨hyphens, c, name, hh, hc, hall, by simp, hp, by simpa using hp⟩

theorem property?_append (h : IsProperty p) (t : Text) :
    property? (p ++ ':' :: t) = some (p, ':' :: t) := by
  obtain ⟨hyphens, c, name, hh, hc, hall, rfl⟩ := isProperty_iff.1 h
  refine property?_eq_some_iff.2 ⟨hyphens, c, name, hh, hc, hall, ?_, rfl, by simp⟩
  rintro x ⟨rfl⟩
  decide

theorem isProperty_of_property? (h : property? t = some (p, rest)) :
    IsProperty p ∧ t = p ++ rest := by
  obtain ⟨hyphens, c, name, hh, hc, hall, -, rfl, rfl⟩ := property?_eq_some_iff.1 h
  exact ⟨isProperty_iff.2 ⟨hyphens, c, name, hh, hc, hall, rfl⟩, by simp⟩

theorem IsProperty.ne_nil (h : IsProperty p) : p ≠ [] := by
  obtain ⟨hyphens, c, name, -, -, -, rfl⟩ := isProperty_iff.1 h
  simp

theorem isBlank_of_isNamePart (h : isNamePart c = true) : isBlank c = false := by
  have hrange : 33 ≤ c.toNat ∧ c.toNat ≤ 126 := by
    simp only [isNamePart, isNameStart, isAsciiLetter, isAsciiDigit, Bool.or_eq_true,
      Bool.and_eq_true, decide_eq_true_eq, beq_iff_eq, Char.le_def, UInt32.le_iff_toNat_le] at h
    rcases h with (((h | h) | rfl) | h) | rfl
    · exact ⟨Nat.le_trans (by decide) h.1, Nat.le_trans h.2 (by decide)⟩
    · exact ⟨Nat.le_trans (by decide) h.1, Nat.le_trans h.2 (by decide)⟩
    · decide
    · exact ⟨Nat.le_trans (by decide) h.1, Nat.le_trans h.2 (by decide)⟩
    · decide
  by_contra hb
  simp only [Bool.not_eq_false, isBlank, Bool.or_eq_true, Bool.and_eq_true, decide_eq_true_eq,
    beq_iff_eq] at hb
  omega

theorem IsProperty.isNamePart (h : IsProperty p) : ∀ c ∈ p, isNamePart c = true := by
  obtain ⟨hyphens, c, name, hh, -, hall, rfl⟩ := isProperty_iff.1 h
  intro x hx
  rcases List.mem_append.1 hx with hx | hx
  · have hminus : x = '-' := by
      rcases hh with rfl | rfl | rfl <;> simp_all
    rw [hminus]
    decide
  · exact hall x hx

/-! ## Single declarations -/

namespace Declaration

/-- The text of a declaration without the semicolon after it. -/
def text (d : Declaration) : Text :=
  d.property ++ ": " ++ d.value ++ (if d.important then " !important" else "").toList

theorem write_eq (d : Declaration) : d.write = d.text ++ [';'] := by
  rw [write, text]
  cases d.important <;> simp

/-- The declaration without blanks around its value.  A mark of importance at the end of the value
makes it important. -/
def settled (d : Declaration) : Declaration :=
  let value := strip d.value
  if !d.important && endsWith value importantMark then
    { property := d.property
      value := trimRight isBlank (value.take (value.length - importantMark.length))
      important := true }
  else { d with value }

theorem take_append_mark (a : Text) :
    (a ++ importantMark).take ((a ++ importantMark).length - importantMark.length) = a := by
  rw [List.length_append, Nat.add_sub_cancel, List.take_left]

/-- What stands before a mark of importance, once the whole is stripped. -/
theorem exists_strip_mark (v : Text) : ∃ a,
    strip (' ' :: (v ++ ' ' :: importantMark)) = a ++ importantMark ∧
      trimRight isBlank a = strip v := by
  obtain ⟨g₁, g₂, h₁, h₂, hv⟩ := exists_strip v
  obtain ⟨hh, hl⟩ := strip_ends v
  have hspace : isBlankText [' '] = true := by decide
  cases hs : strip v with
  | nil =>
    rw [hs, List.append_nil] at hv
    have hb : isBlankText ([' '] ++ v ++ [' ']) = true :=
      isBlankText_append.2 ⟨isBlankText_append.2 ⟨hspace, hv ▸ isBlankText_append.2 ⟨h₁, h₂⟩⟩, hspace⟩
    refine ⟨[], ?_, rfl⟩
    have := strip_of_blank hb (b := []) rfl importantMark
    rw [show strip importantMark = importantMark by decide] at this
    simpa using this
  | cons c s =>
    rw [hs] at hv hh hl
    have hb : isBlankText ([' '] ++ g₁) = true := isBlankText_append.2 ⟨hspace, h₁⟩
    refine ⟨c :: s ++ (g₂ ++ [' ']), ?_, ?_⟩
    · have := strip_of_blank hb (b := []) rfl (c :: s ++ (g₂ ++ [' ']) ++ importantMark)
      rw [List.append_nil, strip_eq_self (t := c :: s ++ (g₂ ++ [' ']) ++ importantMark)] at this
      · rw [← this, hv]
        simp
      · exact hh
      · rw [List.getLast?_append]
        rintro x ⟨rfl⟩
        decide
    · rw [trimRight_of_blank (isBlankText_append.2 ⟨h₂, hspace⟩), trimRight_eq_self hl]

theorem settled_property (d : Declaration) : d.settled.property = d.property := by
  rw [settled]
  split_ifs <;> rfl

/-- The text of a declaration with a property is read as its settled form, if that has a value. -/
theorem declaration?_text (hp : IsProperty d.property) (hg : isBlankText gap = true) :
    declaration? (gap ++ d.text) = if d.settled.value = [] then none else some d.settled := by
  obtain ⟨property, value, important⟩ := d
  change IsProperty property at hp
  have hhead : ∀ c ∈ (property ++ ':' :: ' ' :: (value
      ++ (if important then " !important" else "").toList)).head?, isBlank c = false := by
    obtain ⟨c, name, hcn⟩ := List.exists_cons_of_ne_nil hp.ne_nil
    have := hp.isNamePart c (hcn ▸ List.mem_cons_self)
    rw [hcn]
    rintro x ⟨rfl⟩
    exact isBlank_of_isNamePart this
  have htext : (⟨property, value, important⟩ : Declaration).text = property ++ ':' :: ' ' :: (value
      ++ (if important then " !important" else "").toList) := by simp [text]
  have hcolon : ∀ t, trimLeft isBlank (':' :: t) = ':' :: t := fun t =>
    trimLeft_eq_self (by rintro x ⟨rfl⟩; decide)
  rw [htext, declaration?, trimLeft_of_blank hg, trimLeft_eq_self hhead, property?_append hp]
  simp only [hcolon]
  cases important with
  | true =>
    obtain ⟨a, ha, ht⟩ := exists_strip_mark value
    have hmark : (if true then " !important" else "").toList = ' ' :: importantMark := rfl
    rw [hmark, ha, if_pos (endsWith_iff.2 ⟨a, rfl⟩), take_append_mark, ht, settled]
    simp
  | false =>
    have hstrip : strip (' ' :: value) = strip value := by
      have := strip_of_blank (a := [' ']) (b := []) (by decide) rfl value
      simpa using this
    simp only [Bool.false_eq_true, if_false, String.toList_empty, List.append_nil, hstrip, settled]
    by_cases he : endsWith (strip value) importantMark = true
    · simp [he]
    · simp [he]

theorem ink_text (d : Declaration) : ink d.text
    = ink d.property ++ ':' :: (ink d.value ++ if d.important then importantMark else []) := by
  have hcolon : ink ": " = [':'] := by decide
  have hmark : ink (if d.important then " !important" else "").toList
      = if d.important then importantMark else [] := by
    cases d.important <;> decide
  rw [text, ink_append, ink_append, ink_append, hcolon, hmark]
  simp

/-- What is read as a declaration has its property, its value and its mark, and nothing more than
blanks besides. -/
theorem ink_of_declaration? (h : declaration? t = some d) :
    ink t = ink d.text ∧ IsProperty d.property ∧ d.value ≠ [] := by
  have hmark : ink importantMark = importantMark := by decide
  rw [declaration?] at h
  split at h
  · cases h
  · rename_i p rest hp
    obtain ⟨hprop, ht⟩ := isProperty_of_property? hp
    split at h
    · rename_i rest' hr
      dsimp only at h
      have hink : ink t = ink p ++ ':' :: ink (strip rest') := by
        rw [← ink_trimLeft t, ht, ink_append, ← ink_trimLeft rest, hr, ink_strip]
        rfl
      split_ifs at h with he hv hv
      · cases h
        obtain ⟨a, ha⟩ := endsWith_iff.1 he
        refine ⟨?_, hprop, by simpa using hv⟩
        rw [hink, ink_text, ha, take_append_mark, ink_append, hmark, ink_trimRight, if_pos rfl]
      · cases h
        refine ⟨?_, hprop, by simpa using hv⟩
        rw [hink, ink_text]
        simp
    · cases h

/-- Settling changes blanks only. -/
theorem ink_settled (d : Declaration) : ink d.settled.text = ink d.text := by
  have hmark : ink importantMark = importantMark := by decide
  rw [ink_text d, settled]
  by_cases h : (!d.important && endsWith (strip d.value) importantMark) = true
  · rw [if_pos h, ink_text]
    rw [Bool.and_eq_true] at h
    obtain ⟨a, ha⟩ := endsWith_iff.1 h.2
    have himp : d.important = false := by simpa using h.1
    have hv : ink d.value = ink a ++ importantMark := by
      rw [← ink_strip, ha, ink_append, hmark]
    simp [ha, himp, hv]
  · rw [if_neg h, ink_text, ink_strip]

end Declaration

end SkinCompiler
