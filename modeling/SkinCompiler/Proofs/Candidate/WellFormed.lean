import SkinCompiler.Proofs.Candidate.RoundTrip

/-!
# Candidates that are read are well formed

A candidate is made of names of its design system, with no empty part, and every kind of utility
and variant has what it needs and nothing that it does not take.  Of the variants only the outermost
of a group of nested ones has a modifier: what stands inside another variant is cut off at a hyphen,
and the modifier at a slash, and both cuts are made outside the same brackets.

* `Utility.isWellFormed_of_read?_eq_some` -- utilities, in every design system;
* `Variant.Reads.isWellFormed` -- variants, by induction on their forms;
* `Candidate.isWellFormed_of_read?` -- whole tokens of the built-in design system.
-/

namespace SkinCompiler

open Text Arbitrary DesignSystem

variable {raw t tail : Text} {d : DesignSystem} {v : Variant} {u : Utility} {m : Option Modifier}
  {c : Candidate}

/-! ## What is well formed -/

/-- A name or a text in brackets, which is not empty. -/
def Modifier.IsWellFormed : Modifier → Prop
  | .named t | .arbitrary t => t ≠ []
  | .other _ => False

/-- A value beside a modifier: it is not empty, and a fraction stands without a modifier, which has
become its divisor. -/
def Value.IsWellFormed (m : Option Modifier) : Value → Prop
  | .named name fraction => name ≠ [] ∧ (fraction ≠ none → fraction = some name ∧ m = none)
  | .arbitrary content => content.value ≠ []

/-- The modifier of a variant. -/
def Variant.modifier : Variant → Option Modifier
  | .static _ | .arbitrary _ => none
  | .functional _ _ m | .compound _ _ m | .other _ _ m => m

/-- A variant that the design system knows, around a variant without a modifier if around any. -/
def Variant.IsWellFormed (d : DesignSystem) : Variant → Prop
  | .static root => root ∈ d.staticVariants
  | .arbitrary selector => '&' ∈ selector ∨ startsWith selector ['@'] = true
  | .functional root value m =>
    root ∈ d.functionalVariants ∧ value.IsWellFormed m ∧ ∀ x ∈ m, x.IsWellFormed
  | .compound root inner m =>
    root ∈ d.compoundVariants ∧ inner.IsWellFormed d ∧ inner.modifier = none
      ∧ ∀ x ∈ m, x.IsWellFormed
  | .other _ _ _ => False

/-- A utility that the design system knows, or a declaration in brackets. -/
def Utility.IsWellFormed (d : DesignSystem) : Utility → Prop
  | .static root m => root ∈ d.staticUtilities ∧ (m ≠ none → d.takesModifier root = true)
      ∧ ∀ x ∈ m, x.IsWellFormed
  | .functional root value m =>
    root ∈ d.functionalUtilities ∧ value.IsWellFormed m ∧ ∀ x ∈ m, x.IsWellFormed
  | .property name content m =>
    isPropertyName name = true ∧ content.value ≠ [] ∧ ∀ x ∈ m, x.IsWellFormed
  | .other _ _ _ => False

/-- A candidate whose parts are well formed; only a utility with a root and a value is negative. -/
structure Candidate.IsWellFormed (d : DesignSystem) (c : Candidate) : Prop where
  /-- Its utility is. -/
  utility : c.utility.IsWellFormed d
  /-- Its variants are. -/
  variants : ∀ v ∈ c.variants, v.IsWellFormed d
  /-- What has no value has no sign. -/
  negative : c.negative = true → c.utility.isFunctional = true

/-! ## Modifiers and values -/

theorem customProperty_ne_nil (name : Text) : customProperty name ≠ [] := by
  simp [customProperty]

theorem Modifier.Reads.isWellFormed {x : Modifier} (h : Modifier.Reads raw x) : x.IsWellFormed := by
  cases h with
  | bracketed h => exact (isTyped_of_decode h).1
  | custom => exact customProperty_ne_nil _
  | named h => exact ne_nil_of_isModifierName h

theorem Modifier.Tail.isWellFormed (h : Modifier.Tail tail m) : ∀ x ∈ m, x.IsWellFormed := by
  cases h with
  | absent => simp
  | present h =>
    rintro _ ⟨rfl⟩
    exact h.isWellFormed

theorem Value.Reads.isWellFormed {value : Value} (h : Value.Reads raw value) (m : Option Modifier) :
    value.IsWellFormed m := by
  cases value with
  | arbitrary => exact h.isTyped.1
  | named name fraction =>
    cases h with
    | named h => exact ⟨ne_nil_of_isValueName h, fun hf => absurd rfl hf⟩

/-! ## Utilities -/

theorem Utility.isWellFormed_ofParts {root : Text} {value : Value}
    (hr : root ∈ d.functionalUtilities) (hv : Value.Reads raw value)
    (hm : ∀ x ∈ m, x.IsWellFormed) : (Utility.ofParts root value m).IsWellFormed d := by
  unfold Utility.ofParts
  split
  · split_ifs
    · exact ⟨hr, ⟨by simp, fun _ => ⟨rfl, rfl⟩⟩, by simp⟩
    · exact ⟨hr, hv.isWellFormed _, hm⟩
  · exact ⟨hr, hv.isWellFormed _, hm⟩

/-- A utility that is read is well formed. -/
theorem Utility.isWellFormed_of_read?_eq_some (h : Utility.read? d t = some u) :
    u.IsWellFormed d := by
  rw [Utility.read?] at h
  split at h
  · cases h
  · rename_i base m hsplit
    obtain ⟨tail, -, -, htail, -⟩ := exists_of_splitModifier? hsplit
    have hm := htail.isWellFormed
    split at h
    · obtain ⟨name, value, content, -, hname, -, -, hdecode, rfl⟩ := readProperty?_eq_some h
      exact ⟨hname, (isTyped_of_decode hdecode).1, hm⟩
    · split_ifs at h with hstatic
      · cases h
        rw [Bool.and_eq_true, Bool.or_eq_true, List.contains_iff_mem, Option.isNone_iff_eq_none]
          at hstatic
        exact ⟨hstatic.1, hstatic.2.resolve_left, hm⟩
      · obtain ⟨⟨root, rest⟩, -, hcut⟩ := List.exists_of_findSome?_eq_some h
        dsimp only at hcut
        split_ifs at hcut with hroot
        obtain ⟨value, hv, rfl⟩ := Option.map_eq_some_iff.1 hcut
        exact Utility.isWellFormed_ofParts (List.contains_iff_mem.1 hroot)
          (Value.read?_eq_some_iff.1 hv) hm

/-! ## Variants -/

/-- A variant whose text no slash cuts has no modifier. -/
theorem Variant.Reads.modifier_eq_none (h : Variant.Reads raw v) (hu : Scope.Uncut '/' {} raw) :
    v.modifier = none := by
  cases h with
  | arbitrary => rfl
  | static => rfl
  | functional hroot _ hc _ htail =>
    have hlead := (variantLead_isWord (mem_variantRoots_of_functional hroot)).1.isClosed
    exact htail.eq_none ((uncut_append_of_closed ((isClosed_append hlead).2 hc)).1 hu).2
  | compound hroot _ hc _ htail =>
    have hlead := (variantLead_isWord (mem_variantRoots_of_compound hroot)).1.isClosed
    exact htail.eq_none ((uncut_append_of_closed ((isClosed_append hlead).2 hc)).1 hu).2

/-- The forms of a variant are well formed. -/
theorem Variant.Reads.isWellFormed (h : Variant.Reads raw v) : v.IsWellFormed builtIn := by
  induction h with
  | arbitrary h => simpa only [Variant.IsWellFormed, Bool.or_eq_true, List.contains_iff_mem] using h
  | static h => exact h
  | functional hroot hv _ _ htail => exact ⟨hroot, hv.isWellFormed _, htail.isWellFormed⟩
  | compound hroot hv _ hu htail ih =>
    -- the text of the inner variant is a part of a text that was cut at its slashes before
    exact ⟨hroot, ih, hv.modifier_eq_none hu, htail.isWellFormed⟩

theorem Variant.isWellFormed_of_isText {texts : List Text} {variants : List Variant}
    (h : List.Forall₂ Variant.IsText texts variants) : ∀ v ∈ variants, v.IsWellFormed builtIn := by
  induction h with
  | nil => simp
  | cons hr _ ih => exact List.forall_mem_cons.2 ⟨hr.1.isWellFormed, ih⟩

/-! ## Tokens -/

/-- Every candidate that is read from a token is well formed. -/
theorem Candidate.isWellFormed_of_read? (h : Candidate.read? builtIn raw = some c) :
    c.IsWellFormed builtIn := by
  obtain ⟨texts, last, hvariants, hutility, -, hnegative, -⟩ := Candidate.exists_of_read? h
  exact ⟨Utility.isWellFormed_of_read?_eq_some hutility, Variant.isWellFormed_of_isText hvariants,
    hnegative⟩

/-- The modifier of this token stands on the group, and the fraction has none. -/
theorem Candidate.isWellFormed_fraction :
    ∃ c, Candidate.read? builtIn "group-data-[state=open]/menu:-translate-x-1/2!" = some c ∧
      c.IsWellFormed builtIn := by
  obtain ⟨c, hc⟩ : ∃ c, Candidate.read? builtIn
      "group-data-[state=open]/menu:-translate-x-1/2!" = some c :=
    Option.isSome_iff_exists.1 (by decide +kernel)
  exact ⟨c, hc, Candidate.isWellFormed_of_read? hc⟩

end SkinCompiler
