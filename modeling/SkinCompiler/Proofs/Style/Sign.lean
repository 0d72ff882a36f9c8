import SkinCompiler.Proofs.Style.Declarations
import SkinCompiler.Proofs.Table

/-!
# The sign of a utility

A hyphen in front of a utility asks for the opposite of its value.  Only some roots know opposites,
and the scheme of each reads a size, puts the sign before it and assigns it.  The offset of an
outline takes a colour as well, and a colour has no opposite: there the hyphen changes nothing.

* `opposite_eq_self_iff` -- the sizes that are their own opposites;
* `Scheme.exists_assignments?` -- what the schemes with a size assign, for both signs;
* `sign_ignored_iff` -- the utilities that a hyphen does not change.
-/

namespace SkinCompiler.Style

variable {theme : Theme} {root t : Text} {value : Value} {scheme : Scheme}

/-! ## Opposites -/

/-- A size that has no opposite but itself. -/
def IsUnsigned (t : Text) : Prop := t = "0" ∨ t = "0px" ∨ t = "auto"

theorem isUnsigned_iff :
    IsUnsigned t ↔ (t = ['0'] || t = "0px".toList || t = "auto".toList) = true := by
  have hzero : "0".toList = ['0'] := by decide
  simp only [IsUnsigned, Bool.or_eq_true, decide_eq_true_eq, or_assoc, hzero]

/-- Every other size has an opposite of another length. -/
theorem length_opposite (h : ¬IsUnsigned t) : (opposite t).length ≠ t.length := by
  unfold opposite
  rw [if_neg (mt isUnsigned_iff.2 h)]
  split
  · simp
  · split_ifs
    · simp
    · simp
      omega
  · simp

theorem opposite_eq_self_iff : opposite t = t ↔ IsUnsigned t := by
  constructor
  · intro hself
    by_contra hsigned
    exact length_opposite hsigned (congrArg List.length hself)
  · intro hunsigned
    unfold opposite
    rw [if_pos (isUnsigned_iff.1 hunsigned)]

/-! ## Schemes with a size -/

namespace Scheme

/-- The size that a scheme puts a sign before, if it reads one. -/
def size? (theme : Theme) (value : Value) : Scheme → Option Text
  | .spacing _ keywords containers =>
    spacing? theme (spacingKeywords theme keywords containers) value
  | .tracking => scaled? theme.tracking value
  | .widthOrColor _ _ => if isLength value then some (lengthText "px" value) else none
  | .integer _ keywords => digits? keywords id value
  | .scale _ => measured? "%" value
  | .rotate => measured? "deg" value
  | .translate _ => spacing? theme [("full", "100%")] value
  | _ => none

/-- The scheme takes nothing but a size, and assigns it. -/
def takesSize : Scheme → Bool
  | .spacing properties _ _ => !properties.isEmpty
  | .tracking | .integer _ _ | .scale _ | .rotate | .translate _ => true
  | _ => false

/-- A root whose values have opposites takes nothing but a size, or is the offset of an outline. -/
theorem negatable_takesSize :
    ∀ root ∈ negatable, root = "outline-offset" ∨ (ofRoot? root).any takesSize := by
  decide +kernel

/-- A scheme that takes nothing but a size assigns it with its sign, to one property or more. -/
theorem exists_assignments? (theme : Theme) (value : Value) (modifier : Option Modifier)
    (h : scheme.takesSize) :
    ∃ (property : Text) (rest : Text → Assignments), ∀ negative,
      scheme.assignments? theme { value, modifier, negative }
        = (scheme.size? theme value).map fun t =>
          (property, signed negative t) :: rest (signed negative t) := by
  cases scheme with
  | spacing properties keywords containers =>
    cases properties with
    | nil => cases h
    | cons p properties => exact ⟨p, each properties, fun _ => rfl⟩
  | tracking => exact ⟨"letter-spacing", fun _ => [], fun _ => rfl⟩
  | integer property keywords => exact ⟨property, fun _ => [], fun _ => rfl⟩
  | scale axis =>
    cases axis with
    | none => exact ⟨"scale", fun _ => [], fun _ => rfl⟩
    | some a =>
      exact ⟨"--tw-scale-" ++ a,
        fun _ => [("scale", "var(--tw-scale-x, 100%) var(--tw-scale-y, 100%)")], fun _ => rfl⟩
  | rotate => exact ⟨"rotate", fun _ => [], fun _ => rfl⟩
  | translate axis =>
    exact ⟨"--tw-translate-" ++ axis,
      fun _ => [("translate", "var(--tw-translate-x, 0) var(--tw-translate-y, 0)")], fun _ => rfl⟩
  | _ => cases h

end Scheme

/-! ## Utilities with a hyphen in front -/

/-- The declarations of a candidate with or without a hyphen in front. -/
def signedDeclarations? (theme : Theme) (c : Candidate) (negative : Bool) :
    Option (List Declaration) := declarations? theme { c with negative }

/-- The candidate has declarations with a hyphen in front, and the same ones without. -/
def IgnoresSign (theme : Theme) (c : Candidate) : Prop :=
  signedDeclarations? theme c true ≠ none ∧
    signedDeclarations? theme c true = signedDeclarations? theme c false

section Functional

variable {c : Candidate} {modifier : Option Modifier}

theorem signedDeclarations?_eq (hc : c.utility = .functional root value modifier)
    {assigned : Option Assignments} {negative : Bool}
    (h : functionalAssignments? theme root { value, modifier, negative } = assigned)
    (hfilled : assigned ≠ some []) :
    signedDeclarations? theme c negative = assigned.map (declared c.important) := by
  have hassign : assignments? theme { c with negative } = assigned := by
    rw [← h]
    exact assignments?_functional hc
  rw [signedDeclarations?, declarations?_eq (by rwa [hassign]), hassign]

/-- Where a size is assigned with its sign, the sign is ignored just if the size has no opposite. -/
theorem ignoresSign_of_size (hc : c.utility = .functional root value modifier)
    (size : Option Text) (property : Text) (rest : Text → Assignments)
    (h : ∀ negative, functionalAssignments? theme root { value, modifier, negative }
      = size.map fun t =>
        (property, Scheme.signed negative t) :: rest (Scheme.signed negative t)) :
    IgnoresSign theme c ↔ ∃ t, size = some t ∧ IsUnsigned t := by
  have hinjective : Function.Injective fun t => (property, t) :: rest t := by
    intro a b hab
    exact (Prod.mk.inj (List.cons.inj hab).1).2
  rw [IgnoresSign, signedDeclarations?_eq hc (h true) (by simp),
    signedDeclarations?_eq hc (h false) (by simp)]
  cases size with
  | none => simp
  | some t =>
    have hsame : declared c.important ((property, opposite t) :: rest (opposite t))
        = declared c.important ((property, t) :: rest t) ↔ IsUnsigned t := by
      rw [(declared_injective _).eq_iff, hinjective.eq_iff, opposite_eq_self_iff]
    simpa [Scheme.signed] using hsame

/-- Where a colour is assigned, the sign is ignored. -/
theorem ignoresSign_of_color (hc : c.utility = .functional root value modifier)
    (color : Option Text) (property : Text)
    (h : ∀ negative, functionalAssignments? theme root { value, modifier, negative }
      = color.map fun t => [(property, t)]) :
    IgnoresSign theme c ↔ color.isSome := by
  rw [IgnoresSign, signedDeclarations?_eq hc (h true) (by simp),
    signedDeclarations?_eq hc (h false) (by simp)]
  cases color <;> simp

/-- Where a root knows no opposites, a hyphen leaves no declarations. -/
theorem not_ignoresSign (hc : c.utility = .functional root value modifier)
    (hroot : root ∉ Scheme.negatable) : ¬IgnoresSign theme c := by
  have hnone : functionalAssignments? theme root { value, modifier, negative := true } = none := by
    cases hscheme : Scheme.ofRoot? root with
    | none => rw [functionalAssignments?, hscheme]
    | some scheme => rw [functionalAssignments?_eq hscheme, if_pos (by simp [hroot])]
  rw [IgnoresSign, signedDeclarations?_eq hc hnone (by simp)]
  simp

/-- The size of a value whose opposite a hyphen asks for, if the root reads one. -/
def negated? (theme : Theme) (root : Text) (value : Value) : Option Text :=
  if Scheme.negatable.contains root then (Scheme.ofRoot? root).bind (Scheme.size? theme value)
  else none

/-- A hyphen in front of a utility with a value is ignored just where the value has no opposite but
itself, and where the value is a colour for the offset of an outline. -/
theorem sign_ignored_iff (theme : Theme) (c : Candidate) (root : Text) (value : Value)
    (modifier : Option Modifier) (hc : c.utility = .functional root value modifier) :
    IgnoresSign theme c ↔ (∃ t, negated? theme root value = some t ∧ IsUnsigned t) ∨
      (root = "outline-offset" ∧ isLength value = false ∧
        (color? theme value modifier).isSome) := by
  by_cases hroot : root ∈ Scheme.negatable
  · have hassigned {scheme : Scheme} (hscheme : Scheme.ofRoot? root = some scheme)
        (negative : Bool) : functionalAssignments? theme root { value, modifier, negative }
          = scheme.assignments? theme { value, modifier, negative } := by
      rw [functionalAssignments?_eq hscheme, if_neg (by simp [hroot])]
    rw [negated?, if_pos (List.contains_iff_mem.2 hroot)]
    obtain rfl | htakes := Scheme.negatable_takesSize root hroot
    · -- the offset of an outline is a length, or a colour
      have hscheme : Scheme.ofRoot? "outline-offset"
          = some (.widthOrColor "outline-offset" "outline-color") := rfl
      rw [hscheme, Option.bind_some]
      cases hlength : isLength value with
      | true =>
        rw [ignoresSign_of_size hc (some (lengthText "px" value)) "outline-offset" fun _ => []]
        · simp [Scheme.size?, hlength]
        · intro negative
          rw [hassigned hscheme, Scheme.assignments?, if_pos hlength]
          rfl
      | false =>
        rw [ignoresSign_of_color hc (color? theme value modifier) "outline-color"]
        · simp [Scheme.size?, hlength]
        · intro negative
          rw [hassigned hscheme, Scheme.assignments?, if_neg (by simp [hlength])]
    · -- every other root takes a size only
      obtain ⟨scheme, hscheme, hsize⟩ := (Option.any_eq_true _ _).1 htakes
      obtain ⟨property, rest, hassign⟩ := Scheme.exists_assignments? theme value modifier hsize
      have hoffset : root ≠ "outline-offset" := by
        rintro rfl
        cases hscheme
        cases hsize
      rw [hscheme, Option.bind_some, ignoresSign_of_size hc _ property rest
        fun negative => (hassigned hscheme negative).trans (hassign negative)]
      exact (or_iff_left fun h => hoffset h.1).symm
  · refine iff_of_false (not_ignoresSign hc hroot) ?_
    rintro (⟨t, ht, -⟩ | ⟨rfl, -⟩)
    · rw [negated?, if_neg (mt List.contains_iff_mem.1 hroot)] at ht
      cases ht
    · exact hroot (by decide)

end Functional

/-- A margin has an opposite, which a hyphen asks for. -/
theorem sign_marginTop : ∃ c : Candidate,
    c.utility = .functional "mt" (.named "px" none) none ∧ ¬IgnoresSign .builtIn c := by
  refine ⟨⟨.functional "mt" (.named "px" none) none, [], false, true⟩, rfl, ?_⟩
  rw [sign_ignored_iff .builtIn _ "mt" (.named "px" none) none rfl]
  have hsize : negated? .builtIn "mt" (.named "px" none) = some "1px" := by decide +kernel
  rintro (⟨t, ht, hunsigned⟩ | ⟨hroot, -⟩)
  · rw [hsize] at ht
    cases ht
    exact absurd hunsigned (by unfold IsUnsigned; decide)
  · exact absurd hroot (by decide)

/-- A hyphen in front of the colour of an outline leaves the colour as it is. -/
theorem sign_outlineOffset : ∃ c, Candidate.read? .builtIn "-outline-offset-red-500" = some c ∧
    c.utility.isFunctional ∧ c.negative ∧
    signedDeclarations? .builtIn c true = some [⟨"outline-color", "#ef4444", false⟩] ∧
    signedDeclarations? .builtIn c false = some [⟨"outline-color", "#ef4444", false⟩] :=
  ⟨⟨.functional "outline-offset" (.named "red-500" none) none, [], false, true⟩,
    by decide +kernel, rfl, rfl, by decide +kernel, by decide +kernel⟩

end SkinCompiler.Style
