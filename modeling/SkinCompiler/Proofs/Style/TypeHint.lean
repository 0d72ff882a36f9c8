import SkinCompiler.Proofs.Candidate.BracketedValue
import SkinCompiler.Proofs.Guarded.Value
import SkinCompiler.Proofs.Style.Declarations
import SkinCompiler.Proofs.Style.ReplacedToken

/-!
# Type hints for arbitrary values

An arbitrary value that is not of the type its root expects is reported, and a hint is suggested.
The check looks at the value again and not at the hint, so the report comes back.  What is declared
stays the same, but for a width given to a root that expects a colour.

* `functionalAssignments?_hinted` -- what a root assigns, with and without the hint;
* `IsMisfit` -- what a report is about, and what comes with it;
* `mem_diagnostics_hint` -- the styles with the hint that a report suggests.
-/

namespace SkinCompiler.Style

open Arbitrary (Decoded)

variable {theme : Theme} {root type t : Text} {v : Decoded} {modifier : Option Modifier}
  {negative : Bool} {scheme : Scheme}

/-- A value taken to be of a type. -/
def hinted (type : Text) (v : Decoded) : Decoded := { v with dataType := some type }

@[simp] theorem hinted_value (type : Text) (v : Decoded) : (hinted type v).value = v.value := rfl

@[simp] theorem arbitraryText_hinted (type : Text) (v : Decoded) :
    arbitraryText (hinted type v) = arbitraryText v := rfl

/-! ## What the schemes make of a hint -/

namespace Scheme

/-- The scheme takes the text of an arbitrary value, whatever its type. -/
def ignoresType : Scheme → Bool
  | .spacing _ _ _ | .opacity | .integer _ _ | .number _ | .rotate => true
  | _ => false

/-- The scheme takes a colour for an arbitrary value. -/
def takesColor : Scheme → Bool
  | .paint _ | .gradientStop _ => true
  | _ => false

theorem assignments?_hinted (h : scheme.ignoresType) (type : Text) (v : Decoded)
    (modifier : Option Modifier) (negative : Bool) :
    scheme.assignments? theme { value := .arbitrary (hinted type v), modifier, negative }
      = scheme.assignments? theme { value := .arbitrary v, modifier, negative } := by
  cases scheme with
  | spacing | opacity | integer | number | rotate => rfl
  | _ => cases h

theorem assignments?_color (h : scheme.takesColor) : ∃ property : Text, ∀ v modifier negative,
    scheme.assignments? theme { value := .arbitrary v, modifier, negative }
      = (color? theme (.arbitrary v) modifier).map fun color => [(property, color)] := by
  cases scheme with
  | paint property => exact ⟨property, fun _ _ _ => rfl⟩
  | gradientStop position => exact ⟨"--tw-gradient-" ++ position, fun _ _ _ => rfl⟩
  | _ => cases h

theorem isWord_of_ignoresType (hroot : ofRoot? root = some scheme) (h : scheme.ignoresType) :
    IsWord root := by
  have hall : ∀ p ∈ spacingSchemes ++ sizeSchemes ++ boxSchemes ++ layoutSchemes ++ effectSchemes,
      p.2.ignoresType = true → IsWord p.1 := by decide +kernel
  exact hall _ (Table.mem_of_get? hroot) h

end Scheme

theorem valueTypes_spec : ∀ p ∈ valueTypes, IsWord p.1 ∧ p.2 ∈ Arbitrary.typeHints ∧
    ((p.1 = "accent" ∧ p.2 = "color") ∨ (Scheme.ofRoot? p.1).any fun scheme =>
      scheme.ignoresType || (p.2 = "color".toList && scheme.takesColor)) := by
  decide +kernel

/-- A root that expects a type takes any arbitrary value, or takes colours, or is the one that takes
a width for a colour. -/
theorem expectedType?_cases (h : expectedType? root = some type) :
    IsWord root ∧ type ∈ Arbitrary.typeHints ∧
      ((root = "accent" ∧ type = "color") ∨ ∃ scheme, Scheme.ofRoot? root = some scheme ∧
        (scheme.ignoresType ∨ (type = "color" ∧ scheme.takesColor))) := by
  rw [expectedType?] at h
  split at h
  · rename_i hscheme
    cases h
    exact ⟨Scheme.isWord_of_ignoresType hscheme rfl, by decide, Or.inr ⟨_, hscheme, Or.inl rfl⟩⟩
  · obtain ⟨hword, hhint, hscheme⟩ := valueTypes_spec _ (Table.mem_of_get? h)
    refine ⟨hword, hhint, hscheme.imp_right fun hscheme => ?_⟩
    obtain ⟨scheme, hroot, htakes⟩ := (Option.any_eq_true _ _).1 hscheme
    rw [Bool.or_eq_true, Bool.and_eq_true, decide_eq_true_eq] at htakes
    exact ⟨scheme, hroot, htakes⟩

/-! ## Colours -/

/-- A colour with the opacity of a modifier mixed in. -/
def mixed (modifier : Option Modifier) (color : Text) : Option Text :=
  match modifier.bind opacity? with
  | none => present color
  | some alpha =>
    if color = "transparent".toList || color = "inherit".toList then some color
    else some ("color-mix(in oklab, " ++ color ++ " " ++ alpha ++ ", transparent)")

theorem color?_eq_bind (theme : Theme) (value : Value) (modifier : Option Modifier) :
    color? theme value modifier = (plainColor? theme value).bind (mixed modifier) := by
  rw [color?]
  cases plainColor? theme value <;> rfl

theorem plainColor?_hinted (theme : Theme) (v : Decoded) :
    plainColor? theme (.arbitrary (hinted "color" v)) = some (arbitraryText v) := by
  rw [plainColor?, if_pos]
  · rfl
  · simp [hinted]

theorem color?_hinted (theme : Theme) (v : Decoded) (modifier : Option Modifier) :
    color? theme (.arbitrary (hinted "color" v)) modifier = mixed modifier (arbitraryText v) := by
  rw [color?_eq_bind, plainColor?_hinted, Option.bind_some]

/-- What is a colour is the same colour where a hint says so. -/
theorem mixed_of_color? (h : color? theme (.arbitrary v) modifier = some t) :
    mixed modifier (arbitraryText v) = some t := by
  rw [color?_eq_bind, plainColor?] at h
  split_ifs at h
  · exact h
  · cases h

/-- A colour is the text of a value that has one, unless an opacity is mixed in. -/
theorem mixed_eq_self_iff (modifier : Option Modifier) (hne : t ≠ [])
    (hname : t ≠ "transparent".toList ∧ t ≠ "inherit".toList) :
    mixed modifier t = some t ↔ ¬(modifier.bind opacity?).isSome = true := by
  rw [mixed]
  cases modifier.bind opacity? with
  | none => simp [present, hne]
  | some alpha =>
    refine iff_of_false ?_ (by simp)
    -- the mixed colour is longer
    intro h
    dsimp only at h
    rw [decide_eq_false hname.1, decide_eq_false hname.2, Bool.or_self,
      if_neg Bool.false_ne_true] at h
    have hlength := congrArg List.length (Option.some.inj h)
    simp only [List.length_append] at hlength
    have hlead : 0 < "color-mix(in oklab, ".toList.length := by decide
    omega

theorem exists_mixed (modifier : Option Modifier) (hne : t ≠ []) :
    ∃ color, mixed modifier t = some color := by
  rw [mixed]
  cases modifier.bind opacity? with
  | none => exact ⟨t, by simp [present, hne]⟩
  | some alpha =>
    dsimp only
    split_ifs
    · exact ⟨_, rfl⟩
    · exact ⟨_, rfl⟩

/-! ## The text of a value -/

/-- A text without spaces and low lines is the text of no value but itself. -/
theorem underscoresToSpaces_eq_self {t : Text} (hspace : ' ' ∉ Arbitrary.underscoresToSpaces t)
    (hline : '_' ∉ Arbitrary.underscoresToSpaces t) : Arbitrary.underscoresToSpaces t = t := by
  induction t using Arbitrary.underscoresToSpaces.induct with
  | case1 t _ =>
    rw [Arbitrary.underscoresToSpaces] at hline
    exact absurd List.mem_cons_self hline
  | case2 c t hescape ih =>
    rw [Arbitrary.underscoresToSpaces] at hspace hline ⊢
    · have hc : c ≠ '_' := by
        rintro rfl
        exact hspace List.mem_cons_self
      rw [ih (fun h => hspace (List.mem_cons_of_mem _ h)) fun h => hline (List.mem_cons_of_mem _ h)]
      simp [hc]
    · exact hescape
    · exact hescape
    · exact hescape
  | case3 => rfl

/-- A value whose text is the name of a colour is that name. -/
theorem value_of_arbitraryText (h : arbitraryText v = t) (hspace : ' ' ∉ t) (hline : '_' ∉ t) :
    v.value = t := by
  rw [arbitraryText] at h
  split_ifs at h with hurl
  · exact h
  · rw [← h] at hspace hline
    rw [← h, underscoresToSpaces_eq_self hspace hline]

/-- The colours that no opacity is mixed into are valid as colours. -/
theorem arbitraryText_ne_of_unfit (h : Arbitrary.isValid v.value "color" = false) :
    arbitraryText v ≠ "transparent".toList ∧ arbitraryText v ≠ "inherit".toList := by
  constructor
  · intro htext
    rw [value_of_arbitraryText htext (by decide) (by decide)] at h
    exact absurd h (by decide +kernel)
  · intro htext
    rw [value_of_arbitraryText htext (by decide) (by decide)] at h
    exact absurd h (by decide +kernel)

/-! ## What a root makes of a hint -/

/-- The value is a width where the root expects a colour, and a modifier asks for an opacity. -/
def IsFadedWidth (root : Text) (v : Decoded) (modifier : Option Modifier) : Prop :=
  root = "accent" ∧ isLength (.arbitrary v) = true ∧ (modifier.bind opacity?).isSome = true

instance (root : Text) (v : Decoded) (modifier : Option Modifier) :
    Decidable (IsFadedWidth root v modifier) := inferInstanceAs (Decidable (_ ∧ _ ∧ _))

/-- A width or a colour as that of an accent. -/
def accent (t : Text) : Assignments := [("accent-color", t)]

theorem Scheme.ofRoot?_accent :
    ofRoot? "accent" = some (.widthOrColor "accent-color" "accent-color") := by
  rfl

/-- The root of accents reads a value as a width where it can, and takes no sign. -/
theorem accent_assignments? (s : Setting) : functionalAssignments? theme "accent" s
    = if s.negative then none
      else if isLength s.value then some (accent (lengthText "px" s.value))
      else (color? theme s.value s.modifier).map accent := by
  have hsign : Scheme.negatable.contains "accent".toList = false := by decide
  rw [functionalAssignments?_eq Scheme.ofRoot?_accent, hsign, Bool.not_false, Bool.and_true]
  by_cases hneg : s.negative = true
  · rw [if_pos hneg, if_pos hneg]
  · rw [if_neg hneg, if_neg hneg, Scheme.assignments?, Bool.eq_false_iff.2 hneg]
    rfl

variable {assigned : Assignments}

/-- A width stays what it is behind a hint for a colour, unless a modifier asks for an opacity. -/
theorem accent_hinted
    (h : functionalAssignments? theme "accent" { value := .arbitrary v, modifier, negative }
      = some assigned)
    (hne : v.value ≠ []) (hunfit : Arbitrary.isValid v.value "color" = false) :
    ∃ assigned', functionalAssignments? theme "accent"
        { value := .arbitrary (hinted "color" v), modifier, negative } = some assigned' ∧
      assigned' ≠ [] ∧ (assigned' = assigned ↔ ¬IsFadedWidth "accent" v modifier) := by
  have hcolor : isLength (.arbitrary (hinted "color" v)) = false := rfl
  have htext : arbitraryText v ≠ [] := Guarded.arbitraryText_ne_nil hne
  have hself := mixed_eq_self_iff modifier htext (arbitraryText_ne_of_unfit hunfit)
  obtain ⟨color, hmixed⟩ := exists_mixed modifier htext
  rw [accent_assignments?] at h
  dsimp only at h
  rw [accent_assignments?]
  dsimp only
  rw [hcolor, if_neg Bool.false_ne_true, color?_hinted, hmixed]
  split_ifs at h ⊢ with hneg hlength
  · cases h
    refine ⟨accent color, rfl, List.cons_ne_nil _ _, ?_⟩
    have hsame : accent color = accent (arbitraryText v) ↔ mixed modifier (arbitraryText v)
        = some (arbitraryText v) := by simp [accent, hmixed]
    exact hsame.trans (hself.trans (by simp [IsFadedWidth, hlength]))
  · obtain ⟨t, hv, rfl⟩ := Option.map_eq_some_iff.1 h
    obtain rfl : color = t := Option.some.inj (hmixed.symm.trans (mixed_of_color? hv))
    exact ⟨accent color, rfl, List.cons_ne_nil _ _, by simp [IsFadedWidth, hlength]⟩

/-- A hint changes nothing of what is assigned, but for a width where the root expects a colour. -/
theorem functionalAssignments?_hinted (hexpected : expectedType? root = some type)
    (h : functionalAssignments? theme root { value := .arbitrary v, modifier, negative }
      = some assigned)
    (hfilled : assigned ≠ []) (hne : v.value ≠ [])
    (hunfit : Arbitrary.isValid v.value type = false) :
    ∃ assigned', functionalAssignments? theme root
        { value := .arbitrary (hinted type v), modifier, negative } = some assigned' ∧
      assigned' ≠ [] ∧ (assigned' = assigned ↔ ¬IsFadedWidth root v modifier) := by
  obtain ⟨-, -, ⟨rfl, rfl⟩ | ⟨scheme, hscheme, htakes⟩⟩ := expectedType?_cases hexpected
  · exact accent_hinted h hne hunfit
  · have hroot : root ≠ "accent" := by
      rintro rfl
      rw [Scheme.ofRoot?_accent] at hscheme
      cases hscheme
      simp [Scheme.ignoresType, Scheme.takesColor] at htakes
    have hsame : functionalAssignments? theme root
        { value := .arbitrary (hinted type v), modifier, negative } = some assigned := by
      rw [functionalAssignments?_eq hscheme] at h ⊢
      dsimp only at h ⊢
      split_ifs at h ⊢
      obtain hignores | ⟨rfl, hcolor⟩ := htakes
      · rw [Scheme.assignments?_hinted hignores, h]
      · obtain ⟨property, hassign⟩ := Scheme.assignments?_color hcolor
        rw [hassign] at h ⊢
        obtain ⟨color, hv, rfl⟩ := Option.map_eq_some_iff.1 h
        rw [color?_hinted, mixed_of_color? hv]
        rfl
    exact ⟨assigned, hsame, hfilled, iff_of_true rfl fun hfaded => hroot hfaded.1⟩

/-! ## The same token behind a hint -/

/-- The candidate with its arbitrary value behind a hint. -/
def withHint (type : Text) (c : Candidate) : Candidate :=
  match c.utility with
  | .functional root (.arbitrary v) m =>
    { c with utility := .functional root (.arbitrary (hinted type v)) m }
  | _ => c

theorem withHint_eq {c : Candidate} (hc : c.utility = .functional root (.arbitrary v) modifier) :
    withHint type c
      = { c with utility := .functional root (.arbitrary (hinted type v)) modifier } := by
  rw [withHint, hc]

/-- Behind the hint that is suggested for it, a value has declarations as well, and the same ones
but for a width where the root expects a colour. -/
theorem declarations?_withHint {c : Candidate} {ds : List Declaration}
    (hc : c.utility = .functional root (.arbitrary v) modifier)
    (hexpected : expectedType? root = some type) (hne : v.value ≠ [])
    (hunfit : Arbitrary.isValid v.value type = false) (hds : declarations? theme c = some ds) :
    ∃ ds', declarations? theme (withHint type c) = some ds' ∧
      (ds' = ds ↔ ¬IsFadedWidth root v modifier) := by
  obtain ⟨assigned, hassigned, hfilled, rfl⟩ := declarations?_eq_some_iff.1 hds
  rw [assignments?_functional hc] at hassigned
  obtain ⟨assigned', hassigned', hfilled', hsame⟩ :=
    functionalAssignments?_hinted hexpected hassigned hfilled hne hunfit
  rw [withHint_eq hc]
  refine ⟨declared c.important assigned', declarations?_eq_some_iff.2 ⟨assigned', ?_, hfilled', rfl⟩,
    (declared_injective _).eq_iff.trans hsame⟩
  exact (assignments?_functional rfl).trans hassigned'

/-! ## Findings -/

/-- What a report of an arbitrary value is about. -/
structure IsMisfit (theme : Theme) (c : Candidate) (root : Text) (v : Decoded)
    (modifier : Option Modifier) (type : Text) : Prop where
  utility : c.utility = .functional root (.arbitrary v) modifier
  expected : expectedType? root = some type
  unfit : Arbitrary.isValid v.value type = false
  declares : ∃ ds, declarations? theme c = some ds

variable {context : SelectorContext} {selector key token : Text} {c : Candidate} {x : Diagnostic}

theorem declarationsOf?_functional {value : Value}
    (hc : c.utility = .functional root value modifier) :
    declarationsOf? theme c = declarations? theme c := by
  rw [declarationsOf?, hc]

theorem isMarker_functional {value : Value} (hc : c.utility = .functional root value modifier) :
    isMarker c = false := by
  rw [isMarker, hc]

theorem of_mem_misfits (hx : x ∈ misfits key token c) : ∃ root v modifier type,
    c.utility = .functional root (.arbitrary v) modifier ∧ expectedType? root = some type ∧
      Arbitrary.isValid v.value type = false ∧
      x = invalidArbitraryValue key token root v.value type := by
  rw [misfits] at hx
  split at hx
  · rename_i v type hexpectation
    split_ifs at hx with hvalid
    · cases hx
    · rw [expectation?] at hexpectation
      split at hexpectation
      · rename_i root v' modifier hutility
        obtain ⟨type', hexpected, hpair⟩ := Option.map_eq_some_iff.1 hexpectation
        cases hpair
        rw [hutility] at hx
        exact ⟨root, v, modifier, type, hutility, hexpected, by simpa using hvalid,
          List.mem_singleton.1 hx⟩
      · cases hexpectation
  · cases hx

/-- A report of an arbitrary value is about a value that has declarations, but is not of the type
that is expected. -/
theorem of_mem_findings {p : Text × Option Candidate} (hx : x ∈ findings context selector key p)
    (hrule : x.rule = "invalid-arbitrary-value") : ∃ c root v modifier type,
      p.2 = some c ∧ IsMisfit context.theme c root v modifier type ∧
        x = invalidArbitraryValue key p.1 root v.value type := by
  obtain ⟨t, c⟩ := p
  cases c with
  | none =>
    rw [List.mem_singleton.1 hx] at hrule
    exact absurd hrule (by change "unparseable-class".toList ≠ _; decide)
  | some c =>
    rw [findings] at hx
    split_ifs at hx with hmarker
    · cases hx
    · split at hx
      · rw [List.mem_singleton.1 hx] at hrule
        exact absurd hrule (by change "no-css".toList ≠ _; decide)
      · rename_i ds hds
        rcases List.mem_append.1 hx with hx | hx
        · obtain ⟨root, v, modifier, type, hutility, hexpected, hunfit, rfl⟩ := of_mem_misfits hx
          rw [declarationsOf?_functional hutility] at hds
          exact ⟨c, root, v, modifier, type, rfl, ⟨hutility, hexpected, hunfit, ds, hds⟩, rfl⟩
        · split at hx
          · rw [List.mem_singleton.1 hx] at hrule
            exact absurd hrule (by change "unsupported-variant".toList ≠ _; decide)
          · cases hx

/-- Such a value is reported. -/
theorem IsMisfit.mem_findings (h : IsMisfit context.theme c root v modifier type)
    (selector key token : Text) : invalidArbitraryValue key token root v.value type
      ∈ findings context selector key (token, some c) := by
  obtain ⟨ds, hds⟩ := h.declares
  have hmisfits : misfits key token c
      = [invalidArbitraryValue key token root v.value type] := by
    rw [misfits, expectation?, h.utility]
    dsimp only
    rw [h.expected]
    dsimp only [Option.map_some]
    rw [h.unfit, if_neg Bool.false_ne_true]
    rfl
  rw [findings, isMarker_functional h.utility, if_neg Bool.false_ne_true,
    declarationsOf?_functional h.utility, hds, hmisfits]
  exact List.mem_append_left _ (List.mem_singleton_self _)

theorem IsMisfit.withHint (h : IsMisfit theme c root v modifier type) (hne : v.value ≠ []) :
    IsMisfit theme (withHint type c) root (hinted type v) modifier type where
  utility := by rw [withHint_eq h.utility]
  expected := h.expected
  unfit := h.unfit
  declares := by
    obtain ⟨ds, hds⟩ := h.declares
    obtain ⟨ds', hds', -⟩ := declarations?_withHint h.utility h.expected hne h.unfit hds
    exact ⟨ds', hds'⟩

/-- A value that is reported is no custom property in round brackets. -/
theorem IsMisfit.ne_customProperty (h : IsMisfit theme c root v modifier type) (name : Text) :
    v ≠ ⟨customProperty name, some "custom-property"⟩ := by
  rintro rfl
  have hclass : Arbitrary.classify (customProperty name) = some "custom-property" := by
    obtain ⟨-, hclass | ⟨hint, hm, hhint⟩⟩ := isTyped_customProperty name
    · exact hclass.symm
    · rw [← Option.some.inj hhint] at hm
      exact absurd hm (by decide)
  have hunfit := h.unfit
  rw [Arbitrary.isValid, Arbitrary.check, hclass] at hunfit
  cases hunfit

theorem markedName?_functional {marker : Text} {value : Value}
    (hc : c.utility = .functional root value modifier) : markedName? marker c = none := by
  rw [markedName?, hc]

/-- Where the hint changes nothing of what is declared, it changes nothing at all. -/
theorem IsMisfit.doesSame (h : IsMisfit theme c root v modifier type)
    (hsame : declarations? theme (Style.withHint type c) = declarations? theme c) :
    DoesSame theme c (Style.withHint type c) := by
  have hhinted : (Style.withHint type c).utility
      = .functional root (.arbitrary (hinted type v)) modifier := by
    rw [withHint_eq h.utility]
  refine ⟨?_, fun marker => ?_, ?_, ?_⟩
  · rw [isMarker_functional hhinted, isMarker_functional h.utility]
  · rw [markedName?_functional hhinted, markedName?_functional h.utility]
  · rw [declarationsOf?_functional hhinted, declarationsOf?_functional h.utility, hsame]
  · rw [withHint_eq h.utility]

/-! ## Following the suggestion -/

theorem mem_of_mem_bare {content : Text} {a : Char} (h : a ∈ Arbitrary.bare content) :
    a ∈ content := by
  rw [Arbitrary.bare] at h
  cases hhint : Arbitrary.hinted? content with
  | none => rwa [hhint] at h
  | some p =>
    obtain ⟨hint, value⟩ := p
    rw [hhint] at h
    rw [(Arbitrary.hinted?_eq_some_iff.1 hhint).1]
    exact List.mem_append_right _ (List.mem_cons_of_mem _ h)

/-- A token with brackets is one if no part of it holds a blank. -/
theorem isToken_bracketed_iff {lead content tail : Text} :
    IsToken (lead ++ (bracketed root content ++ tail)) ↔
      (∀ a ∈ lead, Text.isBlank a = false) ∧ (∀ a ∈ root, Text.isBlank a = false) ∧
        (∀ a ∈ content, Text.isBlank a = false) ∧ ∀ a ∈ tail, Text.isBlank a = false := by
  have hmarks : Text.isBlank '-' = false ∧ Text.isBlank '[' = false ∧ Text.isBlank ']' = false := by
    decide
  rw [IsToken, bracketed]
  simp only [List.append_assoc, List.cons_append, List.nil_append, List.forall_mem_append,
    List.forall_mem_cons, hmarks, true_and]
  exact and_iff_right (by simp)

/-- A token stays one with a hint in its brackets. -/
theorem isToken_hinted {lead content tail : Text}
    (h : IsToken (lead ++ (bracketed root content ++ tail))) (htype : type ∈ Arbitrary.typeHints) :
    IsToken (lead ++ (bracketed root (type ++ ':' :: Arbitrary.bare content) ++ tail)) := by
  have hhints : ∀ hint ∈ Arbitrary.typeHints, hint.any Text.isBlank = false := by decide +kernel
  have hcolon : Text.isBlank ':' = false := by decide
  rw [isToken_bracketed_iff] at h ⊢
  obtain ⟨hlead, hroot, hcontent, htail⟩ := h
  refine ⟨hlead, hroot, ?_, htail⟩
  rw [List.forall_mem_append, List.forall_mem_cons]
  refine ⟨fun a ha => ?_, hcolon, fun a ha => hcontent a (mem_of_mem_bare ha)⟩
  exact Bool.eq_false_iff.2 (List.any_eq_false.1 (hhints type htype) a ha)

variable {o : Options} {styles : Table Text}

/-- A report of an arbitrary value is about one in square brackets, in a token of the styles. -/
theorem of_mem_diagnostics (hx : x ∈ (compile o styles).diagnostics)
    (hrule : x.rule = "invalid-arbitrary-value") :
    ∃ key token classes c root v modifier type, (key, classes) ∈ styles ∧
      token ∈ Text.words classes ∧ Candidate.read? o.designSystem token = some c ∧
      IsMisfit o.theme c root v modifier type ∧
      x = invalidArbitraryValue key token root v.value type := by
  obtain ⟨e, he, p, hp, hfinding⟩ := mem_diagnostics_iff.1 hx
  obtain ⟨c, root, v, modifier, type, hc, hmisfit, rfl⟩ := of_mem_findings hfinding hrule
  obtain ⟨classes, hrow, htokens⟩ := of_mem_entries he
  rw [htokens] at hp
  obtain ⟨token, htoken, rfl⟩ := List.mem_map.1 hp
  exact ⟨e.key, token, classes, c, root, v, modifier, type, hrow, htoken, hc, hmisfit, rfl⟩

/-- With the hint that a report suggests, the token is read as the same candidate behind the hint
and is reported again.  It declares the same, but for a width where the root expects a colour and a
modifier asks for an opacity; where it does, the rules stay as they are. -/
theorem mem_diagnostics_hint (o : Options) (hplain : o.designSystem.HasPlainUtilities)
    (styles : Table Text) (x : Diagnostic) (hx : x ∈ (compile o styles).diagnostics)
    (hrule : x.rule = "invalid-arbitrary-value") :
    ∃ key token c root v modifier type lead content tail,
      x = invalidArbitraryValue key token root v.value type ∧ type ∈ Arbitrary.typeHints ∧
      Candidate.read? o.designSystem token = some c ∧
      c.utility = .functional root (.arbitrary v) modifier ∧
      token = lead ++ (bracketed root content ++ tail) ∧ Arbitrary.decode content = some v ∧
      let fixed := lead ++ (bracketed root (type ++ ':' :: Arbitrary.bare content) ++ tail)
      let styles' := replaceToken key token fixed styles
      Candidate.read? o.designSystem fixed = some (withHint type c) ∧
      invalidArbitraryValue key fixed root v.value type ∈ (compile o styles').diagnostics ∧
      (declarations? o.theme (withHint type c) = declarations? o.theme c
        ↔ ¬IsFadedWidth root v modifier) ∧
      (present o.pattern = none → ¬IsFadedWidth root v modifier →
        (compile o styles').rules = (compile o styles).rules) := by
  obtain ⟨key, token, classes, c, root, v, modifier, type, hrow, htoken, hread, hmisfit, rfl⟩ :=
    of_mem_diagnostics hx hrule
  obtain ⟨hroot, htype, -⟩ := expectedType?_cases hmisfit.expected
  obtain ⟨lead, content, tail, rfl, hdecode, hclosed, hreads⟩ :=
    Candidate.exists_bracketed hplain hread hmisfit.utility hroot hmisfit.ne_customProperty
  have hne : v.value ≠ [] := (Arbitrary.isTyped_of_decode hdecode).1
  have hfixed : Candidate.read? o.designSystem
      (lead ++ (bracketed root (type ++ ':' :: Arbitrary.bare content) ++ tail))
        = some (withHint type c) := by
    obtain ⟨hdecode', hclosed'⟩ := Arbitrary.decode_bare hdecode hclosed htype
    rw [hreads _ _ hdecode' hclosed', withHint_eq hmisfit.utility]
    rfl
  have hword := isToken_hinted (Text.of_mem_words htoken) htype
  have hsame : declarations? o.theme (withHint type c) = declarations? o.theme c
      ↔ ¬IsFadedWidth root v modifier := by
    obtain ⟨ds, hds⟩ := hmisfit.declares
    obtain ⟨ds', hds', hiff⟩ :=
      declarations?_withHint hmisfit.utility hmisfit.expected hne hmisfit.unfit hds
    rw [hds, hds', Option.some.injEq, hiff]
  refine ⟨key, _, c, root, v, modifier, type, lead, content, tail, rfl, htype, hread,
    hmisfit.utility, rfl, hdecode, hfixed, ?_, hsame, fun hpattern hfaded => ?_⟩
  · refine mem_diagnostics_replaceToken hrow htoken hword fun context selector htheme => ?_
    rw [hfixed]
    have hmisfit' : IsMisfit context.theme c root v modifier type := by rwa [htheme]
    exact (hmisfit'.withHint hne).mem_findings selector key _
  · exact rules_replaceToken hread hfixed (hmisfit.doesSame (hsame.2 hfaded)) hpattern hword

/-- Options that know widths only. -/
def widthOptions : Options where
  designSystem :=
    { staticUtilities := [], functionalUtilities := ["w"], staticVariants := []
      functionalVariants := [], compoundVariants := [] }

/-- A width that is no length is reported, and is reported with the hint as well. -/
theorem mem_diagnostics_hint_redWidth :
    invalidArbitraryValue "a" "w-[red]" "w" "red" "length"
      ∈ (compile widthOptions [("a", "w-[red]")]).diagnostics ∧
    ∃ key fixed root value type, type ∈ Arbitrary.typeHints ∧
      invalidArbitraryValue key fixed root value type
        ∈ (compile widthOptions (replaceToken key "w-[red]" fixed [("a", "w-[red]")])).diagnostics := by
  have hx : invalidArbitraryValue "a" "w-[red]" "w" "red" "length"
      ∈ (compile widthOptions [("a", "w-[red]")]).diagnostics := by decide +kernel
  obtain ⟨key, token, c, root, v, modifier, type, lead, content, tail, hreport, htype, -, -, -, -,
    -, hagain, -, -⟩ := mem_diagnostics_hint widthOptions (by decide) _ _ hx rfl
  have htoken : some "w-[red]".toList = some token := congrArg Diagnostic.token hreport
  rw [← Option.some.inj htoken] at hagain
  exact ⟨hx, key, _, root, v.value, type, htype, hagain⟩

/-- The hint for a length does not silence the report of a width that is a colour. -/
theorem diagnostics_lengthRed :
    (compile {} [("a", "w-[red]")]).diagnostics
        = [invalidArbitraryValue "a" "w-[red]" "w" "red" "length"] ∧
      (compile {} [("a", "w-[length:red]")]).diagnostics
        = [invalidArbitraryValue "a" "w-[length:red]" "w" "red" "length"] := by
  decide +kernel

end SkinCompiler.Style
