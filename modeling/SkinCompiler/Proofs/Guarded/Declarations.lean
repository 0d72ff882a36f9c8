import SkinCompiler.Proofs.Guarded.Value
import SkinCompiler.Style.Declarations

/-!
# Declarations with guarded operations

The declarations of a candidate, with guarded operations.  Where several roots follow one scheme,
its parameter for a root stands in a table, `column`, and is looked up there.

* `assignments_eq` -- the schemes, one by one;
* `declarations_eq` -- every candidate whose utility is well formed.
-/

namespace SkinCompiler.Guarded

open Text Style

variable {α : Type} {theme : Theme} {root t : Text} {s : Setting} {scheme : Scheme}

/-! ## Tables by root -/

/-- The schemes of all roots. -/
def schemes : Table Scheme :=
  Scheme.spacingSchemes ++ Scheme.sizeSchemes ++ Scheme.boxSchemes ++ Scheme.layoutSchemes
    ++ Scheme.effectSchemes

/-- A parameter of the schemes by root, for the roots whose schemes have it. -/
def column (parameter? : Scheme → Option α) : Table α :=
  schemes.filterMap fun (root, scheme) => (parameter? scheme).map fun a => (root, a)

/-- The properties of the roots that take a size. -/
def spacingProperties : Table (List Text) := column fun
  | .spacing properties _ _ => some properties
  | _ => none

/-- The corners that a root makes round. -/
def radiusCorners : Table (List Text) := column fun
  | .radius properties => some properties
  | _ => none

/-- The sides that a root gives a border. -/
def borderSides : Table (List Text) := column fun
  | .border sides => some sides
  | _ => none

theorem get?_filterMap {β : Type} {parameter? : α → Option β} {b : β} {table : Table α} {a : α}
    (h : Table.get? root table = some a) (hb : parameter? a = some b) :
    Table.get? root (table.filterMap fun (root, a) => (parameter? a).map fun b => (root, b))
      = some b := by
  induction table with
  | nil => cases h
  | cons p table ih =>
    obtain ⟨key, a'⟩ := p
    rw [Table.get?_cons] at h
    split_ifs at h with hkey
    · cases h
      rw [List.filterMap_cons_some (by simpa using ⟨b, hb, rfl⟩), Table.get?_cons, if_pos hkey]
    · cases hb' : parameter? a' with
      | none =>
        rw [List.filterMap_cons_none (by simp [hb'])]
        exact ih h
      | some b' =>
        rw [List.filterMap_cons_some (by simpa using ⟨b', hb', rfl⟩), Table.get?_cons, if_neg hkey]
        exact ih h

/-- A root whose scheme has a parameter is in the table of that parameter. -/
theorem value_column {parameter? : Scheme → Option α} {a : α}
    (h : Scheme.ofRoot? root = some scheme) (ha : parameter? scheme = some a) :
    value root (column parameter?) = .ok a := value_of_get? (get?_filterMap h ha)

/-- The keywords of a scheme. -/
def keywords : Scheme → Table Text
  | .spacing _ keywords _ | .integer _ keywords => keywords
  | _ => []

theorem keywords_filled : ∀ p ∈ schemes, IsFilled (keywords p.2) := by decide

/-! ## Schemes -/

/-- What a size is assigned to, with its opposite if that is wanted. -/
def sized (negative : Bool) (size : Option Text) (assign : Text → Assignments) :
    Guarded (Option Assignments) :=
  match size with
  | none => return none
  | some t => return some (assign (← signed negative t))

/-- What a colour is assigned to. -/
def colored (theme : Theme) (s : Setting) (assign : Text → Assignments) :
    Guarded (Option Assignments) :=
  return (← color theme s.value s.modifier).map assign

/-- A background. -/
def background (theme : Theme) (s : Setting) : Guarded (Option Assignments) :=
  let color := colored theme s fun c => [("background-color", c)]
  match s.value with
  | .arbitrary d => do
    if (← dataType s.value).any fun t => (["url", "image"] : List Text).contains t then
      return some [("background-image", arbitraryText d)]
    else color
  | .named name _ =>
    if name = "none".toList then return some [("background-image", "none")] else color

/-- A font size or the colour of a text. -/
def text (theme : Theme) (s : Setting) : Guarded (Option Assignments) :=
  let color := colored theme s fun c => [("color", c)]
  match s.value with
  | .arbitrary d => do
    if (← dataType s.value).any fun t =>
        (["length", "percentage", "number", "absolute-size", "relative-size"] :
          List Text).contains t then
      return some [("font-size", arbitraryText d)]
    else color
  | .named name _ => do
    match ← found? name theme.fontSizes with
    | some (size, height) =>
      return some [("font-size", size), ("line-height", ← lineHeight theme height s.modifier)]
    | none => color

/-- A font weight or a font family. -/
def font (theme : Theme) (v : Value) : Guarded (Option Assignments) :=
  match v with
  | .arbitrary d => do
    if (← dataType v) = some "number".toList then return some [("font-weight", d.value)]
    else return some [("font-family", arbitraryText d)]
  | .named name _ => do
    match ← found? name theme.fontWeights with
    | some weight => return some [("font-weight", weight)]
    | none => return (← found? name theme.fontFamilies).map fun family => [("font-family", family)]

/-- A shadow or its colour. -/
def shadow (theme : Theme) (property : Text) (scale : Table Text) (colorProperty : Text)
    (function : Option Text) (s : Setting) : Guarded (Option Assignments) :=
  let wrap (t : Text) : Text := match function with
    | some f => f ++ "(" ++ t ++ ")"
    | none => t
  let color := colored theme s fun c => [(colorProperty, c)]
  match s.value with
  | .arbitrary d => do
    if (← dataType s.value) = some "color".toList then color
    else return some [(property, wrap (arbitraryText d))]
  | .named name _ => do
    match ← found? name scale with
    | some t => return some [(property, wrap t)]
    | none => color

/-- A paint: nothing, a colour, or the width of a stroke. -/
def paint (theme : Theme) (property : Text) (s : Setting) : Guarded (Option Assignments) :=
  let color := colored theme s fun c => [(property, c)]
  match s.value with
  | .arbitrary _ => color
  | .named name _ => do
    if property = "stroke".toList && (← isLength s.value) then
      return some [("stroke-width", name)]
    else if name = "none".toList then return some [(property, "none")]
    else color

/-- The ratios that are known by name. -/
def ratios : Table Text := [("square", "1 / 1"), ("video", "16 / 9"), ("auto", "auto")]

/-- A ratio of sides; that of an arbitrary value is known before a fraction is asked for. -/
def aspect (v : Value) : Guarded (Option Text) := do
  match scaled? ratios v with
  | some t => return present (some t)
  | none => return (present (← fraction v)).map (replace ['/'] " / ")

/-- What a utility that follows a scheme assigns. -/
def assignments (theme : Theme) (root : Text) (s : Setting) :
    Scheme → Guarded (Option Assignments)
  | .spacing _ keywords containers => do
    let properties ← value root spacingProperties
    let size ← spacing theme (Scheme.spacingKeywords theme keywords containers) s.value
    sized s.negative size (Scheme.each properties)
  | .background => background theme s
  | .text => text theme s
  | .font => font theme s.value
  | .leading => do
    match present (scaled? theme.leading s.value) with
    | some t => return some [("line-height", t)]
    | none => return (present (← spacing theme [] s.value)).map fun t => [("line-height", t)]
  | .tracking => sized s.negative (scaled? theme.tracking s.value) fun t => [("letter-spacing", t)]
  | .radius _ => match scaled? theme.radius s.value with
    | none => return none
    | some t => return some (Scheme.each (← value root radiusCorners) t)
  | .border _ => do
    let sides ← value root borderSides
    if ← isLength s.value then
      return some (sides.flatMap fun side =>
        [("border" ++ side ++ "-style", "solid"),
          ("border" ++ side ++ "-width", lengthText "px" s.value)])
    else colored theme s fun c => sides.map fun side => ("border" ++ side ++ "-color", c)
  | .widthOrColor width color => do
    if ← isLength s.value then
      sized s.negative (some (lengthText "px" s.value)) fun t => [(width, t)]
    else colored theme s fun c => [(color, c)]
  | .ring => do
    if ← isLength s.value then
      return some [("box-shadow", "var(--tw-ring-inset,) 0 0 0 " ++ lengthText "px" s.value
        ++ " var(--tw-ring-color, currentColor)")]
    else colored theme s fun c => [("--tw-ring-color", c)]
  | .outline => do
    if ← isLength s.value then
      return some [("outline-style", "solid"), ("outline-width", lengthText "px" s.value)]
    else colored theme s fun c => [("outline-color", c)]
  | .shadow property names color function => shadow theme property (names theme) color function s
  | .opacity => match s.value with
    | .arbitrary d => return some [("opacity", arbitraryText d)]
    | .named name _ => do match ← numbered? name with
      | none => return none
      | some x => return some [("opacity", numeral (← quotient x (.ofNat 100)))]
  | .integer property keywords =>
    sized s.negative (Scheme.digits? keywords id s.value) fun t => [(property, t)]
  | .scale axis => sized s.negative (Scheme.measured? "%" s.value) fun t =>
    match axis with
    | none => [("scale", t)]
    | some a => [("--tw-scale-" ++ a, t),
      ("scale", "var(--tw-scale-x, 100%) var(--tw-scale-y, 100%)")]
  | .rotate => sized s.negative (Scheme.measured? "deg" s.value) fun t => [("rotate", t)]
  | .translate axis => do
    sized s.negative (← spacing theme [("full", "100%")] s.value) fun t =>
      [("--tw-translate-" ++ axis, t),
        ("translate", "var(--tw-translate-x, 0) var(--tw-translate-y, 0)")]
  | .paint property => paint theme property s
  | .gradientStop position => colored theme s fun c => [("--tw-gradient-" ++ position, c)]
  | .aspect => return (← aspect s.value).map fun t => [("aspect-ratio", t)]
  -- the other schemes read their values with operations that are defined everywhere
  | scheme => return scheme.assignments? theme s

theorem sized_eq {negative : Bool} {size : Option Text} (assign : Text → Assignments)
    (h : ∀ t, size = some t → t ≠ []) :
    sized negative size assign = .ok (size.map fun t => assign (Scheme.signed negative t)) := by
  cases size with
  | none => rfl
  | some t =>
    rw [sized, signed_eq (h t rfl)]
    rfl

@[simp] theorem colored_eq (theme : Theme) (s : Setting) (assign : Text → Assignments) :
    colored theme s assign = .ok ((color? theme s.value s.modifier).map assign) := by
  rw [colored, color_eq]
  rfl

theorem background_eq (theme : Theme) (s : Setting) :
    background theme s = .ok (Scheme.backgroundAssignments theme s) := by
  obtain ⟨v, m, negative⟩ := s
  rw [background, Scheme.backgroundAssignments]
  cases v with
  | arbitrary d =>
    simp only [dataType_arbitrary, colored_eq, ok_bind]
    split_ifs <;> rfl
  | named name f =>
    simp only [colored_eq]
    split_ifs <;> rfl

theorem text_eq (theme : Theme) (s : Setting) :
    text theme s = .ok (Scheme.textAssignments theme s) := by
  obtain ⟨v, m, negative⟩ := s
  rw [text, Scheme.textAssignments]
  cases v with
  | arbitrary d =>
    simp only [dataType_arbitrary, colored_eq, ok_bind]
    split_ifs <;> rfl
  | named name f =>
    simp only [found?_eq, lineHeight_eq, colored_eq, ok_bind]
    cases Table.get? name theme.fontSizes <;> rfl

theorem font_eq (theme : Theme) (v : Value) :
    font theme v = .ok (Scheme.fontAssignments theme v) := by
  cases v with
  | arbitrary d =>
    simp only [font, Scheme.fontAssignments, dataType_arbitrary, ok_bind]
    split_ifs <;> rfl
  | named name f =>
    simp only [font, Scheme.fontAssignments, found?_eq, ok_bind]
    cases Table.get? name theme.fontWeights with
    | some weight => rfl
    | none => cases Table.get? name theme.fontFamilies <;> rfl

theorem shadow_eq (theme : Theme) (property : Text) (scale : Table Text) (colorProperty : Text)
    (function : Option Text) (s : Setting) :
    shadow theme property scale colorProperty function s
      = .ok (Scheme.shadowAssignments theme property scale colorProperty function s) := by
  obtain ⟨v, m, negative⟩ := s
  rw [shadow, Scheme.shadowAssignments]
  cases v with
  | arbitrary d =>
    simp only [dataType_arbitrary, colored_eq, ok_bind]
    split_ifs <;> rfl
  | named name f =>
    simp only [found?_eq, colored_eq, ok_bind]
    cases Table.get? name scale <;> rfl

theorem paint_eq (theme : Theme) (property : Text) (s : Setting) :
    paint theme property s = .ok (Scheme.paintAssignments theme property s) := by
  obtain ⟨v, m, negative⟩ := s
  rw [paint, Scheme.paintAssignments]
  cases v with
  | arbitrary d => exact colored_eq theme _ _
  | named name f =>
    have hlength : Style.isLength (.named name f) = isNumber name := rfl
    simp only [isLength_eq, hlength, colored_eq, ok_bind]
    by_cases hstroke : property = "stroke".toList
    · simp only [hstroke, decide_true, Bool.true_and]
      split_ifs <;> rfl
    · simp only [hstroke, decide_false, Bool.false_and, Bool.false_eq_true, if_false]
      split_ifs <;> rfl

theorem get?_ratios (name : Text) : Table.get? name ratios = (Table.get? name
    [("square".toList, "1 / 1"), ("video".toList, "16 / 9"), ("auto".toList, "auto")]).map
      String.toList :=
  Table.get?_map String.toList
    [("square".toList, "1 / 1"), ("video".toList, "16 / 9"), ("auto".toList, "auto")] name

theorem ratios_filled : IsFilled ratios := by decide

@[simp] theorem aspect_eq (v : Value) : aspect v = .ok (Scheme.aspect? v) := by
  cases v with
  | arbitrary d => rfl
  | named name f =>
    rw [aspect, Scheme.aspect?, scaled?]
    cases h : Table.get? name ratios with
    | none =>
      rw [get?_ratios, Option.map_eq_none_iff] at h
      rw [h]
      rfl
    | some t =>
      have hpresent := present_eq_self (ratios_filled.get? h)
      rw [get?_ratios] at h
      obtain ⟨r, hr, rfl⟩ := Option.map_eq_some_iff.1 h
      rw [hr]
      exact congrArg Except.ok hpresent

/-- The scales whose entries have opposites, or become sizes that have, are filled. -/
structure HasSizes (theme : Theme) : Prop where
  /-- The widths of containers. -/
  containers : IsFilled theme.containers
  /-- The letter spacings. -/
  tracking : IsFilled theme.tracking

theorem hasSizes_builtIn : HasSizes .builtIn where
  containers := by decide
  tracking := by decide

/-- Every scheme keeps inside the domains of its operations, for the roots that follow it and for
values that are not empty. -/
theorem assignments_eq (htheme : HasSizes theme) (hroot : Scheme.ofRoot? root = some scheme)
    (hv : IsGiven s.value) :
    assignments theme root s scheme = .ok (scheme.assignments? theme s) := by
  have hkeywords : IsFilled (keywords scheme) := keywords_filled _ (Table.mem_of_get? hroot)
  cases scheme with
  | spacing properties keywords containers =>
    have hproperties : value root spacingProperties = .ok properties := value_column hroot rfl
    simp only [assignments, Scheme.assignments?, hproperties, spacing_eq, ok_bind]
    apply sized_eq
    intro t ht
    refine ne_nil_of_spacing? hv ?_ ht
    rw [Scheme.spacingKeywords]
    split_ifs
    · exact (hkeywords.setAll htheme.containers).set _ (List.cons_ne_nil _ _)
    · exact hkeywords
  | background => exact background_eq theme s
  | text => exact text_eq theme s
  | font => exact font_eq theme s.value
  | leading =>
    simp only [assignments, Scheme.assignments?, spacing_eq, ok_bind]
    cases h : present (scaled? theme.leading s.value) with
    | none => rfl
    | some t =>
      rw [Option.some_or, present_eq_self (ne_nil_of_present h)]
      rfl
  | tracking => exact sized_eq _ fun t ht => ne_nil_of_scaled? hv htheme.tracking ht
  | radius properties =>
    have hcorners : value root radiusCorners = .ok properties := value_column hroot rfl
    simp only [assignments, Scheme.assignments?, hcorners, ok_bind]
    cases scaled? theme.radius s.value <;> rfl
  | border sides =>
    have hsides : value root borderSides = .ok sides := value_column hroot rfl
    simp only [assignments, Scheme.assignments?, hsides, isLength_eq, colored_eq, ok_bind]
    split_ifs <;> rfl
  | widthOrColor width color =>
    simp only [assignments, Scheme.assignments?, isLength_eq, colored_eq, ok_bind]
    split_ifs
    · exact sized_eq _ fun t ht => Option.some.inj ht ▸ lengthText_ne_nil hv (List.cons_ne_nil _ _)
    · rfl
  | ring =>
    simp only [assignments, Scheme.assignments?, isLength_eq, colored_eq, ok_bind]
    split_ifs <;> rfl
  | outline =>
    simp only [assignments, Scheme.assignments?, isLength_eq, colored_eq, ok_bind]
    split_ifs <;> rfl
  | shadow property names color function => exact shadow_eq theme property _ color function s
  | opacity =>
    obtain ⟨v, m, negative⟩ := s
    cases v with
    | arbitrary d => rfl
    | named name f =>
      simp only [assignments, Scheme.assignments?, numbered?_eq, ok_bind]
      cases number? name with
      | none => rfl
      | some x =>
        dsimp only
        rw [quotient_of_ne_zero (by decide)]
        rfl
  | integer property keywords => exact sized_eq _ fun t ht => ne_nil_of_digits? hv hkeywords ht
  | scale axis =>
    cases axis <;> exact sized_eq _ fun t ht => ne_nil_of_measured? hv (List.cons_ne_nil _ _) ht
  | rotate => exact sized_eq _ fun t ht => ne_nil_of_measured? hv (List.cons_ne_nil _ _) ht
  | translate axis =>
    simp only [assignments, Scheme.assignments?, spacing_eq, ok_bind]
    apply sized_eq
    intro t ht
    exact ne_nil_of_spacing? hv (by decide) ht
  | paint property => exact paint_eq theme property s
  | gradientStop position => exact colored_eq theme s _
  | aspect =>
    simp only [assignments, Scheme.assignments?, aspect_eq, ok_bind, pure_eq_ok]
  | _ => rfl

/-! ## Candidates -/

/-- What a utility with a value assigns. -/
def functionalAssignments (theme : Theme) (root : Text) (s : Setting) :
    Guarded (Option Assignments) :=
  match Scheme.ofRoot? root with
  | none => return none
  | some scheme =>
    if s.negative && !Scheme.negatable.contains root then return none
    else assignments theme root s scheme

/-- What a candidate assigns. -/
def candidateAssignments (theme : Theme) (c : Candidate) : Guarded (Option Assignments) :=
  match c.utility with
  | .static root _ => return StaticUtility.assignments? root
  | .property name content _ => return some [(name, arbitraryText content)]
  | .functional root value modifier =>
    functionalAssignments theme root { value, modifier, negative := c.negative }
  | .other root (some value) modifier =>
    functionalAssignments theme root { value, modifier, negative := c.negative }
  | .other _ none _ => return none

/-- The declarations of a candidate. -/
def declarations (theme : Theme) (c : Candidate) : Guarded (Option (List Declaration)) := do
  match ← candidateAssignments theme c with
  | none | some [] => return none
  | some assignments => return some (assignments.map fun (property, value) =>
      { property, value, important := c.important })

theorem functionalAssignments_eq (htheme : HasSizes theme) (hv : IsGiven s.value) :
    functionalAssignments theme root s = .ok (functionalAssignments? theme root s) := by
  rw [functionalAssignments, functionalAssignments?]
  cases hroot : Scheme.ofRoot? root with
  | none => rfl
  | some scheme =>
    dsimp only
    split_ifs
    · rfl
    · exact assignments_eq htheme hroot hv

theorem isGiven_of_isWellFormed {v : Value} {m : Option Modifier} (h : v.IsWellFormed m) :
    IsGiven v := by
  rintro d rfl
  exact h

/-- The declarations of a well-formed utility keep inside the domains of their operations. -/
theorem declarations_eq {d : DesignSystem} {c : Candidate} (htheme : HasSizes theme)
    (hc : c.utility.IsWellFormed d) : declarations theme c = .ok (declarations? theme c) := by
  have hassign : candidateAssignments theme c = .ok (assignments? theme c) := by
    rw [candidateAssignments, assignments?]
    cases hu : c.utility with
    | static root m => rfl
    | property name content m => rfl
    | functional root v m =>
      rw [hu] at hc
      exact functionalAssignments_eq htheme (isGiven_of_isWellFormed hc.2.1)
    | other root v m =>
      rw [hu] at hc
      exact hc.elim
  rw [declarations, declarations?, hassign, ok_bind]
  match assignments? theme c with
  | none => rfl
  | some [] => rfl
  | some (_ :: _) => rfl

/-- An empty value, which no token has, has no opposite. -/
example : declarations .builtIn
    { utility := .functional "m" (.arbitrary ⟨[], none⟩) none, negative := true }
      = .error .noElement := by decide

end SkinCompiler.Guarded
