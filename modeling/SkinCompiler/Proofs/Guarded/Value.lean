import SkinCompiler.Proofs.Candidate.WellFormed
import SkinCompiler.Proofs.Guarded.Basic
import SkinCompiler.Style.FunctionalUtility
import SkinCompiler.Style.Selector

/-!
# Values with guarded operations

What the value of a utility stands for, with the operations guarded that it is found by: the first
character of a size whose opposite is taken, the numbers that numerals denote, quotients, colours
that are looked up, and the types that only arbitrary values have.

* `signed_eq` -- an opposite is taken of a size that is not empty;
* `spacing_eq`, `color_eq`, `isLength_eq` -- sizes, colours and lengths;
* `ne_nil_of_spacing?` and its like -- what sizes are read as is not empty.
-/

namespace SkinCompiler.Guarded

open Text Style

variable {theme : Theme} {keywords scale : Table Text} {v : Value} {t : Text}

/-! ## Sizes -/

/-- The opposite of a size. -/
def opposite (t : Text) : Guarded Text := do
  if t = ['0'] || t = "0px".toList || t = "auto".toList then return t
  else if startsWith t ['-'] then return t.drop 1
  else if isDigit (← element t 0) || (← element t 0) == '.' then return '-' :: t
  else return "calc(" ++ t ++ " * -1)"

/-- The opposite of a size, if it is wanted. -/
def signed (negative : Bool) (t : Text) : Guarded Text := if negative then opposite t else return t

/-- The two numerals around a slash; a line feed may follow. -/
def fractionParts? (t : Text) : Option (Text × Text) :=
  match cut '/' (chomp t) with
  | [a, b] =>
    if !a.isEmpty && !b.isEmpty && a.all isDecimal && b.all isDecimal then some (a, b) else none
  | _ => none

/-- A quotient of two numerals in percent, unless the divisor is zero. -/
def percent (a b : Text) : Guarded (Option Text) := do
  if (← number b).isZero then return none
  else
    let q ← quotient (← number a) (← number b)
    return some (numeral (q.mul (.ofNat 100)) ++ "%")

/-- A value on the scale of spacing. -/
def spacing (theme : Theme) (keywords : Table Text) (v : Value) : Guarded (Option Text) :=
  match v with
  | .arbitrary d => return some (arbitraryText d)
  | .named name _ => do
    match ← found? name keywords with
    | some t => return some t
    | none =>
      if name = "px".toList then return some "1px"
      else match fractionParts? ((present (← fraction v)).getD name) with
        | some (a, b) => percent a b
        | none => match ← numbered? name with
          | none => return none
          | some x =>
            if !(x.mul (.ofNat 4)).isWhole then return none
            else if x.isZero then return some "0px"
            else return some (numeral (x.mul theme.spacing) ++ "rem")

theorem opposite_eq (h : t ≠ []) : opposite t = .ok (Style.opposite t) := by
  unfold opposite Style.opposite
  by_cases hsame : (t = ['0'] || t = "0px".toList || t = "auto".toList) = true
  · rw [if_pos hsame, if_pos hsame, pure_eq_ok]
  · rw [if_neg hsame, if_neg hsame]
    clear hsame
    obtain ⟨c, t, rfl⟩ := List.exists_cons_of_ne_nil h
    by_cases hc : c = '-'
    · subst hc
      rw [if_pos (startsWith_singleton.2 rfl)]
      rfl
    · have hminus : startsWith (c :: t) ['-'] ≠ true := by
        rw [Ne, startsWith_singleton]
        simpa using hc
      rw [if_neg hminus]
      simp only [element_zero, ok_bind, pure_eq_ok]
      rw [← apply_ite Except.ok]

theorem signed_eq {negative : Bool} (h : t ≠ []) :
    signed negative t = .ok (Scheme.signed negative t) := by
  rw [signed, Scheme.signed]
  split_ifs
  · exact opposite_eq h
  · rfl

/-! ### Fractions -/

theorem fraction?_eq (t : Text) : fraction? t =
    (fractionParts? t).map fun (a, b) => (.ofNumeral a, .ofNumeral b) := by
  rw [fraction?, fractionParts?]
  match cut '/' (chomp t) with
  | [] => rfl
  | [_] => rfl
  | [a, b] =>
    dsimp only
    split_ifs <;> rfl
  | _ :: _ :: _ :: _ => rfl

theorem digits_of_fractionParts? {a b : Text} (h : fractionParts? t = some (a, b)) :
    number a = .ok (.ofNumeral a) ∧ number b = .ok (.ofNumeral b) := by
  rw [fractionParts?] at h
  split at h
  · split_ifs at h with hdigits
    cases h
    simp only [Bool.and_eq_true, Bool.not_eq_true', List.isEmpty_eq_false_iff, List.all_eq_true]
      at hdigits
    obtain ⟨⟨⟨ha, hb⟩, hda⟩, hdb⟩ := hdigits
    exact ⟨number_of_digits (strip_of_digits hda) ha hda,
      number_of_digits (strip_of_digits hdb) hb hdb⟩
  · cases h

/-- The divisor of a fraction is compared with zero before it divides. -/
theorem percent_eq {a b : Text} (ha : number a = .ok (.ofNumeral a))
    (hb : number b = .ok (.ofNumeral b)) :
    percent a b = .ok (percent? (.ofNumeral a) (.ofNumeral b)) := by
  rw [percent, percent?, ha, hb]
  simp only [ok_bind, pure_eq_ok]
  split_ifs with hzero
  · rfl
  · rw [quotient_of_ne_zero (by simpa using hzero)]
    rfl

/-- A named value is a fraction, or a number before it is converted. -/
@[simp] theorem spacing_eq (theme : Theme) (keywords : Table Text) (v : Value) :
    spacing theme keywords v = .ok (spacing? theme keywords v) := by
  cases v with
  | arbitrary d => rfl
  | named name f =>
    rw [spacing, spacing?, namedSpacing?, found?_eq, fraction?_eq]
    simp only [fraction_named, ok_bind, pure_eq_ok]
    cases Table.get? name keywords with
    | some t => rfl
    | none =>
      dsimp only
      by_cases hpixel : name = "px".toList
      · rw [if_pos hpixel, if_pos hpixel]
      · rw [if_neg hpixel, if_neg hpixel]
        cases hparts : fractionParts? ((present f).getD name) with
        | some p =>
          obtain ⟨a, b⟩ := p
          obtain ⟨ha, hb⟩ := digits_of_fractionParts? hparts
          exact percent_eq ha hb
        | none =>
          simp only [numbered?_eq, ok_bind]
          cases number? name with
          | none => rfl
          | some x =>
            dsimp only
            split_ifs <;> rfl

/-- The line height of a font size. -/
def lineHeight (theme : Theme) (own : Text) : Option Modifier → Guarded Text
  | none => return own
  | some (.named t) => return (present (← spacing theme [] (.named t none))).getD own
  | some (.arbitrary t) | some (.other t) => return (present (some t)).getD own

@[simp] theorem lineHeight_eq (theme : Theme) (own : Text) (m : Option Modifier) :
    lineHeight theme own m = .ok (Scheme.lineHeight theme own m) := by
  match m with
  | none => rfl
  | some (.named t) =>
    rw [lineHeight, spacing_eq]
    rfl
  | some (.arbitrary _) => rfl
  | some (.other _) => rfl

/-! ## Lengths and colours -/

/-- The value is a length, or a number that counts as one. -/
def isLength (v : Value) : Guarded Bool :=
  match v with
  | .arbitrary _ => return (← dataType v).any fun t =>
      (["length", "percentage", "number"] : List Text).contains t
  | .named name _ => return isNumber name

/-- The opacity that a modifier stands for. -/
def opacity : Option Modifier → Guarded (Option Text)
  | none => return none
  | some (.arbitrary t) => do
    if t.getLast? = some '%' then return some t
    else match ← numbered? t with
      | some x => return some (numeral (if x.atMost 1 then x.mul (.ofNat 100) else x) ++ "%")
      | none => return some t
  | some (.named t) | some (.other t) => return (← numbered? t).map fun x => numeral x ++ "%"

/-- The family that stands before the last hyphen of a name, with the shade after it. -/
def family (theme : Theme) (name : Text) : Guarded (Option (Table Text × Text)) :=
  match lastHalves? '-' name with
  | none => return none
  | some (family, shade) => do
    if family.isEmpty then return none
    else return (← found? family theme.colors).map fun shades => (shades, shade)

/-- A colour by its name. -/
def namedColor (theme : Theme) (name : Text) : Guarded (Option Text) := do
  match ← found? name theme.specialColors with
  | some value => return some value
  | none => match ← family theme name with
    | some (shades, shade) => return Table.get? shade shades
    | none => return (Table.get? name theme.colors).bind (Table.get? Theme.onlyShade)

/-- The colour that a value stands for, without its opacity. -/
def plainColor (theme : Theme) (v : Value) : Guarded (Option Text) :=
  match v with
  | .arbitrary d => do
    if (← dataType v).all fun t => (["color", "custom-property"] : List Text).contains t then
      return some (arbitraryText d)
    else return none
  | .named name _ => namedColor theme name

/-- The colour that a value stands for, with the opacity of a modifier mixed in. -/
def color (theme : Theme) (v : Value) (modifier : Option Modifier) : Guarded (Option Text) := do
  match ← plainColor theme v with
  | none => return none
  | some color => match ← opacity modifier with
    | none => return present color
    | some alpha =>
      if color = "transparent".toList || color = "inherit".toList then return some color
      else return some ("color-mix(in oklab, " ++ color ++ " " ++ alpha ++ ", transparent)")

@[simp] theorem isLength_eq (v : Value) : isLength v = .ok (Style.isLength v) := by
  cases v <;> rfl

@[simp] theorem opacity_eq (m : Option Modifier) : opacity m = .ok (m.bind opacity?) := by
  match m with
  | none => rfl
  | some (.arbitrary t) =>
    rw [opacity, Option.bind_some, opacity?]
    split_ifs
    · rfl
    · simp only [numbered?_eq, ok_bind]
      cases number? t <;> rfl
  | some (.named t) => simp [opacity, opacity?]
  | some (.other t) => simp [opacity, opacity?]

@[simp] theorem namedColor_eq (theme : Theme) (name : Text) :
    namedColor theme name = .ok (theme.color? name) := by
  rw [namedColor, Theme.color?, family]
  simp only [found?_eq, ok_bind, pure_eq_ok]
  cases Table.get? name theme.specialColors with
  | some value => rfl
  | none =>
    cases lastHalves? '-' name with
    | none => rfl
    | some p =>
      obtain ⟨family, shade⟩ := p
      simp only [Option.bind_some]
      cases family.isEmpty with
      | true => rfl
      | false => cases Table.get? family theme.colors <;> rfl

@[simp] theorem plainColor_eq (theme : Theme) (v : Value) :
    plainColor theme v = .ok (plainColor? theme v) := by
  cases v with
  | arbitrary d =>
    simp only [plainColor, plainColor?, dataType_arbitrary, ok_bind, pure_eq_ok]
    split_ifs <;> rfl
  | named name f => exact namedColor_eq theme name

@[simp] theorem color_eq (theme : Theme) (v : Value) (m : Option Modifier) :
    color theme v m = .ok (color? theme v m) := by
  rw [color, color?, plainColor_eq]
  simp only [ok_bind, pure_eq_ok]
  cases plainColor? theme v with
  | none => rfl
  | some plain =>
    simp only [opacity_eq, ok_bind]
    cases m.bind opacity? with
    | none => rfl
    | some alpha =>
      dsimp only
      split_ifs <;> rfl

/-! ## What is not empty -/

/-- No value of a table is empty. -/
def IsFilled (t : Table Text) : Prop := ∀ p ∈ t, p.2 ≠ []

/-- An arbitrary value is not empty. -/
def IsGiven (v : Value) : Prop := ∀ d, v = .arbitrary d → d.value ≠ []

instance (t : Table Text) : Decidable (IsFilled t) :=
  inferInstanceAs (Decidable (∀ p ∈ t, p.2 ≠ []))

theorem IsFilled.get? (h : IsFilled scale) {key : Text} (hk : Table.get? key scale = some t) :
    t ≠ [] := h _ (Table.mem_of_get? hk)

theorem IsFilled.set (h : IsFilled scale) (key : Text) (ht : t ≠ []) :
    IsFilled (Table.set key t scale) := by
  induction scale with
  | nil => simpa [IsFilled, Table.set] using ht
  | cons p scale ih =>
    obtain ⟨k, v⟩ := p
    obtain ⟨hv, hrest⟩ := List.forall_mem_cons.1 h
    rw [Table.set]
    split_ifs
    · exact List.forall_mem_cons.2 ⟨ht, hrest⟩
    · exact List.forall_mem_cons.2 ⟨hv, ih hrest⟩

theorem IsFilled.setAll (h : IsFilled scale) {entries : Table Text} (he : IsFilled entries) :
    IsFilled (scale.setAll entries) := by
  induction entries generalizing scale with
  | nil => exact h
  | cons p entries ih =>
    obtain ⟨hp, hrest⟩ := List.forall_mem_cons.1 he
    exact ih (h.set p.1 hp) hrest

theorem ne_nil_of_present {o : Option Text} (h : present o = some t) : t ≠ [] := by
  simpa using (Option.filter_eq_some_iff.1 h).2

theorem present_eq_self (h : t ≠ []) : present (some t) = some t := by
  rw [present, Option.filter_some_pos (by simpa using h)]

theorem underscoresToSpaces_ne_nil (h : t ≠ []) : Arbitrary.underscoresToSpaces t ≠ [] := by
  unfold Arbitrary.underscoresToSpaces
  split
  · exact List.cons_ne_nil _ _
  · exact List.cons_ne_nil _ _
  · exact absurd rfl h

theorem arbitraryText_ne_nil {d : Arbitrary.Decoded} (h : d.value ≠ []) : arbitraryText d ≠ [] := by
  rw [arbitraryText]
  split_ifs
  · exact h
  · exact underscoresToSpaces_ne_nil h

theorem ne_nil_of_scaled? (hv : IsGiven v) (hs : IsFilled scale) (h : scaled? scale v = some t) :
    t ≠ [] := by
  cases v with
  | arbitrary d =>
    cases h
    exact arbitraryText_ne_nil (hv d rfl)
  | named name f => exact hs.get? h

theorem ne_nil_of_spacing? (hv : IsGiven v) (hs : IsFilled keywords)
    (h : spacing? theme keywords v = some t) : t ≠ [] := by
  cases v with
  | arbitrary d =>
    cases h
    exact arbitraryText_ne_nil (hv d rfl)
  | named name f =>
    rw [spacing?, namedSpacing?] at h
    split at h
    · rename_i hk
      cases h
      exact hs.get? hk
    · split_ifs at h
      · cases h
        exact List.cons_ne_nil _ _
      · split at h
        · rw [percent?] at h
          split_ifs at h
          cases h
          exact List.append_ne_nil_of_right_ne_nil _ (List.cons_ne_nil _ _)
        · split at h
          · cases h
          · split_ifs at h <;> cases h
            · exact List.cons_ne_nil _ _
            · exact List.append_ne_nil_of_right_ne_nil _ (List.cons_ne_nil _ _)

theorem ne_nil_of_digits? (hv : IsGiven v) (hs : IsFilled keywords)
    (h : Scheme.digits? keywords id v = some t) : t ≠ [] := by
  cases v with
  | arbitrary d =>
    cases h
    exact arbitraryText_ne_nil (hv d rfl)
  | named name f =>
    rw [Scheme.digits?] at h
    split at h
    · rename_i hk
      cases h
      exact hs.get? hk
    · split_ifs at h with hd
      cases h
      rw [isDigits, Bool.and_eq_true, Bool.not_eq_true', List.isEmpty_eq_false_iff] at hd
      exact hd.1

theorem ne_nil_of_measured? {unit : Text} (hv : IsGiven v) (hu : unit ≠ [])
    (h : Scheme.measured? unit v = some t) : t ≠ [] := by
  cases v with
  | arbitrary d =>
    cases h
    exact arbitraryText_ne_nil (hv d rfl)
  | named name f =>
    rw [Scheme.measured?] at h
    split_ifs at h
    cases h
    exact List.append_ne_nil_of_right_ne_nil name hu

theorem lengthText_ne_nil {unit : Text} (hv : IsGiven v) (hu : unit ≠ []) :
    lengthText unit v ≠ [] := by
  cases v with
  | arbitrary d => exact arbitraryText_ne_nil (hv d rfl)
  | named name f => exact List.append_ne_nil_of_right_ne_nil name hu

end SkinCompiler.Guarded
