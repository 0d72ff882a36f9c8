import SkinCompiler.Proofs.Table
import SkinCompiler.Proofs.Text.Basic
import SkinCompiler.Style.Theme

/-!
# Colours added to a theme

A colour of one value is added to a theme as a family of its own.  A name is cut at its last hyphen
before it is looked up as a whole, and a family in front of the hyphen decides alone: a colour whose
name begins with a family and a hyphen is not found by its name.

* `extend_color` -- what an extension by one colour makes of a theme;
* `color?_withColor_self` -- what the added colour is found as;
* `color?_withColor` -- the colours that stay as they were;
* `builtIn_extend_color` -- both for the built-in theme.
-/

namespace SkinCompiler

namespace Theme

variable {theme : Theme} {name other h v : Text}

/-! ## Looking up a colour -/

/-- The family in front of the last hyphen of a name, with the shade behind it, if there is such a
family. -/
def shade? (colors : Table (Table Text)) (name : Text) : Option (Table Text × Text) :=
  (Text.lastHalves? '-' name).bind fun (family, shade) =>
    if family.isEmpty then none
    else (Table.get? family colors).map fun shades => (shades, shade)

theorem color?_eq (theme : Theme) (name : Text) : theme.color? name
    = (Table.get? name theme.specialColors).or (match shade? theme.colors name with
      | some (shades, shade) => Table.get? shade shades
      | none => (Table.get? name theme.colors).bind (Table.get? onlyShade)) := by
  rw [color?]
  cases Table.get? name theme.specialColors <;> rfl

/-! ## Adding a colour -/

/-- The theme with one more colour of a single value. -/
def withColor (theme : Theme) (name h : Text) : Theme :=
  { theme with colors := Table.set name [(onlyShade, h)] theme.colors }

@[simp] theorem withColor_colors (theme : Theme) (name h : Text) :
    (theme.withColor name h).colors = Table.set name [(onlyShade, h)] theme.colors := rfl

@[simp] theorem withColor_specialColors (theme : Theme) (name h : Text) :
    (theme.withColor name h).specialColors = theme.specialColors := rfl

/-- An extension by one colour. -/
def oneColor (name h : Text) : Json := .object [("colors", .object [(name, .text h)])]

theorem extend_color (theme : Theme) (name h : Text) :
    theme.extend (oneColor name h) = .ok (theme.withColor name h) := rfl

/-- Only names in front of whose last hyphen the new name stands are cut in another way. -/
theorem shade?_withColor (hfamily : ∀ shade, Text.lastHalves? '-' other ≠ some (name, shade)) :
    shade? (theme.withColor name h).colors other = shade? theme.colors other := by
  rw [shade?, shade?, withColor_colors]
  cases hcut : Text.lastHalves? '-' other with
  | none => rfl
  | some p =>
    obtain ⟨family, shade⟩ := p
    have hne : name ≠ family := by
      rintro rfl
      exact hfamily shade hcut
    simp only [Option.bind_some, Table.get?_set, if_neg hne]

/-- A name does not stand in front of its own last hyphen. -/
theorem lastHalves?_ne_self (name shade : Text) :
    Text.lastHalves? '-' name ≠ some (name, shade) := by
  intro hcut
  have hlength := congrArg List.length (Text.eq_of_lastHalves? hcut)
  simp only [List.length_append, List.length_cons] at hlength
  omega

/-- The added colour is found by its name, unless a family that was there stands in front of the
last hyphen of the name. -/
theorem color?_withColor_self (hspecial : Table.get? name theme.specialColors = none) :
    (theme.withColor name h).color? name = match shade? theme.colors name with
      | some (shades, shade) => Table.get? shade shades
      | none => some h := by
  have hshade : shade? (theme.withColor name h).colors name = shade? theme.colors name :=
    shade?_withColor (lastHalves?_ne_self name)
  have hflat : (Table.get? name (theme.withColor name h).colors).bind (Table.get? onlyShade)
      = some h := by
    rw [withColor_colors, Table.get?_set, if_pos rfl]
    rfl
  rw [color?_eq, hshade, hflat, withColor_specialColors, hspecial, Option.none_or]

/-- A colour stays as it was if it is no shade of the added one and not looked up as a whole under
its name. -/
theorem color?_withColor (hfamily : ∀ shade, Text.lastHalves? '-' other ≠ some (name, shade))
    (hother : other ≠ name ∨ shade? theme.colors other ≠ none) :
    (theme.withColor name h).color? other = theme.color? other := by
  rw [color?_eq, color?_eq, shade?_withColor hfamily]
  congr 1
  cases hshade : shade? theme.colors other with
  | some p => rfl
  | none =>
    have hne : other ≠ name := hother.resolve_right (not_not.2 hshade)
    rw [withColor_colors, Table.get?_set, if_neg (Ne.symm hne)]

/-! ## The built-in theme -/

/-- Every built-in family has several shades. -/
theorem builtInColors_shaded : ∀ p ∈ builtInColors, Table.get? onlyShade p.2 = none := by
  decide +kernel

theorem builtInColors_ne_nil : ∀ p ∈ builtInColors, p.1 ≠ [] := by
  decide +kernel

theorem shade?_builtIn_iff {shades : Table Text} {shade : Text} :
    shade? builtIn.colors name = some (shades, shade) ↔
      ∃ family, Text.lastHalves? '-' name = some (family, shade) ∧
        Table.get? family builtInColors = some shades := by
  rw [shade?, Option.bind_eq_some_iff]
  constructor
  · rintro ⟨⟨family, shade'⟩, hcut, hfound⟩
    dsimp only at hfound
    split_ifs at hfound
    obtain ⟨shades', hget, heq⟩ := Option.map_eq_some_iff.1 hfound
    cases heq
    exact ⟨family, hcut, hget⟩
  · rintro ⟨family, hcut, hget⟩
    have hne : family.isEmpty = false :=
      List.isEmpty_eq_false_iff.2 (builtInColors_ne_nil _ (Table.mem_of_get? hget))
    have hget' : Table.get? family builtIn.colors = some shades := hget
    exact ⟨(family, shade), hcut, by simp [hne, hget']⟩

/-- No colour of the built-in theme is looked up as a whole but for the special ones. -/
theorem shade?_builtIn_ne_none (hspecial : Table.get? name builtIn.specialColors = none)
    (hv : builtIn.color? name = some v) : shade? builtIn.colors name ≠ none := by
  intro hshade
  rw [color?_eq, hspecial, hshade, Option.none_or] at hv
  obtain ⟨shades, hget, honly⟩ := Option.bind_eq_some_iff.1 hv
  rw [builtInColors_shaded _ (Table.mem_of_get? hget)] at honly
  cases honly

/-- A colour that is added to the built-in theme is found by its name just if no built-in family
stands in front of the last hyphen of the name, or that family has the same value as the shade
behind it.  The colours of other families are found as before. -/
theorem builtIn_extend_color (name h : Text)
    (hspecial : Table.get? name builtInSpecialColors = none) :
    ∃ extended, builtIn.extend (oneColor name h) = .ok extended ∧
      (extended.color? name = some h ↔ ∀ family shade shades,
        Text.lastHalves? '-' name = some (family, shade) →
        Table.get? family builtInColors = some shades → Table.get? shade shades = some h) ∧
      ∀ other v, builtIn.color? other = some v →
        (∀ shade, Text.lastHalves? '-' other ≠ some (name, shade)) →
        extended.color? other = some v := by
  refine ⟨_, extend_color builtIn name h, ?_, ?_⟩
  · rw [color?_withColor_self hspecial]
    cases hshade : shade? builtIn.colors name with
    | some p =>
      obtain ⟨shades, shade⟩ := p
      obtain ⟨family, hcut, hget⟩ := shade?_builtIn_iff.1 hshade
      dsimp only
      constructor
      · intro hvalue family' shade' shades' hcut' hget'
        rw [hcut] at hcut'
        cases hcut'
        rw [hget] at hget'
        cases hget'
        exact hvalue
      · intro hall
        exact hall family shade shades hcut hget
    | none =>
      refine iff_of_true rfl fun family shade shades hcut hget => ?_
      rw [shade?_builtIn_iff.2 ⟨family, hcut, hget⟩] at hshade
      cases hshade
  · intro other v hv hfamily
    refine (color?_withColor hfamily ?_).trans hv
    by_cases hname : other = name
    · subst hname
      exact Or.inr (shade?_builtIn_ne_none hspecial hv)
    · exact Or.inl hname

/-- A brand colour with a hyphen in its name is found, and a built-in colour still is. -/
theorem builtIn_extend_brandInk : ∃ extended,
    builtIn.extend (oneColor "brand-ink" "#123456") = .ok extended ∧
      extended.color? "brand-ink" = some "#123456" ∧
      extended.color? "blue-500" = some "#3b82f6" := by
  obtain ⟨extended, hextend, hfound, hkept⟩ :=
    builtIn_extend_color "brand-ink" "#123456" (by decide)
  have hbrand : Text.lastHalves? '-' "brand-ink" = some ("brand".toList, "ink".toList) := by decide
  have hblue : Text.lastHalves? '-' "blue-500" = some ("blue".toList, "500".toList) := by decide
  have hnone : Table.get? "brand" builtInColors = none := by decide
  refine ⟨extended, hextend, hfound.2 ?_, hkept _ _ (by decide +kernel) ?_⟩
  · intro family shade shades hcut hget
    rw [hbrand] at hcut
    cases hcut
    rw [hnone] at hget
    cases hget
  · intro shade hcut
    rw [hblue] at hcut
    exact absurd (Prod.mk.inj (Option.some.inj hcut)).1 (by decide)

/-- A colour named after a built-in family is not found by its name. -/
theorem builtIn_extend_blueInk : ∃ extended,
    builtIn.extend (oneColor "blue-ink" "#123456") = .ok extended ∧
      Table.get? "blue-ink" builtInSpecialColors = none ∧
      extended.color? "blue-ink" = none :=
  ⟨_, extend_color .., by decide, by decide +kernel⟩

end Theme

end SkinCompiler
