import SkinCompiler.Json.Basic

/-!
# Themes

The scales that named values are looked up in: colours, sizes, weights, shadows and so on.  A theme
can be extended by further names for each scale.
-/

namespace SkinCompiler

/-- The scales that named values are looked up in. -/
structure Theme where
  /-- The size of one step of spacing, in `rem`. -/
  spacing : Binary64
  /-- Colour families with their shades. -/
  colors : Table (Table Text)
  /-- Colours that belong to no family. -/
  specialColors : Table Text
  /-- Radii of corners. -/
  radius : Table Text
  /-- Font sizes, each with its line height. -/
  fontSizes : Table (Text × Text)
  /-- Font weights. -/
  fontWeights : Table Text
  /-- Font families. -/
  fontFamilies : Table Text
  /-- Line heights. -/
  leading : Table Text
  /-- Letter spacings. -/
  tracking : Table Text
  /-- Shadows of boxes. -/
  shadows : Table Text
  /-- Shadows of shapes. -/
  dropShadows : Table Text
  /-- Shadows of texts. -/
  textShadows : Table Text
  /-- Radii of blurs. -/
  blur : Table Text
  /-- Widths of the viewport. -/
  breakpoints : Table Text
  /-- Widths of containers. -/
  containers : Table Text
  /-- Timing functions. -/
  ease : Table Text
  /-- The duration of transitions. -/
  defaultDuration : Text
  /-- The timing function of transitions. -/
  defaultEase : Text

namespace Theme

/-! ## The built-in scales -/

/-- The shades of a colour family, from light to dark. -/
def shades : List Text := [
  "50", "100", "200", "300", "400", "500", "600", "700", "800", "900", "950"]

/-- A colour family, given by the values of its shades. -/
def palette (values : List Text) : Table Text := shades.zip values

/-- The built-in colour families. -/
def builtInColors : Table (Table Text) := [
  ("slate", palette [
    "#f8fafc", "#f1f5f9", "#e2e8f0", "#cbd5e1", "#94a3b8", "#64748b", "#475569", "#334155",
    "#1e293b", "#0f172a", "#020617"]),
  ("gray", palette [
    "#f9fafb", "#f3f4f6", "#e5e7eb", "#d1d5db", "#9ca3af", "#6b7280", "#4b5563", "#374151",
    "#1f2937", "#111827", "#030712"]),
  ("zinc", palette [
    "#fafafa", "#f4f4f5", "#e4e4e7", "#d4d4d8", "#a1a1aa", "#71717a", "#52525b", "#3f3f46",
    "#27272a", "#18181b", "#09090b"]),
  ("neutral", palette [
    "#fafafa", "#f5f5f5", "#e5e5e5", "#d4d4d4", "#a3a3a3", "#737373", "#525252", "#404040",
    "#262626", "#171717", "#0a0a0a"]),
  ("red", palette [
    "#fef2f2", "#fee2e2", "#fecaca", "#fca5a5", "#f87171", "#ef4444", "#dc2626", "#b91c1c",
    "#991b1b", "#7f1d1d", "#450a0a"]),
  ("orange", palette [
    "#fff7ed", "#ffedd5", "#fed7aa", "#fdba74", "#fb923c", "#f97316", "#ea580c", "#c2410c",
    "#9a3412", "#7c2d12", "#431407"]),
  ("amber", palette [
    "#fffbeb", "#fef3c7", "#fde68a", "#fcd34d", "#fbbf24", "#f59e0b", "#d97706", "#b45309",
    "#92400e", "#78350f", "#451a03"]),
  ("yellow", palette [
    "#fefce8", "#fef9c3", "#fef08a", "#fde047", "#facc15", "#eab308", "#ca8a04", "#a16207",
    "#854d0e", "#713f12", "#422006"]),
  ("green", palette [
    "#f0fdf4", "#dcfce7", "#bbf7d0", "#86efac", "#4ade80", "#22c55e", "#16a34a", "#15803d",
    "#166534", "#14532d", "#052e16"]),
  ("emerald", palette [
    "#ecfdf5", "#d1fae5", "#a7f3d0", "#6ee7b7", "#34d399", "#10b981", "#059669", "#047857",
    "#065f46", "#064e3b", "#022c22"]),
  ("sky", palette [
    "#f0f9ff", "#e0f2fe", "#bae6fd", "#7dd3fc", "#38bdf8", "#0ea5e9", "#0284c7", "#0369a1",
    "#075985", "#0c4a6e", "#082f49"]),
  ("blue", palette [
    "#eff6ff", "#dbeafe", "#bfdbfe", "#93c5fd", "#60a5fa", "#3b82f6", "#2563eb", "#1d4ed8",
    "#1e40af", "#1e3a8a", "#172554"]),
  ("indigo", palette [
    "#eef2ff", "#e0e7ff", "#c7d2fe", "#a5b4fc", "#818cf8", "#6366f1", "#4f46e5", "#4338ca",
    "#3730a3", "#312e81", "#1e1b4b"]),
  ("violet", palette [
    "#f5f3ff", "#ede9fe", "#ddd6fe", "#c4b5fd", "#a78bfa", "#8b5cf6", "#7c3aed", "#6d28d9",
    "#5b21b6", "#4c1d95", "#2e1065"]),
  ("purple", palette [
    "#faf5ff", "#f3e8ff", "#e9d5ff", "#d8b4fe", "#c084fc", "#a855f7", "#9333ea", "#7e22ce",
    "#6b21a8", "#581c87", "#3b0764"]),
  ("pink", palette [
    "#fdf2f8", "#fce7f3", "#fbcfe8", "#f9a8d4", "#f472b6", "#ec4899", "#db2777", "#be185d",
    "#9d174d", "#831843", "#500724"]),
  ("rose", palette [
    "#fff1f2", "#ffe4e6", "#fecdd3", "#fda4af", "#fb7185", "#f43f5e", "#e11d48", "#be123c",
    "#9f1239", "#881337", "#4c0519"])]

/-- The built-in colours that belong to no family. -/
def builtInSpecialColors : Table Text := [
  ("black", "#000"), ("white", "#fff"), ("transparent", "transparent"),
  ("current", "currentColor"), ("inherit", "inherit")]

/-- The built-in radii of corners. -/
def builtInRadius : Table Text := [
  ("none", "0"), ("xs", "0.125rem"), ("sm", "0.25rem"), ("", "0.25rem"), ("md", "0.375rem"),
  ("lg", "0.5rem"), ("xl", "0.75rem"), ("2xl", "1rem"), ("3xl", "1.5rem"), ("4xl", "2rem"),
  ("full", "9999px")]

/-- The built-in font sizes with their line heights. -/
def builtInFontSizes : Table (Text × Text) := [
  ("xs", "0.75rem", "1rem"), ("sm", "0.875rem", "1.25rem"), ("base", "1rem", "1.5rem"),
  ("lg", "1.125rem", "1.75rem"), ("xl", "1.25rem", "1.75rem"), ("2xl", "1.5rem", "2rem"),
  ("3xl", "1.875rem", "2.25rem"), ("4xl", "2.25rem", "2.5rem"), ("5xl", "3rem", "1"),
  ("6xl", "3.75rem", "1"), ("7xl", "4.5rem", "1"), ("8xl", "6rem", "1"), ("9xl", "8rem", "1")]

/-- The built-in font weights. -/
def builtInFontWeights : Table Text := [
  ("thin", "100"), ("extralight", "200"), ("light", "300"), ("normal", "400"), ("medium", "500"),
  ("semibold", "600"), ("bold", "700"), ("extrabold", "800"), ("black", "900")]

/-- The built-in font families. -/
def builtInFontFamilies : Table Text := [
  ("sans", "ui-sans-serif, system-ui, sans-serif, \"Apple Color Emoji\", \"Segoe UI Emoji\""),
  ("serif", "ui-serif, Georgia, Cambria, \"Times New Roman\", Times, serif"),
  ("mono", "ui-monospace, SFMono-Regular, Menlo, Monaco, Consolas, \"Liberation Mono\", monospace")]

/-- The built-in line heights. -/
def builtInLeading : Table Text := [
  ("none", "1"), ("tight", "1.25"), ("snug", "1.375"), ("normal", "1.5"), ("relaxed", "1.625"),
  ("loose", "2")]

/-- The built-in letter spacings. -/
def builtInTracking : Table Text := [
  ("tighter", "-0.05em"), ("tight", "-0.025em"), ("normal", "0em"), ("wide", "0.025em"),
  ("wider", "0.05em"), ("widest", "0.1em")]

/-- The built-in shadows of boxes. -/
def builtInShadows : Table Text := [
  ("2xs", "0 1px rgb(0 0 0 / 0.05)"), ("xs", "0 1px 2px 0 rgb(0 0 0 / 0.05)"),
  ("sm", "0 1px 3px 0 rgb(0 0 0 / 0.1), 0 1px 2px -1px rgb(0 0 0 / 0.1)"),
  ("", "0 1px 3px 0 rgb(0 0 0 / 0.1), 0 1px 2px -1px rgb(0 0 0 / 0.1)"),
  ("md", "0 4px 6px -1px rgb(0 0 0 / 0.1), 0 2px 4px -2px rgb(0 0 0 / 0.1)"),
  ("lg", "0 10px 15px -3px rgb(0 0 0 / 0.1), 0 4px 6px -4px rgb(0 0 0 / 0.1)"),
  ("xl", "0 20px 25px -5px rgb(0 0 0 / 0.1), 0 8px 10px -6px rgb(0 0 0 / 0.1)"),
  ("2xl", "0 25px 50px -12px rgb(0 0 0 / 0.25)"),
  ("inner", "inset 0 2px 4px 0 rgb(0 0 0 / 0.05)"), ("none", "0 0 #0000")]

/-- The built-in shadows of shapes. -/
def builtInDropShadows : Table Text := [
  ("xs", "0 1px 1px rgb(0 0 0 / 0.05)"), ("sm", "0 1px 2px rgb(0 0 0 / 0.15)"),
  ("", "0 1px 2px rgb(0 0 0 / 0.1)"), ("md", "0 3px 3px rgb(0 0 0 / 0.12)"),
  ("lg", "0 4px 4px rgb(0 0 0 / 0.15)"), ("xl", "0 9px 7px rgb(0 0 0 / 0.1)"),
  ("2xl", "0 25px 25px rgb(0 0 0 / 0.15)"), ("none", "0 0 #0000")]

/-- The built-in shadows of texts. -/
def builtInTextShadows : Table Text := [
  ("2xs", "0px 1px 0px rgb(0 0 0 / 0.15)"), ("xs", "0px 1px 1px rgb(0 0 0 / 0.2)"),
  ("sm", "0px 1px 0px rgb(0 0 0 / 0.075), 0px 1px 1px rgb(0 0 0 / 0.075), "
    ++ "0px 2px 2px rgb(0 0 0 / 0.075)"),
  ("", "0px 1px 2px rgb(0 0 0 / 0.1)"),
  ("md", "0px 1px 1px rgb(0 0 0 / 0.1), 0px 1px 2px rgb(0 0 0 / 0.1), "
    ++ "0px 2px 4px rgb(0 0 0 / 0.1)"),
  ("lg", "0px 1px 2px rgb(0 0 0 / 0.1), 0px 3px 2px rgb(0 0 0 / 0.1), "
    ++ "0px 4px 8px rgb(0 0 0 / 0.1)"),
  ("none", "none")]

/-- The built-in radii of blurs. -/
def builtInBlur : Table Text := [
  ("none", "0"), ("xs", "4px"), ("sm", "8px"), ("", "8px"), ("md", "12px"), ("lg", "16px"),
  ("xl", "24px"), ("2xl", "40px"), ("3xl", "64px")]

/-- The built-in widths of the viewport. -/
def builtInBreakpoints : Table Text := [
  ("sm", "40rem"), ("md", "48rem"), ("lg", "64rem"), ("xl", "80rem"), ("2xl", "96rem")]

/-- The built-in widths of containers. -/
def builtInContainers : Table Text := [
  ("3xs", "16rem"), ("2xs", "18rem"), ("xs", "20rem"), ("sm", "24rem"), ("md", "28rem"),
  ("lg", "32rem"), ("xl", "36rem"), ("2xl", "42rem"), ("3xl", "48rem"), ("4xl", "56rem"),
  ("5xl", "64rem"), ("6xl", "72rem"), ("7xl", "80rem")]

/-- The built-in timing functions. -/
def builtInEase : Table Text := [
  ("linear", "linear"), ("in", "cubic-bezier(0.4, 0, 1, 1)"),
  ("out", "cubic-bezier(0, 0, 0.2, 1)"), ("in-out", "cubic-bezier(0.4, 0, 0.2, 1)")]

/-- The theme of the built-in scales; one step of spacing is a quarter. -/
def builtIn : Theme where
  spacing := .ofRatio false 1 4
  colors := builtInColors
  specialColors := builtInSpecialColors
  radius := builtInRadius
  fontSizes := builtInFontSizes
  fontWeights := builtInFontWeights
  fontFamilies := builtInFontFamilies
  leading := builtInLeading
  tracking := builtInTracking
  shadows := builtInShadows
  dropShadows := builtInDropShadows
  textShadows := builtInTextShadows
  blur := builtInBlur
  breakpoints := builtInBreakpoints
  containers := builtInContainers
  ease := builtInEase
  defaultDuration := "150ms"
  defaultEase := "cubic-bezier(0.4, 0, 0.2, 1)"

/-! ## Colours -/

/-- The shade of a colour family that has only one. -/
def onlyShade : Text := "DEFAULT"

/-- The value of a colour: a special one, a shade of a family after its last hyphen, or a family
with only one shade. -/
def color? (theme : Theme) (name : Text) : Option Text :=
  match Table.get? name theme.specialColors with
  | some value => some value
  | none =>
    let family := (Text.lastHalves? '-' name).bind fun (family, shade) =>
      if family.isEmpty then none
      else (Table.get? family theme.colors).map fun shades => (shades, shade)
    match family with
    | some (shades, shade) => Table.get? shade shades
    | none => (Table.get? name theme.colors).bind (Table.get? onlyShade)

/-! ## Extensions -/

/-- What can be wrong with an extension. -/
inductive ExtensionError where
  /-- There is no scale of that name. -/
  | unknownScale (name : Text)
  /-- The name is that of an operation on themes. -/
  | reserved (name : Text)
  deriving DecidableEq

/-- The text of an error. -/
def ExtensionError.message : ExtensionError → Text
  | .unknownScale name => "Unknown theme scale: " ++ Text.quoted name
  | .reserved name =>
    "Theme.__init__() got an unexpected keyword argument " ++ Text.quoted name

/-- The entries of an object as entries of a scale. -/
def scaleEntries : Json → List (Text × Text)
  | .object entries => entries.map fun (name, v) => (name, v.asText)
  | _ => []

/-- The shades of a colour: of a family, or the only one. -/
def shadesOf : Json → Table Text
  | .object entries => scaleEntries (.object entries)
  | v => [(onlyShade, v.asText)]

/-- A font size with its line height. -/
def fontSizeOf : Json → Text × Text
  | .array [size, height] => (size.asText, height.asText)
  | v => (v.asText, [])

/-- A number as a size of spacing. -/
def spacingOf (old : Binary64) : Json → Binary64
  | .whole n => .ofRatio (n < 0) n.natAbs 1
  | .fractional x => x
  | .bool b => .ofNat b.toNat
  | _ => old

/-- What comes of extending a theme so far: the theme, and the first reserved name. -/
structure Extending where
  /-- The theme. -/
  theme : Theme
  /-- The first reserved name that was met. -/
  reserved : Option Text := none

/-- Extend one scale; `none` if there is none of that name. -/
def Extending.scale? (e : Extending) (name : Text) (v : Json) : Option Extending :=
  let t := e.theme
  let more (scale : Table Text) := scale.setAll (scaleEntries v)
  let changed (t : Theme) : Option Extending := some { e with theme := t }
  match String.ofList name with
  | "spacing" => changed { t with spacing := spacingOf t.spacing v }
  | "colors" => changed { t with colors := match v with
    | .object entries => t.colors.setAll (entries.map fun (name, v) => (name, shadesOf v))
    | _ => t.colors }
  | "special_colors" => changed { t with specialColors := more t.specialColors }
  | "radius" => changed { t with radius := more t.radius }
  | "font_sizes" => changed { t with fontSizes := match v with
    | .object entries => t.fontSizes.setAll (entries.map fun (name, v) => (name, fontSizeOf v))
    | _ => t.fontSizes }
  | "font_weights" => changed { t with fontWeights := more t.fontWeights }
  | "font_families" => changed { t with fontFamilies := more t.fontFamilies }
  | "leading" => changed { t with leading := more t.leading }
  | "tracking" => changed { t with tracking := more t.tracking }
  | "shadows" => changed { t with shadows := more t.shadows }
  | "drop_shadows" => changed { t with dropShadows := more t.dropShadows }
  | "text_shadows" => changed { t with textShadows := more t.textShadows }
  | "blur" => changed { t with blur := more t.blur }
  | "breakpoints" => changed { t with breakpoints := more t.breakpoints }
  | "containers" => changed { t with containers := more t.containers }
  | "ease" => changed { t with ease := more t.ease }
  | "default_duration" => changed { t with defaultDuration := v.asText }
  | "default_ease" => changed { t with defaultEase := v.asText }
  | "color" | "extend" => some { e with reserved := some (e.reserved.getD name) }
  | _ => none

/-- Extend scale after scale. -/
def Extending.scales (e : Extending) : List (Text × Json) → Except ExtensionError Extending
  | [] => .ok e
  | (name, v) :: entries => match e.scale? name v with
    | some e => e.scales entries
    | none => .error (.unknownScale name)

/-- The theme with the scales of an object merged into its own. -/
def extend (theme : Theme) (overrides : Json) : Except ExtensionError Theme :=
  match overrides with
  | .object entries => do
    let e ← Extending.scales { theme } entries
    match e.reserved with
    | some name => .error (.reserved name)
    | none => return e.theme
  | _ => .ok theme

end Theme

end SkinCompiler
