import SkinCompiler.Style.StaticUtility
import SkinCompiler.Style.Value

/-!
# Utilities with a value

Every root follows a scheme, which says what properties it assigns and how it reads its value.  A
value that a scheme cannot read assigns nothing.
-/

namespace SkinCompiler.Style

/-- What the assignments of a utility depend on, apart from its root and the theme. -/
structure Setting where
  /-- The value. -/
  value : Value
  /-- The modifier. -/
  modifier : Option Modifier
  /-- The value is taken with the opposite sign. -/
  negative : Bool

/-- A way to read a value and to assign it. -/
inductive Scheme where
  /-- A size on the scale of spacing, or of the containers as well. -/
  | spacing (properties : List Text) (keywords : Table Text) (containers : Bool)
  /-- A background. -/
  | background
  /-- A font size or the colour of a text. -/
  | text
  /-- A font weight or a font family. -/
  | font
  /-- A line height. -/
  | leading
  /-- A letter spacing. -/
  | tracking
  /-- The radius of corners. -/
  | radius (properties : List Text)
  /-- The width or the colour of borders. -/
  | border (sides : List Text)
  /-- A width or a colour. -/
  | widthOrColor (width color : Text)
  /-- A ring around a box. -/
  | ring
  /-- An outline. -/
  | outline
  /-- A shadow or its colour; the shadow can be the argument of a function. -/
  | shadow (property : Text) (scale : Theme → Table Text) (color : Text) (function : Option Text)
  /-- An opacity. -/
  | opacity
  /-- A whole number or a keyword. -/
  | integer (property : Text) (keywords : Table Text)
  /-- How a flexible item grows and shrinks. -/
  | flex
  /-- A number. -/
  | number (property : Text)
  /-- A number of equal tracks. -/
  | gridTemplate (property : Text)
  /-- A number of tracks that an item covers. -/
  | tracks (property : Text)
  /-- A time in milliseconds. -/
  | time (property : Text)
  /-- A timing function. -/
  | ease
  /-- Properties that change gradually. -/
  | transition
  /-- A scale in percent, of one axis or of both. -/
  | scale (axis : Option Text)
  /-- An angle. -/
  | rotate
  /-- A distance along an axis. -/
  | translate (axis : Text)
  /-- A filter function, whose argument is named in a scale or given in percent. -/
  | filter (property function : Text) (scale : Option (Theme → Table Text))
  /-- A colour, or for strokes a width. -/
  | paint (property : Text)
  /-- A colour of a gradient. -/
  | gradientStop (position : Text)
  /-- A ratio of sides. -/
  | aspect
  /-- A number of lines. -/
  | lineClamp
  /-- Generated content. -/
  | content
  /-- A cursor. -/
  | cursor

namespace Scheme

/-! ## Reading values -/

/-- The opposite of a size, if it is wanted. -/
def signed (negative : Bool) (t : Text) : Text := if negative then opposite t else t

/-- The same value for several properties. -/
def each (properties : List Text) (value : Text) : Assignments := properties.map fun p => (p, value)

/-- The keywords of a spacing scheme, with those of the containers. -/
def spacingKeywords (theme : Theme) (keywords : Table Text) (containers : Bool) : Table Text :=
  if containers then Table.set "prose" "65ch" (keywords.setAll theme.containers) else keywords

/-- The line height of a font size: the one of the modifier, or else its own. -/
def lineHeight (theme : Theme) (own : Text) : Option Modifier → Text
  | none => own
  | some (.named t) => (present (namedSpacing? theme [] t none)).getD own
  | some (.arbitrary t) | some (.other t) => (present (some t)).getD own

/-- A font size or the colour of a text. -/
def textAssignments (theme : Theme) (s : Setting) : Option Assignments :=
  let color := (color? theme s.value s.modifier).map fun c => [("color".toList, c)]
  match s.value with
  | .arbitrary d =>
    if d.dataType.any fun t =>
        (["length", "percentage", "number", "absolute-size", "relative-size"] :
          List Text).contains t then
      some [("font-size", arbitraryText d)]
    else color
  | .named name _ => match Table.get? name theme.fontSizes with
    | some (size, height) =>
      some [("font-size", size), ("line-height", lineHeight theme height s.modifier)]
    | none => color

/-- A font weight or a font family. -/
def fontAssignments (theme : Theme) : Value → Option Assignments
  | .arbitrary d =>
    if d.dataType = some "number".toList then some [("font-weight", d.value)]
    else some [("font-family", arbitraryText d)]
  | .named name _ =>
    match Table.get? name theme.fontWeights, Table.get? name theme.fontFamilies with
    | some weight, _ => some [("font-weight", weight)]
    | none, some family => some [("font-family", family)]
    | none, none => none

/-- A background. -/
def backgroundAssignments (theme : Theme) (s : Setting) : Option Assignments :=
  let color := (color? theme s.value s.modifier).map fun c => [("background-color".toList, c)]
  match s.value with
  | .arbitrary d =>
    if d.dataType.any fun t => (["url", "image"] : List Text).contains t then
      some [("background-image", arbitraryText d)]
    else color
  | .named name _ => if name = "none".toList then some [("background-image", "none")] else color

/-- A shadow or its colour. -/
def shadowAssignments (theme : Theme) (property : Text) (scale : Table Text) (colorProperty : Text)
    (function : Option Text) (s : Setting) : Option Assignments :=
  let wrap (t : Text) : Text := match function with
    | some f => f ++ "(" ++ t ++ ")"
    | none => t
  let color := (color? theme s.value s.modifier).map fun c => [(colorProperty, c)]
  match s.value with
  | .arbitrary d =>
    if d.dataType = some "color".toList then color else some [(property, wrap (arbitraryText d))]
  | .named name _ => match Table.get? name scale with
    | some t => some [(property, wrap t)]
    | none => color

/-- A paint: nothing, a colour, or the width of a stroke. -/
def paintAssignments (theme : Theme) (property : Text) (s : Setting) : Option Assignments :=
  let color := (color? theme s.value s.modifier).map fun c => [(property, c)]
  match s.value with
  | .arbitrary _ => color
  | .named name _ =>
    if property = "stroke".toList && isNumber name then some [("stroke-width", name)]
    else if name = "none".toList then some [(property, "none")]
    else color

/-- A ratio of sides: a named one, or a fraction. -/
def aspect? : Value → Option Text
  | .arbitrary d => present (arbitraryText d)
  | .named name fraction =>
    match Table.get? name [("square", "1 / 1"), ("video", "16 / 9"), ("auto", "auto")] with
    | some t => some t
    | none => (present fraction).map (Text.replace ['/'] " / ")

/-- A number of lines after which a text is cut. -/
def lineClampAssignments (v : Value) : Option Assignments :=
  let clamp (lines : Text) : Assignments := [
    ("overflow", "hidden"), ("display", "-webkit-box"), ("-webkit-box-orient", "vertical"),
    ("-webkit-line-clamp", lines)]
  match v with
  | .arbitrary d => some (clamp (arbitraryText d))
  | .named name _ =>
    if name = "none".toList then
      some [("overflow", "visible"), ("display", "block"), ("-webkit-line-clamp", "unset")]
    else if Text.isDigits name then some (clamp name)
    else none

/-- A value that is known by name, a row of digits in the form of `numbered`, or arbitrary. -/
def digits? (keywords : Table Text) (numbered : Text → Text) : Value → Option Text
  | .arbitrary d => some (arbitraryText d)
  | .named name _ => match Table.get? name keywords with
    | some t => some t
    | none => if Text.isDigits name then some (numbered name) else none

/-- A number with a unit, or an arbitrary value. -/
def measured? (unit : Text) : Value → Option Text
  | .arbitrary d => some (arbitraryText d)
  | .named name _ => if isNumber name then some (name ++ unit) else none

/-! ## Assignments -/

/-- What a utility that follows a scheme assigns. -/
def assignments? (theme : Theme) (s : Setting) : Scheme → Option Assignments
  | .spacing properties keywords containers =>
    (spacing? theme (spacingKeywords theme keywords containers) s.value).map fun t =>
      each properties (signed s.negative t)
  | .background => backgroundAssignments theme s
  | .text => textAssignments theme s
  | .font => fontAssignments theme s.value
  | .leading =>
    (present ((present (scaled? theme.leading s.value)).or (spacing? theme [] s.value))).map
      fun t => [("line-height", t)]
  | .tracking => (scaled? theme.tracking s.value).map fun t =>
    [("letter-spacing", signed s.negative t)]
  | .radius properties => (scaled? theme.radius s.value).map (each properties)
  | .border sides =>
    if isLength s.value then
      some (sides.flatMap fun side =>
        [("border" ++ side ++ "-style", "solid"),
          ("border" ++ side ++ "-width", lengthText "px" s.value)])
    else (color? theme s.value s.modifier).map fun c =>
      sides.map fun side => ("border" ++ side ++ "-color", c)
  | .widthOrColor width color =>
    if isLength s.value then some [(width, signed s.negative (lengthText "px" s.value))]
    else (color? theme s.value s.modifier).map fun c => [(color, c)]
  | .ring =>
    if isLength s.value then
      some [("box-shadow", "var(--tw-ring-inset,) 0 0 0 " ++ lengthText "px" s.value
        ++ " var(--tw-ring-color, currentColor)")]
    else (color? theme s.value s.modifier).map fun c => [("--tw-ring-color", c)]
  | .outline =>
    if isLength s.value then
      some [("outline-style", "solid"), ("outline-width", lengthText "px" s.value)]
    else (color? theme s.value s.modifier).map fun c => [("outline-color", c)]
  | .shadow property names color function =>
    shadowAssignments theme property (names theme) color function s
  | .opacity => match s.value with
    | .arbitrary d => some [("opacity", arbitraryText d)]
    | .named name _ => (number? name).map fun x => [("opacity", numeral (x.div (.ofNat 100)))]
  | .integer property keywords => (digits? keywords id s.value).map fun t =>
    [(property, signed s.negative t)]
  | .flex =>
    let keywords : Table Text := [
      ("1", "1 1 0%"), ("auto", "1 1 auto"), ("initial", "0 1 auto"), ("none", "none")]
    (present ((scaled? keywords s.value).or (measured? [] s.value))).map fun t => [("flex", t)]
  | .number property => (measured? [] s.value).map fun t => [(property, t)]
  | .gridTemplate property =>
    (present (digits? [("none", "none"), ("subgrid", "subgrid")]
      (fun n => "repeat(" ++ n ++ ", minmax(0, 1fr))") s.value)).map fun t => [(property, t)]
  | .tracks property =>
    (present (digits? [("full", "1 / -1")] (fun n => "span " ++ n ++ " / span " ++ n)
      s.value)).map fun t => [(property, t)]
  | .time property => (digits? [] (· ++ "ms") s.value).map fun t => [(property, t)]
  | .ease => (present (scaled? theme.ease s.value)).map fun t =>
    [("transition-timing-function", t)]
  | .transition => match s.value with
    | .named _ _ => none
    | .arbitrary d => some [
      ("transition-property", arbitraryText d),
      ("transition-timing-function", theme.defaultEase),
      ("transition-duration", theme.defaultDuration)]
  | .scale axis => (measured? "%" s.value).map fun t =>
    match axis with
    | none => [("scale", signed s.negative t)]
    | some a => [("--tw-scale-" ++ a, signed s.negative t),
      ("scale", "var(--tw-scale-x, 100%) var(--tw-scale-y, 100%)")]
  | .rotate => (measured? "deg" s.value).map fun t => [("rotate", signed s.negative t)]
  | .translate axis => (spacing? theme [("full", "100%")] s.value).map fun t =>
    [("--tw-translate-" ++ axis, signed s.negative t),
      ("translate", "var(--tw-translate-x, 0) var(--tw-translate-y, 0)")]
  | .filter property function scaleNames =>
    let amount := match scaleNames with
      | some names => scaled? (names theme) s.value
      | none => measured? "%" s.value
    (present amount).map fun t => [(property, function ++ "(" ++ t ++ ")")]
  | .paint property => paintAssignments theme property s
  | .gradientStop position => (color? theme s.value s.modifier).map fun c =>
    [("--tw-gradient-" ++ position, c)]
  | .aspect => (aspect? s.value).map fun t => [("aspect-ratio", t)]
  | .lineClamp => lineClampAssignments s.value
  | .content => match s.value with
    | .arbitrary d => some [("content", arbitraryText d)]
    | .named name _ => if name = "none".toList then some [("content", "none")] else none
  | .cursor => some [("cursor", lengthText [] s.value)]

/-! ## The schemes of the roots -/

/-- The keywords of sizes. -/
def sizes : Table Text := [
  ("auto", "auto"), ("full", "100%"), ("min", "min-content"), ("max", "max-content"),
  ("fit", "fit-content"), ("none", "none")]

/-- The keywords of widths. -/
def widths : Table Text := Table.set "screen" "100vw" sizes

/-- The keywords of heights. -/
def heights : Table Text := sizes.setAll [("screen", "100vh"), ("dvh", "100dvh")]

/-- Paddings, margins and gaps. -/
def spacingSchemes : Table Scheme := [
  ("p", .spacing ["padding"] sizes false),
  ("px", .spacing ["padding-left", "padding-right"] sizes false),
  ("py", .spacing ["padding-top", "padding-bottom"] sizes false),
  ("pt", .spacing ["padding-top"] sizes false),
  ("pr", .spacing ["padding-right"] sizes false),
  ("pb", .spacing ["padding-bottom"] sizes false),
  ("pl", .spacing ["padding-left"] sizes false),
  ("ps", .spacing ["padding-inline-start"] sizes false),
  ("pe", .spacing ["padding-inline-end"] sizes false),
  ("m", .spacing ["margin"] sizes false),
  ("mx", .spacing ["margin-left", "margin-right"] sizes false),
  ("my", .spacing ["margin-top", "margin-bottom"] sizes false),
  ("mt", .spacing ["margin-top"] sizes false),
  ("mr", .spacing ["margin-right"] sizes false),
  ("mb", .spacing ["margin-bottom"] sizes false),
  ("ml", .spacing ["margin-left"] sizes false),
  ("ms", .spacing ["margin-inline-start"] sizes false),
  ("me", .spacing ["margin-inline-end"] sizes false),
  ("gap", .spacing ["gap"] sizes false),
  ("gap-x", .spacing ["column-gap"] sizes false),
  ("gap-y", .spacing ["row-gap"] sizes false)]

/-- Distances from the edges, and sizes. -/
def sizeSchemes : Table Scheme := [
  ("inset", .spacing ["inset"] sizes false),
  ("inset-x", .spacing ["left", "right"] sizes false),
  ("inset-y", .spacing ["top", "bottom"] sizes false),
  ("top", .spacing ["top"] sizes false),
  ("right", .spacing ["right"] sizes false),
  ("bottom", .spacing ["bottom"] sizes false),
  ("left", .spacing ["left"] sizes false),
  ("start", .spacing ["inset-inline-start"] sizes false),
  ("end", .spacing ["inset-inline-end"] sizes false),
  ("w", .spacing ["width"] widths false),
  ("h", .spacing ["height"] heights false),
  ("size", .spacing ["width", "height"] widths false),
  ("min-w", .spacing ["min-width"] widths false),
  ("min-h", .spacing ["min-height"] heights false),
  ("max-w", .spacing ["max-width"] widths true),
  ("max-h", .spacing ["max-height"] heights false),
  ("basis", .spacing ["flex-basis"] sizes false)]

/-- Backgrounds, texts, corners and borders. -/
def boxSchemes : Table Scheme := [
  ("bg", .background),
  ("text", .text),
  ("font", .font),
  ("leading", .leading),
  ("tracking", .tracking),
  ("rounded", .radius ["border-radius"]),
  ("rounded-t", .radius ["border-top-left-radius", "border-top-right-radius"]),
  ("rounded-r", .radius ["border-top-right-radius", "border-bottom-right-radius"]),
  ("rounded-b", .radius ["border-bottom-right-radius", "border-bottom-left-radius"]),
  ("rounded-l", .radius ["border-top-left-radius", "border-bottom-left-radius"]),
  ("rounded-tl", .radius ["border-top-left-radius"]),
  ("rounded-tr", .radius ["border-top-right-radius"]),
  ("rounded-bl", .radius ["border-bottom-left-radius"]),
  ("rounded-br", .radius ["border-bottom-right-radius"]),
  ("border", .border [""]),
  ("border-t", .border ["-top"]),
  ("border-r", .border ["-right"]),
  ("border-b", .border ["-bottom"]),
  ("border-l", .border ["-left"]),
  ("border-x", .border ["-left", "-right"]),
  ("border-y", .border ["-top", "-bottom"]),
  ("ring", .ring),
  ("ring-offset", .widthOrColor "--tw-ring-offset-width" "--tw-ring-offset-color"),
  ("outline", .outline),
  ("outline-offset", .widthOrColor "outline-offset" "outline-color")]

/-- Shadows, layers, flexible boxes and grids. -/
def layoutSchemes : Table Scheme := [
  ("shadow", .shadow "box-shadow" Theme.shadows "--tw-shadow-color" none),
  ("drop-shadow",
    .shadow "filter" Theme.dropShadows "--tw-drop-shadow-color" (some "drop-shadow")),
  ("text-shadow", .shadow "text-shadow" Theme.textShadows "--tw-text-shadow-color" none),
  ("opacity", .opacity),
  ("z", .integer "z-index" [("auto", "auto")]),
  ("order", .integer "order" [("first", "-9999"), ("last", "9999"), ("none", "0")]),
  ("flex", .flex),
  ("grow", .number "flex-grow"),
  ("shrink", .number "flex-shrink"),
  ("grid-cols", .gridTemplate "grid-template-columns"),
  ("grid-rows", .gridTemplate "grid-template-rows"),
  ("col-span", .tracks "grid-column"),
  ("row-span", .tracks "grid-row")]

/-- Transitions, transformations, filters and paints. -/
def effectSchemes : Table Scheme := [
  ("duration", .time "transition-duration"),
  ("delay", .time "transition-delay"),
  ("ease", .ease),
  ("transition", .transition),
  ("scale", .scale none),
  ("scale-x", .scale (some ['x'])),
  ("scale-y", .scale (some ['y'])),
  ("rotate", .rotate),
  ("translate-x", .translate "x"),
  ("translate-y", .translate "y"),
  ("blur", .filter "filter" "blur" (some Theme.blur)),
  ("backdrop-blur", .filter "backdrop-filter" "blur" (some Theme.blur)),
  ("brightness", .filter "filter" "brightness" none),
  ("contrast", .filter "filter" "contrast" none),
  ("saturate", .filter "filter" "saturate" none),
  ("fill", .paint "fill"),
  ("stroke", .paint "stroke"),
  ("from", .gradientStop "from"),
  ("via", .gradientStop "via"),
  ("to", .gradientStop "to"),
  ("aspect", .aspect),
  ("line-clamp", .lineClamp),
  ("accent", .widthOrColor "accent-color" "accent-color"),
  ("caret", .paint "caret-color"),
  ("decoration", .widthOrColor "text-decoration-thickness" "text-decoration-color"),
  ("underline-offset", .widthOrColor "text-underline-offset" "text-underline-offset"),
  ("content", .content),
  ("cursor", .cursor)]

/-- The schemes of all roots. -/
def ofRoot? (root : Text) : Option Scheme :=
  Table.get? root (spacingSchemes ++ sizeSchemes ++ boxSchemes ++ layoutSchemes ++ effectSchemes)

/-- The roots whose values have an opposite. -/
def negatable : List Text := [
  "m", "mx", "my", "mt", "mr", "mb", "ml", "ms", "me", "inset", "inset-x", "inset-y", "top",
  "right", "bottom", "left", "start", "end", "translate-x", "translate-y", "rotate", "scale",
  "scale-x", "scale-y", "z", "order", "tracking", "outline-offset"]

end Scheme

end SkinCompiler.Style
