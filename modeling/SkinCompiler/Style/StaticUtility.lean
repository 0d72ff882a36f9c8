import SkinCompiler.Style.Theme

/-!
# Utilities that stand alone

What each of them assigns.  The values are those of the built-in theme, whatever theme is in use.
-/

namespace SkinCompiler

/-- Properties with the values that they are given. -/
abbrev Assignments := List (Text × Text)

namespace StaticUtility

/-- A transition of properties with the timing of the built-in theme. -/
def transition (properties : String) : Assignments := [
  ("transition-property", properties),
  ("transition-timing-function", Theme.builtIn.defaultEase),
  ("transition-duration", Theme.builtIn.defaultDuration)]

/-- Display and position. -/
def display : Table Assignments := [
  ("block", [("display", "block")]),
  ("inline-block", [("display", "inline-block")]),
  ("inline", [("display", "inline")]),
  ("flex", [("display", "flex")]),
  ("inline-flex", [("display", "inline-flex")]),
  ("grid", [("display", "grid")]),
  ("inline-grid", [("display", "inline-grid")]),
  ("contents", [("display", "contents")]),
  ("hidden", [("display", "none")]),
  ("table", [("display", "table")]),
  ("static", [("position", "static")]),
  ("fixed", [("position", "fixed")]),
  ("absolute", [("position", "absolute")]),
  ("relative", [("position", "relative")]),
  ("sticky", [("position", "sticky")]),
  ("visible", [("visibility", "visible")]),
  ("invisible", [("visibility", "hidden")]),
  ("collapse", [("visibility", "collapse")]),
  ("isolate", [("isolation", "isolate")]),
  ("sr-only", [
    ("position", "absolute"), ("width", "1px"), ("height", "1px"), ("padding", "0"),
    ("margin", "-1px"), ("overflow", "hidden"), ("clip", "rect(0, 0, 0, 0)"),
    ("white-space", "nowrap"), ("border-width", "0")]),
  ("not-sr-only", [
    ("position", "static"), ("width", "auto"), ("height", "auto"), ("padding", "0"),
    ("margin", "0"), ("overflow", "visible"), ("clip", "auto"), ("white-space", "normal")])]

/-- Flexible boxes. -/
def flexibility : Table Assignments := [
  ("flex-row", [("flex-direction", "row")]),
  ("flex-row-reverse", [("flex-direction", "row-reverse")]),
  ("flex-col", [("flex-direction", "column")]),
  ("flex-col-reverse", [("flex-direction", "column-reverse")]),
  ("flex-wrap", [("flex-wrap", "wrap")]),
  ("flex-nowrap", [("flex-wrap", "nowrap")]),
  ("flex-wrap-reverse", [("flex-wrap", "wrap-reverse")]),
  ("flex-auto", [("flex", "1 1 auto")]),
  ("flex-initial", [("flex", "0 1 auto")]),
  ("flex-none", [("flex", "none")]),
  ("grow", [("flex-grow", "1")]),
  ("shrink", [("flex-shrink", "1")])]

/-- Alignment. -/
def alignment : Table Assignments := [
  ("items-start", [("align-items", "flex-start")]),
  ("items-end", [("align-items", "flex-end")]),
  ("items-center", [("align-items", "center")]),
  ("items-baseline", [("align-items", "baseline")]),
  ("items-stretch", [("align-items", "stretch")]),
  ("justify-start", [("justify-content", "flex-start")]),
  ("justify-end", [("justify-content", "flex-end")]),
  ("justify-center", [("justify-content", "center")]),
  ("justify-between", [("justify-content", "space-between")]),
  ("justify-around", [("justify-content", "space-around")]),
  ("justify-evenly", [("justify-content", "space-evenly")]),
  ("self-auto", [("align-self", "auto")]),
  ("self-start", [("align-self", "flex-start")]),
  ("self-end", [("align-self", "flex-end")]),
  ("self-center", [("align-self", "center")]),
  ("self-stretch", [("align-self", "stretch")]),
  ("content-start", [("align-content", "flex-start")]),
  ("content-end", [("align-content", "flex-end")]),
  ("content-center", [("align-content", "center")]),
  ("content-between", [("align-content", "space-between")]),
  ("place-items-center", [("place-items", "center")]),
  ("place-content-center", [("place-content", "center")])]

/-- Overflow and interaction. -/
def interaction : Table Assignments := [
  ("overflow-hidden", [("overflow", "hidden")]),
  ("overflow-visible", [("overflow", "visible")]),
  ("overflow-auto", [("overflow", "auto")]),
  ("overflow-scroll", [("overflow", "scroll")]),
  ("overflow-clip", [("overflow", "clip")]),
  ("overflow-x-hidden", [("overflow-x", "hidden")]),
  ("overflow-y-hidden", [("overflow-y", "hidden")]),
  ("overflow-x-auto", [("overflow-x", "auto")]),
  ("overflow-y-auto", [("overflow-y", "auto")]),
  ("pointer-events-none", [("pointer-events", "none")]),
  ("pointer-events-auto", [("pointer-events", "auto")]),
  ("select-none", [("-webkit-user-select", "none"), ("user-select", "none")]),
  ("select-text", [("-webkit-user-select", "text"), ("user-select", "text")]),
  ("select-all", [("-webkit-user-select", "all"), ("user-select", "all")]),
  ("select-auto", [("-webkit-user-select", "auto"), ("user-select", "auto")]),
  ("cursor-pointer", [("cursor", "pointer")]),
  ("cursor-default", [("cursor", "default")]),
  ("cursor-not-allowed", [("cursor", "not-allowed")]),
  ("cursor-grab", [("cursor", "grab")]),
  ("cursor-text", [("cursor", "text")]),
  ("cursor-move", [("cursor", "move")]),
  ("appearance-none", [("appearance", "none")]),
  ("will-change-transform", [("will-change", "transform")])]

/-- Text. -/
def typography : Table Assignments := [
  ("text-left", [("text-align", "left")]),
  ("text-center", [("text-align", "center")]),
  ("text-right", [("text-align", "right")]),
  ("text-justify", [("text-align", "justify")]),
  ("truncate", [
    ("overflow", "hidden"), ("text-overflow", "ellipsis"), ("white-space", "nowrap")]),
  ("uppercase", [("text-transform", "uppercase")]),
  ("lowercase", [("text-transform", "lowercase")]),
  ("capitalize", [("text-transform", "capitalize")]),
  ("normal-case", [("text-transform", "none")]),
  ("italic", [("font-style", "italic")]),
  ("not-italic", [("font-style", "normal")]),
  ("underline", [("text-decoration-line", "underline")]),
  ("line-through", [("text-decoration-line", "line-through")]),
  ("no-underline", [("text-decoration-line", "none")]),
  ("whitespace-nowrap", [("white-space", "nowrap")]),
  ("whitespace-normal", [("white-space", "normal")]),
  ("whitespace-pre", [("white-space", "pre")]),
  ("tabular-nums", [("font-variant-numeric", "tabular-nums")]),
  ("antialiased", [
    ("-webkit-font-smoothing", "antialiased"), ("-moz-osx-font-smoothing", "grayscale")]),
  ("subpixel-antialiased", [
    ("-webkit-font-smoothing", "auto"), ("-moz-osx-font-smoothing", "auto")]),
  ("text-ellipsis", [("text-overflow", "ellipsis")]),
  ("text-clip", [("text-overflow", "clip")]),
  ("break-words", [("overflow-wrap", "break-word")]),
  ("break-all", [("word-break", "break-all")]),
  ("text-shadow", [("text-shadow", "0px 1px 2px rgb(0 0 0 / 0.1)")])]

/-- Boxes and borders. -/
def boxes : Table Assignments := [
  ("box-border", [("box-sizing", "border-box")]),
  ("box-content", [("box-sizing", "content-box")]),
  ("rounded", [("border-radius", "0.25rem")]),
  ("rounded-full", [("border-radius", "9999px")]),
  ("rounded-none", [("border-radius", "0")]),
  ("border", [("border-style", "solid"), ("border-width", "1px")]),
  ("border-solid", [("border-style", "solid")]),
  ("border-dashed", [("border-style", "dashed")]),
  ("border-dotted", [("border-style", "dotted")]),
  ("border-none", [("border-style", "none")]),
  ("outline", [("outline-style", "solid"), ("outline-width", "1px")]),
  ("outline-none", [("outline-style", "none")]),
  ("outline-hidden", [("outline", "2px solid transparent"), ("outline-offset", "2px")])]

/-- Effects, objects and backgrounds. -/
def effects : Table Assignments := [
  ("shadow", [("box-shadow", "0 1px 3px 0 rgb(0 0 0 / 0.1), 0 1px 2px -1px rgb(0 0 0 / 0.1)")]),
  ("shadow-none", [("box-shadow", "0 0 #0000")]),
  ("ring", [("box-shadow", "0 0 0 1px var(--tw-ring-color, currentColor)")]),
  ("ring-inset", [("--tw-ring-inset", "inset")]),
  ("blur", [("filter", "blur(8px)")]),
  ("backdrop-blur", [("backdrop-filter", "blur(8px)")]),
  ("drop-shadow", [("filter", "drop-shadow(0 1px 2px rgb(0 0 0 / 0.1))")]),
  ("grayscale", [("filter", "grayscale(100%)")]),
  ("invert", [("filter", "invert(100%)")]),
  ("object-cover", [("object-fit", "cover")]),
  ("object-contain", [("object-fit", "contain")]),
  ("object-fill", [("object-fit", "fill")]),
  ("object-none", [("object-fit", "none")]),
  ("aspect-square", [("aspect-ratio", "1 / 1")]),
  ("aspect-video", [("aspect-ratio", "16 / 9")]),
  ("aspect-auto", [("aspect-ratio", "auto")]),
  ("bg-cover", [("background-size", "cover")]),
  ("bg-contain", [("background-size", "contain")]),
  ("bg-center", [("background-position", "center")]),
  ("bg-no-repeat", [("background-repeat", "no-repeat")])]

/-- Transitions and their timing. -/
def transitions : Table Assignments := [
  ("transition", transition
    ("color, background-color, border-color, outline-color, text-decoration-color, fill, stroke, "
      ++ "opacity, box-shadow, transform, translate, scale, rotate, filter, backdrop-filter")),
  ("transition-all", transition "all"),
  ("transition-colors", transition
    "color, background-color, border-color, outline-color, text-decoration-color, fill, stroke"),
  ("transition-opacity", transition "opacity"),
  ("transition-transform", transition "transform, translate, scale, rotate"),
  ("transition-shadow", transition "box-shadow"),
  ("transition-none", [("transition-property", "none")]),
  ("ease-linear", [("transition-timing-function", "linear")]),
  ("ease-in", [("transition-timing-function", "cubic-bezier(0.4, 0, 1, 1)")]),
  ("ease-out", [("transition-timing-function", "cubic-bezier(0, 0, 0.2, 1)")]),
  ("ease-in-out", [("transition-timing-function", "cubic-bezier(0.4, 0, 0.2, 1)")])]

/-- What a utility that stands alone assigns. -/
def assignments? (root : Text) : Option Assignments :=
  Table.get? root (display ++ flexibility ++ alignment ++ interaction ++ typography ++ boxes
    ++ effects ++ transitions)

end StaticUtility

end SkinCompiler
