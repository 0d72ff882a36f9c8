import SkinCompiler.Json.Basic

/-!
# Design systems

Which roots of utilities and variants exist.  A design system only answers questions of membership;
what a utility means is a matter of its declarations.
-/

namespace SkinCompiler

/-- The names that a class token can be made of. -/
structure DesignSystem where
  /-- Utilities that stand alone. -/
  staticUtilities : List Text
  /-- Utilities with a value. -/
  functionalUtilities : List Text
  /-- Variants that stand alone. -/
  staticVariants : List Text
  /-- Variants with a value. -/
  functionalVariants : List Text
  /-- Variants around another variant. -/
  compoundVariants : List Text
  /-- Utilities that take a modifier without taking a value. -/
  withModifier : List Text := []
  /-- A label that is carried along. -/
  label : Option Json := none

/-- What a root is as a variant. -/
inductive VariantKind where
  /-- A selector in brackets. -/
  | arbitrary
  /-- A variant that stands alone. -/
  | static
  /-- A variant around another variant. -/
  | compound
  /-- A variant with a value. -/
  | functional
  /-- No variant. -/
  | none
  deriving DecidableEq

namespace DesignSystem

/-! ## The built-in names -/

/-- Utilities that mark an element for variants of other elements.  Of the built-in utilities only
they take a modifier without taking a value. -/
def markers : List Text := ["group", "peer", "@container"]

/-- The built-in utilities that stand alone. -/
def staticUtilityNames : List Text := [
  "block", "inline-block", "inline", "flex", "inline-flex", "grid", "inline-grid", "contents",
  "hidden", "table", "static", "fixed", "absolute", "relative", "sticky", "visible", "invisible",
  "collapse", "isolate", "sr-only", "not-sr-only", "flex-row", "flex-row-reverse", "flex-col",
  "flex-col-reverse", "flex-wrap", "flex-nowrap", "flex-wrap-reverse", "flex-auto",
  "flex-initial", "flex-none", "grow", "shrink", "items-start", "items-end", "items-center",
  "items-baseline", "items-stretch", "justify-start", "justify-end", "justify-center",
  "justify-between", "justify-around", "justify-evenly", "self-auto", "self-start", "self-end",
  "self-center", "self-stretch", "content-start", "content-end", "content-center",
  "content-between", "place-items-center", "place-content-center", "overflow-hidden",
  "overflow-visible", "overflow-auto", "overflow-scroll", "overflow-clip", "overflow-x-hidden",
  "overflow-y-hidden", "overflow-x-auto", "overflow-y-auto", "pointer-events-none",
  "pointer-events-auto", "select-none", "select-text", "select-all", "select-auto",
  "cursor-pointer", "cursor-default", "cursor-not-allowed", "cursor-grab", "cursor-text",
  "cursor-move", "appearance-none", "will-change-transform", "text-left", "text-center",
  "text-right", "text-justify", "truncate", "uppercase", "lowercase", "capitalize",
  "normal-case", "italic", "not-italic", "underline", "line-through", "no-underline",
  "whitespace-nowrap", "whitespace-normal", "whitespace-pre", "tabular-nums", "antialiased",
  "subpixel-antialiased", "text-ellipsis", "text-clip", "break-words", "break-all",
  "text-shadow", "box-border", "box-content", "rounded", "rounded-full", "rounded-none",
  "border", "border-solid", "border-dashed", "border-dotted", "border-none", "outline",
  "outline-none", "outline-hidden", "shadow", "shadow-none", "ring", "ring-inset", "blur",
  "backdrop-blur", "drop-shadow", "grayscale", "invert", "object-cover", "object-contain",
  "object-fill", "object-none", "aspect-square", "aspect-video", "aspect-auto", "bg-cover",
  "bg-contain", "bg-center", "bg-no-repeat", "transition", "transition-all", "transition-colors",
  "transition-opacity", "transition-transform", "transition-shadow", "transition-none",
  "ease-linear", "ease-in", "ease-out", "ease-in-out", "group", "peer", "@container"
  ].map String.toList

/-- The built-in utilities with a value. -/
def functionalUtilityNames : List Text := [
  "p", "px", "py", "pt", "pr", "pb", "pl", "ps", "pe", "m", "mx", "my", "mt", "mr", "mb", "ml",
  "ms", "me", "gap", "gap-x", "gap-y", "inset", "inset-x", "inset-y", "top", "right", "bottom",
  "left", "start", "end", "w", "h", "size", "min-w", "min-h", "max-w", "max-h", "basis", "bg",
  "text", "font", "leading", "tracking", "text-shadow", "rounded", "rounded-t", "rounded-r",
  "rounded-b", "rounded-l", "rounded-tl", "rounded-tr", "rounded-bl", "rounded-br", "border",
  "border-t", "border-r", "border-b", "border-l", "border-x", "border-y", "ring", "ring-offset",
  "outline", "outline-offset", "shadow", "opacity", "z", "order", "flex", "grow", "shrink",
  "grid-cols", "grid-rows", "col-span", "row-span", "duration", "delay", "ease", "transition",
  "scale", "scale-x", "scale-y", "rotate", "translate-x", "translate-y", "blur", "backdrop-blur",
  "brightness", "contrast", "saturate", "drop-shadow", "fill", "stroke", "from", "via", "to",
  "aspect", "line-clamp", "accent", "caret", "decoration", "underline-offset", "content",
  "cursor"].map String.toList

/-- The built-in variants that stand alone. -/
def staticVariantNames : List Text := [
  "hover", "focus", "focus-visible", "focus-within", "active", "visited", "target", "disabled",
  "enabled", "checked", "indeterminate", "required", "invalid", "valid", "placeholder-shown",
  "read-only", "open", "inert", "empty", "first", "last", "only", "odd", "even", "first-of-type",
  "last-of-type", "before", "after", "placeholder", "selection", "marker", "file", "backdrop",
  "first-letter", "first-line", "sm", "md", "lg", "xl", "2xl", "dark", "motion-safe",
  "motion-reduce", "contrast-more", "contrast-less", "print", "portrait", "landscape",
  "pointer-fine", "pointer-coarse", "rtl", "ltr"].map String.toList

/-- The built-in variants with a value. -/
def functionalVariantNames : List Text := [
  "data", "aria", "has", "supports", "nth", "min", "max", "@"]

/-- The built-in variants around another variant. -/
def compoundVariantNames : List Text := [
  "group", "peer", "not"]

/-- The design system that holds the built-in names. -/
def builtIn : DesignSystem where
  staticUtilities := staticUtilityNames
  functionalUtilities := functionalUtilityNames
  staticVariants := staticVariantNames
  functionalVariants := functionalVariantNames
  compoundVariants := compoundVariantNames
  withModifier := markers

/-! ## Questions -/

/-- The utility takes a modifier without taking a value, in the built-in design system if no other
one is named. -/
def takesModifier (root : Text) (d : DesignSystem := builtIn) : Bool := d.withModifier.contains root

/-- What a root is as a variant. -/
def variantKind (d : DesignSystem) (root : Text) : VariantKind :=
  if Text.startsWith root ['['] then .arbitrary
  else if d.staticVariants.contains root then .static
  else if d.compoundVariants.contains root then .compound
  else if d.functionalVariants.contains root then .functional
  else if Text.startsWith root ['@'] && d.functionalVariants.contains ['@'] then .functional
  else .none

/-- The root names a variant of the design system. -/
def hasVariant (d : DesignSystem) (root : Text) : Bool :=
  match d.variantKind root with
  | .static | .compound | .functional => true
  | .arbitrary | .none => false

/-! ## Extensions -/

/-- An extension that is no list of names. -/
structure NotNames where
  /-- The names that it should hold. -/
  key : Text
  deriving DecidableEq

/-- The text of the error. -/
def NotNames.message (e : NotNames) : Text :=
  "design system extension " ++ Text.quoted e.key ++ " must be a list of names"

/-- The names that an extension adds under a key. -/
def added (extra : Json) (key : Text) : Except NotNames (List Text) :=
  match extra.get? key with
  | none => .ok []
  | some (.array items) => .ok (items.map Json.asText)
  | some (.object entries) => .ok (entries.map (·.1))
  | some v => if v.isEmpty then .ok [] else .error ⟨key⟩

/-- Names with further ones that are not yet among them. -/
def union (names more : List Text) : List Text :=
  more.foldl (fun names n => if names.contains n then names else names ++ [n]) names

/-- The built-in names with those of an extension. -/
def extended (extra : Json) : Except NotNames DesignSystem := do
  let staticUtilities ← added extra "utilities"
  let functionalUtilities ← added extra "functional_utilities"
  let staticVariants ← added extra "variants"
  let functionalVariants ← added extra "functional_variants"
  let compoundVariants ← added extra "compound_variants"
  return {
    staticUtilities := union staticUtilityNames staticUtilities
    functionalUtilities := union functionalUtilityNames functionalUtilities
    staticVariants := union staticVariantNames staticVariants
    functionalVariants := union functionalVariantNames functionalVariants
    compoundVariants := union compoundVariantNames compoundVariants
    withModifier := markers
    label := (extra.get? "prefix").filter (!·.isEmpty) }

end DesignSystem

end SkinCompiler
