import SkinCompiler.Candidate.Printer
import SkinCompiler.Style.Theme

/-!
# Selectors of variants

A stack of variants turns the selector of a class into the selector under which its declarations
stand, and wraps the rule in at-rules.  The variants are applied from the outermost to the
innermost, each to the selector that those before it have made.
-/

namespace SkinCompiler.Style

/-- What the selectors of variants depend on. -/
structure SelectorContext where
  /-- The selectors of the groups, by name; the unnamed group has the empty name. -/
  groups : Table Text := []
  /-- The selectors of the peers, by name. -/
  peers : Table Text := []
  /-- The theme. -/
  theme : Theme := .builtIn

/-- Why a variant has no selector. -/
inductive VariantFault where
  /-- There is none for it. -/
  | noSelector
  /-- It names no breakpoint. -/
  | unknownBreakpoint
  /-- It names no size of containers. -/
  | unknownContainer
  /-- It negates an at-rule, or nothing at all. -/
  | atRuleNegated
  deriving DecidableEq

/-- A variant without a selector. -/
structure UnsupportedVariant where
  /-- The variant. -/
  variant : Variant
  /-- Why it has none. -/
  fault : VariantFault
  deriving DecidableEq

/-- The text of the reason. -/
def VariantFault.message : VariantFault → Text
  | .noSelector => "has no CSS translation"
  | .unknownBreakpoint => "uses an unknown breakpoint"
  | .unknownContainer => "uses an unknown container size"
  | .atRuleNegated => "cannot negate an at-rule"

/-- The text of the error. -/
def UnsupportedVariant.message (e : UnsupportedVariant) : Text :=
  "variant '" ++ e.variant.write ++ "' " ++ e.fault.message

/-- A selector with the at-rules around it. -/
structure Resolved where
  /-- The selector. -/
  selector : Text
  /-- The heads of the at-rules, the outermost first. -/
  atRules : List Text := []
  /-- The pseudo-element that the selector is about. -/
  pseudoElement : Option Text := none
  deriving DecidableEq

/-! ## The meaning of names -/

/-- Variants that are pseudo-classes. -/
def pseudoClasses : Table Text := [
  ("hover", ":hover"), ("focus", ":focus"), ("focus-visible", ":focus-visible"),
  ("focus-within", ":focus-within"), ("active", ":active"), ("visited", ":visited"),
  ("target", ":target"), ("disabled", ":disabled"), ("enabled", ":enabled"),
  ("checked", ":checked"), ("indeterminate", ":indeterminate"), ("required", ":required"),
  ("invalid", ":invalid"), ("valid", ":valid"), ("placeholder-shown", ":placeholder-shown"),
  ("read-only", ":read-only"), ("empty", ":empty"), ("first", ":first-child"),
  ("last", ":last-child"), ("only", ":only-child"), ("odd", ":nth-child(odd)"),
  ("even", ":nth-child(even)"), ("first-of-type", ":first-of-type"),
  ("last-of-type", ":last-of-type"), ("open", ":is([open], :popover-open)"),
  ("inert", ":is([inert], [inert] *)"),
  ("rtl", ":where(:dir(rtl), [dir=\"rtl\"], [dir=\"rtl\"] *)"),
  ("ltr", ":where(:dir(ltr), [dir=\"ltr\"], [dir=\"ltr\"] *)")]

/-- Variants that are pseudo-elements. -/
def pseudoElements : Table Text := [
  ("before", "::before"), ("after", "::after"), ("placeholder", "::placeholder"),
  ("selection", "::selection"), ("marker", "::marker"), ("file", "::file-selector-button"),
  ("backdrop", "::backdrop"), ("first-letter", "::first-letter"), ("first-line", "::first-line")]

/-- Variants that are features of the medium. -/
def mediaFeatures : Table Text := [
  ("dark", "(prefers-color-scheme: dark)"),
  ("motion-safe", "(prefers-reduced-motion: no-preference)"),
  ("motion-reduce", "(prefers-reduced-motion: reduce)"),
  ("contrast-more", "(prefers-contrast: more)"), ("contrast-less", "(prefers-contrast: less)"),
  ("print", "print"), ("portrait", "(orientation: portrait)"),
  ("landscape", "(orientation: landscape)"), ("pointer-fine", "(pointer: fine)"),
  ("pointer-coarse", "(pointer: coarse)")]

/-- The at-rule for a least width. -/
def fromWidth (width : Text) : Text := "@media (width >= " ++ width ++ ")"

/-! ## Single variants -/

/-- A variant that stands alone, applied to a selector. -/
def applyStatic (context : SelectorContext) (root selector : Text) :
    Except UnsupportedVariant Resolved :=
  match Table.get? root pseudoClasses, Table.get? root pseudoElements,
    Table.get? root context.theme.breakpoints, Table.get? root mediaFeatures with
  | some c, _, _, _ => .ok { selector := selector ++ c }
  | none, some e, _, _ => .ok { selector := selector ++ e, pseudoElement := some root }
  | none, none, some width, _ => .ok { selector, atRules := [fromWidth width] }
  | none, none, none, some feature => .ok { selector, atRules := ["@media " ++ feature] }
  | none, none, none, none => .error ⟨.static root, .noSelector⟩

/-- The text that a value has in a selector. -/
def selectorText : Value → Text
  | .arbitrary d => Arbitrary.underscoresToSpaces d.value
  | .named name _ => name

/-- The value is arbitrary. -/
def isArbitrary : Value → Bool
  | .arbitrary _ => true
  | .named _ _ => false

/-- The condition of a feature query; the bare name of a property asks for that property. -/
def supportsCondition (t : Text) : Text :=
  let condition := if t.contains ':' || Text.startsWith t ['('] then t else t ++ ": var(--tw)"
  if Text.startsWith condition ['('] then condition else "(" ++ condition ++ ")"

/-- A width: arbitrary, or named in a scale. -/
def width? (scale : Table Text) : Value → Option Text
  | .arbitrary d => some (selectorText (.arbitrary d))
  | .named name _ => Table.get? name scale

/-- A variant with a value, applied to a selector. -/
def applyFunctional (context : SelectorContext) (root : Text) (value : Value)
    (modifier : Option Modifier) (selector : Text) : Except UnsupportedVariant Resolved :=
  let text := selectorText value
  let fails (fault : VariantFault) : Except UnsupportedVariant Resolved :=
    .error ⟨.functional root value modifier, fault⟩
  match String.ofList root with
  | "data" => .ok { selector := selector ++ "[data-" ++ text ++ "]" }
  | "aria" =>
    .ok { selector := selector ++ "[aria-" ++ text
            ++ (if isArbitrary value then "]" else "=\"true\"]").toList }
  | "has" =>
    if isArbitrary value then .ok { selector := selector ++ ":has(" ++ text ++ ")" }
    else fails .noSelector
  | "nth" =>
    if isArbitrary value || Text.isDigits text then
      .ok { selector := selector ++ ":nth-child(" ++ text ++ ")" }
    else fails .noSelector
  | "supports" => .ok { selector, atRules := ["@supports " ++ supportsCondition text] }
  | "min" => match width? context.theme.breakpoints value with
    | some width => .ok { selector, atRules := [fromWidth width] }
    | none => fails .unknownBreakpoint
  | "max" => match width? context.theme.breakpoints value with
    | some width => .ok { selector, atRules := ["@media (width < " ++ width ++ ")"] }
    | none => fails .unknownBreakpoint
  | "@" => match width? context.theme.containers value with
    | some width =>
      let name := match modifier with
        | some m => m.text ++ " "
        | none => []
      .ok { selector, atRules := ["@container " ++ name ++ "(width >= " ++ width ++ ")"] }
    | none => fails .unknownContainer
  | _ => fails .noSelector

/-- The head of an at-rule with one space after its name. -/
def tidyAtRule (t : Text) : Text :=
  let (name, rest) := (t.drop 1).span fun c => Text.isAsciiLetter c || c == '-'
  Text.strip (if name.isEmpty then t
    else '@' :: name ++ ' ' :: Text.trimLeft Text.isBlank rest)

/-- A selector or an at-rule in brackets, applied to a selector. -/
def applyArbitrary (fragment selector : Text) : Resolved :=
  let fragment := Arbitrary.underscoresToSpaces fragment
  if Text.startsWith fragment ['@'] then { selector, atRules := [tidyAtRule fragment] }
  else { selector := fragment.flatMap fun c => if c == '&' then selector else [c] }

/-- The selector of a group or a peer: the registered one, or that of its marker. -/
def anchor (registered : Table Text) (marker name : Text) : Text :=
  match Table.get? name registered with
  | some selector => selector
  | none => if name.isEmpty then '.' :: marker else '.' :: marker ++ "\\/" ++ name

/-- The name in a modifier, empty without one. -/
def nameOf : Option Modifier → Text
  | some m => m.text
  | none => []

/-- A variant applied to a selector. -/
def applyVariant (context : SelectorContext) : Variant → Text → Except UnsupportedVariant Resolved
  | .static root, selector => applyStatic context root selector
  | .arbitrary fragment, selector => .ok (applyArbitrary fragment selector)
  | .functional root value modifier, selector =>
    applyFunctional context root value modifier selector
  | .other root value modifier, _ => .error ⟨.other root value modifier, .noSelector⟩
  | .compound root inner modifier, selector =>
    match String.ofList root with
    | "group" =>
      (applyVariant context inner (anchor context.groups root (nameOf modifier))).map fun r =>
        { selector := r.selector ++ " " ++ selector, atRules := r.atRules }
    | "peer" =>
      (applyVariant context inner (anchor context.peers root (nameOf modifier))).map fun r =>
        { selector := r.selector ++ " ~ " ++ selector, atRules := r.atRules }
    | "not" => do
      let r ← applyVariant context inner []
      if !r.atRules.isEmpty || r.selector.isEmpty then
        .error ⟨.compound root inner modifier, .atRuleNegated⟩
      else .ok { selector := selector ++ ":not(" ++ r.selector ++ ")" }
    | _ => .error ⟨.compound root inner modifier, .noSelector⟩

/-! ## Stacks of variants -/

/-- Variants applied one after the other to what those before them have made. -/
def applyAll (context : SelectorContext) (r : Resolved) :
    List Variant → Except UnsupportedVariant Resolved
  | [] => .ok r
  | v :: vs => do
    let next ← applyVariant context v r.selector
    applyAll context
      { selector := next.selector, atRules := r.atRules ++ next.atRules
        pseudoElement := next.pseudoElement.or r.pseudoElement } vs

/-- The selector of a stack of variants on a base selector. -/
def applyVariants (context : SelectorContext) (base : Text) (variants : List Variant) :
    Except UnsupportedVariant Resolved :=
  applyAll context { selector := base } variants

end SkinCompiler.Style
