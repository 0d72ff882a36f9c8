import SkinCompiler.Diagnostic
import SkinCompiler.Markup.AttributeRule

/-!
# Templates

The markup that an element tree of a component source stands for.  Fragments give way to their
children, the place for the children of the component becomes the slot of the medium, and other
expressions have no place in markup: they are left out and reported, as are spread attributes.
-/

namespace SkinCompiler.Markup

open Source

/-- What the markup of an element tree depends on. -/
structure TemplateOptions where
  /-- The source that the tree was read from. -/
  source : Text
  /-- The elements of the style keys that name a component. -/
  components : Table Text := []
  /-- The name that the styles go by. -/
  stylesName : Option Text := none
  /-- The attribute rules. -/
  rules : AttributeRules := {}

/-- The slot in which the medium is put. -/
def mediaSlot : Tree :=
  .element "slot" [⟨"name", some "media"⟩, ⟨"slot", some "media"⟩] []

/-- The expression stands for the children of the component. -/
def isChildren : Node → Bool
  | .identifier _ name => name = "children".toList
  | _ => false

/-! ## The tree -/

/-- The attribute that stands for one of the source. -/
def attribute? (o : TemplateOptions) : Node → Option Attribute
  | .attribute _ name value =>
    o.rules.result { name, value, components := o.components, stylesName := o.stylesName }
  | _ => none

mutual

/-- The pieces of markup that a node stands for. -/
def trees (o : TemplateOptions) : Node → List Tree
  | .element _ tag attributes children _ =>
    [.element (elementName tag) (attributes.filterMap (attribute? o)) (treesOfAll o children)]
  | .fragment _ children => treesOfAll o children
  | .text _ t => if Text.isBlankText t then [] else [.text (Text.collapse t)]
  | .container _ (some expression) => if isChildren expression then [mediaSlot] else []
  | _ => []

/-- The pieces of markup that a row of nodes stands for. -/
def treesOfAll (o : TemplateOptions) : List Node → List Tree
  | [] => []
  | n :: ns => trees o n ++ treesOfAll o ns

end

/-! ## What is left out -/

/-- The source text of a node. -/
def code (o : TemplateOptions) (n : Node) : Option Text :=
  (some (Text.slice o.source n.span.start n.span.stop)).filter (!·.isEmpty)

/-- A spread attribute of an element. -/
def spreadAttribute (tag : Text) (token : Option Text) : Diagnostic where
  rule := "spread-attribute"
  message := "spread attribute on <" ++ tag ++ "> dropped"
  token := token

/-- An expression among the children of an element. -/
def droppedExpression (tag : Text) (token : Option Text) : Diagnostic where
  rule := "dropped-expression"
  message := "expression child of <" ++ tag ++ "> has no HTML form and was dropped"
  token := token

/-- The report of an attribute that is left out. -/
def attributeFinding? (o : TemplateOptions) (tag : Text) (n : Node) : Option Diagnostic :=
  match n with
  | .spreadAttribute _ _ => some (spreadAttribute tag (code o n))
  | _ => none

mutual

/-- The reports of what is left out of a node that stands in the element `parent`. -/
def findings (o : TemplateOptions) (parent : Text) : Node → List Diagnostic
  | .element _ tag attributes children _ =>
    attributes.filterMap (attributeFinding? o tag) ++ findingsInAll o tag children
  | .fragment _ children => findingsInAll o parent children
  | .container s (some expression) =>
    if isChildren expression then []
    else [droppedExpression parent (code o (.container s (some expression)))]
  | _ => []

/-- The reports of what is left out of a row of nodes. -/
def findingsInAll (o : TemplateOptions) (parent : Text) : List Node → List Diagnostic
  | [] => []
  | n :: ns => findings o parent n ++ findingsInAll o parent ns

end

/-- The markup of an element, `margin` blanks from the left and with `step` blanks more for each
level. -/
def template (o : TemplateOptions) (step margin : Nat) (element : Node) : Text :=
  Text.join "\n" (Tree.writeAll step margin (trees o element))

/-- The reports of what is left out of an element. -/
def templateFindings (o : TemplateOptions) (element : Node) : List Diagnostic :=
  findings o [] element

end SkinCompiler.Markup
