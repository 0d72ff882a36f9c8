import SkinCompiler.Markup.Name
import SkinCompiler.Markup.Tree
import SkinCompiler.Number.Shortest
import SkinCompiler.Source.ClassText

/-!
# Attribute rules

How the attributes of a component source become those of the markup.  Rules stand in order: the
first one that claims an attribute decides what becomes of it, and a default takes care of the
attributes that no rule claims.
-/

namespace SkinCompiler.Markup

open Source

/-- What a rule can look at. -/
structure AttributeContext where
  /-- The name of the attribute. -/
  name : Text
  /-- Its value. -/
  value : Option Node
  /-- The elements of the style keys that name a component. -/
  components : Table Text := []
  /-- The name that the styles go by. -/
  stylesName : Option Text := none

/-- A rule for some attributes. -/
structure AttributeRule where
  /-- The name of the rule. -/
  name : Text
  /-- The rule decides about the attribute. -/
  claims : AttributeContext → Bool
  /-- What becomes of the attribute; it can be left out. -/
  result : AttributeContext → Option Attribute

/-! ## Attributes without meaning -/

/-- Attributes that mean something to components only. -/
def componentAttributes : List Text :=
  ["key", "ref", "dangerouslySetInnerHTML", "suppressHydrationWarning"]

/-- The name is that of an event handler. -/
def isHandler (name : Text) : Bool :=
  match name with
  | 'o' :: 'n' :: c :: _ => Text.isUpper c
  | _ => false

/-- Leaves out what means something to components only. -/
def componentOnly : AttributeRule where
  name := "react-only"
  claims c := componentAttributes.contains c.name || isHandler c.name
  result _ := none

/-! ## Classes -/

/-- The style key that an expression refers to. -/
def styleKey? (stylesName : Option Text) : Node → Option Text
  | .member _ (.identifier _ name) key _ => if some name = stylesName then some key else none
  | _ => none

/-- The classes of a style key: keys that name a component are selected by its element. -/
def keyClasses (components : Table Text) (key : Text) : List Text :=
  if components.has key then [] else [kebabCase key]

/-- Classes in the texts of a template, each with those of the placeholder after it. -/
def templateClasses : List Text → List (List Text) → List Text
  | t :: ts, classes :: rest => Text.words t ++ classes ++ templateClasses ts rest
  | ts, [] => ts.flatMap Text.words
  | [], _ => []

mutual

/-- The classes that an expression stands for.  A conditional expression counts with the first
outcome, a logical one with its right side or else with its left one. -/
def classesOf (components : Table Text) (stylesName : Option Text) : Node → List Text
  | .literal _ (.text t) => Text.words t
  | .member s owner key computed =>
    match styleKey? stylesName (.member s owner key computed) with
    | some key => keyClasses components key
    | none => []
  | .template _ texts placeholders =>
    templateClasses texts (classesOfEach components stylesName placeholders)
  | .call _ (.identifier _ name) arguments =>
    if classHelpers.contains name then (classesOfEach components stylesName arguments).flatten
    else []
  | .conditional _ _ consequent _ => classesOf components stylesName consequent
  | .logical _ _ left right =>
    match classesOf components stylesName right with
    | [] => classesOf components stylesName left
    | classes => classes
  | _ => []

/-- The classes that each of a row of expressions stands for. -/
def classesOfEach (components : Table Text) (stylesName : Option Text) :
    List Node → List (List Text)
  | [] => []
  | n :: ns => classesOf components stylesName n :: classesOfEach components stylesName ns

end

/-- The expression that an attribute is given. -/
def givenExpression : Option Node → Option Node
  | some (.container _ expression) => expression
  | some (.literal s v) => some (.literal s v)
  | _ => none

/-- A list without repetitions; the first of equal items stays. -/
def distinct (l : List Text) : List Text :=
  l.foldl (fun seen t => if seen.contains t then seen else seen ++ [t]) []

/-- Makes the class attribute of a class name. -/
def classNames : AttributeRule where
  name := "class-name"
  claims c := (["className", "class"] : List Text).contains c.name
  result c :=
    let classes := match givenExpression c.value with
      | some n => classesOf c.components c.stylesName n
      | none => []
    match distinct classes with
    | [] => none
    | classes => some { name := "class", value := some (Text.join " " classes) }

/-! ## Other attributes -/

/-- The text of a number; whole numbers have no point. -/
def numberText (x : Binary64) : Text :=
  match x.toNat? with
  | some n => Text.ofNat n
  | none => x.toText

/-- What becomes of an attribute that no rule claims.  Its value is kept if it is known now, and
otherwise only its name; false and missing values leave it out. -/
def defaultAttribute (c : AttributeContext) : Option Attribute :=
  let name := attributeName c.name
  match c.value with
  | none => some { name }
  | some (.literal _ (.text t)) => some { name, value := some t }
  | some (.container _ (some (.literal _ v))) =>
    match v with
    | .text t => some { name, value := some t }
    | .whole n => some { name, value := some (Text.ofNat n) }
    | .fractional x => some { name, value := some (numberText x) }
    | .truth true => some { name }
    | .truth false | .nothing => none
  | some (.container _ (some (.template _ [t] []))) => some { name, value := some t }
  | some (.container _ _) => some { name }
  | _ => none

/-! ## Rules in order -/

/-- Rules in order, and what becomes of the attributes that none of them claims. -/
structure AttributeRules where
  /-- The rules. -/
  rules : List AttributeRule := [componentOnly, classNames]
  /-- The default. -/
  otherwise : AttributeContext → Option Attribute := defaultAttribute

namespace AttributeRules

/-- Add a rule before or after the others. -/
def withRule (r : AttributeRules) (rule : AttributeRule) (first : Bool := true) : AttributeRules :=
  { r with rules := if first then rule :: r.rules else r.rules ++ [rule] }

/-- What becomes of an attribute. -/
def result (r : AttributeRules) (c : AttributeContext) : Option Attribute :=
  match r.rules.find? (·.claims c) with
  | some rule => rule.result c
  | none => r.otherwise c

end AttributeRules

end SkinCompiler.Markup
