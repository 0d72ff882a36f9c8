import SkinCompiler.Markup.AttributeRule

/-!
# Components with a style of their own

A style key that has the name of the component it is applied to need not be a class: its rules can
select the element of the component.
-/

namespace SkinCompiler.Markup

open Source

mutual

/-- The style keys in a class expression, the last one first. -/
def keysIn (stylesName : Option Text) : Node → List Text
  | .member s owner key computed =>
    (styleKey? stylesName (.member s owner key computed)).toList
  | .call _ _ arguments => keysInAll stylesName arguments
  | .template _ _ placeholders => keysInAll stylesName placeholders
  | .conditional _ _ consequent alternate =>
    keysIn stylesName alternate ++ keysIn stylesName consequent
  | .logical _ _ left right => keysIn stylesName right ++ keysIn stylesName left
  | _ => []

/-- The style keys in a row of class expressions, the last one first. -/
def keysInAll (stylesName : Option Text) : List Node → List Text
  | [] => []
  | n :: ns => keysInAll stylesName ns ++ keysIn stylesName n

end

/-- The value of the first attribute of that name. -/
def attributeValue? (name : Text) : List Node → Option Node
  | [] => none
  | .attribute _ n value :: rest => if n = name then value else attributeValue? name rest
  | _ :: rest => attributeValue? name rest

/-- The style keys that an element is given as classes. -/
def classKeys (stylesName : Option Text) (attributes : List Node) : List Text :=
  match attributeValue? "className" attributes with
  | some (.container _ (some expression)) => keysIn stylesName expression
  | _ => []

/-- The name of a component without the marks between its words. -/
def plainTag (tag : Text) : Text := Text.toLower (tag.filter (· != '.'))

/-- A style key without the marks between its words. -/
def plainKey (key : Text) : Text := Text.toLower (key.filter fun c => c != '-' && c != '_')

/-- The style keys of an element that have its name, with the element that they select. -/
def ownKeys (stylesName : Option Text) (tag : Text) (attributes : List Node) :
    List (Text × Text) :=
  if isBuiltIn tag then []
  else ((classKeys stylesName attributes).filter fun key => plainKey key = plainTag tag).map
    fun key => (key, elementName tag)

mutual

/-- The style keys below a node that have the name of their element, with the element. -/
def componentKeys (stylesName : Option Text) : Node → List (Text × Text)
  | .element _ tag attributes children _ =>
    ownKeys stylesName tag attributes ++ componentKeysOfAll stylesName children
  | .fragment _ children => componentKeysOfAll stylesName children
  | _ => []

/-- The style keys below a row of nodes that have the name of their element. -/
def componentKeysOfAll (stylesName : Option Text) : List Node → List (Text × Text)
  | [] => []
  | n :: ns => componentKeys stylesName n ++ componentKeysOfAll stylesName ns

end

/-- The elements of the style keys that name a component; the first element of a key counts. -/
def componentMap (stylesName : Option Text) (element : Node) : Table Text :=
  (componentKeys stylesName element).foldl
    (fun t (key, tag) => if t.has key then t else Table.set key tag t) []

end SkinCompiler.Markup
