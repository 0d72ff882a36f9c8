import SkinCompiler.Markup.Name
import SkinCompiler.Stylesheet.Reader

/-!
# Class selectors

A stylesheet written for class names of its own is turned into one for elements: a class that names
a component becomes the selector of its element, and every other class gets the spelling that the
markup gives it.
-/

namespace SkinCompiler

/-- What takes the place of class selectors. -/
structure ClassReplacement where
  /-- The elements of the classes that name a component. -/
  components : Table Text := []
  /-- Components are selected by a data attribute and not by their element. -/
  byAttribute : Bool := false

namespace ClassReplacement

/-- What a class selector becomes.  Names with escaped characters stay as they are. -/
def selector (w : ClassReplacement) (name : Text) : Text :=
  if name.isEmpty then ['.']
  else match Table.get? name w.components with
    | some element =>
      if w.byAttribute then "[data-" ++ Markup.kebabCase name ++ "]" else element
    | none =>
      if name.contains '\\' then '.' :: name else '.' :: Markup.kebabCase name

/-- Replace the class selectors of a text.  `name` holds the class name being read, last character
first, once its point has been passed. -/
def replaceFrom (w : ClassReplacement) : (name : Option Text) → Text → Text
  | none, [] => []
  | some name, [] => w.selector name.reverse
  | none, c :: t => if c == '.' then replaceFrom w (some []) t else c :: replaceFrom w none t
  | some name, '\\' :: c :: t =>
    if c == '\n' then w.selector name.reverse ++ '\\' :: c :: replaceFrom w none t
    else replaceFrom w (some (c :: '\\' :: name)) t
  | some name, c :: t =>
    if Text.isWord c || c == '-' then replaceFrom w (some (c :: name)) t
    else
      w.selector name.reverse
        ++ if c == '.' then replaceFrom w (some []) t else c :: replaceFrom w none t

/-- Replace the class selectors of a selector. -/
def replace (w : ClassReplacement) (t : Text) : Text := w.replaceFrom none t

mutual

/-- Replace the class selectors of a rule and of the rules inside it. -/
def onRule (w : ClassReplacement) : Rule → Rule
  | .style selector declarations => .style (w.replace selector) declarations
  | .block name params rules => .block name params (onRules w rules)
  | .statement name params => .statement name params

/-- Replace the class selectors of rules. -/
def onRules (w : ClassReplacement) : List Rule → List Rule
  | [] => []
  | r :: rs => onRule w r :: onRules w rs

end

/-- The stylesheet of a text with its class selectors replaced, written anew. -/
def stylesheet (w : ClassReplacement) (css : Text) (indent : Nat) :
    Except Stylesheet.Unterminated Text := do
  let sheet ← Stylesheet.read css
  return Stylesheet.write indent (w.onRules sheet)

end ClassReplacement

end SkinCompiler
