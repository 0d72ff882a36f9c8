import SkinCompiler.Source.Node
import SkinCompiler.Table
import SkinCompiler.Text.CharClass

/-!
# Class texts

The class text that an expression has whatever the values of its variables, and the styles object
as a table of class texts.
-/

namespace SkinCompiler.Source

/-- Functions that join class texts. -/
def classHelpers : List Text := ["cn", "clsx", "classNames", "classnames", "cx", "twMerge"]

/-- The name of the function that is called: a name, or the property of an object. -/
def calleeName : Node → Option Text
  | .identifier _ name => some name
  | .member _ _ name _ => some name
  | _ => none

/-- The texts that are there and not empty, with a space between each two. -/
def joinPresent (texts : List (Option Text)) : Text :=
  Text.join " " (texts.filterMap fun t => t.filter (!·.isEmpty))

/-- The texts of a template literal, each with the text of the placeholder after it. -/
def joinTemplate : List Text → List (Option Text) → List Text
  | t :: ts, some c :: cs =>
    (if c.isEmpty then t else t ++ " " ++ c ++ " ") :: joinTemplate ts cs
  | t :: ts, none :: cs => t :: joinTemplate ts cs
  | ts, [] => ts
  | [], _ => []

mutual

/-- The class text of an expression, if it has one.  Of a logical expression the right side counts,
of a conditional one both outcomes; placeholders and arguments without a class text are left
out. -/
def classText : Node → Option Text
  | .literal _ (.text value) => some value
  | .template _ texts placeholders =>
    some (Text.collapse (Text.join " " (joinTemplate texts (classTexts placeholders))))
  | .call _ callee arguments =>
    match calleeName callee with
    | some name =>
      if classHelpers.contains name then some (joinPresent (classTexts arguments)) else none
    | none => none
  | .logical _ _ _ right => classText right
  | .conditional _ _ consequent alternate =>
    some (joinPresent [classText consequent, classText alternate])
  | _ => none

/-- The class texts of a row of expressions. -/
def classTexts : List Node → List (Option Text)
  | [] => []
  | n :: ns => classText n :: classTexts ns

end

/-- The entries of an object that have a key and a class text. -/
def classEntry : Node → Option (Text × Text)
  | .property _ (some key) value _ false => (classText value).map fun t => (key, Text.collapse t)
  | _ => none

/-- The styles table of an object, or of the first object among the arguments of a call. -/
def stylesTable? : Node → Option (Table Text)
  | .object _ properties => some (Table.ofList (properties.filterMap classEntry))
  | .call _ _ arguments => arguments.findSome? fun
    | .object _ properties => some (Table.ofList (properties.filterMap classEntry))
    | _ => none
  | _ => none

end SkinCompiler.Source
