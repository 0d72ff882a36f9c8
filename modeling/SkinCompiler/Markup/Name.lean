import SkinCompiler.Table
import SkinCompiler.Text.LetterCase

/-!
# Names in markup

Component sources spell elements and attributes in their own way: components in capitalised words,
attributes in words run together.  Markup wants small letters with hyphens between the words.
-/

namespace SkinCompiler.Markup

/-! ## Words of a name -/

/-- A new word begins between `a` and `b`: a capital after a small letter or a digit, or the last
capital of several, when a small letter follows it. -/
def startsWord (a b : Char) (next : Option Char) : Bool :=
  Text.isAsciiUpper b
    && (Text.isAsciiLower a || Text.isAsciiDigit a
      || (Text.isAsciiUpper a && next.any Text.isAsciiLower))

/-- A name with a hyphen wherever a new word begins. -/
def markWords : Text → Text
  | a :: b :: t =>
    if startsWord a b t.head? then a :: '-' :: markWords (b :: t) else a :: markWords (b :: t)
  | t => t

/-- Characters between the words of a name: blanks, points, low lines and hyphens. -/
def isSeparator (c : Char) : Bool := Text.isBlank c || c == '.' || c == '_' || c == '-'

/-- The words between the separators of a name. -/
def nameParts (t : Text) : List Text := (Text.cutWhere isSeparator t).filter (!·.isEmpty)

/-- The words of a name in small letters, with hyphens between them: `PlayButton` is
`play-button`, and `TimeRange.Root` is `time-range-root`. -/
def kebabCase (name : Text) : Text := Text.toLower (Text.join "-" (nameParts (markWords name)))

/-- The parts of a name, each with a capital in front: `play-button` is `PlayButton`. -/
def pascalCase (name : Text) : Text :=
  (nameParts name).flatMap fun
    | c :: t => Text.raise c ++ t
    | [] => []

/-! ## Elements -/

/-- The elements that markup has of its own. -/
def builtInElements : List Text := [
  "a", "abbr", "article", "aside", "audio", "b", "blockquote", "body", "br", "button", "canvas",
  "caption", "code", "dd", "details", "dialog", "div", "dl", "dt", "em", "fieldset",
  "figcaption", "figure", "footer", "form", "h1", "h2", "h3", "h4", "h5", "h6", "header", "hr",
  "i", "iframe", "img", "input", "label", "legend", "li", "main", "menu", "nav", "ol",
  "optgroup", "option", "output", "p", "picture", "pre", "progress", "section", "select", "slot",
  "small", "source", "span", "strong", "sub", "summary", "sup", "table", "tbody", "td",
  "template", "textarea", "tfoot", "th", "thead", "time", "tr", "track", "u", "ul", "video",
  "svg", "g", "path", "circle", "rect", "line", "polyline", "polygon", "defs", "use", "symbol",
  "clipPath", "mask", "linearGradient", "stop", "text"].map String.toList

/-- The element is one that markup has of its own. -/
def isBuiltIn (name : Text) : Bool := builtInElements.contains name

/-- What the names of custom elements begin with. -/
def elementLead : Text := "media-"

/-- A name that begins as those of custom elements do. -/
def withLead (name : Text) : Text :=
  if Text.startsWith name elementLead then name else elementLead ++ name

/-- The element that stands for a tag of a component source.  Elements that markup has of its own
and names that are already those of custom elements stay as they are. -/
def elementName (tag : Text) : Text :=
  if isBuiltIn tag || (tag.contains '-' && Text.toLower tag = tag) then tag
  else withLead (kebabCase tag)

/-! ## Attributes -/

/-- Attributes that markup spells in a way of its own. -/
def attributeNames : Table Text := [
  ("className", "class"), ("htmlFor", "for"), ("tabIndex", "tabindex"), ("readOnly", "readonly"),
  ("autoPlay", "autoplay"), ("autoFocus", "autofocus"), ("playsInline", "playsinline"),
  ("crossOrigin", "crossorigin"), ("contentEditable", "contenteditable"),
  ("spellCheck", "spellcheck"), ("maxLength", "maxlength"), ("srcSet", "srcset"),
  ("viewBox", "viewBox"), ("xlinkHref", "xlink:href"),
  ("preserveAspectRatio", "preserveAspectRatio")]

/-- The attribute that stands for one of a component source. -/
def attributeName (name : Text) : Text :=
  match Table.get? name attributeNames with
  | some spelling => spelling
  | none =>
    if Text.startsWithAny name ["aria-", "data-"] || Text.toLower name = name then name
    else kebabCase name

end SkinCompiler.Markup
