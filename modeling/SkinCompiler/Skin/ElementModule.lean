import SkinCompiler.Text.CharClass
import SkinCompiler.Text.Line

/-!
# Modules of custom elements

The module that defines a skin as a custom element.  Its template is one template literal with one
placeholder, for the template of the base class; the styles and the markup stand in it as text.
-/

namespace SkinCompiler.Skin

/-- What a module is made of. -/
structure ElementModule where
  /-- The lines that import other modules. -/
  imports : List Text
  /-- The markup. -/
  html : Text
  /-- The class that is defined. -/
  className : Text
  /-- The element that it is defined for. -/
  elementName : Text
  /-- The styles. -/
  styles : Text := []
  /-- The address of a stylesheet that is linked in place of the styles. -/
  stylesheet : Option Text := none

/-- How a module is written. -/
structure ElementModule.Options where
  /-- The width of one level of indentation. -/
  indent : Nat := 2
  /-- The module of the base class. -/
  baseImport : Text := "../media-skin"
  /-- What is done to the lines that import other modules. -/
  formatImports : List Text → List Text := id
  /-- What is done to the styles. -/
  formatStyles : Text → Text := id
  /-- What is done to the markup. -/
  formatHtml : Text → Text := id

namespace ElementModule

/-- A text inside a template literal: backslashes, backquotes and the beginnings of placeholders
are escaped. -/
def escapeTemplate : Text → Text
  | '$' :: '\x7b' :: t => "\\$\x7b" ++ escapeTemplate t
  | c :: t => (if c == '\\' || c == '`' then ['\\', c] else [c]) ++ escapeTemplate t
  | [] => []

/-- The lines of a text inside a template literal, without those that are blank. -/
def templateLines (margin t : Text) : List Text :=
  ((Text.lines (escapeTemplate t)).filter (!Text.isBlankText ·)).map (margin ++ ·)

/-- The lines of the style block, or the line that links the stylesheet. -/
def styleLines (unit : Text) (stylesheet : Option Text) (styles : Text) : List Text :=
  let linked := stylesheet.filter (!·.isEmpty)
  match linked with
  | some address => [unit ++ unit ++ "<link rel=\"stylesheet\" href=\"" ++ address ++ "\">"]
  | none =>
    if Text.isBlankText styles then []
    else (unit ++ unit ++ "<style>") :: templateLines (unit ++ unit ++ unit) styles
      ++ [unit ++ unit ++ "</style>"]

/-- The lines up to and including the placeholder of the template. -/
def openingLines (unit : Text) : List Text := [
  "",
  "export function getTemplateHTML() \x7b",
  unit ++ "return /*html*/ `",
  unit ++ unit ++ "$\x7bMediaSkin.getTemplateHTML()\x7d"]

/-- The lines after the template. -/
def closingLines (unit className elementName : Text) : List Text := [
  unit ++ "`;",
  "\x7d",
  "",
  "export class " ++ className ++ " extends MediaSkin \x7b",
  unit ++ "static getTemplateHTML: () => string = getTemplateHTML;",
  "\x7d",
  "",
  "if (!customElements.get('" ++ elementName ++ "')) \x7b",
  unit ++ "customElements.define('" ++ elementName ++ "', " ++ className ++ ");",
  "\x7d"]

/-- The lines of a module. -/
def lines (m : ElementModule) (o : Options) : List Text :=
  let unit := Text.spaces o.indent
  let first : Text := "import \x7b MediaSkin \x7d from '" ++ o.baseImport ++ "';"
  first :: o.formatImports m.imports ++ openingLines unit
    ++ styleLines unit m.stylesheet (o.formatStyles m.styles)
    ++ templateLines (unit ++ unit) (o.formatHtml m.html)
    ++ closingLines unit m.className m.elementName

/-- The text of a module. -/
def write (m : ElementModule) (o : Options) : Text := Text.join "\n" (m.lines o) ++ ['\n']

end ElementModule

end SkinCompiler.Skin
