import SkinCompiler.Diagnostic
import SkinCompiler.Skin.Config
import SkinCompiler.Source.ClassText
import SkinCompiler.Source.Outline
import SkinCompiler.Stylesheet.Reader
import SkinCompiler.Text.Splice

/-!
# Skins

A skin is a component source with its styles.  The styles are an object in the source itself or in
a separate module, which the source imports.
-/

namespace SkinCompiler.Skin

open Source

/-- The way a kind of input is compiled. -/
structure PipelineKey where
  /-- What is compiled. -/
  inputType : InputType := .skin
  /-- What it is compiled to. -/
  outputFormat : OutputFormat
  /-- Where the styles go. -/
  cssStrategy : CssStrategy
  deriving DecidableEq

/-- The text of a key. -/
def PipelineKey.text (k : PipelineKey) : Text :=
  k.inputType.word ++ "/" ++ k.outputFormat.word ++ "/" ++ k.cssStrategy.word

/-- The key that a configuration chooses. -/
def Config.key (c : Config) : PipelineKey := ⟨c.inputType, c.outputFormat, c.cssStrategy⟩

/-! ## Failures -/

/-- Why a compilation has no output. -/
inductive Failure where
  /-- A source cannot be read. -/
  | unreadable (path : Text) (e : Unreadable)
  /-- A source has no component. -/
  | noComponent (path : Text)
  /-- There is no pipeline for a key. -/
  | noPipeline (key : PipelineKey) (available : List PipelineKey)
  /-- The styles make no stylesheet that can be read back. -/
  | stylesheet (e : Stylesheet.Unterminated)
  /-- The edits of a source overlap. -/
  | edits (e : Text.BadRange)
  /-- There is an import to map and nothing to look it up in. -/
  | noPackages

/-- Where in a file a failure is. -/
structure Location where
  /-- The file. -/
  path : Text
  /-- The place in it. -/
  place : Option Place := none
  /-- The piece of the source. -/
  token : Option Text := none

/-- Where in a file a failure is, if it is in one. -/
def Failure.location? : Failure → Option Location
  | .unreadable path e => some { path, place := some e.place, token := e.fault.token? }
  | .noComponent path => some { path }
  | _ => none

/-- The text of a place in a file. -/
def Location.text (l : Location) : Text :=
  match l.place with
  | some p => l.path ++ ":" ++ Text.ofNat p.line ++ ":" ++ Text.ofInt p.column
  | none => l.path

/-- The text of a failure. -/
def Failure.message : Failure → Text
  | .unreadable path e =>
    Location.text { path, place := some e.place } ++ ": " ++ e.fault.message
  | .noComponent path => path ++ ": no component returning JSX found"
  | .noPipeline key available =>
    let names := Text.join ", " (available.map (·.text))
    "no pipeline registered for " ++ key.text ++ " (available: "
      ++ (if names.isEmpty then "none".toList else names) ++ ")"
  | .stylesheet e => e.message
  | .edits e => e.message
  | .noPackages => "argument of type 'NoneType' is not iterable"

/-! ## Loading -/

/-- What a compilation starts from. -/
structure Entry where
  /-- The name of the source. -/
  path : Text
  /-- The source. -/
  source : Text
  /-- The source of the separate styles module. -/
  stylesSource : Option Text := none

/-- A skin that has been loaded. -/
structure LoadedSkin where
  /-- The name of its source. -/
  path : Text
  /-- Its source. -/
  source : Text
  /-- What is known about the source. -/
  outline : Outline
  /-- The element that the component returns. -/
  root : Node
  /-- The name of the component. -/
  componentName : Text
  /-- The styles. -/
  styles : Table Text
  /-- What was found so far. -/
  diagnostics : List Diagnostic

/-- Styles that are not where they should be. -/
def missingStyles (message : Text) : Diagnostic where
  rule := "missing-styles"
  message := message

/-- Read a source. -/
def readOutline (path source : Text) (parts : Parts) : Except Failure Outline :=
  match outline source parts with
  | .ok o => .ok o
  | .error e => .error (.unreadable path e)

/-- Only the styles of a source. -/
def stylesOnly : Parts := { elements := false, componentName := false, imports := false }

/-- The value of the styles and what is to be said about it. -/
def stylesValue (e : Entry) (o : Outline) : Except Failure (Option Node × List Diagnostic) :=
  match o.stylesValue, e.stylesSource, o.stylesName with
  | some n, _, _ => .ok (some n, [])
  | none, some source, _ => do
    let separate ← readOutline (e.path ++ " (styles)") source stylesOnly
    return (separate.stylesValue, if separate.stylesValue.isNone then
      [missingStyles "styles module has no styles object"] else [])
  | none, none, some name =>
    .ok (none, [missingStyles ("'" ++ name ++ "' is imported but no styles object was provided")])
  | none, none, none => .ok (none, [])

/-- Load a skin. -/
def load (e : Entry) : Except Failure LoadedSkin := do
  let o ← readOutline e.path e.source {}
  match o.root, o.componentName with
  | some root, some componentName => do
    let (value, diagnostics) ← stylesValue e o
    return {
      path := e.path, source := e.source, outline := o, root, componentName, diagnostics
      styles := (value.bind stylesTable?).getD [] }
  | _, _ => .error (.noComponent e.path)

/-- The event of loading a skin. -/
def LoadedSkin.loaded (s : LoadedSkin) : Event := .loaded s.path s.componentName s.styles.length

end SkinCompiler.Skin
