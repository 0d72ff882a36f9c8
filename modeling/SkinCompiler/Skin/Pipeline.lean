import SkinCompiler.Markup.Component
import SkinCompiler.Markup.Template
import SkinCompiler.Path
import SkinCompiler.Skin.ElementModule
import SkinCompiler.Skin.StylesEdit
import SkinCompiler.Style.Compiled
import SkinCompiler.Stylesheet.ClassSelector

/-!
# Pipelines

The ways to compile a skin: to a custom element with its styles in place or in a stylesheet, or to
a component with its styles in a stylesheet or in place.
-/

namespace SkinCompiler.Skin

/-! ## Output -/

/-- The type of a file. -/
inductive FileType where
  /-- A module. -/
  | module
  /-- A component source. -/
  | component
  /-- A stylesheet. -/
  | stylesheet
  /-- Type declarations. -/
  | declarations
  deriving DecidableEq

/-- A file that a compilation makes. -/
structure File where
  /-- Where it goes. -/
  path : Text
  /-- Its type. -/
  type : FileType
  /-- Its content. -/
  content : Text

/-- What a compilation makes. -/
structure Output where
  /-- The files. -/
  files : List File
  /-- What was found. -/
  warnings : List Text

/-- A compilation with what happened during it. -/
structure Run (α : Type) where
  /-- What happened, up to the end or to the failure. -/
  events : List Event
  /-- What it made. -/
  result : Except Failure α

/-- The findings as they are handed out. -/
def reported (c : Config) (diagnostics : List Diagnostic) : List Text :=
  if c.reports then diagnostics.map (·.text) else []

/-! ## Pipelines -/

/-- A way to compile a skin. -/
inductive Pipeline where
  /-- To a custom element, with the styles in place or in a linked stylesheet. -/
  | webComponent (linked : Bool)
  /-- To a component that imports its class names from a stylesheet. -/
  | reactModules
  /-- To a component with its classes in place. -/
  | reactInline
  deriving DecidableEq

namespace Pipeline

/-- The key of a pipeline. -/
def key : Pipeline → PipelineKey
  | .webComponent linked =>
    { outputFormat := .webComponent, cssStrategy := if linked then .vanilla else .inline }
  | .reactModules => { outputFormat := .react, cssStrategy := .cssModules }
  | .reactInline => { outputFormat := .react, cssStrategy := .inline }

/-- The name of a pipeline. -/
def name (p : Pipeline) : Text :=
  match p with
  | .webComponent _ => "Skin -> Web Component (" ++ p.key.cssStrategy.word ++ " CSS)"
  | .reactModules => "Skin -> React (CSS Modules)"
  | .reactInline => "Skin -> React (inline classes)"

/-! ## Custom elements -/

/-- The stylesheet of the compiled styles for the elements of the components. -/
def elementStyles (c : Config) (components : Table Text) (compiled : Style.Compiled) :
    Except Failure Text :=
  let css := compiled.css
  if Text.isBlankText css then .ok []
  else match ({ components } : ClassReplacement).stylesheet css c.indent with
    | .ok css => .ok css
    | .error e => .error (.stylesheet e)

/-- The imports of a skin that come before the first one that would have to be looked up among the
packages if there are none to look it up in. -/
def reachedImports (c : Config) (imports : List Source.Import) : List Source.Import :=
  if c.packageMappings.isSome then imports else imports.takeWhile (!c.importMapping.looksUp ·)

/-- The files of a custom element. -/
def elementFiles (c : Config) (linked : Bool) (s : LoadedSkin) (html css : Text)
    (imports : List Text) : List File :=
  let base := Markup.kebabCase (Path.stem s.path)
  let m : ElementModule := {
    imports, html
    className := s.componentName
    elementName := Markup.elementName s.componentName
    styles := if linked then [] else css
    stylesheet := if linked then some ("./" ++ base ++ ".css") else none }
  let text := m.write { indent := c.indent, baseImport := c.baseImport.asText }
  let first : File := { path := base ++ ".ts", type := .module, content := text }
  first :: if linked then [{ path := base ++ ".css", type := .stylesheet, content := css }] else []

/-- Compile a skin to a custom element. -/
def compileElement (c : Config) (linked : Bool) (s : LoadedSkin) : Run Output :=
  let stylesName := s.outline.stylesName
  let components := Markup.componentMap stylesName s.root
  let o : Markup.TemplateOptions := { source := s.source, components, stylesName }
  let html := Markup.template o c.indent 0 s.root
  let diagnostics := s.diagnostics ++ Markup.templateFindings o s.root
  let compiled := Style.compile { designSystem := c.designSystem } s.styles
  let before := Event.serialised (rootTag s.root) diagnostics.length :: compiled.events
  let imports := reachedImports c s.outline.imports
  match elementStyles c components compiled with
  | .error e => { events := before, result := .error e }
  | .ok css =>
    let before := before ++ c.importMapping.events imports
    if imports.length < s.outline.imports.length then
      { events := before, result := .error .noPackages }
    else
      let lines := sideEffectLines (c.importMapping.imports imports)
      let files := elementFiles c linked s html css lines
      { events := before
          ++ [.componentCompiled s.path (key (.webComponent linked)).text files.length]
        result := .ok {
          files, warnings := reported c compiled.diagnostics ++ reported c diagnostics } }
where
  /-- The tag of the element tree. -/
  rootTag : Source.Node → Text
    | .element _ tag _ _ _ => tag
    | _ => []

/-! ## Components -/

/-- Apply edits to the source of a skin. -/
def edited (s : LoadedSkin) (edits : List Text.Edit) : Except Failure Text :=
  match Text.splice s.source edits with
  | .ok t => .ok t
  | .error e => .error (.edits e)

/-- Compile a skin to a component that imports its class names. -/
def compileModules (c : Config) (s : LoadedSkin) : Run Output :=
  let base := Path.stem s.path
  let stylesName := (s.outline.stylesName.filter (!·.isEmpty)).getD "styles"
  let importLine : Text := "import " ++ stylesName ++ " from './" ++ base ++ ".module.css';"
  let compiled := Style.compile { designSystem := c.designSystem } s.styles
  match edited s (stylesEdits s importLine) with
  | .error e => { events := compiled.events, result := .error e }
  | .ok source =>
    let files : List File := [
      { path := base ++ ".tsx", type := .component, content := source },
      { path := base ++ ".module.css", type := .stylesheet, content := compiled.css },
      { path := base ++ ".module.css.d.ts", type := .declarations
        content := Style.typeDeclarations s.styles.keys }]
    { events := compiled.events ++ [.modulesCompiled s.path (key .reactModules).text files.length]
      result := .ok {
        files, warnings := reported c compiled.diagnostics ++ reported c s.diagnostics } }

/-- Compile a skin to a component with its classes in place. -/
def compileInline (c : Config) (s : LoadedSkin) : Run Output :=
  let found := references s.outline.stylesName s.root
  match edited s (stylesEdits s [] ++ found.map (referenceEdit s.styles)) with
  | .error e => { events := [], result := .error e }
  | .ok source =>
    { events := [.inlineCompiled s.path (key .reactInline).text]
      result := .ok {
        files := [{ path := Path.stem s.path ++ ".tsx", type := .component, content := source }]
        warnings := reported c
          (s.diagnostics ++ found.filterMap (referenceFinding? s.styles)) } }

/-! ## Compiling -/

/-- Compile a loaded skin. -/
def compileSkin (p : Pipeline) (c : Config) (s : LoadedSkin) : Run Output :=
  match p with
  | .webComponent linked => compileElement c linked s
  | .reactModules => compileModules c s
  | .reactInline => compileInline c s

/-- Load a skin and compile it. -/
def compile (p : Pipeline) (c : Config) (e : Entry) : Run Output :=
  match load e with
  | .error f => { events := [], result := .error f }
  | .ok s =>
    let r := p.compileSkin c s
    { r with events := s.loaded :: r.events }

end Pipeline

end SkinCompiler.Skin
