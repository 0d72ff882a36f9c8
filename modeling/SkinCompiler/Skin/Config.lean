import SkinCompiler.Candidate.DesignSystem
import SkinCompiler.Skin.ImportMapping

/-!
# Configurations

What can be chosen about a compilation.  A configuration is read from an object whose keys may be
written in words run together, with hyphens or with low lines.
-/

namespace SkinCompiler.Skin

/-- What is compiled. -/
inductive InputType where
  /-- A skin. -/
  | skin
  deriving DecidableEq

/-- What it is compiled to. -/
inductive OutputFormat where
  /-- A custom element. -/
  | webComponent
  /-- A component. -/
  | react
  deriving DecidableEq

/-- Where the styles go. -/
inductive CssStrategy where
  /-- To the place where they are used. -/
  | inline
  /-- To a stylesheet. -/
  | vanilla
  /-- To a stylesheet whose class names are imported. -/
  | cssModules
  deriving DecidableEq

/-- The word for an input type. -/
def InputType.word : InputType → Text
  | .skin => "skin"

/-- The word for an output format. -/
def OutputFormat.word : OutputFormat → Text
  | .webComponent => "web-component"
  | .react => "react"

/-- The word for a strategy. -/
def CssStrategy.word : CssStrategy → Text
  | .inline => "inline"
  | .vanilla => "vanilla"
  | .cssModules => "css-modules"

/-- All input types. -/
def InputType.all : List InputType := [.skin]

/-- All output formats. -/
def OutputFormat.all : List OutputFormat := [.webComponent, .react]

/-- All strategies. -/
def CssStrategy.all : List CssStrategy := [.inline, .vanilla, .cssModules]

/-- The output format of a word. -/
def OutputFormat.ofWord? (t : Text) : Option OutputFormat := all.find? (·.word = t)

/-- The strategy of a word. -/
def CssStrategy.ofWord? (t : Text) : Option CssStrategy := all.find? (·.word = t)

/-- The choices of a configuration.  Options that nothing is asked of are kept as they were
given. -/
structure Config where
  /-- What is compiled. -/
  inputType : InputType := .skin
  /-- What it is compiled to. -/
  outputFormat : OutputFormat := .webComponent
  /-- Where the styles go. -/
  cssStrategy : CssStrategy := .inline
  /-- The packages that take the place of others. -/
  packageMappings : Option (Table Json) := some []
  /-- The names that take the place of others. -/
  componentMappings : Option (Table Json) := none
  /-- The imports that are left out. -/
  excludePatterns : List Json := defaultPatterns.map .text
  /-- Findings are handed out. -/
  warnings : Json := .bool true
  /-- The width of one level of indentation, a number or a truth value. -/
  indentSize : Json := .whole 2
  /-- The module of the base class. -/
  baseImport : Json := .text "../media-skin"
  /-- The names that class tokens are made of. -/
  designSystem : DesignSystem := .builtIn

namespace Config

/-- What can be wrong with a configuration. -/
inductive Fault where
  /-- There is no option of that name. -/
  | unknownOption (key : Text)
  /-- There is no option of that name to override. -/
  | unexpectedArgument (name : Text)
  /-- A value that is not among the choices of its option. -/
  | invalidChoice (option : Text) (value : Json) (choices : List Text)
  /-- A text in place of a list of patterns. -/
  | patternText
  /-- Something else in place of a list of patterns. -/
  | patternsNoList (value : Json)
  /-- An indentation that is no natural number. -/
  | indentSize (value : Json)
  /-- Something else in place of an object. -/
  | noMapping (name : Text) (value : Json)
  /-- An extension of the design system that is no list of names. -/
  | designSystem (e : DesignSystem.NotNames)

/-- The word for the type of a value. -/
def typeWord : Json → Text
  | .null => "NoneType"
  | .bool _ => "bool"
  | .whole _ => "int"
  | .fractional _ => "float"
  | .text _ => "str"
  | .array _ => "list"
  | .object _ => "dict"

/-- The text of a fault. -/
def Fault.message : Fault → Text
  | .unknownOption key => "unknown configuration option " ++ Text.quoted key
  | .unexpectedArgument name =>
    "CompilerConfig.__init__() got an unexpected keyword argument " ++ Text.quoted name
  | .invalidChoice option value choices =>
    "invalid " ++ option ++ " " ++ value.shown ++ " (expected one of: "
      ++ Text.join ", " choices ++ ")"
  | .patternText => "exclude_patterns must be a list of patterns, not a string"
  | .patternsNoList value => "'" ++ typeWord value ++ "' object is not iterable"
  | .indentSize value =>
    "indent_size must be a non-negative integer, got " ++ value.shown
  | .noMapping name value => name ++ " must be a mapping, got " ++ typeWord value
  | .designSystem e => e.message

/-! ## Option names -/

/-- A name with a low line before every capital that is not its first letter. -/
def markCapitals : Text → Text
  | [] => []
  | c :: t => c :: t.flatMap fun c => if Text.isAsciiUpper c then ['_', c] else [c]

/-- The name of an option with low lines between its words. -/
def optionName (key : Text) : Text :=
  let name := (Text.toLower (markCapitals key)).map fun c => if c == '-' then '_' else c
  if name = "import_mappings".toList then "package_mappings" else name

/-- The names of all options. -/
def optionNames : List Text := [
  "input_type", "output_format", "css_strategy", "package_mappings", "component_mappings",
  "exclude_patterns", "warnings", "indent_size", "base_import", "design_system_extra"]

/-- The options that the entries of an object set. -/
def options (entries : List (Text × Json)) : Except Fault (Table Json) :=
  match entries.find? fun (key, _) => !optionNames.contains (optionName key) with
  | some (key, _) => .error (.unknownOption key)
  | none => .ok (Table.ofList (entries.map fun (key, v) => (optionName key, v)))

/-- The options with others that override them; those without a value do not. -/
def override (options : Table Json) (overrides : List (Text × Json)) : Table Json :=
  options.setAll (overrides.filter fun (_, v) => match v with
    | .null => false
    | _ => true)

/-! ## Values -/

/-- The choice that a value stands for; without a value, the given one. -/
def choice {α : Type} (option : Text) (word : α → Text) (all : List α) (default : α) :
    Option Json → Except Fault α
  | none => .ok default
  | some v =>
    let chosen := match v with
      | .text t => all.find? fun a => word a = t
      | _ => none
    match chosen with
    | some a => .ok a
    | none => .error (.invalidChoice option v (all.map word))

/-- The patterns that a value stands for. -/
def patterns : Option Json → Except Fault (List Json)
  | none => .ok (defaultPatterns.map .text)
  | some (.text _) => .error .patternText
  | some (.array items) => .ok items
  | some (.object entries) => .ok (entries.map fun (key, _) => .text key)
  | some v => .error (.patternsNoList v)

/-- The indentation that a value stands for. -/
def indentation : Option Json → Except Fault Json
  | none => .ok (.whole 2)
  | some (.bool b) => .ok (.bool b)
  | some (.whole n) => if n < 0 then .error (.indentSize (.whole n)) else .ok (.whole n)
  | some v => .error (.indentSize v)

/-- The mapping that a value stands for; null stands for none. -/
def mapping (name : Text) (default : Option (Table Json)) :
    Option Json → Except Fault (Option (Table Json))
  | none => .ok default
  | some .null => .ok none
  | some (.object entries) => .ok (some entries)
  | some v => .error (.noMapping name v)

/-- The configuration that options make. -/
def ofOptions (options : Table Json) : Except Fault Config := do
  match options.find? fun (name, _) => !optionNames.contains name with
  | some (name, _) => .error (.unexpectedArgument name)
  | none =>
    let option (name : Text) := Table.get? name options
    let inputType ← choice "input type" InputType.word InputType.all .skin (option "input_type")
    let outputFormat ← choice "output format" OutputFormat.word OutputFormat.all .webComponent
      (option "output_format")
    let cssStrategy ← choice "CSS strategy" CssStrategy.word CssStrategy.all .inline
      (option "css_strategy")
    let excludePatterns ← patterns (option "exclude_patterns")
    let indentSize ← indentation (option "indent_size")
    let packageMappings ← mapping "package_mappings" (some []) (option "package_mappings")
    let componentMappings ← mapping "component_mappings" none (option "component_mappings")
    let extra ← mapping "design_system_extra" none (option "design_system_extra")
    let designSystem ← match DesignSystem.extended (.object (extra.getD [])) with
      | .ok d => .ok d
      | .error e => .error (.designSystem e)
    return {
      inputType, outputFormat, cssStrategy, excludePatterns, indentSize, packageMappings
      componentMappings, designSystem
      warnings := (option "warnings").getD (.bool true)
      baseImport := (option "base_import").getD (.text "../media-skin") }

/-- Read a configuration from the entries of an object, with others that override them. -/
def read (entries : List (Text × Json)) (overrides : List (Text × Json) := []) :
    Except Fault Config := do
  let options ← options entries
  ofOptions (override options overrides)

/-! ## Reading off -/

/-- The width of one level of indentation. -/
def indent (c : Config) : Nat :=
  match c.indentSize with
  | .whole n => n.toNat
  | .bool b => b.toNat
  | _ => 0

/-- Findings are handed out. -/
def reports (c : Config) : Bool := !c.warnings.isEmpty

/-- The entries of a mapping as texts. -/
def textTable (t : Option (Table Json)) : Table Text :=
  (t.getD []).map fun (key, v) => (key, v.asText)

/-- How imports are mapped. -/
def importMapping (c : Config) : ImportMapping where
  packages := textTable c.packageMappings
  patterns := (c.excludePatterns.filter (!·.isEmpty)).map (·.asText)
  names := textTable c.componentMappings
  relative := elementSource

end Config

end SkinCompiler.Skin
