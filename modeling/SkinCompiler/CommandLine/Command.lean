import SkinCompiler.CommandLine.Arguments
import SkinCompiler.Skin.Config

/-!
# Commands

What a command line asks for.
-/

namespace SkinCompiler.CommandLine

open Skin

/-- A compilation that is asked for. -/
structure CompileRequest where
  /-- The path of the skin. -/
  entry : Text
  /-- The output format. -/
  outputFormat : Option OutputFormat := none
  /-- The strategy. -/
  cssStrategy : Option CssStrategy := none
  /-- The folder that the files go to. -/
  outDir : Option Text := none
  /-- The path of the configuration. -/
  config : Option Text := none
  /-- The path of the separate styles module. -/
  styles : Option Text := none
  /-- Findings are not handed out. -/
  noWarnings : Bool := false
  /-- Events are reported. -/
  verbose : Bool := false

/-- What is asked for. -/
inductive Command where
  /-- The version of the program. -/
  | version
  /-- How the program is used. -/
  | help
  /-- A list of the pipelines. -/
  | pipelines
  /-- The structure of class tokens. -/
  | parseClass (classes : List Text)
  /-- A compilation. -/
  | compile (r : CompileRequest)

namespace Command

/-- The option that asks how a command is used. -/
def helpOption : OptionSpec := { spellings := ["--help"] }

/-- The options of the program itself. -/
def programOptions : List OptionSpec := [{ spellings := ["--version"] }, helpOption]

/-- The options of a compilation. -/
def compileOptions : List OptionSpec := [
  { spellings := ["--output-format"], hasValue := true },
  { spellings := ["--css-strategy"], hasValue := true },
  { spellings := ["--out-dir"], hasValue := true },
  { spellings := ["--config"], hasValue := true },
  { spellings := ["--styles"], hasValue := true },
  { spellings := ["--no-warnings"] },
  { spellings := ["--verbose", "-v"] },
  helpOption]

/-- A value that has to be a known word, if it is given at all. -/
def known? {α : Type} (ofWord? : Text → Option α) : Option Text → Option (Option α)
  | none => some none
  | some t => (ofWord? t).map some

/-- The compilation that arguments ask for. -/
def compile? (a : Arguments) : Option Command := do
  let outputFormat ← known? OutputFormat.ofWord? (a.value? "--output-format")
  let cssStrategy ← known? CssStrategy.ofWord? (a.value? "--css-strategy")
  match a.operands with
  | [entry] => return .compile {
      entry, outputFormat, cssStrategy
      outDir := a.value? "--out-dir"
      config := a.value? "--config"
      styles := a.value? "--styles"
      noWarnings := a.has "--no-warnings"
      verbose := a.has "--verbose" }
  | _ => none

/-- What the arguments after the name of a command ask for. -/
def ofName? (name : Text) (arguments : List Text) : Option Command := do
  let options := if name = "compile".toList then compileOptions else [helpOption]
  let a ← Arguments.sort options false arguments
  if a.has "--help" then return .help
  match String.ofList name, a.operands with
  | "compile", _ => compile? a
  | "parse-class", c :: classes => return .parseClass (c :: classes)
  | "pipelines", [] => return .pipelines
  | _, _ => none

/-- The names of the commands. -/
def names : List Text := ["compile", "parse-class", "pipelines"]

/-- What a command line asks for; nothing, if it is not used as it should be. -/
def ofArguments? (arguments : List Text) : Option Command := do
  let a ← Arguments.sort programOptions true arguments
  match a.given, a.operands with
  | (option, _) :: _, _ => return if option = "--version".toList then .version else .help
  | [], name :: rest => if names.contains name then ofName? name rest else none
  | [], [] => none

end Command

end SkinCompiler.CommandLine
