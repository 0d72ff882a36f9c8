import SkinCompiler.Candidate.Reader
import SkinCompiler.CommandLine.Command
import SkinCompiler.CommandLine.FileAccess
import SkinCompiler.Json.Reader
import SkinCompiler.Skin.Registry

/-!
# Running commands

What a command prints, what it writes, and the code it ends with: zero if it did what was asked,
one if it could not, and two if it was not used as it should be.
-/

namespace SkinCompiler.CommandLine

open Skin

/-- How a command ends. -/
structure Outcome where
  /-- The code. -/
  exitCode : Nat
  /-- What it prints. -/
  out : Text := []
  /-- What it reports. -/
  err : Text := []

/-- A command that is not used as it should be. -/
def misused : Outcome := { exitCode := 2 }

/-- Lines, each with its end. -/
def unlines (lines : List Text) : Text := lines.flatMap (· ++ ['\n'])

/-! ## Class tokens -/

/-- The lines for the kind and the root of a utility. -/
def describeKind (kind root : Text) : List Text := ["  kind: " ++ kind, "  root: " ++ root]

/-- The line for a value. -/
def describeValue : Value → Text
  | .arbitrary d =>
    "  value: [" ++ d.value ++ "]" ++ Diagnostic.enclosed " (" ")" (d.dataType.getD [])
  | .named name fraction =>
    "  value: " ++ name ++ Diagnostic.enclosed " (fraction " ")" (fraction.getD [])

/-- The lines for a utility without its modifier. -/
def describeUtility : Utility → List Text
  | .static root _ => describeKind "static" root
  | .functional root value _ => describeKind "functional" root ++ [describeValue value]
  | .property name content _ =>
    describeKind "arbitrary" name ++ [describeValue (.arbitrary content)]
  | .other root value _ => describeKind "other" root ++ (value.map describeValue).toList

/-- The line for a modifier. -/
def describeModifier (m : Modifier) : Text :=
  let kind : Text := match m with
    | .named _ => "named"
    | .arbitrary _ => "arbitrary"
    | .other _ => "other"
  "  modifier: " ++ kind ++ " " ++ m.text

/-- The line for a variant. -/
def describeVariant (v : Variant) : Text :=
  let kind : Text := match v with
    | .static _ => "static"
    | .functional _ _ _ => "functional"
    | .arbitrary _ => "arbitrary"
    | .compound _ _ _ => "compound"
    | .other _ _ _ => "other"
  "  variant: " ++ kind ++ " " ++ v.write

/-- The lines for a candidate. -/
def describe (c : Candidate) : List Text :=
  let flags : List Text :=
    (if c.important then ["important".toList] else [])
      ++ (if c.negative then ["negative".toList] else [])
  describeUtility c.utility ++ (c.utility.modifier.map describeModifier).toList
    ++ c.variants.map describeVariant
    ++ if flags.isEmpty then [] else ["  flags: " ++ Text.join ", " flags]

/-- The lines for a class token. -/
def describeToken (raw : Text) : List Text :=
  match Candidate.read? .builtIn raw with
  | none => [raw ++ ": unparseable"]
  | some c => (raw ++ ":") :: describe c

/-- Describe class tokens. -/
def describeTokens (classes : List Text) : Outcome where
  exitCode := if classes.all fun raw => (Candidate.read? .builtIn raw).isSome then 0 else 1
  out := unlines (classes.flatMap describeToken)

/-! ## Pipelines -/

/-- The lines for the pipelines of a registry. -/
def describePipelines (r : Registry) : Outcome where
  exitCode := 0
  out := unlines (r.pipelines.map fun p => p.key.text ++ "  " ++ p.name)

/-! ## Compilations -/

/-- A configuration that cannot be had. -/
def badConfig (message : Text) : Outcome where
  exitCode := 1
  err := unlines ["Configuration error: " ++ message]

/-- The entries of the configuration at a path, or what is wrong with it. -/
def configEntries (path text : Text) : Except Text (List (Text × Json)) :=
  match Json.read text with
  | .error e => .error (path ++ ": invalid JSON (" ++ e.message text ++ ")")
  | .ok (.object entries) => .ok entries
  | .ok _ => .error (path ++ ": expected a JSON object")

/-- The options of a request that override those of the configuration. -/
def CompileRequest.overrides (r : CompileRequest) : List (Text × Json) := [
  ("output_format", (r.outputFormat.map fun f => .text f.word).getD .null),
  ("css_strategy", (r.cssStrategy.map fun s => .text s.word).getD .null),
  ("warnings", if r.noWarnings then .bool false else .null)]

/-- The configuration with the given entries, as far as a request does not override them. -/
def configOf (entries : Except Text (List (Text × Json))) (r : CompileRequest) :
    Except Text Config :=
  entries.bind fun entries => (Config.read entries r.overrides).mapError (·.message)

/-- Where the styles that a source imports can be, unless it has styles of its own. -/
def siblingStyles (entry source : Text) : List Text :=
  match Source.outline source stylesOnly with
  | .error _ => []
  | .ok o =>
    match o.stylesValue, o.stylesImport with
    | none, some i => ([".ts", ".tsx"] : List Text).map fun suffix =>
      Path.collapse (Path.inside (Path.parent entry) (i.source ++ suffix))
    | _, _ => []

/-- The failure is one that a compilation foresees. -/
def isForeseen : Failure → Bool
  | .unreadable _ _ | .noComponent _ | .noPipeline _ _ => true
  | .stylesheet _ | .edits _ | .noPackages => false

section

variable {m : Type → Type} [Monad m]

/-- The text of a file, with all line ends the same. -/
def readText (fs : FileAccess m) (path : Text) : m Text := do
  return Text.unifyLineEnds (← fs.read path)

/-- The text of the first of several paths that is a file. -/
def readFirst (fs : FileAccess m) : List Text → m (Option Text)
  | [] => return none
  | path :: paths => do
    if (← fs.kind path) = .file then return some (← readText fs path)
    else readFirst fs paths

/-- A path that has to be that of a file, if it is given at all. -/
def isFileIfGiven (fs : FileAccess m) : Option Text → m Bool
  | none => return true
  | some path => return (← fs.kind path) = .file

/-- A path that must not be that of a file, if it is given at all. -/
def isNoFileIfGiven (fs : FileAccess m) : Option Text → m Bool
  | none => return true
  | some path => return (← fs.kind path) != .file

/-- The paths of a request are such as they have to be. -/
def pathsFit (fs : FileAccess m) (r : CompileRequest) : m Bool := do
  let entry ← isFileIfGiven fs (some r.entry)
  let config ← isFileIfGiven fs r.config
  let styles ← isFileIfGiven fs r.styles
  let outDir ← isNoFileIfGiven fs r.outDir
  return entry && config && styles && outDir

/-- The configuration of a request, or what is wrong with it. -/
def requestConfig (fs : FileAccess m) (r : CompileRequest) : m (Except Text Config) := do
  match r.config with
  | none => return configOf (.ok []) r
  | some path => return configOf (configEntries path (← readText fs path)) r

/-- The text of the separate styles module of a request, if there is one. -/
def stylesText (fs : FileAccess m) (r : CompileRequest) (path source : Text) :
    m (Option Text) := do
  match r.styles with
  | some styles => return some (← readText fs styles)
  | none => readFirst fs (siblingStyles path source)

/-- Write files into a folder; stops at the first one that cannot be written.  Gives the lines that
tell of the others, and whether all are written. -/
def writeFiles (fs : FileAccess m) (folder : Text) : List File → m (List Text × Bool)
  | [] => return ([], true)
  | f :: files => do
    let path := Path.inside folder f.path
    if ← fs.write path f.content then
      let (lines, all) ← writeFiles fs folder files
      return (("Wrote " ++ path) :: lines, all)
    else return ([], false)

/-- Write what a compilation has made. -/
def writeOutput (fs : FileAccess m) (folder : Text) (log : List Text) (o : Output) : m Outcome := do
  let failed : Outcome := { exitCode := 1, err := unlines log }
  if !(← fs.makeFolder folder) then return failed
  let (lines, all) ← writeFiles fs folder o.files
  if !all then return { failed with out := unlines lines }
  let gap : List Text := if o.warnings.isEmpty then [] else [[]]
  let summary : Text := "Summary: " ++ Text.ofNat o.files.length ++ " file(s), "
    ++ Text.ofNat o.warnings.length ++ " warning(s)"
  return {
    exitCode := 0
    out := unlines (lines ++ gap ++ [summary])
    err := unlines (log ++ o.warnings) }

/-- Compile a skin and write what comes of it. -/
def runCompilation (fs : FileAccess m) (r : CompileRequest) : m Outcome := do
  if !(← pathsFit fs r) then return misused
  match ← requestConfig fs r with
  | .error message => return badConfig message
  | .ok c =>
    let path := Path.tidy r.entry
    let source ← readText fs path
    let stylesSource ← stylesText fs r path source
    let run := Registry.builtIn.compile c { path, source, stylesSource }
    let log := if r.verbose then run.events.map (·.line) else []
    match run.result with
    | .error f =>
      let lines : List Text := if isForeseen f then ["Error: " ++ f.message] else []
      return { exitCode := 1, err := unlines (log ++ lines) }
    | .ok o =>
      let folder := match r.outDir with
        | some d => if d.isEmpty then Path.parent path else d
        | none => Path.parent path
      writeOutput fs folder log o

/-- Run a command. -/
def Command.run (fs : FileAccess m) : Command → m Outcome
  | .version => return { exitCode := 0, out := "tailskin, version 0.1.0\n" }
  | .help => return { exitCode := 0, out := "Usage: tailskin [OPTIONS] COMMAND [ARGS]...\n" }
  | .pipelines => return describePipelines .builtIn
  | .parseClass classes => return describeTokens classes
  | .compile r => runCompilation fs r

/-- Run a command line. -/
def run (fs : FileAccess m) (arguments : List Text) : m Outcome :=
  match Command.ofArguments? arguments with
  | none => return misused
  | some c => c.run fs

end

end SkinCompiler.CommandLine
