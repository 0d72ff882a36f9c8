import SkinCompiler.Log
import SkinCompiler.Markup.Name
import SkinCompiler.Source.Phrase

/-!
# Mapping imports

Which imports of a skin reach the generated module, from where, and under which names.  Types,
styles and the runtime of the component library are left out.
-/

namespace SkinCompiler.Skin

open Source

/-! ## Exclusion -/

/-- What is left out unless something else is wanted: styles and the runtime. -/
def defaultPatterns : List Text := ["./styles", ".css", "react", "react-dom", "react/"]

/-- A module matches a pattern.  A pattern that ends with a slash stands for a folder, one that
begins with a point for a part of the name, and any other one for a package. -/
def matchesPattern (source pattern : Text) : Bool :=
  if pattern.isEmpty then false
  else if pattern.getLast? = some '/' then
    Text.startsWith source pattern || source = pattern.dropLast
  else if pattern.head? = some '.' then Text.hasPart pattern source
  else source = pattern || Text.startsWith source (pattern ++ ['/'])

/-- A module matches one of the patterns. -/
def isExcluded (patterns : List Text) (source : Text) : Bool :=
  patterns.any (matchesPattern source)

/-! ## Modules -/

/-- The module of the custom element for the module of a component.  Only the last part of the path
changes, and only in a folder of components or if it begins with a capital. -/
def elementSource (source : Text) : Text :=
  let (folder, last) := (Text.lastHalves? '/' source).getD ([], source)
  match last with
  | [] => source
  | c :: _ =>
    if Text.hasPart "/components" source || Text.isUpper c then
      let name := Markup.withLead (Markup.kebabCase last)
      if folder.isEmpty then name else folder ++ '/' :: name
    else source

/-- A module with its package replaced. -/
def mapPackage (packages : Table Text) (source : Text) : Text :=
  match Table.get? source packages with
  | some target => target
  | none =>
    match packages.find? fun (package, _) => Text.startsWith source (package ++ ['/']) with
    | some (package, target) => target ++ source.drop package.length
    | none => source

/-- An import specifier with the imported name replaced. -/
def renameSpecifier (names : Table Text) (specifier : Text) : Text :=
  if Text.startsWith specifier "* as " then specifier
  else match Text.halves? " as " specifier with
    | some (imported, own) => (Table.get? imported names).getD imported ++ " as " ++ own
    | none => (Table.get? specifier names).getD specifier

/-! ## Imports -/

/-- How imports are mapped. -/
structure ImportMapping where
  /-- The packages that take the place of others. -/
  packages : Table Text := []
  /-- What is left out. -/
  patterns : List Text := defaultPatterns
  /-- The names that take the place of others. -/
  names : Table Text := []
  /-- What becomes of a module given by a relative path. -/
  relative : Text → Text := id
  /-- Whether a module is left out, given the patterns. -/
  excludes : List Text → Text → Bool := isExcluded

namespace ImportMapping

/-- An import that is kept, with its module and its names replaced. -/
def mapped (m : ImportMapping) (i : Import) : Import :=
  { i with
    source :=
      if i.source.head? = some '.' then m.relative i.source else mapPackage m.packages i.source
    specifiers := i.specifiers.map (renameSpecifier m.names) }

/-- The import is kept. -/
def keeps (m : ImportMapping) (i : Import) : Bool := !i.typeOnly && !m.excludes m.patterns i.source

/-- The import is kept, and its module is looked up among the packages. -/
def looksUp (m : ImportMapping) (i : Import) : Bool := m.keeps i && i.source.head? != some '.'

/-- The imports that are kept, in order. -/
def imports (m : ImportMapping) (is : List Import) : List Import := (is.filter m.keeps).map m.mapped

/-- The events of leaving imports out. -/
def events (m : ImportMapping) (is : List Import) : List Event :=
  (is.filter fun i => !i.typeOnly && m.excludes m.patterns i.source).map fun i =>
    .importExcluded i.source

end ImportMapping

/-! ## Lines -/

/-- The line that imports a module and nothing from it. -/
def sideEffectLine (source : Text) : Text := "import '" ++ source ++ "';"

/-- The lines that import the modules of imports, each once. -/
def sideEffectLines (is : List Import) : List Text :=
  (is.foldl (fun seen i => if seen.contains i.source then seen else seen ++ [i.source]) []).map
    sideEffectLine

/-- The clause of an import: the default name, the whole module, and the names in braces. -/
def importClause (isDefault : Bool) (specifiers : List Text) : Text :=
  let (first, rest) := if isDefault then specifiers.splitAt 1 else ([], specifiers)
  let whole := match rest with
    | s :: _ => if Text.startsWith s "* as " then 1 else 0
    | [] => 0
  let names := rest.drop whole
  Text.join ", " (first ++ rest.take whole
    ++ if names.isEmpty then [] else ["\x7b " ++ Text.join ", " names ++ " \x7d"])

/-- The line of an import. -/
def importLine (i : Import) : Text :=
  if i.specifiers.isEmpty then sideEffectLine i.source
  else "import " ++ importClause i.isDefault i.specifiers ++ " from '" ++ i.source ++ "';"

end SkinCompiler.Skin
