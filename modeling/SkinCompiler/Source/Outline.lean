import SkinCompiler.Source.Phrase
import SkinCompiler.Table

/-!
# Outlines of component sources

What compiling a skin needs to know about its source: the imports, the component and the element
tree that it returns, and the styles object with the name it goes by.
-/

namespace SkinCompiler.Source

/-- Which parts of a source are looked for. -/
structure Parts where
  /-- The element tree. -/
  elements : Bool := true
  /-- The name of the component. -/
  componentName : Bool := true
  /-- The imports. -/
  imports : Bool := true
  /-- The styles. -/
  styles : Bool := true

/-- What is known about a source. -/
structure Outline where
  /-- The imports. -/
  imports : List Import := []
  /-- The element that the component returns. -/
  root : Option Node := none
  /-- The name of the component. -/
  componentName : Option Text := none
  /-- The value of the styles declaration. -/
  stylesValue : Option Node := none
  /-- The name that the styles go by. -/
  stylesName : Option Text := none
  /-- The import that brings the styles. -/
  stylesImport : Option Import := none
  /-- The range of the declaration of the styles. -/
  stylesSpan : Option Span := none

namespace Outline

/-- A variable with a name, its value and the range of the declaration it stands in. -/
structure Variable where
  /-- The name. -/
  name : Text
  /-- The value it is declared with. -/
  value : Option Node
  /-- The range of the whole declaration. -/
  span : Span

/-- Variables that a node declares. -/
def variablesOf : Node → List Variable
  | .declaration span _ declarators => declarators.filterMap fun
    | .declarator _ (some name) value => some ⟨name, value, span⟩
    | _ => none
  | _ => []

/-- Functions that a node declares, by itself or as values of variables. -/
def functions : Node → List (Option Text × Node)
  | .function s name body a => [(name, .function s name body a)]
  | .declaration s k ds => (variablesOf (.declaration s k ds)).filterMap fun v =>
    match v.value with
    | some (.function s name body a) => some (some v.name, .function s name body a)
    | _ => none
  | _ => []

/-- The declaration that a module item holds, with whether it is exported by name. -/
def declared : ModuleItem → Option (Node × Bool)
  | .statement n => some (n, false)
  | .exported n => some (n, true)
  | .exportDefault (.function s (some name) body a) =>
    if name.isEmpty then none else some (.function s (some name) body a, false)
  | _ => none

/-- The element that a function returns: the body of an arrow function, or the argument of a return
statement at the top of a block. -/
def returned? : Node → Option Node
  | .function _ _ (.element s t as cs c) _ => some (.element s t as cs c)
  | .function _ _ (.block _ statements) _ => statements.findSome? fun
    | .result _ (some (.element s t as cs c)) => some (.element s t as cs c)
    | _ => none
  | _ => none

/-- The name of a component without one. -/
def anonymous : Text := "AnonymousSkin"

/-- The component of a module: the default export if it is a function or names one, else the first
exported function that returns an element, else the first function that does. -/
def component (items : List ModuleItem) : Option Text × Option Node :=
  let declarations := items.filterMap declared
  let all := declarations.flatMap fun (n, _) => functions n
  let exported := (declarations.filter (·.2)).flatMap fun (n, _) => functions n
  let default : Option Node := (items.filterMap fun
    | .exportDefault n => some n
    | _ => none).getLast?
  match default with
  | some (.function s name body a) =>
    (some (match name with
      | some (c :: cs) => c :: cs
      | _ => anonymous), some (.function s name body a))
  | some (.identifier _ name) =>
    (some name, (all.reverse.find? fun (n, _) => n.getD [] = name).map (·.2))
  | _ =>
    match (exported ++ all).find? fun (_, f) => (returned? f).isSome with
    | some (name, f) => (name, some f)
    | none => (none, none)

/-- A module that holds styles. -/
def isStylesSource (source : Text) : Bool :=
  Text.hasPart "styles" source || Text.endsWith source ".css"

/-- The name by which a module refers to what an import specifier brings. -/
def localName (specifier : Text) : Text := (Text.cutAt " as " specifier).getLastD []

/-- The outline of the items of a module. -/
def ofItems (items : List ModuleItem) (parts : Parts) : Outline :=
  let imports := items.filterMap fun
    | .imported i => some i
    | _ => none
  let (name, function) := component items
  let vars := (items.filterMap declared).flatMap fun (n, _) => variablesOf n
  let declaredAs (name : Text) := vars.reverse.find? fun v => v.name = name
  let stylesImport := imports.find? fun i =>
    isStylesSource i.source && !i.specifiers.isEmpty && !i.typeOnly
  let stylesName := match stylesImport with
    | some i => some (localName (i.specifiers.headD []))
    | none => if (declaredAs "styles").isSome then some "styles".toList else none
  let styles := stylesName.bind declaredAs
  let outline : Outline :=
    { imports := if parts.imports then imports else []
      componentName := if parts.componentName then name else none
      root := if parts.elements then function.bind returned? else none }
  if parts.styles then
    { outline with
      stylesImport, stylesName
      stylesValue := styles.bind (·.value)
      stylesSpan := styles.map (·.span) }
  else outline

end Outline

/-- Read a component source and find what is wanted of it. -/
def outline (source : Text) (parts : Parts) : Except Unreadable Outline :=
  match readModule source with
  | .ok items => .ok (Outline.ofItems items parts)
  | .error e => .error e

end SkinCompiler.Source
