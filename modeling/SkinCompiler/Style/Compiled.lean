import SkinCompiler.Diagnostic
import SkinCompiler.Log
import SkinCompiler.Style.Declarations
import SkinCompiler.Style.Selector
import SkinCompiler.Text.Digest

/-!
# Compiled styles

A styles object gives every key a row of class tokens.  Each key becomes one rule for every stack
of variants among its tokens, in the order in which the stacks first come.  Tokens that mean nothing
are reported and left out.
-/

namespace SkinCompiler.Style

/-- How styles are compiled. -/
structure Options where
  /-- The names that tokens are made of. -/
  designSystem : DesignSystem := .builtIn
  /-- The theme. -/
  theme : Theme := .builtIn
  /-- A pattern for the class names; without one, every key is its own class name. -/
  pattern : Option Text := none

/-! ## Class names -/

/-- The class name of a key under a pattern, in which the key and a digest of the key with its
tokens have a place. -/
def className (pattern : Option Text) (key classes : Text) : Text :=
  match present pattern with
  | none => key
  | some pattern =>
    Text.replace "[hash]" (Text.Digest.ofText (key ++ ":" ++ classes) 6)
      (Text.replace "[local]" key (Text.replace "[name]" key pattern))

/-- The class names of all keys. -/
def classNames (pattern : Option Text) (styles : Table Text) : Table Text :=
  styles.map fun (key, classes) => (key, className pattern key classes)

/-! ## Anchors -/

/-- A key with its class name and its tokens, each with what was read of it. -/
structure Entry where
  /-- The key. -/
  key : Text
  /-- The class name. -/
  className : Text
  /-- The tokens. -/
  tokens : List (Text × Option Candidate)

/-- The entries of a styles object. -/
def entries (o : Options) (styles : Table Text) : List Entry :=
  styles.map fun (key, classes) =>
    { key, className := className o.pattern key classes
      tokens := (Text.words classes).map fun t => (t, Candidate.read? o.designSystem t) }

/-- The selector of the class of an entry. -/
def Entry.selector (e : Entry) : Text := '.' :: e.className

/-- The name under which a candidate marks its element, if it does so with `marker` and without
variants. -/
def markedName? (marker : Text) (c : Candidate) : Option Text :=
  match c.utility, c.variants with
  | .static root modifier, [] => if root = marker then some (nameOf modifier) else none
  | _, _ => none

/-- The names that an entry marks its element with. -/
def Entry.marks (e : Entry) (marker : Text) : List Text :=
  e.tokens.filterMap fun (_, c) => c.bind (markedName? marker)

/-- The selectors of the elements that are marked; the first one of a name counts. -/
def anchors (marker : Text) (entries : List Entry) : Table Text :=
  (entries.flatMap fun e => (e.marks marker).map fun name => (name, e.selector)).foldl
    (fun t (name, selector) => if t.has name then t else Table.set name selector t) []

/-- What the selectors of the entries depend on. -/
def selectorContext (theme : Theme) (entries : List Entry) : SelectorContext where
  groups := anchors "group" entries
  peers := anchors "peer" entries
  theme := theme

/-! ## Tokens -/

/-- What a candidate adds to its key. -/
inductive Effect where
  /-- It marks the element and adds nothing. -/
  | marks
  /-- It means nothing. -/
  | nothing
  /-- It adds declarations. -/
  | declares (declarations : List Declaration)

/-- The declarations of an element that is a container. -/
def containerDeclarations (modifier : Option Modifier) (important : Bool) : List Declaration :=
  { property := "container-type", value := "inline-size", important }
    :: (modifier.map fun m =>
      { property := "container-name", value := m.text, important : Declaration }).toList

/-- What a candidate adds to its key. -/
def effect (theme : Theme) (c : Candidate) : Effect :=
  let declared := match declarations? theme c with
    | some ds => .declares ds
    | none => .nothing
  match c.utility with
  | .static root modifier =>
    if root = "@container".toList then .declares (containerDeclarations modifier c.important)
    else if DesignSystem.markers.contains root then .marks
    else declared
  | _ => declared

/-- The arbitrary value of a utility with the type that its root expects of it. -/
def expectation? (c : Candidate) : Option (Arbitrary.Decoded × Text) :=
  match c.utility with
  | .functional root (.arbitrary d) _ => (expectedType? root).map fun type => (d, type)
  | _ => none

/-! ## Findings -/

/-- A token that could not be read. -/
def unparseableClass (key token : Text) : Diagnostic where
  rule := "unparseable-class"
  message := "could not parse class '" ++ token ++ "'"
  styleKey := some key
  token := some token

/-- A token that means nothing. -/
def noCss (key token : Text) : Diagnostic where
  rule := "no-css"
  message := "no CSS generated for class '" ++ token ++ "'"
  styleKey := some key
  token := some token

/-- An arbitrary value of the wrong type. -/
def invalidArbitraryValue (key token root value type : Text) : Diagnostic where
  rule := "invalid-arbitrary-value"
  message := "arbitrary value '" ++ value ++ "' is not a valid " ++ type
  styleKey := some key
  token := some token
  fix := some ("add a type hint: " ++ root ++ "-[" ++ type ++ ":...]")

/-- A variant without a selector. -/
def unsupportedVariant (key token : Text) (e : UnsupportedVariant) : Diagnostic where
  rule := "unsupported-variant"
  message := e.message
  styleKey := some key
  token := some token

/-! ## Keys -/

/-- The declarations under one stack of variants. -/
structure Group where
  /-- The stack. -/
  variants : List Variant
  /-- Its selector. -/
  resolved : Resolved
  /-- The declarations. -/
  declarations : List Declaration

/-- What has come of the tokens of a key so far. -/
structure KeyState where
  /-- The groups, in the order of their first tokens. -/
  groups : List Group := []
  /-- The findings. -/
  diagnostics : List Diagnostic := []
  /-- The events. -/
  events : List Event := []

namespace KeyState

/-- Report a finding. -/
def report (s : KeyState) (d : Diagnostic) : KeyState :=
  { s with diagnostics := s.diagnostics ++ [d] }

/-- Record an event. -/
def record (s : KeyState) (e : Event) : KeyState := { s with events := s.events ++ [e] }

/-- Check the arbitrary value of a candidate. -/
def checkValue (s : KeyState) (key token : Text) (c : Candidate) : KeyState :=
  match expectation? c with
  | none => s
  | some (d, type) => match Arbitrary.check d.value type with
    | .fits => s
    | .unverified => s.record (.unverified d.value type)
    | .unfit => s.report (invalidArbitraryValue key token c.utility.root d.value type)

/-- The declarations that a group begins with: pseudo-elements before and after an element exist
only if they have content. -/
def firstDeclarations (r : Resolved) : List Declaration :=
  if r.pseudoElement = some "before".toList || r.pseudoElement = some "after".toList then
    [{ property := "content", value := "''" }]
  else []

/-- Add declarations to the group of a stack, which is there. -/
def addTo (variants : List Variant) (ds : List Declaration) : List Group → List Group
  | [] => []
  | g :: gs =>
    if g.variants = variants then { g with declarations := g.declarations ++ ds } :: gs
    else g :: addTo variants ds gs

/-- Add the declarations of a candidate to the group of its stack. -/
def declare (context : SelectorContext) (selector : Text) (s : KeyState) (key token : Text)
    (c : Candidate) (ds : List Declaration) : KeyState :=
  if s.groups.any fun g => g.variants = c.variants then
    { s with groups := addTo c.variants ds s.groups }
  else match applyVariants context selector c.variants with
    | .error e => s.report (unsupportedVariant key token e)
    | .ok resolved =>
      { s with groups := s.groups ++ [
        { variants := c.variants, resolved, declarations := firstDeclarations resolved ++ ds }] }

/-- Take in one token. -/
def token (context : SelectorContext) (selector key : Text) (s : KeyState) :
    Text × Option Candidate → KeyState
  | (t, none) => (s.report (unparseableClass key t)).record (.unparseable t key)
  | (t, some c) => match effect context.theme c with
    | .marks => s
    | .nothing => s.report (noCss key t)
    | .declares ds => declare context selector (s.checkValue key t c) key t c ds

end KeyState

/-- The head of an at-rule as a name and parameters. -/
def splitAtRule (head : Text) : Text × Text :=
  let (name, params) := (head.drop 1).span (· != ' ')
  (name, Text.strip (params.drop 1))

/-- A rule inside at-rules, the first of which is the outermost. -/
def wrap (atRules : List Text) (rule : Rule) : Rule :=
  atRules.foldr (fun head rule =>
    let (name, params) := splitAtRule head
    .block name params [rule]) rule

/-- The rule of a group. -/
def Group.rule (g : Group) : Rule :=
  wrap g.resolved.atRules (.style g.resolved.selector g.declarations)

/-- What comes of a key. -/
structure Block where
  /-- The key. -/
  key : Text
  /-- Its rules. -/
  rules : List Rule
  /-- What was found in its tokens. -/
  diagnostics : List Diagnostic
  /-- What happened. -/
  events : List Event

/-- What comes of an entry. -/
def Entry.block (context : SelectorContext) (e : Entry) : Block :=
  let s := e.tokens.foldl (KeyState.token context e.selector e.key) {}
  { key := e.key, rules := s.groups.map (·.rule), diagnostics := s.diagnostics, events := s.events }

/-! ## Styles -/

/-- What comes of a styles object. -/
structure Compiled where
  /-- The class names of the keys. -/
  classNames : Table Text
  /-- What comes of each key. -/
  blocks : List Block

/-- Compile a styles object. -/
def compile (o : Options) (styles : Table Text) : Compiled :=
  let entries := entries o styles
  { classNames := classNames o.pattern styles
    blocks := entries.map (Entry.block (selectorContext o.theme entries)) }

namespace Compiled

/-- All rules. -/
def rules (c : Compiled) : Stylesheet := c.blocks.flatMap (·.rules)

/-- All findings. -/
def diagnostics (c : Compiled) : List Diagnostic := c.blocks.flatMap (·.diagnostics)

/-- All events. -/
def events (c : Compiled) : List Event :=
  c.blocks.flatMap (·.events) ++ [.stylesCompiled c.blocks.length c.rules.length]

/-- The stylesheet. -/
def css (c : Compiled) : Text := Stylesheet.write 2 c.rules

end Compiled

/-! ## Type declarations -/

/-- Names that need no quotes as the key of an object; a line feed may follow. -/
def isPlainKey (key : Text) : Bool :=
  match Text.chomp key with
  | [] => false
  | c :: rest =>
    (Text.isAsciiLetter c || c == '_' || c == '$') && rest.all fun c => Text.isWord c || c == '$'

/-- The line that declares the type of a key. -/
def keyDeclaration (key : Text) : Text :=
  "  readonly " ++ (if isPlainKey key then key else Text.quoted key) ++ ": string;"

/-- The type declarations of a module that exports the class names of keys. -/
def typeDeclarations (keys : List Text) : Text :=
  let lines := "declare const styles: \x7b".toList :: keys.map keyDeclaration
  Text.join "\n" lines ++ "\n\x7d;\nexport default styles;\n"

end SkinCompiler.Style
