import SkinCompiler.Grammar.Derivation
import SkinCompiler.Source.Escape
import SkinCompiler.Source.Node
import SkinCompiler.Source.Position
import SkinCompiler.Source.Productions

/-!
# From derivations to nodes

What the derivation of a source means.  The parts of a construct are always read before the
construct itself, also where they are not kept, so that the first fault of a source is the one
whose construct ends first.
-/

namespace SkinCompiler.Source

open Grammar

/-- An import declaration. -/
structure Import where
  /-- The module imported from. -/
  source : Text
  /-- The imported names, a default import first; `a as b` for a renamed one and `* as b` for the
  whole module. -/
  specifiers : List Text := []
  /-- There is a default import. -/
  isDefault : Bool := false
  /-- Only types are imported. -/
  typeOnly : Bool := false
  /-- The range of the declaration in its source. -/
  span : Option Span := none
  deriving DecidableEq

/-- What stands at the top of a module. -/
inductive ModuleItem where
  /-- An import. -/
  | imported (declaration : Import)
  /-- The default export. -/
  | exportDefault (value : Node)
  /-- An exported declaration. -/
  | exported (declaration : Node)
  /-- An export list or a declaration of types. -/
  | aside
  /-- A statement. -/
  | statement (node : Node)

/-- The meaning of a part of a derivation. -/
inductive Phrase where
  /-- A terminal whose text matters, with its first position. -/
  | token (terminal : Terminal) (text : Text) (start : Nat)
  /-- A node. -/
  | node (n : Node)
  /-- A pattern, with its name if it is one. -/
  | pattern (name : Option Text)
  /-- A part of a type. -/
  | typePart
  /-- The mark of an import of types. -/
  | typeOnly
  /-- One imported name; none if it is the name of a type. -/
  | specifier (name : Option Text)
  /-- Imported names, and whether they are the default import. -/
  | names (isDefault : Bool) (names : List Text)
  /-- All imported names of an import. -/
  | clause (isDefault : Bool) (names : List Text)
  /-- The arguments of a call. -/
  | arguments (ns : List Node)
  /-- The key of a property; none if it is computed. -/
  | key (k : Option Text)
  /-- The name of a tag. -/
  | tag (name : Text)
  /-- An item of a module. -/
  | item (i : ModuleItem)

namespace Phrase

/-- The node that a phrase is. -/
def node? : Phrase → Option Node
  | .node n => some n
  | _ => none

/-- The text of a terminal. -/
def token? : Phrase → Option Text
  | .token _ text _ => some text
  | _ => none

/-- The nodes among phrases. -/
def nodes (ps : List Phrase) : List Node := ps.filterMap node?

/-- The texts of the terminals among phrases. -/
def tokens (ps : List Phrase) : List Text := ps.filterMap token?

/-- A phrase as an item of a module. -/
def toItem : Phrase → Option ModuleItem
  | .item i => some i
  | .node n => some (.statement n)
  | _ => none

end Phrase

/-- What a source is read in. -/
structure Reader where
  /-- The whole source. -/
  source : Text
  /-- The part of it that is being read. -/
  text : Text
  /-- The position of that part. -/
  offset : Nat
  /-- Reads an expression from a placeholder, given its text and position. -/
  placeholder : Text → Nat → Except Unreadable Node

namespace Reader

/-- An attribute, spread or not. -/
def isAttribute : Node → Bool
  | .attribute _ _ _ | .spreadAttribute _ _ => true
  | _ => false

/-- Imported names as written in an import: renamed ones show both names. -/
def specifier (names : List Text) : Option Text :=
  match names with
  | [a, b] => if a == b then some a else some (a ++ " as " ++ b)
  | a :: _ => some a
  | [] => none

/-- The value of a number.  A whole number may have any number of digits: the limit that an
interpreter sets to the digits of the numerals it converts is left aside. -/
def numberValue (text : Text) : Literal :=
  if text.any fun c => c == '.' || c == 'e' || c == 'E' then .fractional (Binary64.ofNumeral text)
  else .whole (Text.decimalNumber text)

/-- The text of the key of a property. -/
def keyText : List Phrase → Option Text
  | .token .string text _ :: _ => some (stringValue text)
  | .token _ text _ :: _ => some text
  | _ => none

/-- A key, or none. -/
def keyOf : List Phrase → Option Text
  | .key k :: _ => k
  | _ => none

/-- A node, if there is one. -/
def one (make : Node → Node) (ps : List Phrase) : List Phrase :=
  match Phrase.nodes ps with
  | n :: _ => [.node (make n)]
  | [] => []

/-- The meaning of imports, exports, types and patterns. -/
def buildOutline (form : Form) (span : Span) (ps : List Phrase) : List Phrase :=
  match form with
  | .importNames =>
    let clause := ps.findSome? fun
      | .clause d names => some (d, names)
      | _ => none
    let (isDefault, names) := clause.getD (false, [])
    let source := match (Phrase.tokens ps).getLast? with
      | some t => stringValue t
      | none => []
    let typeOnly := ps.any fun
      | .typeOnly => true
      | _ => false
    [.item (.imported ⟨source, names, isDefault, typeOnly, some span⟩)]
  | .importEffects =>
    [.item (.imported
      { source := ((Phrase.tokens ps).head?.map stringValue).getD [], span := some span })]
  | .typeOnly => [.typeOnly]
  | .importClause =>
    let parts := ps.filterMap fun
      | .names d names => some (d, names)
      | _ => none
    [.clause (parts.any (·.1)) (parts.flatMap (·.2))]
  | .defaultImport => [.names true (Phrase.tokens ps)]
  | .namespaceImport => [.names false ((Phrase.tokens ps).map fun t => "* as " ++ t)]
  | .namedImports => [.names false (ps.filterMap fun
      | .specifier name => name
      | _ => none)]
  | .importSpecifier =>
    if ps.any (fun | .typeOnly => true | _ => false) then [.specifier none]
    else [.specifier (specifier (Phrase.tokens ps))]
  | .exportDefault => (Phrase.nodes ps).head?.toList.map fun n => .item (.exportDefault n)
  | .exportDeclaration => (Phrase.nodes ps).head?.toList.map fun n => .item (.exported n)
  | .moduleAside => [.item .aside]
  | .typePart => [.typePart]
  | .namePattern => [.pattern (Phrase.tokens ps).head?]
  | .pattern => [.pattern none]
  | .tag => [.tag (Text.join "." (Phrase.tokens ps))]
  | .key => [.key (keyText ps)]
  | .arguments => [.arguments (Phrase.nodes ps)]
  | _ => ps

/-- The meaning of declarations, functions and statements. -/
def buildStatement (form : Form) (span : Span) (ps : List Phrase) : List Phrase :=
  match form with
  | .declarator =>
    let name := match ps with
      | .pattern name :: _ => name
      | _ => none
    [.node (.declarator span name (Phrase.nodes ps).head?)]
  | .declaration =>
    [.node (.declaration span ((Phrase.tokens ps).headD []) (Phrase.nodes ps))]
  | .functionDeclaration =>
    one (fun body => .function span (Phrase.tokens ps).head? body false) ps
  | .functionExpression => one (fun body => .function span none body false) ps
  | .arrowFunction => one (fun body => .function span none body true) ps
  | .block => [.node (.block span (Phrase.nodes ps))]
  | .returnStatement => [.node (.result span (Phrase.nodes ps).head?)]
  | .aside kind => [.node (.aside span kind)]
  | _ => ps

/-- The meaning of expressions other than templates. -/
def buildExpression (r : Reader) (form : Form) (span : Span) (ps : List Phrase) : List Phrase :=
  match form, ps with
  | .identifier, ps => [.node (.identifier span ((Phrase.tokens ps).headD []))]
  | .string, ps => [.node (.literal span (.text (stringValue ((Phrase.tokens ps).headD []))))]
  | .number, ps => [.node (.literal span (numberValue ((Phrase.tokens ps).headD [])))]
  | .truth value, _ => [.node (.literal span (.truth value))]
  | .nothing, _ => [.node (.literal span .nothing)]
  | .wrapped, ps => one id ps
  | .member, [.node owner, .token _ name _] => [.node (.member span owner name false)]
  | .index, [.node owner, .node (.literal _ (.text name))] => [.node (.member span owner name true)]
  | .index, _ => [.node (.unread span .index (Text.slice r.source span.start span.stop))]
  | .call, [.node callee, .arguments ns] => [.node (.call span callee ns)]
  | .conditional, [.node test, .node consequent, .node alternate] =>
    [.node (.conditional span test consequent alternate)]
  | .logical, [.node left, .token _ operator _, .node right] =>
    [.node (.logical span operator left right)]
  | .unread kind, _ => [.node (.unread span kind (Text.slice r.source span.start span.stop))]
  | .property, ps => one (fun value => .property span (keyOf ps) value false false) ps
  | .shorthand, ps =>
    let name := (Phrase.tokens ps).headD []
    [.node (.property span (some name) (.identifier span name) true false)]
  | .spreadProperty, ps => one (fun value => .property span none value false true) ps
  | .method, ps =>
    one (fun body =>
      .property span (keyOf ps) (.function span (keyOf ps) body false) false false) ps
  | .object, ps => [.node (.object span (Phrase.nodes ps))]
  | .array, ps => [.node (.array span (Phrase.nodes ps))]
  | _, ps => ps

/-- The meaning of element trees; a closing tag must repeat the opening one. -/
def buildElement (r : Reader) (form : Form) (span : Span) (ps : List Phrase) :
    Except Unreadable (List Phrase) :=
  match form with
  | .attribute =>
    .ok [.node (.attribute span ((Phrase.tokens ps).headD []) (Phrase.nodes ps).head?)]
  | .spreadAttribute => .ok (one (.spreadAttribute span) ps)
  | .container => .ok [.node (.container span (Phrase.nodes ps).head?)]
  | .text => .ok [.node (.text span ((Phrase.tokens ps).headD []))]
  | .fragment => .ok [.node (.fragment span (Phrase.nodes ps))]
  | .selfClosing | .element =>
    let tags := ps.filterMap fun
      | .tag name => some name
      | _ => none
    let opening := tags.headD []
    let closing := tags.getLast?.getD opening
    if opening != closing then
      .error ⟨.closingTag opening closing, Place.of r.source span.stop⟩
    else
      let inner := Phrase.nodes ps
      .ok [.node (.element span opening (inner.filter isAttribute)
        (inner.filter (!isAttribute ·)) (form == .selfClosing))]
  | _ => .ok ps

/-- The meaning of a template literal. -/
def buildTemplate (r : Reader) (span : Span) (ps : List Phrase) :
    Except Unreadable (List Phrase) :=
  match ps with
  | [.token _ text start] =>
    let pieces := templatePieces 0 (r.offset + start + 1) (text.drop 1)
    match (templateCodes pieces).mapM fun (code, position) => r.placeholder code position with
    | .ok placeholders => .ok [.node (.template span (templateTexts pieces) placeholders)]
    | .error e => .error e
  | _ => .ok ps

/-- The meaning of a construct, given those of its parts. -/
def build (r : Reader) (form : Form) (span : Span) (ps : List Phrase) :
    Except Unreadable (List Phrase) :=
  match form with
  | .contents => .ok ps
  | .template => buildTemplate r span ps
  | .attribute | .spreadAttribute | .container | .text | .fragment | .selfClosing | .element =>
    buildElement r form span ps
  | .declarator | .declaration | .functionDeclaration | .functionExpression | .arrowFunction
  | .block | .returnStatement | .aside _ => .ok (buildStatement form span ps)
  | .identifier | .string | .number | .truth _ | .nothing | .wrapped | .member | .index | .call
  | .conditional | .logical | .unread _ | .property | .shorthand | .spreadProperty | .method
  | .object | .array => .ok (buildExpression r form span ps)
  | _ => .ok (buildOutline form span ps)

/-- The range of a derivation in the whole source. -/
def spanOf (r : Reader) (ds : List (Derivation Terminal Category Form)) : Span :=
  ⟨r.offset + (Derivation.startOfRow? ds).getD 0, r.offset + (Derivation.stopOfRow? ds).getD 0⟩

mutual

/-- The meaning of a derivation. -/
def phrases (r : Reader) : Derivation Terminal Category Form → Except Unreadable (List Phrase)
  | .terminal t start stop =>
    .ok (if t.isTelling then [.token t (Text.slice r.text start stop) start] else [])
  | .node rule children =>
    match phrasesOfRow r children with
    | .ok ps => r.build rule.form (r.spanOf children) ps
    | .error e => .error e

/-- The meanings of a row of derivations, from left to right. -/
def phrasesOfRow (r : Reader) :
    List (Derivation Terminal Category Form) → Except Unreadable (List Phrase)
  | [] => .ok []
  | d :: ds =>
    match phrases r d with
    | .error e => .error e
    | .ok ps => match phrasesOfRow r ds with
      | .ok qs => .ok (ps ++ qs)
      | .error e => .error e

end

end Reader

/-! ## Whole texts -/

/-- The fault of a text without a reading; `offset` is its position in the source. -/
def unreadable (source : Text) (offset : Nat) : Failure → Unreadable
  | .unexpected position c => ⟨.unexpected c, Place.of source (offset + position)⟩
  | .unfinished => ⟨.unfinished, Place.of source ((offset : Int) - 1)⟩

/-- Read a text, which stands at position `offset` of the source, as an expression.  Placeholders
of template literals are read in turn; each is shorter than the literal, so that `depth` need only
exceed the length of the text. -/
def readExpressionAt (source : Text) : (depth : Nat) → (text : Text) → (offset : Nat) →
    Except Unreadable Node
  | 0, _, offset => .error (unreadable source offset .unfinished)
  | depth + 1, text, offset =>
    match grammar.derive .whole text with
    | .error e => .error (unreadable source offset e)
    | .ok d =>
      let r : Reader := ⟨source, text, offset, readExpressionAt source depth⟩
      match r.phrases d with
      | .error e => .error e
      | .ok ps => match Phrase.nodes ps with
        | n :: _ => .ok n
        | [] => .error (unreadable source offset .unfinished)

/-- Read a text as an expression. -/
def readExpression (text : Text) : Except Unreadable Node :=
  readExpressionAt text (text.length + 1) text 0

/-- Read the items of a module.  A source of nothing but gaps has none. -/
def readModule (source : Text) : Except Unreadable (List ModuleItem) :=
  if gapCovers grammar source.length source source.length then .ok []
  else match grammar.derive .module source with
    | .error e => .error (unreadable source 0 e)
    | .ok d =>
      let r : Reader := ⟨source, source, 0, readExpressionAt source (source.length + 1)⟩
      match r.phrases d with
      | .error e => .error e
      | .ok ps => .ok (ps.filterMap Phrase.toItem)

end SkinCompiler.Source
