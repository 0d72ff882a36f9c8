import SkinCompiler.Source.Form

/-!
# Nodes

What a component source consists of, once read: expressions, functions, statements and element
trees.  Every node knows the range of the source that it was read from.
-/

namespace SkinCompiler.Source

/-- A range of positions, from `start` up to but not including `stop`. -/
structure Span where
  /-- The first position. -/
  start : Nat
  /-- The position after the last one. -/
  stop : Nat
  deriving DecidableEq

/-- The value of a literal. -/
inductive Literal where
  /-- A string. -/
  | text (value : Text)
  /-- A whole number written without point and exponent. -/
  | whole (value : Nat)
  /-- Any other number. -/
  | fractional (value : Binary64)
  /-- A truth value. -/
  | truth (value : Bool)
  /-- `null` or `undefined`. -/
  | nothing
  deriving DecidableEq

/-- A node with its range. -/
inductive Node where
  /-- A name. -/
  | identifier (span : Span) (name : Text)
  /-- A literal other than a template. -/
  | literal (span : Span) (value : Literal)
  /-- A template literal: its own texts, one more than there are placeholders, and these. -/
  | template (span : Span) (texts : List Text) (placeholders : List Node)
  /-- A property of an object, named after a point or, if computed, by a string in brackets. -/
  | member (span : Span) (owner : Node) (property : Text) (computed : Bool)
  /-- A call. -/
  | call (span : Span) (callee : Node) (arguments : List Node)
  /-- A conditional expression. -/
  | conditional (span : Span) (test consequent alternate : Node)
  /-- A logical expression. -/
  | logical (span : Span) (operator : Text) (left right : Node)
  /-- An entry of an object; spread entries and computed keys have no key. -/
  | property (span : Span) (key : Option Text) (value : Node) (shorthand spread : Bool)
  /-- An object. -/
  | object (span : Span) (properties : List Node)
  /-- An array. -/
  | array (span : Span) (elements : List Node)
  /-- An expression that the compiler does not look inside, with its source text. -/
  | unread (span : Span) (kind : Unread) (code : Text)
  /-- A function; the body of an arrow function can be an expression. -/
  | function (span : Span) (name : Option Text) (body : Node) (arrow : Bool)
  /-- A block of statements. -/
  | block (span : Span) (statements : List Node)
  /-- A return statement. -/
  | result (span : Span) (argument : Option Node)
  /-- A declaration of variables. -/
  | declaration (span : Span) (keyword : Text) (declarators : List Node)
  /-- One declared variable; a pattern other than a name has no name. -/
  | declarator (span : Span) (name : Option Text) (value : Option Node)
  /-- A statement with no bearing on what is compiled. -/
  | aside (span : Span) (kind : Aside)
  /-- A run of text among the children of an element. -/
  | text (span : Span) (value : Text)
  /-- An expression in braces; empty braces hold none. -/
  | container (span : Span) (expression : Option Node)
  /-- An attribute; one without a value is a bare name. -/
  | attribute (span : Span) (name : Text) (value : Option Node)
  /-- A spread attribute. -/
  | spreadAttribute (span : Span) (argument : Node)
  /-- An element; the parts of a dotted tag are joined by points. -/
  | element (span : Span) (tag : Text) (attributes children : List Node) (selfClosing : Bool)
  /-- A fragment. -/
  | fragment (span : Span) (children : List Node)

namespace Node

/-- The range of the source that a node was read from. -/
def span : Node → Span
  | .identifier s _ | .literal s _ | .template s _ _ | .member s _ _ _ | .call s _ _
  | .conditional s _ _ _ | .logical s _ _ _ | .property s _ _ _ _ | .object s _ | .array s _
  | .unread s _ _ | .function s _ _ _ | .block s _ | .result s _ | .declaration s _ _
  | .declarator s _ _ | .aside s _ | .text s _ | .container s _ | .attribute s _ _
  | .spreadAttribute s _ | .element s _ _ _ _ | .fragment s _ => s

/-- The nodes directly below a node, in the order of the source. -/
def children : Node → List Node
  | .identifier _ _ | .literal _ _ | .unread _ _ _ | .aside _ _ | .text _ _ => []
  | .template _ _ placeholders => placeholders
  | .member _ owner _ _ => [owner]
  | .call _ callee arguments => callee :: arguments
  | .conditional _ test consequent alternate => [test, consequent, alternate]
  | .logical _ _ left right => [left, right]
  | .property _ _ value _ _ => [value]
  | .object _ properties => properties
  | .array _ elements => elements
  | .function _ _ body _ => [body]
  | .block _ statements => statements
  | .result _ argument => argument.toList
  | .declaration _ _ declarators => declarators
  | .declarator _ _ value => value.toList
  | .container _ expression => expression.toList
  | .attribute _ _ value => value.toList
  | .spreadAttribute _ argument => [argument]
  | .element _ _ attributes children _ => attributes ++ children
  | .fragment _ children => children

mutual

/-- A node and all nodes below it, each before those below it and in the order of the source. -/
def all : Node → List Node
  | .identifier s n => [.identifier s n]
  | .literal s v => [.literal s v]
  | .unread s k c => [.unread s k c]
  | .aside s k => [.aside s k]
  | .text s v => [.text s v]
  | .template s ts placeholders => .template s ts placeholders :: allOfRow placeholders
  | .member s owner p c => .member s owner p c :: all owner
  | .call s callee arguments => .call s callee arguments :: (all callee ++ allOfRow arguments)
  | .conditional s test consequent alternate =>
    .conditional s test consequent alternate :: (all test ++ all consequent ++ all alternate)
  | .logical s o left right => .logical s o left right :: (all left ++ all right)
  | .property s k value h r => .property s k value h r :: all value
  | .object s properties => .object s properties :: allOfRow properties
  | .array s elements => .array s elements :: allOfRow elements
  | .function s n body a => .function s n body a :: all body
  | .block s statements => .block s statements :: allOfRow statements
  | .result s argument => .result s argument :: allOfOption argument
  | .declaration s k declarators => .declaration s k declarators :: allOfRow declarators
  | .declarator s n value => .declarator s n value :: allOfOption value
  | .container s expression => .container s expression :: allOfOption expression
  | .attribute s n value => .attribute s n value :: allOfOption value
  | .spreadAttribute s argument => .spreadAttribute s argument :: all argument
  | .element s tag attributes children c =>
    .element s tag attributes children c :: (allOfRow attributes ++ allOfRow children)
  | .fragment s children => .fragment s children :: allOfRow children

/-- All nodes of a row. -/
def allOfRow : List Node → List Node
  | [] => []
  | n :: ns => all n ++ allOfRow ns

/-- All nodes of an optional node. -/
def allOfOption : Option Node → List Node
  | none => []
  | some n => all n

end

end Node

end SkinCompiler.Source
