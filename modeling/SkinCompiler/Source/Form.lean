import SkinCompiler.Number.Binary64

/-!
# Forms

What the constructs of a component source are.  The grammar labels each of its rules with the form
that the rule reads.
-/

namespace SkinCompiler.Source

/-- Expressions that the compiler does not look inside. -/
inductive Unread where
  /-- An infix operation other than a logical one. -/
  | binary
  /-- A prefix operation. -/
  | unary
  /-- A construction. -/
  | construction
  /-- An assignment. -/
  | assignment
  /-- An argument or element spread out of a list. -/
  | spread
  /-- An access by a computed key. -/
  | index
  deriving DecidableEq

/-- Statements with no bearing on what is compiled. -/
inductive Aside where
  /-- A conditional statement. -/
  | conditional
  /-- An expression. -/
  | expression
  /-- A lone semicolon. -/
  | empty
  deriving DecidableEq

/-- The forms of the grammar's rules. -/
inductive Form where
  /-- Stands for its contents. -/
  | contents
  /-- An import with a clause of imported names. -/
  | importNames
  /-- An import for its effects. -/
  | importEffects
  /-- The mark of an import or export of types. -/
  | typeOnly
  /-- The imported names of an import. -/
  | importClause
  /-- The name of the default import. -/
  | defaultImport
  /-- The name of the imported namespace. -/
  | namespaceImport
  /-- The imported names in braces. -/
  | namedImports
  /-- One imported name. -/
  | importSpecifier
  /-- The default export. -/
  | exportDefault
  /-- An exported declaration. -/
  | exportDeclaration
  /-- An export list or a declaration of types. -/
  | moduleAside
  /-- A part of a type. -/
  | typePart
  /-- A pattern that is a single name. -/
  | namePattern
  /-- Any other pattern, and parameter lists. -/
  | pattern
  /-- One declared variable. -/
  | declarator
  /-- A declaration of variables. -/
  | declaration
  /-- A function declaration. -/
  | functionDeclaration
  /-- A function expression. -/
  | functionExpression
  /-- An arrow function. -/
  | arrowFunction
  /-- A block of statements. -/
  | block
  /-- A return statement. -/
  | returnStatement
  /-- A statement with no bearing on what is compiled. -/
  | aside (kind : Aside)
  /-- A name as an expression. -/
  | identifier
  /-- A string as an expression. -/
  | string
  /-- A number. -/
  | number
  /-- A truth value. -/
  | truth (value : Bool)
  /-- `null` or `undefined`. -/
  | nothing
  /-- A template literal. -/
  | template
  /-- A parenthesised expression or one with a type assertion. -/
  | wrapped
  /-- The property of an object. -/
  | member
  /-- The element of an object. -/
  | index
  /-- The arguments of a call. -/
  | arguments
  /-- A call. -/
  | call
  /-- A conditional expression. -/
  | conditional
  /-- A logical expression. -/
  | logical
  /-- An expression that the compiler does not look inside. -/
  | unread (kind : Unread)
  /-- The key of an object's property. -/
  | key
  /-- A property with key and value. -/
  | property
  /-- A property that is named like its value. -/
  | shorthand
  /-- A spread property. -/
  | spreadProperty
  /-- A method. -/
  | method
  /-- An object. -/
  | object
  /-- An array. -/
  | array
  /-- The name of a tag. -/
  | tag
  /-- An attribute. -/
  | attribute
  /-- A spread attribute. -/
  | spreadAttribute
  /-- An expression in braces among attributes or children. -/
  | container
  /-- A run of text among children. -/
  | text
  /-- An element without contents. -/
  | selfClosing
  /-- An element with an opening and a closing tag. -/
  | element
  /-- A fragment. -/
  | fragment
  deriving DecidableEq

end SkinCompiler.Source
