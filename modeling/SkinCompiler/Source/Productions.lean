import SkinCompiler.Grammar.Basic
import SkinCompiler.Source.Form
import SkinCompiler.Source.Terminal

/-!
# The grammar of component sources

Imports, exports, declarations, functions, type annotations, expressions and element trees, as far
as player skins use them.  Where a text can be read in several ways, the production written first
is preferred: a braced group at the beginning of a statement is an object if it can be one, and the
body of an arrow function is a block if it can be one.
-/

namespace SkinCompiler.Source

open Grammar

/-- The categories of the grammar.  Those named `more…` and in the plural are rows of one or more
of what they hold. -/
inductive Category where
  | module | items | item
  | importDeclaration | typeOnly | importClause | defaultImport | namespaceImport
  | namedImports | importSpecifier | moreImportSpecifiers
  | exportDeclaration | exportSpecifier | moreExportSpecifiers
  | typeDeclaration | typeParameters | typeParameter | moreTypeParameters
  | typeList | moreTypeList | ascription | typeExpression | moreIndexedTypes
  | indexedType | emptyIndexes | primaryType | typeName | morePropertyNames
  | typeArguments | moreTypes | objectType | typeSeparator | typeMember | moreTypeMembers
  | declaration | declarator | moreDeclarators
  | functionDeclaration | parameters | parameter | moreParameters
  | pattern | objectPattern | propertyPattern | morePropertyPatterns
  | arrayPattern | morePatterns
  | statement | returnStatement | bareReturn | conditionalStatement | expressionStatement
  | block | statements | semicolon
  | expression | assignment | conditional | disjunction | conjunction | equality | relation
  | sum | product | unary | chain | arguments | argument | moreArguments | primary
  | arrowFunction | arrowParameters | arrowBody | functionExpression
  | object | member | moreMembers | key | array
  | element | fragment | tagName | moreTags | attribute | attributes | attributeValue
  | child | children
  | whole
  deriving DecidableEq

namespace Category

/-- All categories, in the order of their indexes. -/
def all : List Category := [
  .module, .items, .item, .importDeclaration, .typeOnly, .importClause, .defaultImport,
  .namespaceImport, .namedImports, .importSpecifier, .moreImportSpecifiers, .exportDeclaration,
  .exportSpecifier, .moreExportSpecifiers, .typeDeclaration, .typeParameters, .typeParameter,
  .moreTypeParameters, .typeList, .moreTypeList, .ascription, .typeExpression, .moreIndexedTypes,
  .indexedType, .emptyIndexes, .primaryType, .typeName, .morePropertyNames, .typeArguments,
  .moreTypes, .objectType, .typeSeparator, .typeMember, .moreTypeMembers, .declaration,
  .declarator, .moreDeclarators, .functionDeclaration, .parameters, .parameter, .moreParameters,
  .pattern, .objectPattern, .propertyPattern, .morePropertyPatterns, .arrayPattern, .morePatterns,
  .statement, .returnStatement, .bareReturn, .conditionalStatement, .expressionStatement, .block,
  .statements, .semicolon, .expression, .assignment, .conditional, .disjunction, .conjunction,
  .equality, .relation, .sum, .product, .unary, .chain, .arguments, .argument, .moreArguments,
  .primary, .arrowFunction, .arrowParameters, .arrowBody, .functionExpression, .object, .member,
  .moreMembers, .key, .array, .element, .fragment, .tagName, .moreTags, .attribute, .attributes,
  .attributeValue, .child, .children, .whole]

end Category

namespace Productions

/-- Parts of this grammar. -/
abbrev Piece := Part Terminal Category

/-- Productions of this grammar. -/
abbrev Way := Production Terminal Category Form

/-- A terminal. -/
def t (terminal : Terminal) : Piece := .one (.terminal terminal)

/-- A punctuation mark. -/
def mark (spelling : Text) : Piece := t (.mark spelling)

/-- A keyword. -/
def word (w : Text) : Piece := t (.keyword w)

/-- A category. -/
def c (category : Category) : Piece := .one (.category category)

/-- Pieces that may be left out. -/
def maybe (pieces : List Piece) : Piece := .maybe pieces

/-- A row of one or more. -/
def row (self : Category) (pieces : List Piece) : List Way :=
  [⟨pieces, .contents⟩, ⟨c self :: pieces, .contents⟩]

/-- A list in brackets, possibly empty, with a comma allowed after its last entry. -/
def bracketed (first last : Text) (entry more : Category) : List Piece :=
  [mark first, maybe [c entry, maybe [c more], maybe [mark ","]], mark last]

/-- The optional parameters and result type of a function, in brackets. -/
def signature : List Piece :=
  [mark "(", maybe [c .parameters], mark ")", maybe [c .ascription]]

/-! ## Modules -/

/-- Items, imports and exports. -/
def ofModule : Category → Option (List Way)
  | .module => some [⟨[c .items], .contents⟩]
  | .items => some (row .items [c .item])
  | .item => some [
      ⟨[c .importDeclaration], .contents⟩, ⟨[c .exportDeclaration], .contents⟩,
      ⟨[c .typeDeclaration], .contents⟩, ⟨[c .statement], .contents⟩]
  | .importDeclaration => some [
      ⟨[word "import", maybe [c .typeOnly], c .importClause, word "from", t .string,
        maybe [c .semicolon]], .importNames⟩,
      ⟨[word "import", t .string, maybe [c .semicolon]], .importEffects⟩]
  | .typeOnly => some [⟨[word "type"], .typeOnly⟩]
  | .importClause => some [
      ⟨[c .defaultImport], .importClause⟩,
      ⟨[c .defaultImport, mark ",", c .namedImports], .importClause⟩,
      ⟨[c .defaultImport, mark ",", c .namespaceImport], .importClause⟩,
      ⟨[c .namedImports], .importClause⟩,
      ⟨[c .namespaceImport], .importClause⟩]
  | .defaultImport => some [⟨[t .name], .defaultImport⟩]
  | .namespaceImport => some [⟨[mark "*", word "as", t .name], .namespaceImport⟩]
  | .namedImports => some [
      ⟨bracketed "\x7b" "\x7d" .importSpecifier .moreImportSpecifiers, .namedImports⟩]
  | .moreImportSpecifiers => some (row .moreImportSpecifiers [mark ",", c .importSpecifier])
  | .importSpecifier => some [
      ⟨[maybe [c .typeOnly], t .property, maybe [word "as", t .property]], .importSpecifier⟩]
  | .exportDeclaration => some [
      ⟨[word "export", word "default", c .functionDeclaration, maybe [c .semicolon]],
        .exportDefault⟩,
      ⟨[word "export", word "default", c .expression, maybe [c .semicolon]], .exportDefault⟩,
      ⟨[word "export", c .declaration], .exportDeclaration⟩,
      ⟨[word "export", c .functionDeclaration], .exportDeclaration⟩,
      ⟨[word "export", c .typeDeclaration], .moduleAside⟩,
      ⟨[word "export", maybe [c .typeOnly]]
        ++ bracketed "\x7b" "\x7d" .exportSpecifier .moreExportSpecifiers
        ++ [maybe [word "from", t .string], maybe [c .semicolon]], .moduleAside⟩,
      ⟨[word "export", mark "*", maybe [word "as", t .property], word "from", t .string,
        maybe [c .semicolon]], .moduleAside⟩]
  | .moreExportSpecifiers => some (row .moreExportSpecifiers [mark ",", c .exportSpecifier])
  | .exportSpecifier => some [⟨[t .property, maybe [word "as", t .property]], .moduleAside⟩]
  | _ => none

/-! ## Types -/

/-- Type declarations and type expressions. -/
def ofTypes : Category → Option (List Way)
  | .typeDeclaration => some [
      ⟨[word "type", t .name, maybe [c .typeParameters], mark "=", c .typeExpression,
        maybe [c .semicolon]], .moduleAside⟩,
      ⟨[word "interface", t .name, maybe [c .typeParameters],
        maybe [word "extends", c .typeList], c .objectType], .moduleAside⟩]
  | .typeParameters => some [
      ⟨[mark "<", c .typeParameter, maybe [c .moreTypeParameters], mark ">"], .typePart⟩]
  | .moreTypeParameters => some (row .moreTypeParameters [mark ",", c .typeParameter])
  | .typeParameter => some [
      ⟨[t .property, maybe [word "extends", c .typeExpression],
        maybe [mark "=", c .typeExpression]], .typePart⟩]
  | .typeList => some [⟨[c .primaryType, maybe [c .moreTypeList]], .typePart⟩]
  | .moreTypeList => some (row .moreTypeList [mark ",", c .primaryType])
  | .ascription => some [⟨[mark ":", c .typeExpression], .typePart⟩]
  | .typeExpression => some [
      ⟨[.choice [[mark "|"], [mark "&"], []], c .indexedType, maybe [c .moreIndexedTypes]],
        .typePart⟩,
      ⟨[maybe [c .typeParameters], mark "(", maybe [c .parameters], mark ")", mark "=>",
        c .typeExpression], .typePart⟩]
  | .moreIndexedTypes => some
      (row .moreIndexedTypes [.choice [[mark "|"], [mark "&"]], c .indexedType])
  | .indexedType => some [⟨[c .primaryType, maybe [c .emptyIndexes]], .typePart⟩]
  | .emptyIndexes => some (row .emptyIndexes [mark "[", mark "]"])
  | .primaryType => some [
      ⟨[c .typeName, maybe [c .typeArguments]], .typePart⟩,
      ⟨[t .string], .typePart⟩,
      ⟨[t .number], .typePart⟩,
      ⟨[c .objectType], .typePart⟩,
      ⟨[mark "(", c .typeExpression, mark ")"], .typePart⟩,
      ⟨[word "typeof", t .property, maybe [c .morePropertyNames]], .typePart⟩,
      ⟨[word "keyof", c .primaryType], .typePart⟩,
      ⟨[mark "[", maybe [c .typeExpression, maybe [c .moreTypes]], mark "]"], .typePart⟩]
  | .typeName => some [⟨[t .property, maybe [c .morePropertyNames]], .typePart⟩]
  | .morePropertyNames => some (row .morePropertyNames [mark ".", t .property])
  | .typeArguments => some [
      ⟨[mark "<", c .typeExpression, maybe [c .moreTypes], mark ">"], .typePart⟩]
  | .moreTypes => some (row .moreTypes [mark ",", c .typeExpression])
  | .objectType => some [
      ⟨[mark "\x7b", maybe [c .typeMember, maybe [c .moreTypeMembers], maybe [c .typeSeparator]],
        mark "\x7d"], .typePart⟩]
  | .moreTypeMembers => some (row .moreTypeMembers [c .typeSeparator, c .typeMember])
  | .typeSeparator => some [⟨[mark ";"], .contents⟩, ⟨[mark ","], .contents⟩]
  | .typeMember => some [
      ⟨[maybe [word "readonly"], t .property, maybe [mark "?"], mark ":", c .typeExpression],
        .typePart⟩,
      ⟨[mark "[", t .property, mark ":", c .typeExpression, mark "]", mark ":",
        c .typeExpression], .typePart⟩,
      ⟨[t .property, maybe [mark "?"]] ++ signature, .typePart⟩]
  | _ => none

/-! ## Declarations and statements -/

/-- Declarations, patterns and statements. -/
def ofStatements : Category → Option (List Way)
  | .declaration => some [
      ⟨[t .bindingWord, c .declarator, maybe [c .moreDeclarators], maybe [c .semicolon]],
        .declaration⟩]
  | .moreDeclarators => some (row .moreDeclarators [mark ",", c .declarator])
  | .declarator => some [
      ⟨[c .pattern, maybe [c .ascription], maybe [mark "=", c .expression]], .declarator⟩]
  | .functionDeclaration => some [
      ⟨[maybe [word "async"], word "function", t .name, maybe [c .typeParameters]] ++ signature
        ++ [c .block], .functionDeclaration⟩]
  | .parameters => some [
      ⟨[c .parameter, maybe [c .moreParameters], maybe [mark ","]], .pattern⟩]
  | .moreParameters => some (row .moreParameters [mark ",", c .parameter])
  | .parameter => some [
      ⟨[c .pattern, maybe [mark "?"], maybe [c .ascription],
        maybe [mark "=", c .expression]], .pattern⟩,
      ⟨[mark "...", c .pattern, maybe [c .ascription]], .pattern⟩]
  | .pattern => some [
      ⟨[t .name], .namePattern⟩, ⟨[c .objectPattern], .contents⟩, ⟨[c .arrayPattern], .contents⟩]
  | .objectPattern => some [
      ⟨bracketed "\x7b" "\x7d" .propertyPattern .morePropertyPatterns, .pattern⟩]
  | .morePropertyPatterns => some (row .morePropertyPatterns [mark ",", c .propertyPattern])
  | .propertyPattern => some [
      ⟨[t .property, maybe [mark ":", c .pattern], maybe [mark "=", c .expression]], .pattern⟩,
      ⟨[mark "...", t .name], .pattern⟩]
  | .arrayPattern => some [
      ⟨[mark "[", maybe [c .pattern, maybe [c .morePatterns]], mark "]"], .pattern⟩]
  | .morePatterns => some (row .morePatterns [mark ",", c .pattern])
  | .statement => some [
      ⟨[c .declaration], .contents⟩, ⟨[c .functionDeclaration], .contents⟩,
      ⟨[c .returnStatement], .contents⟩, ⟨[c .conditionalStatement], .contents⟩,
      ⟨[c .expressionStatement], .contents⟩, ⟨[c .block], .contents⟩,
      ⟨[mark ";"], .aside .empty⟩]
  | .returnStatement => some [
      ⟨[word "return", c .expression, maybe [c .semicolon]], .returnStatement⟩,
      ⟨[word "return", mark ";"], .returnStatement⟩]
  | .bareReturn => some [⟨[word "return"], .returnStatement⟩]
  | .conditionalStatement => some [
      ⟨[word "if", mark "(", c .expression, mark ")", c .statement,
        maybe [word "else", c .statement]], .aside .conditional⟩]
  | .expressionStatement => some [
      ⟨[c .expression, maybe [c .semicolon]], .aside .expression⟩]
  | .block => some [
      ⟨[mark "\x7b", maybe [c .statements], maybe [c .bareReturn], mark "\x7d"], .block⟩]
  | .statements => some (row .statements [c .statement])
  | .semicolon => some [⟨[mark ";"], .contents⟩]
  | _ => none

/-! ## Expressions -/

/-- The categories of infix operations: a text of the next stronger category, or an operation whose
left side is of the same category. -/
def infixed (self stronger : Category) (operator : Piece) (form : Form) : List Way :=
  [⟨[c stronger], .contents⟩, ⟨[c self, operator, c stronger], form⟩]

/-- Expressions. -/
def ofExpressions : Category → Option (List Way)
  | .expression => some [⟨[c .arrowFunction], .contents⟩, ⟨[c .assignment], .contents⟩]
  | .assignment => some [
      ⟨[c .conditional], .contents⟩,
      ⟨[c .chain, t (.operator ["||=", "&&=", "??=", "+=", "-=", "="]), c .expression],
        .unread .assignment⟩]
  | .conditional => some [
      ⟨[c .disjunction], .contents⟩,
      ⟨[c .disjunction, mark "?", c .expression, mark ":", c .expression], .conditional⟩]
  | .disjunction => some
      (infixed .disjunction .conjunction (t (.operator ["||", "??"])) .logical)
  | .conjunction => some (infixed .conjunction .equality (t (.operator ["&&"])) .logical)
  | .equality => some
      (infixed .equality .relation (t (.operator ["===", "!==", "==", "!="])) (.unread .binary))
  | .relation => some
      (infixed .relation .sum (t (.operator ["<=", ">=", "<", ">"])) (.unread .binary)
        ++ [⟨[c .relation, word "instanceof", c .sum], .unread .binary⟩])
  | .sum => some (infixed .sum .product (t (.operator ["+", "-"])) (.unread .binary))
  | .product => some (infixed .product .unary (t (.operator ["*", "/", "%"])) (.unread .binary))
  | .unary => some [
      ⟨[c .chain], .contents⟩,
      ⟨[t (.operator ["!", "-", "+"]), c .unary], .unread .unary⟩,
      ⟨[word "typeof", c .unary], .unread .unary⟩,
      ⟨[word "await", c .unary], .unread .unary⟩]
  | .chain => some [
      ⟨[c .primary], .contents⟩,
      ⟨[c .chain, mark ".", t .property], .member⟩,
      ⟨[c .chain, mark "?.", t .property], .member⟩,
      ⟨[c .chain, mark "[", c .expression, mark "]"], .index⟩,
      ⟨[c .chain, c .arguments], .call⟩,
      ⟨[c .chain, word "as", c .typeExpression], .wrapped⟩,
      ⟨[word "new", c .chain, maybe [c .arguments]], .unread .construction⟩]
  | .arguments => some [⟨bracketed "(" ")" .argument .moreArguments, .arguments⟩]
  | .moreArguments => some (row .moreArguments [mark ",", c .argument])
  | .argument => some [⟨[c .expression], .contents⟩, ⟨[mark "...", c .expression], .unread .spread⟩]
  | .primary => some [
      ⟨[t .name], .identifier⟩,
      ⟨[t .string], .string⟩,
      ⟨[t .number], .number⟩,
      ⟨[t .template], .template⟩,
      ⟨[word "true"], .truth true⟩,
      ⟨[word "false"], .truth false⟩,
      ⟨[word "null"], .nothing⟩,
      ⟨[word "undefined"], .nothing⟩,
      ⟨[mark "(", c .expression, mark ")"], .wrapped⟩,
      ⟨[c .object], .contents⟩,
      ⟨[c .array], .contents⟩,
      ⟨[c .functionExpression], .contents⟩,
      ⟨[c .element], .contents⟩,
      ⟨[c .fragment], .contents⟩]
  | .arrowFunction => some [
      ⟨[maybe [word "async"], c .arrowParameters, maybe [c .ascription], mark "=>",
        c .arrowBody], .arrowFunction⟩]
  | .arrowParameters => some [
      ⟨[t .name], .namePattern⟩,
      ⟨[mark "(", maybe [c .parameters], mark ")"], .pattern⟩]
  | .arrowBody => some [⟨[c .block], .contents⟩, ⟨[c .expression], .contents⟩]
  | .functionExpression => some [
      ⟨[maybe [word "async"], word "function"] ++ signature ++ [c .block], .functionExpression⟩]
  | .object => some [⟨bracketed "\x7b" "\x7d" .member .moreMembers, .object⟩]
  | .moreMembers => some (row .moreMembers [mark ",", c .member])
  | .member => some [
      ⟨[c .key, mark ":", c .expression], .property⟩,
      ⟨[t .property], .shorthand⟩,
      ⟨[mark "...", c .expression], .spreadProperty⟩,
      ⟨[c .key] ++ signature ++ [c .block], .method⟩]
  | .key => some [
      ⟨[t .property], .key⟩, ⟨[t .string], .key⟩, ⟨[t .number], .key⟩,
      ⟨[mark "[", c .expression, mark "]"], .key⟩]
  | .array => some [⟨bracketed "[" "]" .argument .moreArguments, .array⟩]
  | .whole => some [⟨[c .expression], .contents⟩]
  | _ => none

/-! ## Elements -/

/-- Element trees. -/
def ofElements : Category → Option (List Way)
  | .element => some [
      ⟨[mark "<", c .tagName, maybe [c .attributes], mark "/>"], .selfClosing⟩,
      ⟨[mark "<", c .tagName, maybe [c .attributes], mark ">", maybe [c .children], mark "</",
        c .tagName, mark ">"], .element⟩]
  | .fragment => some [
      ⟨[mark "<", mark ">", maybe [c .children], mark "</", mark ">"], .fragment⟩]
  | .tagName => some [⟨[t .tag, maybe [c .moreTags]], .tag⟩]
  | .moreTags => some (row .moreTags [mark ".", t .tag])
  | .attributes => some (row .attributes [c .attribute])
  | .attribute => some [
      ⟨[t .attribute, maybe [mark "=", c .attributeValue]], .attribute⟩,
      ⟨[mark "\x7b", mark "...", c .expression, mark "\x7d"], .spreadAttribute⟩]
  | .attributeValue => some [
      ⟨[t .string], .string⟩,
      ⟨[mark "\x7b", c .expression, mark "\x7d"], .container⟩,
      ⟨[c .element], .contents⟩]
  | .children => some (row .children [c .child])
  | .child => some [
      ⟨[c .element], .contents⟩,
      ⟨[c .fragment], .contents⟩,
      ⟨[mark "\x7b", maybe [c .expression], mark "\x7d"], .container⟩,
      ⟨[t .run], .text⟩]
  | _ => none

/-- The productions of a category. -/
def of (category : Category) : List Way :=
  ((ofModule category).orElse fun _ => (ofTypes category).orElse fun _ =>
    (ofStatements category).orElse fun _ => (ofExpressions category).orElse fun _ =>
    ofElements category).getD []

end Productions

/-- The grammar of component sources. -/
def grammar : Grammar Terminal Category Form :=
  .ofProductions Category.all Category.ctorIdx Productions.of Terminal.measure gaps

end SkinCompiler.Source
