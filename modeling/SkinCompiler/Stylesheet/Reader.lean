import SkinCompiler.Candidate.Segment
import SkinCompiler.Stylesheet.Basic

/-!
# Reading stylesheets

Comments are taken out first.  Then every rule is a head up to an opening brace and a block up to
the brace that closes it; a head with an at sign and a semicolon before any brace is a statement.
What does not have the form of a rule or of a declaration is passed over.  Only a block that is
never closed is an error.
-/

namespace SkinCompiler

namespace Stylesheet

/-- A block that is never closed. -/
structure Unterminated where
  deriving DecidableEq

/-- The text of the error. -/
def Unterminated.message (_ : Unterminated) : Text := "Unterminated block in stylesheet"

/-! ## Comments -/

/-- The length of the part up to and including the end of a comment. -/
def commentLength? : Text → Option Nat
  | '*' :: '/' :: _ => some 2
  | _ :: t => (commentLength? t).map (· + 1)
  | [] => none

/-- The text without its comments.  `pending` counts the characters of a comment that are still to
be passed over. -/
def stripCommentsFrom : (pending : Nat) → Text → Text
  | _, [] => []
  | pending + 1, _ :: t => stripCommentsFrom pending t
  | 0, c :: t =>
    match c, t with
    | '/', '*' :: rest => match commentLength? rest with
      | some n => stripCommentsFrom (n + 1) t
      | none => c :: stripCommentsFrom 0 t
    | _, _ => c :: stripCommentsFrom 0 t

/-- The text without its comments. -/
def stripComments (t : Text) : Text := stripCommentsFrom 0 t

/-! ## Declarations -/

/-- Letters and the low line of ASCII. -/
def isNameStart (c : Char) : Bool := Text.isAsciiLetter c || c == '_'

/-- What a property name goes on with. -/
def isNamePart (c : Char) : Bool := isNameStart c || Text.isAsciiDigit c || c == '-'

/-- The property at the beginning of a text and the rest after it. -/
def property? (t : Text) : Option (Text × Text) :=
  let (hyphens, name) := match t with
    | '-' :: '-' :: t => (['-', '-'], t)
    | '-' :: t => (['-'], t)
    | t => ([], t)
  match name with
  | c :: _ =>
    if isNameStart c then
      let (name, rest) := name.span isNamePart
      some (hyphens ++ name, rest)
    else none
  | [] => none

/-- The mark of importance at the end of a value. -/
def importantMark : Text := "!important"

/-- Read a declaration; one without a value is none. -/
def declaration? (chunk : Text) : Option Declaration :=
  match property? (Text.trimLeft Text.isBlank chunk) with
  | none => none
  | some (property, rest) => match Text.trimLeft Text.isBlank rest with
    | ':' :: rest =>
      let value := Text.strip rest
      let (value, important) :=
        if Text.endsWith value importantMark then
          (Text.trimRight Text.isBlank (value.take (value.length - importantMark.length)), true)
        else (value, false)
      if value.isEmpty then none else some { property, value, important }
    | _ => none

/-- The declarations of a block. -/
def declarations (body : Text) : List Declaration :=
  (Text.segments [';'] body).filterMap declaration?

/-! ## Rules -/

/-- The block whose opening brace stands before the text, and the rest after its closing brace.
`depth` counts the blocks inside that are still open, and `before` is the character before. -/
def blockFrom (depth : Nat) (quote : Option Char) (before : Char) : Text → Option (Text × Text)
  | [] => none
  | c :: t =>
    let more (depth : Nat) (quote : Option Char) :=
      (blockFrom depth quote c t).map fun (body, rest) => (c :: body, rest)
    match quote with
    | some q => more depth (if c == q && before != '\\' then none else some q)
    | none =>
      if c == '\'' || c == '"' then more depth (some c)
      else if c == '\x7b' then more (depth + 1) none
      else if c == '\x7d' then
        match depth with
        | 0 => some ([], t)
        | depth + 1 => more depth none
      else more depth none

/-- The name and the parameters of an at-rule. -/
def atRule? : Text → Option (Text × Text)
  | '@' :: t =>
    let (name, params) := t.span fun c => Text.isAsciiLetter c || c == '-'
    if name.isEmpty then none else some (name, Text.strip params)
  | _ => none

/-- What comes next in a stylesheet. -/
inductive Next where
  /-- A statement, and the rest after it. -/
  | statement (head rest : Text)
  /-- A head, and the rest after the brace that follows it. -/
  | block (head rest : Text)
  /-- Nothing more. -/
  | done

/-- What comes next in a stylesheet. -/
def next (t : Text) : Next :=
  let (head, rest) := t.span (· != '\x7b')
  let (lead, after) := head.span (· != ';')
  if !after.isEmpty && Text.startsWith (Text.strip lead) ['@'] then
    .statement (Text.strip lead) (after.drop 1 ++ rest)
  else if rest.isEmpty then .done
  else .block (Text.strip head) (rest.drop 1)

/-- Read rules from a text without comments, of which no more than `fuel` come one after the other
or inside each other. -/
def readRules : (fuel : Nat) → Text → Except Unterminated (List Rule)
  | 0, _ => .ok []
  | fuel + 1, t =>
    match next t with
    | .done => .ok []
    | .statement head rest => do
      let rules ← readRules fuel rest
      return match atRule? head with
        | some (name, params) => .statement name params :: rules
        | none => rules
    | .block head rest =>
      match blockFrom 0 none '\x7b' rest with
      | none => .error {}
      | some (body, rest) =>
        if Text.startsWith head ['@'] then
          match atRule? head with
          | some (name, params) => do
            let inner ← readRules fuel body
            let rules ← readRules fuel rest
            return .block name params inner :: rules
          | none => readRules fuel rest
        else do
          let rules ← readRules fuel rest
          return if head.isEmpty then rules
            else .style (Text.collapse head) (declarations body) :: rules

/-- Read a stylesheet. -/
def read (source : Text) : Except Unterminated Stylesheet :=
  let t := stripComments source
  readRules (t.length + 1) t

end Stylesheet

end SkinCompiler
