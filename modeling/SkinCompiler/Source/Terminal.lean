import SkinCompiler.Text.CharClass

/-!
# Terminals of component sources

The words, marks, literals and text runs that component sources are written with, and how much of
a text each of them covers.  A terminal always covers as much as it can; words are not reserved
where a property name may stand.
-/

namespace SkinCompiler.Source

/-- The terminals. -/
inductive Terminal where
  /-- Punctuation. -/
  | mark (spelling : Text)
  /-- A keyword. -/
  | keyword (word : Text)
  /-- The keyword of a variable declaration: `const`, `let` or `var`. -/
  | bindingWord
  /-- A name that is not a keyword. -/
  | name
  /-- Any name; keywords can name properties. -/
  | property
  /-- A part of a tag name, which may hold hyphens. -/
  | tag
  /-- An attribute name, which may hold hyphens and colons. -/
  | attribute
  /-- A string in single or double quotes. -/
  | string
  /-- A template literal. -/
  | template
  /-- A number. -/
  | number
  /-- A run of element text, from its first to its last character that is not blank. -/
  | run
  /-- An operator, with its possible spellings; no spelling follows one that it begins with. -/
  | operator (spellings : List Text)
  deriving DecidableEq

namespace Terminal

/-- Characters that can begin a name. -/
def isNameStart (c : Char) : Bool := Text.isAsciiLetter c || c == '_' || c == '$'

/-- Characters that can continue a name. -/
def isNamePart (c : Char) : Bool := Text.isWord c || c == '$'

/-- The words that are no names. -/
def keywords : List Text := [
  "import", "export", "from", "default", "as", "type", "interface", "extends", "typeof", "keyof",
  "readonly", "function", "async", "await", "return", "if", "else", "new", "instanceof", "const",
  "let", "var", "true", "false", "null", "undefined"]

/-- The length of the spelling at the front of the text. -/
def spelling? (s t : Text) : Option Nat := (Text.after? s t).map fun _ => s.length

/-- The length of the word at the front of the text, unless it goes on as a longer name. -/
def word? (w t : Text) : Option Nat :=
  match Text.after? w t with
  | some (c :: _) => if isNamePart c then none else some w.length
  | some [] => some w.length
  | none => none

/-- The first length that is found. -/
def firstOf {α : Type} (f : α → Option Nat) (choices : List α) : Option Nat := choices.findSome? f

/-- The length of the name at the front of the text, whose further characters satisfy `part`. -/
def name? (part : Char → Bool) : Text → Option Nat
  | c :: t => if isNameStart c then some (1 + (t.takeWhile part).length) else none
  | [] => none

/-- The number of characters up to and including the closing quote of a string.  A backslash takes
the next character with it; a line feed ends the search. -/
def stringEnd? (quote : Char) : Text → Option Nat
  | [] => none
  | '\\' :: c :: t => if c == '\n' then none else (stringEnd? quote t).map (· + 2)
  | c :: t =>
    if c == quote then some 1
    else if c == '\n' || c == '\\' then none
    else (stringEnd? quote t).map (· + 1)

/-- The length of the string at the front of the text. -/
def string? : Text → Option Nat
  | '"' :: t => (stringEnd? '"' t).map (· + 1)
  | '\'' :: t => (stringEnd? '\'' t).map (· + 1)
  | _ => none

/-- Where a template literal is being read. -/
inductive Region where
  /-- In its own text. -/
  | text
  /-- In a placeholder. -/
  | placeholder
  /-- In braces inside a placeholder. -/
  | braces
  deriving DecidableEq

/-- The number of characters up to and including the closing backtick of a template literal.
Placeholders hold braces at most once nested and, outside those, no backtick. -/
def templateEnd? : Region → Text → Option Nat
  | _, [] => none
  | .text, '\\' :: c :: t => if c == '\n' then none else (templateEnd? .text t).map (· + 2)
  | .text, '$' :: '{' :: t => (templateEnd? .placeholder t).map (· + 2)
  | .text, c :: t =>
    if c == '\x60' then some 1
    else if c == '\\' then none
    else (templateEnd? .text t).map (· + 1)
  | .placeholder, c :: t =>
    if c == '}' then (templateEnd? .text t).map (· + 1)
    else if c == '{' then (templateEnd? .braces t).map (· + 1)
    else if c == '\x60' then none
    else (templateEnd? .placeholder t).map (· + 1)
  | .braces, c :: t =>
    if c == '}' then (templateEnd? .placeholder t).map (· + 1)
    else if c == '{' then none
    else (templateEnd? .braces t).map (· + 1)

/-- The length of the template literal at the front of the text. -/
def template? : Text → Option Nat
  | '\x60' :: t => (templateEnd? .text t).map (· + 1)
  | _ => none

/-- The length of the exponent at the front of the text, or zero. -/
def exponentLength (t : Text) : Nat :=
  let digits (t : Text) : Nat := (t.takeWhile Text.isDecimal).length
  match t with
  | e :: t =>
    if e == 'e' || e == 'E' then
      match t with
      | s :: t' =>
        if s == '+' || s == '-' then (if digits t' == 0 then 0 else 2 + digits t')
        else if digits t == 0 then 0 else 1 + digits t
      | [] => 0
    else 0
  | [] => 0

/-- The length of the number at the front of the text. -/
def number? (t : Text) : Option Nat :=
  let whole := (t.takeWhile Text.isDecimal).length
  let rest := t.dropWhile Text.isDecimal
  let length := match rest with
    | '.' :: rest =>
      let places := (rest.takeWhile Text.isDecimal).length
      if whole == 0 && places == 0 then 0 else whole + 1 + places
    | _ => whole
  if length == 0 then none else some (length + exponentLength (t.drop length))

/-- Characters that end a run of element text. -/
def endsRun (c : Char) : Bool := c == '<' || c == '>' || c == '{' || c == '}'

/-- The length of the run of element text at the front of the text. -/
def run? (t : Text) : Option Nat :=
  match t with
  | c :: _ =>
    if endsRun c || Text.isBlank c then none
    else some (Text.trimRight Text.isBlank (t.takeWhile fun c => !endsRun c)).length
  | [] => none

/-- How much of a text the terminal covers. -/
def measure : Terminal → Text → Option Nat
  | .mark s, t => spelling? s t
  | .keyword w, t => word? w t
  | .bindingWord, t => firstOf (fun w => word? w t) ["const".toList, "let".toList, "var".toList]
  | .name, t =>
    match t with
    | c :: _ =>
      if isNameStart c && (firstOf (fun w => word? w t) keywords).isNone then name? isNamePart t
      else none
    | [] => none
  | .property, t => name? isNamePart t
  | .tag, t => name? (fun c => isNamePart c || c == '-') t
  | .attribute, t => name? (fun c => isNamePart c || c == '-' || c == ':') t
  | .string, t => string? t
  | .template, t => template? t
  | .number, t => number? t
  | .run, t => run? t
  | .operator spellings, t => firstOf (fun s => spelling? s t) spellings

/-- The terminal's text matters to the meaning of what it stands in. -/
def isTelling : Terminal → Bool
  | .mark _ => false
  | .keyword _ => false
  | _ => true

end Terminal

/-! ## Gaps -/

/-- Blanks between terminals: space, tab, form feed, carriage return and line feed. -/
def isGapChar (c : Char) : Bool :=
  c == ' ' || c == '\t' || c == '\x0c' || c == '\r' || c == '\n'

/-- The length of the blanks at the front of the text. -/
def blanks? : Text → Option Nat
  | c :: t => if isGapChar c then some (1 + (t.takeWhile isGapChar).length) else none
  | [] => none

/-- The length of the comment that runs to the end of the line. -/
def lineComment? : Text → Option Nat
  | '/' :: '/' :: t => some (2 + (t.takeWhile (· != '\n')).length)
  | _ => none

/-- The number of characters up to and including the end mark of a comment. -/
def commentEnd? : Text → Option Nat
  | '*' :: '/' :: _ => some 2
  | _ :: t => (commentEnd? t).map (· + 1)
  | [] => none

/-- The length of the comment between `/*` and `*/`. -/
def blockComment? : Text → Option Nat
  | '/' :: '*' :: t => (commentEnd? t).map (· + 2)
  | _ => none

/-- The kinds of gaps. -/
def gaps : List (Text → Option Nat) := [blanks?, lineComment?, blockComment?]

end SkinCompiler.Source
