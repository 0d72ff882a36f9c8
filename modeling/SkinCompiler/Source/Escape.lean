import SkinCompiler.Text.Basic

/-!
# Escapes in strings and template literals

A backslash gives the next character a meaning of its own, or keeps it as it is.
-/

namespace SkinCompiler.Source

/-- What a character means after a backslash. -/
def escaped (c : Char) : Char :=
  if c == 'n' then '\n'
  else if c == 't' then '\t'
  else if c == 'r' then '\r'
  else if c == '0' then '\x00'
  else c

/-- The text that the inside of a string denotes. -/
def unescape : Text → Text
  | '\\' :: c :: t => escaped c :: unescape t
  | c :: t => c :: unescape t
  | [] => []

/-- The text between the quotes of a string. -/
def stringValue (token : Text) : Text := unescape (token.drop 1).dropLast

/-- A piece of a template literal. -/
inductive TemplatePiece where
  /-- A character of its own text. -/
  | character (c : Char)
  /-- A placeholder: its source and the position of that in the literal. -/
  | placeholder (code : Text) (position : Nat)
  deriving DecidableEq

/-- How many characters lie before the brace that closes the placeholder at the front of the text.
Braces inside quotes do not count.  If there is no such brace, all but the last character lie
before it. -/
def placeholderLength (depth : Nat) (quote : Option Char) : Text → Nat
  | [] => 0
  | [_] => 0
  | c :: d :: t =>
    match quote with
    | some q =>
      if c == '\\' then if t.isEmpty then 1 else 2 + placeholderLength depth quote t
      else if c == q then 1 + placeholderLength depth none (d :: t)
      else 1 + placeholderLength depth quote (d :: t)
    | none =>
      if c == '\'' || c == '"' then 1 + placeholderLength depth (some c) (d :: t)
      else if c == '\x7b' then 1 + placeholderLength (depth + 1) none (d :: t)
      else if c == '\x7d' then
        if depth == 0 then 0 else 1 + placeholderLength (depth - 1) none (d :: t)
      else 1 + placeholderLength depth none (d :: t)

/-- The pieces of a template literal.  The text holds what follows position `position`, up to and
including the closing backtick; `pending` characters of it have been dealt with. -/
def templatePieces : (pending position : Nat) → Text → List TemplatePiece
  | _, _, [] => []
  | _, _, [_] => []
  | pending + 1, position, _ :: t => templatePieces pending (position + 1) t
  | 0, position, c :: d :: t =>
    if c == '\\' && !t.isEmpty then
      .character (escaped d) :: templatePieces 1 (position + 1) (d :: t)
    else if c == '$' && d == '\x7b' then
      let length := placeholderLength 0 none t
      .placeholder (t.take length) (position + 2)
        :: templatePieces (length + 2) (position + 1) (d :: t)
    else .character c :: templatePieces 0 (position + 1) (d :: t)

/-- The texts between the placeholders: one more than there are placeholders. -/
def templateTexts : List TemplatePiece → List Text
  | [] => [[]]
  | .placeholder _ _ :: pieces => [] :: templateTexts pieces
  | .character c :: pieces =>
    match templateTexts pieces with
    | [] => [[c]]
    | t :: ts => (c :: t) :: ts

/-- The placeholders with their positions. -/
def templateCodes (pieces : List TemplatePiece) : List (Text × Nat) :=
  pieces.filterMap fun
    | .placeholder code position => some (code, position)
    | .character _ => none

end SkinCompiler.Source
