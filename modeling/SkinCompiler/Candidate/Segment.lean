import SkinCompiler.Text.Basic

/-!
# Segments of class tokens

A class token is cut at separators that stand outside all brackets and quotes, so that
`hover:bg-[url(a:b)]` has one colon to be cut at.  What is open at a point of a text is a `Scope`;
cutting and the test for balance walk the text with the same `Scope.step`.
-/

namespace SkinCompiler

/-- What is open at a point of a text. -/
structure Scope where
  /-- The closing brackets that are awaited, the innermost first. -/
  closers : List Char := []
  /-- The quote that is open. -/
  quote : Option Char := none
  /-- The character before was a backslash, and the next one stands for itself. -/
  escaped : Bool := false
  deriving DecidableEq

namespace Scope

/-- The closing bracket of an opening one. -/
def closer? : Char → Option Char
  | '[' => some ']'
  | '(' => some ')'
  | '{' => some '}'
  | _ => none

/-- Closing brackets. -/
def isCloser (c : Char) : Bool := c == ']' || c == ')' || c == '}'

/-- Quotes: single, double and back. -/
def isQuote (c : Char) : Bool := c == '\'' || c == '"' || c == '`'

/-- What is open after one more character; a closing bracket that is not awaited breaks the
text. -/
def step (s : Scope) (c : Char) : Option Scope :=
  if s.escaped then some { s with escaped := false }
  else if c == '\\' then some { s with escaped := true }
  else match s.quote with
    | some q => some (if c == q then { s with quote := none } else s)
    | none =>
      if isQuote c then some { s with quote := some c }
      else match closer? c with
        | some closer => some { s with closers := closer :: s.closers }
        | none =>
          if isCloser c then
            match s.closers with
            | awaited :: closers => if awaited == c then some { s with closers } else none
            | [] => none
          else some s

/-- Nothing is open, and `c` means nothing but itself. -/
def cutsAt (s : Scope) (c : Char) : Bool :=
  s.closers.isEmpty && s.quote.isNone && !s.escaped
    && !(c == '\\' || isQuote c || (closer? c).isSome || isCloser c)

/-- Every bracket and every quote that is open here or opened in the text is closed in it. -/
def closes (s : Scope) : Text → Bool
  | [] => s.closers.isEmpty && s.quote.isNone
  | c :: t => match s.step c with
    | some s => s.closes t
    | none => false

/-- The pieces of a text at the separators outside all brackets and quotes.  Where the text breaks
it is cut no further. -/
def pieces (separator : Char) (s : Scope) : Text → List Text
  | [] => [[]]
  | c :: t => match s.step c with
    | none => [c :: t]
    | some s' =>
      if c == separator && s.cutsAt c then [] :: s'.pieces separator t
      else match s'.pieces separator t with
        | [] => [[c]]
        | piece :: rest => (c :: piece) :: rest

end Scope

namespace Text

/-- Every bracket and every quote in the text is closed, and none too many. -/
def isBalanced (t : Text) : Bool := Scope.closes {} t

/-- The segments between the separators outside all brackets and quotes.  Only a single character
can separate. -/
def segments (separator t : Text) : List Text :=
  match separator with
  | [c] => Scope.pieces c {} t
  | _ => [t]

end Text

end SkinCompiler
