/-!
# Text

A text is a list of Unicode code points; positions and lengths count code points.  This file holds
the operations that every other part of the compiler uses: searching, cutting, joining and
replacing.  All of them recurse on the text itself.
-/

namespace SkinCompiler

/-- A text, as its code points. -/
abbrev Text := List Char

/-- A string literal stands for the text of its code points. -/
instance coeString : Coe String (List Char) := ⟨String.toList⟩

namespace Text

/-! ## Searching -/

/-- The part after `lead`, when the text begins with it. -/
def after? : (lead t : Text) → Option Text
  | [], t => some t
  | _ :: _, [] => none
  | a :: lead, b :: t => if a = b then after? lead t else none

/-- The text begins with `lead`. -/
def startsWith (t lead : Text) : Bool := (after? lead t).isSome

/-- The text ends with `tail`. -/
def endsWith (t tail : Text) : Bool := startsWith t.reverse tail.reverse

/-- The text begins with one of the given leads. -/
def startsWithAny (t : Text) (leads : List Text) : Bool := leads.any (startsWith t)

/-- `part` occurs somewhere in the text. -/
def hasPart (part : Text) : Text → Bool
  | [] => part.isEmpty
  | c :: t => startsWith (c :: t) part || hasPart part t

/-- The characters from `start` up to but not including `stop`. -/
def slice (t : Text) (start stop : Nat) : Text := (t.drop start).take (stop - start)

/-! ## Cutting and joining -/

/-- Cut at every character that satisfies `p`; there is always one piece more than cuts. -/
def cutWhere (p : Char → Bool) : Text → List Text
  | [] => [[]]
  | c :: t =>
    if p c then [] :: cutWhere p t
    else match cutWhere p t with
      | [] => [[c]]
      | piece :: pieces => (c :: piece) :: pieces

/-- Cut at every occurrence of the character `sep`. -/
def cut (sep : Char) (t : Text) : List Text := cutWhere (· == sep) t

/-- Cut at the occurrences of `sep`, found from left to right without overlap.  `pending` counts
the characters of an occurrence that are still to be passed over. -/
def cutAtFrom (sep : Text) : (pending : Nat) → Text → List Text
  | _, [] => [[]]
  | pending + 1, _ :: t => cutAtFrom sep pending t
  | 0, c :: t =>
    if startsWith (c :: t) sep then [] :: cutAtFrom sep (sep.length - 1) t
    else match cutAtFrom sep 0 t with
      | [] => [[c]]
      | piece :: pieces => (c :: piece) :: pieces

/-- Cut at the occurrences of the non-empty text `sep`. -/
def cutAt (sep t : Text) : List Text := cutAtFrom sep 0 t

/-- The pieces with `sep` between each two neighbours. -/
def join (sep : Text) : List Text → Text
  | [] => []
  | [piece] => piece
  | piece :: next :: pieces => piece ++ sep ++ join sep (next :: pieces)

/-- Replace every occurrence of the non-empty text `old`. -/
def replace (old new t : Text) : Text := join new (cutAt old t)

/-- The text before and after the first `sep`, if there is one. -/
def halves? (sep : Text) (t : Text) : Option (Text × Text) :=
  match cutAt sep t with
  | first :: second :: rest => some (first, join sep (second :: rest))
  | _ => none

/-- The text before and after the last occurrence of the character `sep`, if there is one. -/
def lastHalves? (sep : Char) (t : Text) : Option (Text × Text) :=
  match t.reverse.span (· != sep) with
  | (_, []) => none
  | (last, _ :: first) => some (first.reverse, last.reverse)

/-! ## Margins -/

/-- Drop the leading characters that satisfy `p`. -/
def trimLeft (p : Char → Bool) (t : Text) : Text := t.dropWhile p

/-- Drop the trailing characters that satisfy `p`. -/
def trimRight (p : Char → Bool) (t : Text) : Text := (t.reverse.dropWhile p).reverse

/-- Drop the leading and the trailing characters that satisfy `p`. -/
def trimBoth (p : Char → Bool) (t : Text) : Text := trimRight p (trimLeft p t)

/-- `count` blanks. -/
def spaces (count : Nat) : Text := List.replicate count ' '

/-! ## Numerals -/

/-- The decimal numeral of a number. -/
def ofNat (n : Nat) : Text := Nat.toDigits 10 n

/-- The decimal numeral of an integer. -/
def ofInt : Int → Text
  | .ofNat n => ofNat n
  | .negSucc n => '-' :: ofNat (n + 1)

end Text

end SkinCompiler
