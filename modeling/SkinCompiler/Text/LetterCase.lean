import SkinCompiler.Text.CharClass
import SkinCompiler.Text.LetterCaseTable

/-!
# Letter case

The full Unicode case mappings of a text.  Lower case depends on the surroundings in one place
only: a capital sigma that ends a word becomes the final sigma.
-/

namespace SkinCompiler.Text

open CharClass LetterCase

namespace LetterCase

/-- The distance that a table of runs gives for a point, if it lies in one of them. -/
def distance? : List (Nat × Nat × Nat × Int) → Nat → Option Int
  | [], _ => none
  | (first, last, step, d) :: runs, n =>
    if n < first then none
    else if n ≤ last && (n - first) % step == 0 then some d
    else distance? runs n

/-- Map a character along a table of runs; characters outside the table stay. -/
def shift (runs : List (Nat × Nat × Nat × Int)) (c : Char) : Char :=
  match distance? runs c.toNat with
  | some d => Char.ofNat (Int.toNat (c.toNat + d))
  | none => c

/-- The first character that is not passed over has letter case. -/
def casedNext : Text → Bool
  | [] => false
  | c :: t => if within ignorableRuns c.toNat then casedNext t else within casedRuns c.toNat

/-- Lower case of a text of which `before` is the part already read, last character first. -/
def lowerAfter (before : Text) : Text → Text
  | [] => []
  | c :: t =>
    let mapped :=
      if c.toNat == 0x3A3 then
        if casedNext before && !casedNext t then [Char.ofNat 0x3C2] else [Char.ofNat 0x3C3]
      else if c.toNat == 0x130 then [Char.ofNat 0x69, Char.ofNat 0x307]
      else [shift lowerRuns c]
    mapped ++ lowerAfter (c :: before) t

end LetterCase

/-- The text in lower case. -/
def toLower (t : Text) : Text := lowerAfter [] t

/-- The upper-case form of a character; a ligature or an accented letter can have several. -/
def raise (c : Char) : Text :=
  match raisedMany.find? (·.1 == c.toNat) with
  | some (_, points) => points.map Char.ofNat
  | none => [shift raisedRuns c]

/-- Upper-case letters. -/
def isUpper (c : Char) : Bool :=
  let rec go : List (Nat × Nat × Nat) → Bool
    | [] => false
    | (first, last, step) :: runs =>
      if c.toNat < first then false
      else (c.toNat ≤ last && (c.toNat - first) % step == 0) || go runs
  go upperRuns

end SkinCompiler.Text
