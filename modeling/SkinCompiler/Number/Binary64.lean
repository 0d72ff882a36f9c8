import SkinCompiler.Text.CharClass

/-!
# Binary floating-point numbers

Numbers with a significand of 53 bits, as exact dyadic fractions.  Every operation computes the
exact result as a fraction of natural numbers and rounds it once, to the nearest number and in case
of a tie to the one with the even significand.
-/

namespace SkinCompiler

/-- A floating-point number. -/
inductive Binary64 where
  /-- The number `significand * 2 ^ exponent`, or its opposite. -/
  | finite (negative : Bool) (significand : Nat) (exponent : Int)
  /-- Beyond every finite number. -/
  | infinite (negative : Bool)
  /-- No number. -/
  | undefined
  deriving DecidableEq

namespace Binary64

/-- The quotient of two natural numbers, rounded to the nearest one, a tie to the even one. -/
def roundDiv (num den : Nat) : Nat :=
  let q := num / den
  let r := num % den
  if 2 * r < den then q
  else if den < 2 * r then q + 1
  else if q % 2 == 0 then q else q + 1

/-- `num / den * 2 ^ (-q)` as a fraction. -/
def scale (num den : Nat) (q : Int) : Nat × Nat :=
  match q with
  | .ofNat k => (num, den * Nat.pow 2 k)
  | .negSucc k => (num * Nat.pow 2 (k + 1), den)

/-- The number nearest to a fraction. -/
def ofRatio (negative : Bool) (num den : Nat) : Binary64 :=
  if num == 0 then .finite negative 0 0
  else
    let e : Int := (Nat.log2 num : Int) - Nat.log2 den
    let (a, b) := scale num den e
    let q := max (if b ≤ a then e - 52 else e - 53) (-1074)
    let (a, b) := scale num den q
    let s := roundDiv a b
    let (s, q) := if s == Nat.pow 2 53 then (Nat.pow 2 52, q + 1) else (s, q)
    if 971 < q then .infinite negative else .finite negative s q

/-- The number nearest to `digits * 10 ^ exponent`. -/
def ofDecimal (negative : Bool) (digits : Nat) (exponent : Int) : Binary64 :=
  let magnitude := (Nat.toDigits 10 digits).length + exponent
  if digits == 0 || magnitude < -400 then .finite negative 0 0
  else if 400 < magnitude then .infinite negative
  else match exponent with
    | .ofNat k => ofRatio negative (digits * Nat.pow 10 k) 1
    | .negSucc k => ofRatio negative digits (Nat.pow 10 (k + 1))

/-- The magnitude of `significand * 2 ^ exponent` as a fraction. -/
def ratio (significand : Nat) : (exponent : Int) → Nat × Nat
  | .ofNat k => (significand * Nat.pow 2 k, 1)
  | .negSucc k => (significand, Nat.pow 2 (k + 1))

/-- The natural number `n`, or the number nearest to it. -/
def ofNat (n : Nat) : Binary64 := ofRatio false n 1

/-- Zero of either sign. -/
def isZero : Binary64 → Bool
  | .finite _ 0 _ => true
  | _ => false

/-- The product. -/
def mul : Binary64 → Binary64 → Binary64
  | .undefined, _ => .undefined
  | _, .undefined => .undefined
  | .infinite n, .infinite n' => .infinite (n != n')
  | .infinite n, .finite n' m _ => if m == 0 then .undefined else .infinite (n != n')
  | .finite n m _, .infinite n' => if m == 0 then .undefined else .infinite (n != n')
  | .finite n m q, .finite n' m' q' =>
    let (a, b) := ratio m q
    let (a', b') := ratio m' q'
    ofRatio (n != n') (a * a') (b * b')

/-- The quotient by a number that is not zero. -/
def div : Binary64 → Binary64 → Binary64
  | .undefined, _ => .undefined
  | _, .undefined => .undefined
  | .infinite _, .infinite _ => .undefined
  | .infinite n, .finite n' _ _ => .infinite (n != n')
  | .finite n _ _, .infinite n' => .finite (n != n') 0 0
  | .finite n m q, .finite n' m' q' =>
    if m' == 0 then .undefined
    else
      let (a, b) := ratio m q
      let (a', b') := ratio m' q'
      ofRatio (n != n') (a * b') (b * a')

/-- A finite number without a fractional part. -/
def isWhole : Binary64 → Bool
  | .finite _ m q => let (a, b) := ratio m q; a % b == 0
  | _ => false

/-- The natural number that the number is. -/
def toNat? : Binary64 → Option Nat
  | .finite negative m q =>
    let (a, b) := ratio m q
    if a % b == 0 && (!negative || m == 0) then some (a / b) else none
  | _ => none

/-- At most the natural number `n`. -/
def atMost (n : Nat) : Binary64 → Bool
  | .finite negative m q => negative || (let (a, b) := ratio m q; a ≤ n * b)
  | .infinite negative => negative
  | .undefined => false

/-! ## Reading -/

/-- A row of decimal digits with an optional point, as digits and how many stand after the
point. -/
def digitsAndPlaces (t : Text) : Nat × Nat :=
  match t.span (· != '.') with
  | (whole, []) => (Text.decimalNumber whole, 0)
  | (whole, _ :: places) => (Text.decimalNumber (whole ++ places), places.length)

/-- The number that a numeral denotes: digits with an optional point and an optional exponent,
and an optional minus sign in front. -/
def ofNumeral (t : Text) : Binary64 :=
  let (negative, t) := match t with
    | '-' :: t => (true, t)
    | t => (false, t)
  let (mantissa, rest) := t.span fun c => c != 'e' && c != 'E'
  let exponent : Int := match rest with
    | _ :: '-' :: e => -(Text.decimalNumber e : Int)
    | _ :: '+' :: e => Text.decimalNumber e
    | _ :: e => Text.decimalNumber e
    | [] => 0
  let (digits, places) := digitsAndPlaces mantissa
  ofDecimal negative digits (exponent - places)

/-! ## Writing with fixed places -/

/-- The sign of a number as written. -/
def sign (negative : Bool) : Text := if negative then "-" else []

/-- The number with exactly `places` places after the point. -/
def toFixed (places : Nat) : Binary64 → Text
  | .finite negative m q =>
    let (a, b) := ratio m q
    let unit := Nat.pow 10 places
    let n := roundDiv (a * unit) b
    let fraction := Text.ofNat (n % unit)
    sign negative ++ Text.ofNat (n / unit) ++ "."
      ++ List.replicate (places - fraction.length) '0' ++ fraction
  | .infinite negative => sign negative ++ "inf"
  | .undefined => "nan"

end Binary64

end SkinCompiler
