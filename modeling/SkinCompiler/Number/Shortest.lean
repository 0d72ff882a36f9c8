import SkinCompiler.Number.Binary64

/-!
# Shortest numerals

The shortest decimal numeral that reads back as a given floating-point number.  For one digit, two
digits and so on up to seventeen, the two neighbours of the number on the decimal grid with that
many digits are tried; the first grid with a neighbour that rounds to the number decides, and of
two such neighbours the nearer one is taken.
-/

namespace SkinCompiler.Binary64

/-- The power of ten `10 ^ k` as a fraction. -/
def powerOfTen : Int → Nat × Nat
  | .ofNat k => (Nat.pow 10 k, 1)
  | .negSucc k => (1, Nat.pow 10 (k + 1))

/-- The largest `k` from `guess` downwards with `10 ^ k ≤ a / b`. -/
def magnitudeFrom (a b : Nat) : (fuel : Nat) → (guess : Int) → Int
  | 0, guess => guess
  | fuel + 1, guess =>
    let (p, r) := powerOfTen guess
    if p * b ≤ a * r then guess else magnitudeFrom a b fuel (guess - 1)

/-- The exponent of the first digit of the positive fraction `a / b`. -/
def magnitude (a b : Nat) : Int :=
  let guess : Int := (Nat.toDigits 10 a).length - ((Nat.toDigits 10 b).length : Int) + 1
  magnitudeFrom a b 4 guess

/-- The digits `d` at decimal exponent `k` read back as the given number. -/
def readsBack (x : Binary64) (d : Nat) (k : Int) : Bool := ofDecimal false d k == x

/-- The shortest digits, from `count` digits on, with the exponent of the last digit. -/
def shortestFrom (x : Binary64) (a b : Nat) (top : Int) : (fuel count : Nat) → Nat × Int
  | 0, _ => (0, 0)
  | fuel + 1, count =>
    let k := top - count + 1
    let (p, r) := powerOfTen k
    let low := a * r / (b * p)
    let rest := a * r % (b * p)
    let high := low + 1
    let lowFits := readsBack x low k
    let highFits := readsBack x high k
    let lowNearer := 2 * rest < b * p || (2 * rest == b * p && low % 2 == 0)
    if lowFits && (!highFits || lowNearer) then (low, k)
    else if highFits then (high, k)
    else shortestFrom x a b top fuel (count + 1)

/-- Drop the zeros at the end of a row of digits. -/
def dropZeros (fuel : Nat) (d : Nat) (k : Int) : Nat × Int :=
  match fuel with
  | 0 => (d, k)
  | fuel + 1 => if d != 0 && d % 10 == 0 then dropZeros fuel (d / 10) (k + 1) else (d, k)

/-- The shortest digits of a positive number and the exponent of the last one. -/
def shortestDigits (m : Nat) (q : Int) : Nat × Int :=
  let (a, b) := ratio m q
  let (d, k) := shortestFrom (.finite false m q) a b (magnitude a b) 17 1
  dropZeros 20 d k

/-- Where positional numerals end: numbers from `10 ^ (-4)` up to, but not including, `10 ^ 16` are
written without an exponent. -/
def positional (top : Int) : Bool := -4 ≤ top && top < 16

/-- An exponent with its sign and at least two digits. -/
def exponentText (e : Int) : Text :=
  let digits := Text.ofNat e.natAbs
  (if e < 0 then "-" else "+") ++ List.replicate (2 - digits.length) '0' ++ digits

/-- The shortest numeral of a number; a whole number ends in `.0`. -/
def toText : Binary64 → Text
  | .undefined => "nan"
  | .infinite negative => sign negative ++ "inf"
  | .finite negative 0 _ => sign negative ++ "0.0"
  | .finite negative m q =>
    let (d, k) := shortestDigits m q
    let digits := Text.ofNat d
    let top : Int := digits.length - 1 + k
    sign negative ++
      if positional top then
        if 0 ≤ k then digits ++ List.replicate k.toNat '0' ++ ".0"
        else if 0 ≤ top then
          digits.take (top + 1).toNat ++ "." ++ digits.drop (top + 1).toNat
        else "0." ++ List.replicate (-top - 1).toNat '0' ++ digits
      else
        let mantissa := match digits with
          | [d] => [d]
          | d :: ds => d :: '.' :: ds
          | [] => []
        mantissa ++ "e" ++ exponentText top

end SkinCompiler.Binary64
