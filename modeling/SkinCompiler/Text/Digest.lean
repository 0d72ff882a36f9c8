import SkinCompiler.Text.Basic

/-!
# Digest

The SHA-1 digest of a text's UTF-8 form, used to tell apart the class names of equal style keys.
Words are natural numbers of thirty-two bits.
-/

namespace SkinCompiler.Text.Digest

/-- The UTF-8 form of a character. -/
def utf8 (c : Char) : List Nat :=
  let n := c.toNat
  if n < 0x80 then [n]
  else if n < 0x800 then [0xC0 + n / 64, 0x80 + n % 64]
  else if n < 0x10000 then [0xE0 + n / 4096, 0x80 + n / 64 % 64, 0x80 + n % 64]
  else [0xF0 + n / 262144, 0x80 + n / 4096 % 64, 0x80 + n / 64 % 64, 0x80 + n % 64]

/-- The last `count` bytes of a number, the highest first. -/
def bytes : (count n : Nat) → List Nat
  | 0, _ => []
  | count + 1, n => bytes count (n / 256) ++ [n % 256]

/-- The message with its mark, its filling of zeros and its length in bits, so that the whole
length is a multiple of 64 bytes. -/
def padded (message : List Nat) : List Nat :=
  let filling := (119 - message.length % 64) % 64
  message ++ 0x80 :: List.replicate filling 0 ++ bytes 8 (8 * message.length)

/-- How many words there are. -/
def wordCount : Nat := 0x100000000

/-- A word turned left by `k` places. -/
def turn (k n : Nat) : Nat := (n <<< k) % wordCount ||| n >>> (32 - k)

/-- Four bytes at a time, as words. -/
def toWords : List Nat → List Nat
  | a :: b :: c :: d :: rest => (((a * 256 + b) * 256 + c) * 256 + d) :: toWords rest
  | _ => []

/-- The eighty words of a block.  `latest` holds the words so far, the last one first. -/
def schedule : (more : Nat) → (latest : List Nat) → List Nat
  | 0, latest => latest.reverse
  | more + 1, latest =>
    let next := turn 1 (latest.getD 2 0 ^^^ latest.getD 7 0 ^^^ latest.getD 13 0
      ^^^ latest.getD 15 0)
    schedule more (next :: latest)

/-- The five words that a digest consists of. -/
structure State where
  a : Nat
  b : Nat
  c : Nat
  d : Nat
  e : Nat

/-- The state before the first block. -/
def start : State := ⟨0x67452301, 0xEFCDAB89, 0x98BADCFE, 0x10325476, 0xC3D2E1F0⟩

/-- The mixing function and the constant of round `i`. -/
def mix (i : Nat) (b c d : Nat) : Nat × Nat :=
  if i < 20 then ((b &&& c) ||| ((wordCount - 1 - b) &&& d), 0x5A827999)
  else if i < 40 then (b ^^^ c ^^^ d, 0x6ED9EBA1)
  else if i < 60 then ((b &&& c) ||| (b &&& d) ||| (c &&& d), 0x8F1BBCDC)
  else (b ^^^ c ^^^ d, 0xCA62C1D6)

/-- One round. -/
def step (s : State) (i word : Nat) : State :=
  let (f, k) := mix i s.b s.c s.d
  ⟨(turn 5 s.a + f + s.e + k + word) % wordCount, s.a, turn 30 s.b, s.c, s.d⟩

/-- The rounds from round `i` on. -/
def rounds (s : State) (i : Nat) : List Nat → State
  | [] => s
  | word :: rest => rounds (step s i word) (i + 1) rest

/-- The state after a block of sixteen words. -/
def block (s : State) (words : List Nat) : State :=
  let t := rounds s 0 (schedule 64 words.reverse)
  ⟨(s.a + t.a) % wordCount, (s.b + t.b) % wordCount, (s.c + t.c) % wordCount,
    (s.d + t.d) % wordCount, (s.e + t.e) % wordCount⟩

/-- All blocks of sixteen words; `count` is their number. -/
def blocks (s : State) : (count : Nat) → List Nat → State
  | 0, _ => s
  | count + 1, words => blocks (block s (words.take 16)) count (words.drop 16)

/-- The first digits of the digest, in base sixteen. -/
def ofText (t : Text) (digits : Nat) : Text :=
  let words := toWords (padded (t.flatMap utf8))
  let s := blocks start (words.length / 16) words
  let digit n := (Nat.toDigits 16 n).headD '0'
  ([s.a, s.b, s.c, s.d, s.e].flatMap fun w =>
    (bytes 4 w).flatMap fun n => [digit (n / 16), digit (n % 16)]).take digits

end SkinCompiler.Text.Digest
