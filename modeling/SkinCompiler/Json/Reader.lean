import SkinCompiler.Json.Basic

/-!
# Reading JSON

A reader for JSON texts that says what is wrong with a text and where.  An object that repeats a
key keeps the last value at the place of the first one.
-/

namespace SkinCompiler.Json

/-- What is wrong with a JSON text. -/
inductive Defect where
  /-- There is no value where one is due. -/
  | value
  /-- There is no key where one is due. -/
  | key
  /-- No colon follows a key. -/
  | colon
  /-- No comma follows an item. -/
  | comma
  /-- A string has no end. -/
  | unterminated
  /-- A control character stands in a string. -/
  | control
  /-- A backslash stands before a character that it does not escape. -/
  | escape
  /-- An escape lacks hexadecimal digits. -/
  | unicodeEscape
  /-- Something follows the value. -/
  | extra
  /-- The text begins with a byte order mark. -/
  | byteOrderMark
  deriving DecidableEq

/-- The words for a defect. -/
def Defect.message : Defect → Text
  | .value => "Expecting value"
  | .key => "Expecting property name enclosed in double quotes"
  | .colon => "Expecting ':' delimiter"
  | .comma => "Expecting ',' delimiter"
  | .unterminated => "Unterminated string starting at"
  | .control => "Invalid control character at"
  | .escape => "Invalid \\escape"
  | .unicodeEscape => "Invalid \\uXXXX escape"
  | .extra => "Extra data"
  | .byteOrderMark => "Unexpected UTF-8 BOM (decode using utf-8-sig)"

/-- A defect and its position. -/
structure Malformed where
  /-- What is wrong. -/
  defect : Defect
  /-- Where it is wrong. -/
  position : Nat

/-- The text of a defect with its line, column and position. -/
def Malformed.message (m : Malformed) (source : Text) : Text :=
  let before := source.take m.position
  let column := (before.reverse.takeWhile (· != '\n')).length + 1
  m.defect.message ++ ": line " ++ Text.ofNat (before.count '\n' + 1) ++ " column "
    ++ Text.ofNat column ++ " (char " ++ Text.ofNat m.position ++ ")"

/-- What a reader gives: a result, the text after it and the position of that. -/
abbrev Read (α : Type) := Except Malformed (α × Text × Nat)

/-- Blanks between the parts of a JSON text. -/
def isSpace (c : Char) : Bool := c == ' ' || c == '\t' || c == '\n' || c == '\r'

/-- Pass over blanks. -/
def skip (t : Text) (position : Nat) : Text × Nat :=
  (t.dropWhile isSpace, position + (t.takeWhile isSpace).length)

/-! ## Strings -/

/-- The value of a hexadecimal digit. -/
def hexValue (c : Char) : Nat :=
  if '0' ≤ c && c ≤ '9' then c.toNat - 48
  else if 'a' ≤ c && c ≤ 'f' then c.toNat - 87
  else c.toNat - 55

/-- The unit that four hexadecimal digits denote. -/
def unit? (t : Text) : Option Nat :=
  let digits := t.take 4
  if digits.length == 4 && digits.all Text.isHexDigit then
    some (digits.foldl (fun n c => 16 * n + hexValue c) 0)
  else none

/-- The character after a backslash. -/
def shortEscape? (c : Char) : Option Char :=
  if c == '"' || c == '\\' || c == '/' then some c
  else if c == 'b' then some '\x08'
  else if c == 'f' then some '\x0c'
  else if c == 'n' then some '\n'
  else if c == 'r' then some '\r'
  else if c == 't' then some '\t'
  else none

/-- The rest of a string that began at position `start`; `done` holds its characters so far, the
last one first.  A unit that has no partner stands for the replacement character. -/
def readString (start : Nat) : (fuel : Nat) → (done : Text) → Text → (position : Nat) → Read Text
  | 0, _, _, _ => .error ⟨.unterminated, start⟩
  | fuel + 1, done, t, position =>
    match t with
    | [] => .error ⟨.unterminated, start⟩
    | '"' :: t => .ok (done.reverse, t, position + 1)
    | ['\\'] => .error ⟨.unterminated, start⟩
    | '\\' :: 'u' :: t =>
      if t.length ≤ 4 then .error ⟨.unicodeEscape, position + 1⟩
      else match unit? t with
        | none => .error ⟨.unicodeEscape, position + 1⟩
        | some high =>
          let t := t.drop 4
          let single := readString start fuel (Char.ofNat
            (if 0xD800 ≤ high && high < 0xE000 then 0xFFFD else high) :: done) t (position + 6)
          if 0xD800 ≤ high && high < 0xDC00 && 6 < t.length then
            match t with
            | '\\' :: 'u' :: u =>
              match unit? u with
              | none => .error ⟨.unicodeEscape, position + 7⟩
              | some low =>
                if 0xDC00 ≤ low && low < 0xE000 then
                  readString start fuel
                    (Char.ofNat (0x10000 + (high - 0xD800) * 0x400 + (low - 0xDC00)) :: done)
                    (u.drop 4) (position + 12)
                else single
            | _ => single
          else single
    | '\\' :: c :: t =>
      match shortEscape? c with
      | some d => readString start fuel (d :: done) t (position + 2)
      | none => .error ⟨.escape, position⟩
    | c :: t =>
      if c.toNat < 32 then .error ⟨.control, position⟩
      else readString start fuel (c :: done) t (position + 1)

/-! ## Numbers -/

/-- The lengths of the whole part with its sign, of the places with their point, and of the
exponent of the number at the front of a text. -/
def numberParts (t : Text) : Option (Nat × Nat × Nat) :=
  let digits (t : Text) : Nat := (t.takeWhile Text.isAsciiDigit).length
  let (minus, u) := match t with
    | '-' :: u => (1, u)
    | u => (0, u)
  let units := match u with
    | '0' :: _ => 1
    | u => digits u
  if units == 0 then none
  else
    let u := u.drop units
    let places := match u with
      | '.' :: u => if digits u == 0 then 0 else 1 + digits u
      | _ => 0
    let u := u.drop places
    let power := match u with
      | e :: u =>
        if e == 'e' || e == 'E' then
          match u with
          | s :: v =>
            if s == '+' || s == '-' then (if digits v == 0 then 0 else 2 + digits v)
            else if digits u == 0 then 0 else 1 + digits u
          | [] => 0
        else 0
      | [] => 0
    some (minus + units, places, power)

/-- The number at the front of a text, with its length. -/
def number? (t : Text) : Option (Json × Nat) :=
  match numberParts t with
  | none => none
  | some (units, places, power) =>
    let length := units + places + power
    if places == 0 && power == 0 then
      let n := Text.decimalNumber ((t.take units).filter Text.isAsciiDigit)
      some (.whole (if t.head? == some '-' then -(n : Int) else n), length)
    else some (.fractional (Binary64.ofNumeral (t.take length)), length)

/-- Words that are values. -/
def wordValues : List (Text × Json) := [
  ("null", .null), ("true", .bool true), ("false", .bool false),
  ("NaN", .fractional .undefined), ("Infinity", .fractional (.infinite false)),
  ("-Infinity", .fractional (.infinite true))]

/-! ## Values -/

mutual

/-- The value at the front of a text. -/
def readValue : (fuel : Nat) → Text → (position : Nat) → Read Json
  | 0, _, position => .error ⟨.value, position⟩
  | fuel + 1, t, position =>
    match t with
    | '"' :: u =>
      match readString position (u.length + 1) [] u (position + 1) with
      | .ok (s, rest) => .ok (.text s, rest)
      | .error e => .error e
    | '\x7b' :: u =>
      let (u, p) := skip u (position + 1)
      match u with
      | '\x7d' :: u => .ok (.object [], u, p + 1)
      | _ => readEntries fuel [] u p
    | '[' :: u =>
      let (u, p) := skip u (position + 1)
      match u with
      | ']' :: u => .ok (.array [], u, p + 1)
      | _ => readItems fuel [] u p
    | _ =>
      match wordValues.find? fun (word, _) => Text.startsWith t word with
      | some (word, v) => .ok (v, t.drop word.length, position + word.length)
      | none =>
        match number? t with
        | some (v, length) => .ok (v, t.drop length, position + length)
        | none => .error ⟨.value, position⟩

/-- The items of an array from the next one on; `done` are those before, the last one first. -/
def readItems : (fuel : Nat) → (done : List Json) → Text → (position : Nat) → Read Json
  | 0, _, _, position => .error ⟨.value, position⟩
  | fuel + 1, done, t, position =>
    match readValue fuel t position with
    | .error e => .error e
    | .ok (v, t, p) =>
      let (t, p) := skip t p
      match t with
      | ']' :: t => .ok (.array (v :: done).reverse, t, p + 1)
      | ',' :: t =>
        let (t, p) := skip t (p + 1)
        readItems fuel (v :: done) t p
      | _ => .error ⟨.comma, p⟩

/-- The entries of an object from the next one on; `done` are those before. -/
def readEntries : (fuel : Nat) → (done : Table Json) → Text → (position : Nat) → Read Json
  | 0, _, _, position => .error ⟨.key, position⟩
  | fuel + 1, done, t, position =>
    match t with
    | '"' :: u =>
      match readString position (u.length + 1) [] u (position + 1) with
      | .error e => .error e
      | .ok (key, t, p) =>
        let (t, p) := skip t p
        match t with
        | ':' :: t =>
          let (t, p) := skip t (p + 1)
          match readValue fuel t p with
          | .error e => .error e
          | .ok (v, t, p) =>
            let done := Table.set key v done
            let (t, p) := skip t p
            match t with
            | '\x7d' :: t => .ok (.object done, t, p + 1)
            | ',' :: t =>
              let (t, p) := skip t (p + 1)
              readEntries fuel done t p
            | _ => .error ⟨.comma, p⟩
        | _ => .error ⟨.colon, p⟩
    | _ => .error ⟨.key, position⟩

end

/-- Read a whole text as one value. -/
def read (source : Text) : Except Malformed Json :=
  if source.head? == some '\uFEFF' then .error ⟨.byteOrderMark, 0⟩
  else
    let (t, p) := skip source 0
    match readValue (source.length + 1) t p with
    | .error e => .error e
    | .ok (v, t, p) =>
      let (t, p) := skip t p
      if t.isEmpty then .ok v else .error ⟨.extra, p⟩

end SkinCompiler.Json
