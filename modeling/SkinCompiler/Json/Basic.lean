import SkinCompiler.Number.Shortest
import SkinCompiler.Table
import SkinCompiler.Text.Quoted

/-!
# JSON values

Values whose objects keep their entries in order, their texts in strings, and how a value is shown
inside a message.
-/

namespace SkinCompiler

/-- A JSON value. -/
inductive Json where
  /-- The null value. -/
  | null
  /-- A truth value. -/
  | bool (b : Bool)
  /-- A number written without point and exponent. -/
  | whole (n : Int)
  /-- Any other number. -/
  | fractional (x : Binary64)
  /-- A string. -/
  | text (t : Text)
  /-- An array. -/
  | array (items : List Json)
  /-- An object; no key stands twice. -/
  | object (entries : List (Text × Json))

instance : Inhabited Json := ⟨.null⟩

namespace Json

/-- The value of an entry of an object. -/
def get? (key : Text) : Json → Option Json
  | .object entries => Table.get? key entries
  | _ => none

/-- Null, false, zero, and whatever holds nothing. -/
def isEmpty : Json → Bool
  | .null => true
  | .bool b => !b
  | .whole n => n == 0
  | .fractional x => x.isZero
  | .text t => t.isEmpty
  | .array items => items.isEmpty
  | .object entries => entries.isEmpty

mutual

/-- A value as a message shows it. -/
def shown : Json → Text
  | .null => "None"
  | .bool true => "True"
  | .bool false => "False"
  | .whole n => Text.ofInt n
  | .fractional x => x.toText
  | .text t => Text.quoted t
  | .array items => "[" ++ Text.join ", " (shownItems items) ++ "]"
  | .object entries => "\x7b" ++ Text.join ", " (shownEntries entries) ++ "\x7d"

/-- The items of an array as a message shows them. -/
def shownItems : List Json → List Text
  | [] => []
  | v :: vs => shown v :: shownItems vs

/-- The entries of an object as a message shows them. -/
def shownEntries : List (Text × Json) → List Text
  | [] => []
  | (k, v) :: es => (Text.quoted k ++ ": " ++ shown v) :: shownEntries es

end

/-- A text as it is, and any other value as a message shows it. -/
def asText : Json → Text
  | .text t => t
  | v => v.shown

/-! ## Writing strings -/

/-- The sixteen-bit units of a character, each escaped. -/
def escapeUnits (c : Char) : Text :=
  let n := c.toNat
  if n < 0x10000 then "\\u" ++ Text.hex 4 n
  else
    let m := n - 0x10000
    "\\u" ++ Text.hex 4 (0xD800 + m / 0x400) ++ "\\u" ++ Text.hex 4 (0xDC00 + m % 0x400)

/-- A character inside a string: quotes, backslashes and everything outside printable ASCII are
escaped. -/
def escapeChar (c : Char) : Text :=
  if c == '"' then "\\\""
  else if c == '\\' then "\\\\"
  else if c == '\n' then "\\n"
  else if c == '\r' then "\\r"
  else if c == '\t' then "\\t"
  else if c == '\x0c' then "\\f"
  else if c == '\x08' then "\\b"
  else if 32 ≤ c.toNat && c.toNat ≤ 126 then [c]
  else escapeUnits c

/-- The JSON string of a text. -/
def textLiteral (t : Text) : Text := '"' :: t.flatMap escapeChar ++ ['"']

mutual

/-- The JSON text of a value, without blanks. -/
def write : Json → Text
  | .null => "null"
  | .bool true => "true"
  | .bool false => "false"
  | .whole n => Text.ofInt n
  | .fractional x => x.toText
  | .text t => textLiteral t
  | .array items => "[" ++ Text.join "," (writeItems items) ++ "]"
  | .object entries => "\x7b" ++ Text.join "," (writeEntries entries) ++ "\x7d"

/-- The JSON texts of the items of an array. -/
def writeItems : List Json → List Text
  | [] => []
  | v :: vs => write v :: writeItems vs

/-- The JSON texts of the entries of an object. -/
def writeEntries : List (Text × Json) → List Text
  | [] => []
  | (k, v) :: es => (textLiteral k ++ ":" ++ write v) :: writeEntries es

end

end Json

end SkinCompiler
