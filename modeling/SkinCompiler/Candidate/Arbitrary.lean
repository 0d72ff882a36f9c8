import SkinCompiler.Candidate.Segment
import SkinCompiler.Text.LetterCase

/-!
# Arbitrary values

The text between the brackets of `w-[3px]`: how it is decoded, which kind of value it looks like,
and whether that kind suits the place where it stands.
-/

namespace SkinCompiler.Arbitrary

/-- A decoded value with its type: the one its hint names, or else the one it looks like. -/
structure Decoded where
  /-- The value. -/
  value : Text
  /-- Its type. -/
  dataType : Option Text
  deriving DecidableEq

/-- The types that a hint can name, as in `text-[length:1rem]`. -/
def typeHints : List Text := [
  "length", "percentage", "number", "integer", "color", "url", "image", "position", "size",
  "family-name", "line-width", "shadow", "angle", "absolute-size", "relative-size", "vector"]

/-! ## Looking at a value -/

/-- The rest after a numeral with an optional sign and an optional point. -/
def afterNumeral? (t : Text) : Option Text :=
  let t := (Text.after? ['-'] t).getD t
  let (whole, rest) := t.span Text.isDecimal
  match whole, rest with
  | [], '.' :: d :: rest =>
    if Text.isDecimal d then some (rest.dropWhile Text.isDecimal) else none
  | [], _ => none
  | _, '.' :: rest => some (rest.dropWhile Text.isDecimal)
  | _, rest => some rest

/-- The units of lengths. -/
def lengthUnits : List Text := [
  "px", "rem", "em", "vh", "vw", "vmin", "vmax", "dvh", "dvw", "svh", "lvh", "ch", "ex", "lh",
  "cqw", "cqh", "cqi", "cqb", "pt", "pc", "cm", "mm", "in", "fr"]

/-- The functions that compute a length. -/
def mathFunctions : List Text := ["calc(", "min(", "max(", "clamp("]

/-- The functions that make a colour. -/
def colorFunctions : List Text := [
  "rgb(", "rgba(", "hsl(", "hsla(", "hwb(", "lab(", "lch(", "oklab(", "oklch(", "color(",
  "color-mix("]

/-- The colours known by a name of their own. -/
def colorNames : List Text := [
  "transparent", "currentcolor", "black", "white", "red", "green", "blue", "yellow", "orange",
  "purple", "pink", "gray", "grey", "silver", "navy", "teal", "aqua", "lime", "maroon", "olive",
  "fuchsia", "inherit"]

/-- The functions that make an image. -/
def imageFunctions : List Text := [
  "linear-gradient(", "radial-gradient(", "conic-gradient(", "repeating-linear-gradient(",
  "repeating-radial-gradient(", "repeating-conic-gradient(", "image-set(", "image("]

/-- The characters with which a selector begins. -/
def selectorStarts : List Char := [':', '.', '#', '>', '~', '+', '[', '@', '*']

/-- A colour written as a number sign and 3, 4, 6 or 8 hexadecimal digits. -/
def isHexColor : Text → Bool
  | '#' :: digits => [3, 4, 6, 8].contains digits.length && digits.all Text.isHexDigit
  | _ => false

/-- The type that a value without blanks at its ends looks like. -/
def classifyStripped (t : Text) : Option Text :=
  if t.isEmpty then none
  else if Text.startsWithAny t ["var(", "--"] then some "custom-property"
  else
    let unit := afterNumeral? t
    if unit = some [] then some "number"
    else if unit = some ['%'] then some "percentage"
    else if (unit.any fun u => lengthUnits.contains u) || Text.startsWithAny t mathFunctions then
      some "length"
    else if isHexColor t || Text.startsWithAny t colorFunctions
        || colorNames.contains (Text.toLower t) then some "color"
    else if Text.startsWith t "url(" then some "url"
    else if Text.startsWithAny t imageFunctions then some "image"
    else if t.contains '&' || (t.head?.any fun c => selectorStarts.contains c) then some "selector"
    else none

/-- The type that a value looks like, if it looks like any. -/
def classify (t : Text) : Option Text := classifyStripped (Text.strip t)

/-! ## Decoding -/

/-- The value of a hexadecimal digit. -/
def hexValue (c : Char) : Nat :=
  if Text.isAsciiDigit c then c.toNat - 48 else if c.toNat < 97 then c.toNat - 55 else c.toNat - 87

/-- Every percent sign with two hexadecimal digits becomes the character with that number. -/
def unescape : Text → Text
  | '%' :: a :: b :: t =>
    if Text.isHexDigit a && Text.isHexDigit b then
      Char.ofNat (16 * hexValue a + hexValue b) :: unescape t
    else '%' :: unescape (a :: b :: t)
  | c :: t => c :: unescape t
  | [] => []

/-- The type hint before the first colon and the value after it. -/
def hinted? (raw : Text) : Option (Text × Text) :=
  match Text.halves? ":" raw with
  | some (hint, value) =>
    if typeHints.contains hint && !value.isEmpty then some (hint, value) else none
  | none => none

/-- Decode the text between brackets; nothing comes of a blank or unbalanced one. -/
def decode (raw : Text) : Option Decoded :=
  if Text.isBlankText raw || !Text.isBalanced raw then none
  else match hinted? raw with
    | some (hint, value) => some ⟨unescape value, some hint⟩
    | none => some ⟨unescape raw, classify (unescape raw)⟩

/-- Low lines become spaces, but for those after a backslash, which loses its place to them. -/
def underscoresToSpaces : Text → Text
  | '\\' :: '_' :: t => '_' :: underscoresToSpaces t
  | c :: t => (if c == '_' then ' ' else c) :: underscoresToSpaces t
  | [] => []

/-! ## Checking -/

/-- The types that pass where `expected` is wanted. -/
def accepted (expected : Text) : List Text :=
  if expected = "length" then ["length", "percentage", "number"]
  else if expected = "integer" then ["number"]
  else if expected = "image" then ["image", "url"]
  else [expected]

/-- What a check against a type comes to. -/
inductive Verdict where
  /-- The value looks like an accepted type. -/
  | fits
  /-- Nothing is known about the value, so it passes. -/
  | unverified
  /-- The value looks like another type. -/
  | unfit
  deriving DecidableEq

/-- Check a value against the type that is expected of it. -/
def check (value expected : Text) : Verdict :=
  match classify value with
  | none => .unverified
  | some type =>
    if type = "custom-property" then .unverified
    else if (accepted expected).contains type then .fits
    else .unfit

/-- The value passes where the type is expected. -/
def isValid (value expected : Text) : Bool := check value expected != .unfit

end SkinCompiler.Arbitrary
