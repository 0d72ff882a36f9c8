import SkinCompiler.Candidate.Reader
import SkinCompiler.Style.Theme

/-!
# Values of declarations

What the value of a utility stands for: a size on the scale of spacing, a fraction, a colour with an
opacity, or the text of an arbitrary value.
-/

namespace SkinCompiler.Style

/-! ## Numbers -/

/-- The number that digits with an optional point denote; a line feed may follow. -/
def number? (t : Text) : Option Binary64 :=
  let t := Text.chomp t
  let (whole, rest) := t.span Text.isDecimal
  match whole, rest with
  | [], _ => none
  | _, [] => some (.ofNumeral t)
  | _, c :: places =>
    if c == '.' && !places.isEmpty && places.all Text.isDecimal then some (.ofNumeral t) else none

/-- The text is a number. -/
def isNumber (t : Text) : Bool := (number? t).isSome

/-- The two numbers around a slash; a line feed may follow. -/
def fraction? (t : Text) : Option (Binary64 × Binary64) :=
  match Text.cut '/' (Text.chomp t) with
  | [a, b] =>
    if !a.isEmpty && !b.isEmpty && a.all Text.isDecimal && b.all Text.isDecimal then
      some (.ofNumeral a, .ofNumeral b)
    else none
  | _ => none

/-- A number with at most four places after the point, and none that are not needed. -/
def numeral (x : Binary64) : Text :=
  let t := Text.trimRight (· == '.') (Text.trimRight (· == '0') (x.toFixed 4))
  if t = "-0".toList then ['0'] else t

/-- A quotient in percent, unless the divisor is zero. -/
def percent? (a b : Binary64) : Option Text :=
  if b.isZero then none else some (numeral ((a.div b).mul (.ofNat 100)) ++ "%")

/-- The opposite of a size. -/
def opposite (t : Text) : Text :=
  if t = ['0'] || t = "0px".toList || t = "auto".toList then t
  else match t with
    | '-' :: rest => rest
    | c :: rest =>
      if Text.isDigit c || c == '.' then '-' :: c :: rest else "calc(" ++ c :: rest ++ " * -1)"
    | [] => "calc( * -1)"

/-! ## Values -/

/-- The text of an arbitrary value; the addresses of resources keep their low lines. -/
def arbitraryText (d : Arbitrary.Decoded) : Text :=
  if Text.startsWith d.value "url(" then d.value else Arbitrary.underscoresToSpaces d.value

/-- A text that is not empty. -/
def present (t : Option Text) : Option Text := t.filter (!·.isEmpty)

/-- A value looked up in a scale; arbitrary values stand for themselves. -/
def scaled? (scale : Table Text) : Value → Option Text
  | .arbitrary d => some (arbitraryText d)
  | .named name _ => Table.get? name scale

/-- A named value on the scale of spacing: a keyword, a pixel, a fraction, or a number of steps in
quarters. -/
def namedSpacing? (theme : Theme) (keywords : Table Text) (name : Text) (fraction : Option Text) :
    Option Text :=
  match Table.get? name keywords with
  | some t => some t
  | none =>
    if name = "px".toList then some "1px"
    else match fraction? ((present fraction).getD name) with
      | some (a, b) => percent? a b
      | none => match number? name with
        | none => none
        | some x =>
          if !(x.mul (.ofNat 4)).isWhole then none
          else if x.isZero then some "0px"
          else some (numeral (x.mul theme.spacing) ++ "rem")

/-- A value on the scale of spacing. -/
def spacing? (theme : Theme) (keywords : Table Text) : Value → Option Text
  | .arbitrary d => some (arbitraryText d)
  | .named name fraction => namedSpacing? theme keywords name fraction

/-- The value is a length, or a number that counts as one. -/
def isLength : Value → Bool
  | .arbitrary d =>
    d.dataType.any fun t => (["length", "percentage", "number"] : List Text).contains t
  | .named name _ => isNumber name

/-- The text of a length; a named one is given a unit. -/
def lengthText (unit : Text) : Value → Text
  | .arbitrary d => arbitraryText d
  | .named name _ => name ++ unit

/-! ## Colours -/

/-- The opacity that a modifier stands for.  An arbitrary number up to one is a part of the whole;
every other number is in percent. -/
def opacity? : Modifier → Option Text
  | .arbitrary t =>
    if t.getLast? = some '%' then some t
    else match number? t with
      | some x => some (numeral (if x.atMost 1 then x.mul (.ofNat 100) else x) ++ "%")
      | none => some t
  | .named t | .other t => (number? t).map fun x => numeral x ++ "%"

/-- The colour that a value stands for, without its opacity. -/
def plainColor? (theme : Theme) : Value → Option Text
  | .arbitrary d =>
    if d.dataType.all fun t => (["color", "custom-property"] : List Text).contains t then
      some (arbitraryText d)
    else none
  | .named name _ => theme.color? name

/-- The colour that a value stands for, with the opacity of a modifier mixed in. -/
def color? (theme : Theme) (value : Value) (modifier : Option Modifier) : Option Text :=
  match plainColor? theme value with
  | none => none
  | some color => match modifier.bind opacity? with
    | none => present color
    | some alpha =>
      if color = "transparent".toList || color = "inherit".toList then some color
      else some ("color-mix(in oklab, " ++ color ++ " " ++ alpha ++ ", transparent)")

end SkinCompiler.Style
