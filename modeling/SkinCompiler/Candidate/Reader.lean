import SkinCompiler.Candidate.Basic
import SkinCompiler.Candidate.DesignSystem
import SkinCompiler.Text.Line

/-!
# Reading class tokens

Variants come first, each with a colon after it, then the utility.  Where a token can be cut into a
root and a value at several hyphens, the longest root that works is taken.  Whatever makes no sense
is no candidate.
-/

namespace SkinCompiler

/-! ## Names -/

/-- ASCII letters and digits, the point, the low line and the percent sign. -/
def isNameChar (c : Char) : Bool :=
  Text.isAsciiLetter c || Text.isAsciiDigit c || c == '.' || c == '_' || c == '%'

/-- The text between an opening and a closing bracket at its ends. -/
def between? (opening closing : Char) : Text → Option Text
  | [] => none
  | c :: t =>
    if c == opening && t.getLast? == some closing then some t.dropLast else none

/-- A row of decimal digits; a line feed may follow. -/
def isInteger (t : Text) : Bool :=
  let t := Text.chomp t
  !t.isEmpty && t.all Text.isDecimal

/-- Named values: words with single hyphens between them; a line feed may follow. -/
def isValueName (t : Text) : Bool :=
  (Text.cut '-' (Text.chomp t)).all fun word => !word.isEmpty && word.all isNameChar

/-- Named modifiers: letters, digits, points, low lines and hyphens; a line feed may follow. -/
def isModifierName (t : Text) : Bool :=
  let t := Text.chomp t
  !t.isEmpty && t.all fun c =>
    Text.isAsciiLetter c || Text.isAsciiDigit c || c == '.' || c == '_' || c == '-'

/-- Property names: custom properties after two hyphens, and small letters and hyphens, of which at
most one stands in front; a line feed may follow. -/
def isPropertyName (t : Text) : Bool :=
  let t := Text.chomp t
  let custom := match Text.after? "--" t with
    | some name => !name.isEmpty && name.all fun c =>
      Text.isAsciiLetter c || Text.isAsciiDigit c || c == '_' || c == '-'
    | none => false
  let plain := match (Text.after? ['-'] t).getD t with
    | c :: name => Text.isAsciiLower c && name.all fun c => Text.isAsciiLower c || c == '-'
    | [] => false
  custom || plain

/-! ## Values and modifiers -/

/-- The reference to a custom property. -/
def customProperty (name : Text) : Text := "var(" ++ name ++ ")"

/-- Read a value: in brackets, in parentheses as the name of a custom property, or a name. -/
def Value.read? (raw : Text) : Option Value :=
  match between? '[' ']' raw, between? '(' ')' raw with
  | some inner, _ => (Arbitrary.decode inner).map .arbitrary
  | none, some inner =>
    if Text.startsWith inner "--" && 3 ≤ inner.length then
      some (.arbitrary ⟨customProperty inner, some "custom-property"⟩)
    else none
  | none, none => if isValueName raw then some (.named raw none) else none

/-- Read a modifier, in the same three forms. -/
def Modifier.read? (raw : Text) : Option Modifier :=
  match between? '[' ']' raw, between? '(' ')' raw with
  | some inner, _ => (Arbitrary.decode inner).map fun d => .arbitrary d.value
  | none, some inner =>
    if Text.startsWith inner "--" then some (.arbitrary (customProperty inner)) else none
  | none, none => if isModifierName raw then some (.named raw) else none

/-- Take the modifier off a text; there is at most one, and nothing around the slash is empty. -/
def splitModifier? (t : Text) : Option (Text × Option Modifier) :=
  match Text.segments ['/'] t with
  | [_] => some (t, none)
  | [base, modifier] =>
    if base.isEmpty || modifier.isEmpty then none
    else (Modifier.read? modifier).map fun m => (base, some m)
  | _ => none

/-- The ways to cut a text in two at a hyphen outside brackets, the longest first part first.
`before` is the part already passed, last character first. -/
def hyphenCutsAfter (before : Text) (depth : Int) : Text → List (Text × Text)
  | [] => []
  | c :: t =>
    if c == '[' || c == '(' then hyphenCutsAfter (c :: before) (depth + 1) t
    else if c == ']' || c == ')' then hyphenCutsAfter (c :: before) (depth - 1) t
    else
      let later := hyphenCutsAfter (c :: before) depth t
      if c == '-' && depth == 0 && !before.isEmpty && !t.isEmpty then
        later ++ [(before.reverse, t)]
      else later

/-- The ways to cut a text in two at a hyphen outside brackets, the longest first part first. -/
def hyphenCuts (t : Text) : List (Text × Text) := hyphenCutsAfter [] 0 t

/-! ## Variants -/

/-- Read a variant of which no more than `depth - 1` variants stand around another one. -/
def Variant.readWithin (d : DesignSystem) : (depth : Nat) → Text → Option Variant
  | 0, _ => none
  | depth + 1, raw =>
    if raw.isEmpty || !Text.isBalanced raw then none
    else match between? '[' ']' raw with
      | some selector =>
        if selector.contains '&' || Text.startsWith selector ['@'] then some (.arbitrary selector)
        else none
      | none =>
        if d.staticVariants.contains raw then some (.static raw)
        else match splitModifier? raw with
          | none => none
          | some (base, modifier) =>
            if Text.startsWith base ['@'] && d.variantKind base = .functional then
              (Value.read? (base.drop 1)).map fun v => .functional ['@'] v modifier
            else (hyphenCuts base).findSome? fun (root, rest) =>
              if d.compoundVariants.contains root then
                (Variant.readWithin d depth rest).map fun v => .compound root v modifier
              else if d.functionalVariants.contains root then
                (Value.read? rest).map fun v => .functional root v modifier
              else none

/-- Read a variant. -/
def Variant.read? (d : DesignSystem) (raw : Text) : Option Variant :=
  Variant.readWithin d (raw.length + 1) raw

/-! ## Utilities -/

/-- Read the inside of a declaration in brackets. -/
def readProperty? (inner : Text) (modifier : Option Modifier) : Option Utility :=
  match Text.segments [':'] inner with
  | name :: first :: rest =>
    let value := Text.join ":" (first :: rest)
    if isPropertyName name && !value.isEmpty then
      (Arbitrary.decode value).map fun content => .property name content modifier
    else none
  | _ => none

/-- A utility with a value.  A whole number as value and one as modifier make a fraction. -/
def Utility.ofParts (root : Text) : Value → Option Modifier → Utility
  | .named n fraction, some (.named m) =>
    if isInteger n && isInteger m then
      let fraction := n ++ "/" ++ m
      .functional root (.named fraction (some fraction)) none
    else .functional root (.named n fraction) (some (.named m))
  | value, modifier => .functional root value modifier

/-- Read a utility without its marks. -/
def Utility.read? (d : DesignSystem) (t : Text) : Option Utility :=
  match splitModifier? t with
  | none => none
  | some (base, modifier) =>
    match between? '[' ']' base with
    | some inner => readProperty? inner modifier
    | none =>
      if d.staticUtilities.contains base
          && (modifier.isNone || d.takesModifier base) then
        some (.static base modifier)
      else (hyphenCuts base).findSome? fun (root, rest) =>
        if d.functionalUtilities.contains root then
          (Value.read? rest).map fun value => Utility.ofParts root value modifier
        else none

/-! ## Candidates -/

/-- Take a mark off the front of a text, if it is there. -/
def takeMark (mark : Char) (t : Text) : Bool × Text :=
  match Text.after? [mark] t with
  | some rest => (true, rest)
  | none => (false, t)

/-- Take the mark of importance off either end of a text. -/
def takeImportance (t : Text) : Bool × Text :=
  match takeMark '!' t with
  | (true, rest) => (true, rest)
  | (false, _) => if t.getLast? = some '!' then (true, t.dropLast) else (false, t)

/-- Read a class token.  The marks `!` and `-` may stand in front of the token or of its utility,
and `!` also at the end. -/
def Candidate.read? (d : DesignSystem) (raw : Text) : Option Candidate :=
  if !Text.isBalanced raw then none
  else
    let (important, t) := takeMark '!' raw
    let (negative, t) := takeMark '-' t
    let parts := Text.segments [':'] t
    if parts.any (·.isEmpty) then none
    else
      let (important', last) := takeImportance (parts.getLastD [])
      let (negative', last) := takeMark '-' last
      let negative := negative || negative'
      match parts.dropLast.mapM (Variant.read? d), Utility.read? d last with
      | some variants, some utility =>
        if last.isEmpty || (negative && !utility.isFunctional) then none
        else some { utility, variants, important := important || important', negative }
      | _, _ => none

end SkinCompiler
