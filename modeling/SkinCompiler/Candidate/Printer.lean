import SkinCompiler.Candidate.Basic

/-!
# Writing class tokens

The token of a candidate.  Where a part of it would not be read back from its text is said in
`Proofs.Candidate.RoundTrip`.
-/

namespace SkinCompiler

/-- A value in brackets; the type is written out where the value does not look like it. -/
def Arbitrary.Decoded.write (d : Arbitrary.Decoded) : Text :=
  let hint := match d.dataType with
    | some type =>
      if type.isEmpty || Arbitrary.classify d.value = some type then [] else type ++ ":"
    | none => []
  "[" ++ hint ++ d.value ++ "]"

/-- The text of a value. -/
def Value.write : Value → Text
  | .named name (some fraction) => if fraction.isEmpty then name else fraction
  | .named name none => name
  | .arbitrary content => content.write

/-- The text of a modifier, with its slash. -/
def Modifier.write : Option Modifier → Text
  | none => []
  | some (.arbitrary t) => "/[" ++ t ++ "]"
  | some (.named t) | some (.other t) => "/" ++ t

/-- A root with its value. -/
def writeRoot (root : Text) (value : Option Value) : Text :=
  match value with
  | none => root
  | some v => if root = ['@'] then root ++ v.write else root ++ "-" ++ v.write

/-- The text of a variant. -/
def Variant.write : Variant → Text
  | .static root => root
  | .arbitrary selector => "[" ++ selector ++ "]"
  | .compound root inner modifier => root ++ "-" ++ inner.write ++ Modifier.write modifier
  | .functional root value modifier => writeRoot root (some value) ++ Modifier.write modifier
  | .other root value modifier => writeRoot root value ++ Modifier.write modifier

/-- The text of a utility. -/
def Utility.write : Utility → Text
  | .static root modifier => root ++ Modifier.write modifier
  | .functional root value modifier => root ++ "-" ++ value.write ++ Modifier.write modifier
  | .property name content modifier =>
    "[" ++ name ++ ":" ++ content.value ++ "]" ++ Modifier.write modifier
  | .other root _ modifier => root ++ Modifier.write modifier

/-- The token of a candidate. -/
def Candidate.write (c : Candidate) : Text :=
  (if c.important then ['!'] else []) ++ c.variants.flatMap (fun v => v.write ++ [':'])
    ++ (if c.negative then ['-'] else []) ++ c.utility.write

end SkinCompiler
