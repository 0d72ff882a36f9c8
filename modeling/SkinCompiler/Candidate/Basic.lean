import SkinCompiler.Candidate.Arbitrary

/-!
# Candidates

The structured form of a class token.  In `hover:bg-blue-500/50` the utility is `bg` with the value
`blue-500` and the modifier `50`, and `hover` is its only variant.
-/

namespace SkinCompiler

/-- The value of a utility or a variant. -/
inductive Value where
  /-- A value known by name; a fraction such as `1/2` is also kept as such. -/
  | named (name : Text) (fraction : Option Text)
  /-- A value in brackets. -/
  | arbitrary (content : Arbitrary.Decoded)
  deriving DecidableEq

/-- What stands after the slash of a utility or a variant. -/
inductive Modifier where
  /-- A name or a number. -/
  | named (text : Text)
  /-- A text in brackets. -/
  | arbitrary (text : Text)
  /-- A modifier of another kind, which no token yields. -/
  | other (text : Text)
  deriving DecidableEq

/-- The text of a modifier. -/
def Modifier.text : Modifier → Text
  | .named t | .arbitrary t | .other t => t

/-- A condition under which a utility applies. -/
inductive Variant where
  /-- A variant that stands alone, such as `hover`. -/
  | static (root : Text)
  /-- A variant with a value, such as `data-[state=open]`. -/
  | functional (root : Text) (value : Value) (modifier : Option Modifier)
  /-- A selector or an at-rule in brackets. -/
  | arbitrary (selector : Text)
  /-- A variant around another one, such as `group-hover`. -/
  | compound (root : Text) (inner : Variant) (modifier : Option Modifier)
  /-- A variant of another kind, or one that lacks what its kind needs; no token yields it. -/
  | other (root : Text) (value : Option Value) (modifier : Option Modifier)
  deriving DecidableEq, Inhabited

/-- What a class token does. -/
inductive Utility where
  /-- A utility that stands alone, such as `flex`. -/
  | static (root : Text) (modifier : Option Modifier)
  /-- A utility with a value, such as `p-4`. -/
  | functional (root : Text) (value : Value) (modifier : Option Modifier)
  /-- A declaration in brackets, such as `[mask-type:luminance]`. -/
  | property (name : Text) (content : Arbitrary.Decoded) (modifier : Option Modifier)
  /-- A utility of another kind, or one that lacks what its kind needs; no token yields it. -/
  | other (root : Text) (value : Option Value) (modifier : Option Modifier)
  deriving DecidableEq

namespace Utility

/-- The root of a utility; of a declaration in brackets its property. -/
def root : Utility → Text
  | .static r _ | .functional r _ _ | .property r _ _ | .other r _ _ => r

/-- The modifier. -/
def modifier : Utility → Option Modifier
  | .static _ m | .functional _ _ m | .property _ _ m | .other _ _ m => m

/-- The utility has a root and a value. -/
def isFunctional : Utility → Bool
  | .functional _ _ _ => true
  | _ => false

end Utility

/-- A class token. -/
structure Candidate where
  /-- What it does. -/
  utility : Utility
  /-- When it does so, the outermost condition first. -/
  variants : List Variant := []
  /-- Its declarations override those that are not important. -/
  important : Bool := false
  /-- Its value is taken with the opposite sign. -/
  negative : Bool := false
  deriving DecidableEq

end SkinCompiler
