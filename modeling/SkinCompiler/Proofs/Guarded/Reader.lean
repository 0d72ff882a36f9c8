import SkinCompiler.Proofs.Candidate.Segment
import SkinCompiler.Proofs.Guarded.Basic

/-!
# Reading class tokens with guarded operations

The reader of class tokens, with the operations that it is made of guarded: the innermost of the
open brackets, the parts of a text that was cut, the hexadecimal digits of an escape.  On every text
and with every design system it comes to the end that `Candidate.read?` comes to.
-/

namespace SkinCompiler.Guarded

open Text

variable {d : DesignSystem}

/-! ## Segments -/

/-- The closing brackets of the opening ones. -/
def closers : Table Char := [("[", ']'), ("(", ')'), ("\x7b", '\x7d')]

/-- What is open after one more character, as `Scope.step` has it. -/
def step (s : Scope) (c : Char) : Guarded (Option Scope) :=
  if s.escaped then return some { s with escaped := false }
  else if c == '\\' then return some { s with escaped := true }
  else match s.quote with
    | some q => return some (if c == q then { s with quote := none } else s)
    | none => do
      if Scope.isQuote c then return some { s with quote := some c }
      match ← found? [c] closers with
      | some closer => return some { s with closers := closer :: s.closers }
      | none =>
        if !Scope.isCloser c then return some s
        else if s.closers.isEmpty then return none
        else if (← element s.closers 0) != c then return none
        else return some { s with closers := ← popped s.closers }

/-- Everything that is open is closed in the text. -/
def closes (s : Scope) : Text → Guarded Bool
  | [] => return s.closers.isEmpty && s.quote.isNone
  | c :: t => do
    match ← step s c with
    | some s => closes s t
    | none => return false

/-- The pieces of a text between the separators outside all brackets and quotes. -/
def pieces (separator : Char) (s : Scope) : Text → Guarded (List Text)
  | [] => return [[]]
  | c :: t => do
    match ← step s c with
    | none => return [c :: t]
    | some s' =>
      let later ← pieces separator s' t
      if c == separator && s.cutsAt c then return [] :: later
      else match later with
        | [] => return [[c]]
        | piece :: rest => return (c :: piece) :: rest

theorem get?_closers (c : Char) : Table.get? [c] closers = Scope.closer? c := by
  unfold Scope.closer?
  split <;> simp_all [closers, Table.get?, eq_comm]

@[simp] theorem step_eq (s : Scope) (c : Char) : step s c = .ok (s.step c) := by
  unfold step Scope.step
  split
  · rfl
  · split
    · rfl
    · cases s.quote with
      | some q => rfl
      | none =>
        by_cases hq : Scope.isQuote c = true
        · simp [hq]
        · cases hcloser : Scope.closer? c with
          | some closer => simp [hq, get?_closers, hcloser]
          | none =>
            by_cases hc : Scope.isCloser c = true
            · cases hs : s.closers with
              | nil => simp [hq, get?_closers, hcloser, hc]
              | cons awaited rest =>
                by_cases ha : awaited = c <;> simp [hq, get?_closers, hcloser, hc, ha]
            · simp [hq, get?_closers, hcloser, hc]

@[simp] theorem closes_eq (s : Scope) (t : Text) : closes s t = .ok (s.closes t) := by
  induction t generalizing s with
  | nil => rfl
  | cons c t ih =>
    rw [closes, Scope.closes, step_eq, ok_bind]
    cases s.step c with
    | none => rfl
    | some s => exact ih s

@[simp] theorem pieces_eq (sep : Char) (s : Scope) (t : Text) :
    pieces sep s t = .ok (s.pieces sep t) := by
  induction t generalizing s with
  | nil => rfl
  | cons c t ih =>
    rw [pieces, Scope.pieces, step_eq, ok_bind]
    cases s.step c with
    | none => rfl
    | some s' =>
      simp only [ih, ok_bind]
      split_ifs
      · rfl
      · split <;> simp_all

/-! ## Values and modifiers -/

/-- Every percent sign with two hexadecimal digits becomes the character with that number. -/
def unescape : Text → Guarded Text
  | '%' :: a :: b :: t => do
    if isHexDigit a && isHexDigit b then
      let code := 16 * (← hexDigit a) + (← hexDigit b)
      return Char.ofNat code :: (← unescape t)
    else return '%' :: (← unescape (a :: b :: t))
  | c :: t => return c :: (← unescape t)
  | [] => return []

/-- Decode the text between brackets. -/
def decode (raw : Text) : Guarded (Option Arbitrary.Decoded) := do
  if isBlankText raw then return none
  if !(← closes {} raw) then return none
  match Arbitrary.hinted? raw with
  | some (hint, value) => return some ⟨← unescape value, some hint⟩
  | none =>
    let value ← unescape raw
    return some ⟨value, Arbitrary.classify value⟩

/-- Read a value. -/
def readValue (raw : Text) : Guarded (Option Value) := do
  match between? '[' ']' raw, between? '(' ')' raw with
  | some inner, _ => return (← decode inner).map .arbitrary
  | none, some inner =>
    if startsWith inner "--" && 3 ≤ inner.length then
      return some (.arbitrary ⟨customProperty inner, some "custom-property"⟩)
    else return none
  | none, none => return if isValueName raw then some (.named raw none) else none

/-- Read a modifier. -/
def readModifier (raw : Text) : Guarded (Option Modifier) := do
  match between? '[' ']' raw, between? '(' ')' raw with
  | some inner, _ => return (← decode inner).map fun d => .arbitrary d.value
  | none, some inner =>
    return if startsWith inner "--" then some (.arbitrary (customProperty inner)) else none
  | none, none => return if isModifierName raw then some (.named raw) else none

/-- Take the modifier off a text. -/
def splitModifier (t : Text) : Guarded (Option (Text × Option Modifier)) := do
  let parts ← pieces '/' {} t
  if parts.length == 1 then return some (t, none)
  else if parts.length == 2 then
    let base ← element parts 0
    let modifier ← element parts 1
    if base.isEmpty || modifier.isEmpty then return none
    else return (← readModifier modifier).map fun m => (base, some m)
  else return none

@[simp] theorem unescape_eq (t : Text) : unescape t = .ok (Arbitrary.unescape t) := by
  induction t using Arbitrary.unescape.induct with
  | case1 a b t h ih =>
    rw [Bool.and_eq_true] at h
    rw [unescape, Arbitrary.unescape, if_pos (by simp [h]), if_pos (by simp [h]),
      hexDigit_of_isHexDigit h.1, hexDigit_of_isHexDigit h.2, ih]
    rfl
  | case2 a b t h ih =>
    rw [unescape, Arbitrary.unescape, if_neg h, if_neg h, ih]
    rfl
  | case3 c t h ih =>
    rw [unescape, Arbitrary.unescape, ih]
    · rfl
    all_goals exact h
  | case4 => rfl

@[simp] theorem decode_eq (raw : Text) : decode raw = .ok (Arbitrary.decode raw) := by
  have hbalanced : isBalanced raw = Scope.closes {} raw := rfl
  rw [decode, Arbitrary.decode, hbalanced, closes_eq]
  cases isBlankText raw with
  | true => rfl
  | false =>
    cases Scope.closes {} raw with
    | false => rfl
    | true => cases Arbitrary.hinted? raw <;> simp

@[simp] theorem readValue_eq (raw : Text) : readValue raw = .ok (Value.read? raw) := by
  rw [readValue, Value.read?]
  cases between? '[' ']' raw with
  | some inner => simp only [decode_eq, ok_bind, pure_eq_ok]
  | none =>
    cases between? '(' ')' raw with
    | some inner =>
      dsimp only
      split_ifs <;> rfl
    | none => rfl

@[simp] theorem readModifier_eq (raw : Text) : readModifier raw = .ok (Modifier.read? raw) := by
  rw [readModifier, Modifier.read?]
  cases between? '[' ']' raw with
  | some inner => simp only [decode_eq, ok_bind, pure_eq_ok]
  | none => cases between? '(' ')' raw <;> rfl

@[simp] theorem splitModifier_eq (t : Text) : splitModifier t = .ok (splitModifier? t) := by
  rw [splitModifier, splitModifier?, pieces_eq, ok_bind, segments]
  match Scope.pieces '/' {} t with
  | [] => rfl
  | [_] => rfl
  | [base, modifier] =>
    simp only [List.length_cons, List.length_nil, element_zero, element_one, ok_bind,
      readModifier_eq]
    cases base.isEmpty || modifier.isEmpty <;> rfl
  | _ :: _ :: _ :: _ => rfl

/-! ## Variants -/

/-- Read a variant of which no more than `depth - 1` variants stand around another one. -/
def readVariantWithin (d : DesignSystem) : (depth : Nat) → Text → Guarded (Option Variant)
  | 0, _ => return none
  | depth + 1, raw => do
    if raw.isEmpty then return none
    if !(← closes {} raw) then return none
    match between? '[' ']' raw with
    | some selector =>
      return if selector.contains '&' || startsWith selector ['@'] then some (.arbitrary selector)
        else none
    | none =>
      if d.staticVariants.contains raw then return some (.static raw)
      match ← splitModifier raw with
      | none => return none
      | some (base, modifier) =>
        if startsWith base ['@'] && d.variantKind base = .functional then
          return (← readValue (base.drop 1)).map fun v => .functional ['@'] v modifier
        else (hyphenCuts base).findSomeM? fun (root, rest) => do
          if d.compoundVariants.contains root then
            return (← readVariantWithin d depth rest).map fun v => .compound root v modifier
          else if d.functionalVariants.contains root then
            return (← readValue rest).map fun v => .functional root v modifier
          else return none

/-- Read the variants of a token, up to the first text that is none. -/
def readVariants (d : DesignSystem) : List Text → Guarded (Option (List Variant))
  | [] => return some []
  | raw :: rest => do
    match ← readVariantWithin d (raw.length + 1) raw with
    | none => return none
    | some v => return (← readVariants d rest).map (v :: ·)

@[simp] theorem readVariantWithin_eq (depth : Nat) (raw : Text) :
    readVariantWithin d depth raw = .ok (Variant.readWithin d depth raw) := by
  induction depth generalizing raw with
  | zero => rfl
  | succ depth ih =>
    have hbalanced : isBalanced raw = Scope.closes {} raw := rfl
    rw [readVariantWithin, Variant.readWithin, hbalanced, closes_eq]
    cases raw.isEmpty with
    | true => rfl
    | false =>
      cases Scope.closes {} raw with
      | false => rfl
      | true =>
        cases between? '[' ']' raw with
        | some selector => rfl
        | none =>
          cases d.staticVariants.contains raw with
          | true => rfl
          | false =>
            rw [splitModifier_eq]
            cases splitModifier? raw with
            | none => rfl
            | some p =>
              obtain ⟨base, modifier⟩ := p
              simp only [ok_bind, readValue_eq, pure_eq_ok]
              cases startsWith base ['@'] && decide (d.variantKind base = .functional) with
              | true => rfl
              | false =>
                refine findSomeM?_of_ok _ fun cut => ?_
                obtain ⟨root, rest⟩ := cut
                simp only [ih, ok_bind]
                split_ifs <;> rfl

@[simp] theorem readVariants_eq (texts : List Text) :
    readVariants d texts = .ok (texts.mapM (Variant.read? d)) := by
  induction texts with
  | nil => rfl
  | cons raw rest ih =>
    rw [readVariants, readVariantWithin_eq, ih, List.mapM_cons, Variant.read?]
    cases Variant.readWithin d (raw.length + 1) raw with
    | none => rfl
    | some v => cases rest.mapM (Variant.read? d) <;> rfl

/-! ## Utilities and candidates -/

/-- Read the inside of a declaration in brackets. -/
def readProperty (inner : Text) (modifier : Option Modifier) : Guarded (Option Utility) := do
  let parts ← pieces ':' {} inner
  if parts.length < 2 then return none
  else
    let name ← element parts 0
    let value := join ":" (parts.drop 1)
    if isPropertyName name && !value.isEmpty then
      return (← decode value).map fun content => .property name content modifier
    else return none

/-- Read a utility without its marks. -/
def readUtility (d : DesignSystem) (t : Text) : Guarded (Option Utility) := do
  match ← splitModifier t with
  | none => return none
  | some (base, modifier) =>
    match between? '[' ']' base with
    | some inner => readProperty inner modifier
    | none =>
      if d.staticUtilities.contains base
          && (modifier.isNone || d.takesModifier base) then
        return some (.static base modifier)
      else (hyphenCuts base).findSomeM? fun (root, rest) => do
        if d.functionalUtilities.contains root then
          return (← readValue rest).map fun value => Utility.ofParts root value modifier
        else return none

/-- Read a class token. -/
def readCandidate (d : DesignSystem) (raw : Text) : Guarded (Option Candidate) := do
  if !(← closes {} raw) then return none
  let (important, t) := takeMark '!' raw
  let (negative, t) := takeMark '-' t
  let parts ← pieces ':' {} t
  if parts.any (·.isEmpty) then return none
  let (important', utility) := takeImportance (← last parts)
  let (negative', utility) := takeMark '-' utility
  if utility.isEmpty then return none
  match ← readVariants d parts.dropLast with
  | none => return none
  | some variants =>
    match ← readUtility d utility with
    | none => return none
    | some utility =>
      let negative := negative || negative'
      if negative && !utility.isFunctional then return none
      return some { utility, variants, important := important || important', negative }

@[simp] theorem readProperty_eq (inner : Text) (modifier : Option Modifier) :
    readProperty inner modifier = .ok (readProperty? inner modifier) := by
  rw [readProperty, readProperty?, pieces_eq, ok_bind, segments]
  match Scope.pieces ':' {} inner with
  | [] => rfl
  | [_] => rfl
  | name :: first :: rest =>
    have hlength : ¬(name :: first :: rest).length < 2 := by simp
    simp only [hlength, if_false, element_zero, ok_bind, List.drop_one, List.tail_cons, decode_eq,
      pure_eq_ok]
    split_ifs <;> rfl

@[simp] theorem readUtility_eq (t : Text) : readUtility d t = .ok (Utility.read? d t) := by
  rw [readUtility, Utility.read?, splitModifier_eq, ok_bind]
  cases splitModifier? t with
  | none => rfl
  | some p =>
    obtain ⟨base, modifier⟩ := p
    dsimp only
    cases between? '[' ']' base with
    | some inner => exact readProperty_eq inner modifier
    | none =>
      dsimp only
      split_ifs
      · rfl
      · refine findSomeM?_of_ok _ fun cut => ?_
        obtain ⟨root, rest⟩ := cut
        simp only [readValue_eq, ok_bind]
        split_ifs <;> rfl

/-- The reader of class tokens keeps inside the domains of its operations. -/
@[simp] theorem readCandidate_eq (raw : Text) :
    readCandidate d raw = .ok (Candidate.read? d raw) := by
  have hbalanced : isBalanced raw = Scope.closes {} raw := rfl
  rw [readCandidate, Candidate.read?, hbalanced, closes_eq]
  cases Scope.closes {} raw with
  | false => rfl
  | true =>
    obtain ⟨important, t₁⟩ := takeMark '!' raw
    dsimp only
    obtain ⟨negative, t₂⟩ := takeMark '-' t₁
    have hparts : segments [':'] t₂ = Scope.pieces ':' {} t₂ := rfl
    have hlast := last_of_ne_nil (Scope.pieces_ne_nil ':' {} t₂) []
    rw [hparts]
    simp only [pieces_eq, hlast, ok_bind, readVariants_eq, readUtility_eq, pure_eq_ok]
    cases (Scope.pieces ':' {} t₂).any (·.isEmpty) with
    | true => rfl
    | false =>
      obtain ⟨important', utility₁⟩ := takeImportance ((Scope.pieces ':' {} t₂).getLastD [])
      dsimp only
      obtain ⟨negative', utility⟩ := takeMark '-' utility₁
      dsimp only
      cases (Scope.pieces ':' {} t₂).dropLast.mapM (Variant.read? d) with
      | none => cases utility.isEmpty <;> rfl
      | some variants =>
        cases Utility.read? d utility with
        | none => cases utility.isEmpty <;> rfl
        | some u =>
          dsimp only
          cases utility.isEmpty with
          | true => rfl
          | false => cases (negative || negative') && !u.isFunctional <;> rfl

end SkinCompiler.Guarded
