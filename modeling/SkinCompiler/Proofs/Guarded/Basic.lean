import SkinCompiler.Proofs.Table
import SkinCompiler.Proofs.Text.Blank
import SkinCompiler.Style.Value

/-!
# Guarded operations

Operations that are defined on a part of their arguments only: an element of a row, the value of a
key, the number that a numeral denotes, a quotient, and what only values of one kind have.  Each is
given with a check of its argument, and a computation that is made of them ends at the first
operation outside its domain.  A computation that comes to an end with a value has therefore kept
inside the domains of all its operations.
-/

namespace SkinCompiler

/-- An operation outside its domain. -/
inductive Misuse where
  /-- A row has no such element. -/
  | noElement
  /-- A table has no such key. -/
  | noKey (key : Text)
  /-- A text is no numeral. -/
  | noNumeral (t : Text)
  /-- A character is no hexadecimal digit. -/
  | noHexDigit (c : Char)
  /-- The divisor of a quotient is zero. -/
  | zeroDivisor
  /-- Only values known by name have a fraction. -/
  | noFraction
  /-- Only arbitrary values have a type. -/
  | noDataType
  deriving DecidableEq

/-- A computation that ends where an operation is outside its domain. -/
abbrev Guarded (α : Type) := Except Misuse α

namespace Guarded

open Text

variable {α β : Type}

@[simp] theorem ok_bind (a : α) (f : α → Guarded β) : (Except.ok a >>= f) = f a := rfl

@[simp] theorem pure_eq_ok (a : α) : (pure a : Guarded α) = .ok a := rfl

/-! ## Rows and tables -/

/-- The element of a row at an index. -/
def element (l : List α) (i : Nat) : Guarded α :=
  match l[i]? with
  | some a => .ok a
  | none => .error .noElement

/-- The last element of a row. -/
def last (l : List α) : Guarded α :=
  match l.getLast? with
  | some a => .ok a
  | none => .error .noElement

/-- A row without the element that was put on it last. -/
def popped : List α → Guarded (List α)
  | _ :: l => .ok l
  | [] => .error .noElement

/-- The value of a key. -/
def value (key : Text) (t : Table α) : Guarded α :=
  match Table.get? key t with
  | some v => .ok v
  | none => .error (.noKey key)

/-- The value of a key that is looked for first. -/
def found? (key : Text) (t : Table α) : Guarded (Option α) :=
  if t.has key then do return some (← value key t) else return none

@[simp] theorem element_zero (a : α) (l : List α) : element (a :: l) 0 = .ok a := rfl

@[simp] theorem element_one (a b : α) (l : List α) : element (a :: b :: l) 1 = .ok b := rfl

@[simp] theorem popped_cons (a : α) (l : List α) : popped (a :: l) = .ok l := rfl

theorem last_of_ne_nil {l : List α} (h : l ≠ []) (a : α) : last l = .ok (l.getLastD a) := by
  rw [last, List.getLastD_eq_getLast?, List.getLast?_eq_some_getLast h]
  rfl

theorem value_of_get? {key : Text} {t : Table α} {v : α} (h : Table.get? key t = some v) :
    value key t = .ok v := by
  rw [value, h]

/-- A key that is there has a value. -/
@[simp] theorem found?_eq (key : Text) (t : Table α) : found? key t = .ok (Table.get? key t) := by
  rw [found?, Table.has]
  cases h : Table.get? key t with
  | none => rfl
  | some v =>
    rw [value_of_get? h]
    rfl

/-! ## Numbers -/

/-- Digits with a point among them or beside them; blanks around them do not count. -/
def isNumeral (t : Text) : Bool :=
  match (strip t).span (· != '.') with
  | (whole, []) => !whole.isEmpty && whole.all isDecimal
  | (whole, _ :: places) => !(whole ++ places).isEmpty && (whole ++ places).all isDecimal

/-- The number that a numeral denotes. -/
def number (t : Text) : Guarded Binary64 :=
  if isNumeral t then .ok (.ofNumeral (strip t)) else .error (.noNumeral t)

/-- The quotient by a number that is not zero. -/
def quotient (a b : Binary64) : Guarded Binary64 :=
  if b.isZero then .error .zeroDivisor else .ok (a.div b)

/-- The value of a hexadecimal digit. -/
def hexDigit (c : Char) : Guarded Nat :=
  if isHexDigit c then .ok (Arbitrary.hexValue c) else .error (.noHexDigit c)

theorem quotient_of_ne_zero {a b : Binary64} (h : b.isZero = false) :
    quotient a b = .ok (a.div b) := by
  rw [quotient, h]
  rfl

theorem hexDigit_of_isHexDigit {c : Char} (h : isHexDigit c = true) :
    hexDigit c = .ok (Arbitrary.hexValue c) := if_pos h

/-- No digit is blank. -/
theorem isBlank_of_isDecimal {c : Char} (h : isDecimal c = true) : isBlank c = false :=
  isBlank_eq_false (by decide +kernel) h

theorem ne_point_of_isDecimal {c : Char} (h : isDecimal c = true) : (c != '.') = true := by
  rw [bne_iff_ne]
  rintro rfl
  exact absurd h (by decide)

/-- A text that begins and ends with a digit, and that a line feed may follow, has no blanks at its
ends but for the line feed. -/
theorem strip_eq_chomp {t : Text} (hh : ∀ c ∈ (chomp t).head?, isDecimal c = true)
    (hl : ∀ c ∈ (chomp t).getLast?, isDecimal c = true) : strip t = chomp t := by
  have hself : strip (chomp t) = chomp t :=
    strip_eq_self (fun c hc => isBlank_of_isDecimal (hh c hc))
      fun c hc => isBlank_of_isDecimal (hl c hc)
  rcases eq_chomp_or t with h | h
  · rw [← h] at hself ⊢
    exact hself
  · have hgap := strip_of_blank (a := []) (b := ['\n']) rfl rfl (chomp t)
    rw [List.nil_append, ← h] at hgap
    rw [hgap, hself]

theorem strip_of_digits {t : Text} (h : ∀ c ∈ t, isDecimal c = true) : strip t = t :=
  strip_eq_self (fun c hc => isBlank_of_isDecimal (h c (List.mem_of_mem_head? hc)))
    fun c hc => isBlank_of_isDecimal (h c (List.mem_of_getLast? hc))

/-- A row of digits is a numeral. -/
theorem number_of_digits {t whole : Text} (hs : strip t = whole) (hne : whole ≠ [])
    (hw : ∀ c ∈ whole, isDecimal c = true) : number t = .ok (.ofNumeral whole) := by
  have hspan : whole.span (· != '.') = (whole, []) :=
    span_eq_iff.2 ⟨by simp, fun c hc => ne_point_of_isDecimal (hw c hc), by simp⟩
  rw [number, isNumeral, hs, hspan, if_pos]
  simpa [hne] using hw

/-- What is taken for a number is a row of digits, or two of them with a point between. -/
theorem number?_eq_some {t : Text} {x : Binary64} (h : Style.number? t = some x) :
    x = .ofNumeral (chomp t) ∧ ∃ whole, whole ≠ [] ∧ (∀ c ∈ whole, isDecimal c = true) ∧
      (chomp t = whole ∨ ∃ places, places ≠ [] ∧ (∀ c ∈ places, isDecimal c = true) ∧
        chomp t = whole ++ '.' :: places) := by
  rw [Style.number?] at h
  rcases hspan : (chomp t).span isDecimal with ⟨whole, rest⟩
  obtain ⟨ht, hw, -⟩ := span_eq_iff.1 hspan
  simp only [hspan] at h
  cases whole with
  | nil => cases h
  | cons d whole =>
    cases rest with
    | nil =>
      cases h
      exact ⟨rfl, d :: whole, List.cons_ne_nil d whole, hw, Or.inl (by simpa using ht)⟩
    | cons c places =>
      dsimp only at h
      split_ifs at h with hc
      cases h
      rw [Bool.and_eq_true, Bool.and_eq_true, beq_iff_eq, List.all_eq_true, Bool.not_eq_true',
        List.isEmpty_eq_false_iff] at hc
      obtain ⟨⟨rfl, hp⟩, hall⟩ := hc
      exact ⟨rfl, d :: whole, List.cons_ne_nil d whole, hw, Or.inr ⟨places, hp, hall, ht⟩⟩

/-- What is taken for a number is a numeral. -/
theorem number_of_number? {t : Text} {x : Binary64} (h : Style.number? t = some x) :
    number t = .ok x := by
  obtain ⟨rfl, whole, hne, hw, ht | ⟨places, hp, hall, ht⟩⟩ := number?_eq_some h
  · have hs : strip t = chomp t := by
      refine strip_eq_chomp (fun c hc => ?_) fun c hc => ?_ <;> rw [ht] at hc
      · exact hw c (List.mem_of_mem_head? hc)
      · exact hw c (List.mem_of_getLast? hc)
    rw [ht] at hs ⊢
    exact number_of_digits hs hne hw
  · have hs : strip t = chomp t := by
      refine strip_eq_chomp (fun c hc => ?_) fun c hc => ?_ <;> rw [ht] at hc
      · rw [List.head?_append, List.head?_eq_some_head hne] at hc
        cases hc
        exact hw _ (List.head_mem hne)
      · rw [List.getLast?_append, List.getLast?_cons, List.getLast?_eq_some_getLast hp] at hc
        refine hall c (List.mem_of_getLast? ?_)
        simpa [List.getLast?_eq_some_getLast hp] using hc
    have hspan : (whole ++ '.' :: places).span (· != '.') = (whole, '.' :: places) :=
      span_eq_iff.2 ⟨rfl, fun c hc => ne_point_of_isDecimal (hw c hc), by simp⟩
    rw [number, isNumeral, hs, ht, hspan, if_pos]
    simp only [Bool.and_eq_true, Bool.not_eq_true', List.isEmpty_eq_false_iff, List.all_eq_true,
      List.mem_append]
    exact ⟨by simp [hne], fun c hc => hc.elim (hw c) (hall c)⟩

/-- The number of a text that is seen to be one first. -/
def numbered? (t : Text) : Guarded (Option Binary64) :=
  if Style.isNumber t then do return some (← number t) else return none

@[simp] theorem numbered?_eq (t : Text) : numbered? t = .ok (Style.number? t) := by
  rw [numbered?, Style.isNumber]
  cases h : Style.number? t with
  | none => rfl
  | some x =>
    rw [number_of_number? h]
    rfl

/-! ## Values -/

/-- The fraction of a value known by name. -/
def fraction : Value → Guarded (Option Text)
  | .named _ fraction => .ok fraction
  | .arbitrary _ => .error .noFraction

/-- The type of an arbitrary value. -/
def dataType : Value → Guarded (Option Text)
  | .arbitrary d => .ok d.dataType
  | .named _ _ => .error .noDataType

@[simp] theorem fraction_named (name : Text) (f : Option Text) :
    fraction (.named name f) = .ok f := rfl

@[simp] theorem dataType_arbitrary (d : Arbitrary.Decoded) :
    dataType (.arbitrary d) = .ok d.dataType := rfl

/-! ## Rows of computations -/

/-- A row of computations that all come to an end. -/
theorem mapM_of_ok {f : α → Guarded β} {g : α → β} {l : List α} (h : ∀ a ∈ l, f a = .ok (g a)) :
    l.mapM f = .ok (l.map g) := by
  induction l with
  | nil => rfl
  | cons a l ih =>
    rw [List.mapM_cons, h a List.mem_cons_self, ih fun b hb => h b (List.mem_cons_of_mem _ hb)]
    rfl

theorem foldlM_of_ok {f : β → α → Guarded β} {g : β → α → β} {l : List α} (b : β)
    (h : ∀ b, ∀ a ∈ l, f b a = .ok (g b a)) : l.foldlM f b = .ok (l.foldl g b) := by
  induction l generalizing b with
  | nil => rfl
  | cons a l ih =>
    rw [List.foldlM_cons, h b a List.mem_cons_self, ok_bind,
      ih (g b a) fun b x hx => h b x (List.mem_cons_of_mem _ hx)]
    rfl

theorem findSomeM?_of_ok {f : α → Guarded (Option β)} {g : α → Option β} (l : List α)
    (h : ∀ a, f a = .ok (g a)) : l.findSomeM? f = .ok (l.findSome? g) := by
  induction l with
  | nil => rfl
  | cons a l ih =>
    rw [List.findSomeM?, h, ok_bind, List.findSome?_cons]
    cases g a with
    | none => exact ih
    | some b => rfl

end Guarded

end SkinCompiler
