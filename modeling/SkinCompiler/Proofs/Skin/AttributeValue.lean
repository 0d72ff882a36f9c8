import SkinCompiler.Proofs.Skin.TemplateLiteral
import SkinCompiler.Proofs.Text.Blank
import SkinCompiler.Skin.StylesEdit

/-!
# Values of attributes

How the value of an attribute is read in markup.  A quoted value ends at its quote; backslashes mean
nothing in it, and character references are decoded.  In braces stands a string of the language, with
its escapes.

* `AttributeValue.readString` -- the reader of a string, from behind its opening quote;
* `AttributeValue.decode` -- a quoted value with its character references decoded;
* `readString_textLiteral` -- a written string reads as its text;
* `read_referenceText` -- what is put in the place of a reference reads as its classes just if they
  are put in braces or if neither the escapes nor the references of the quotes get in the way.
-/

namespace SkinCompiler.Skin.AttributeValue

open Text TemplateLiteral

variable {a t rest classes value : Text} {c q : Char} {n : Nat}

/-! ## Numbers of characters -/

/-- The value of a hexadecimal digit. -/
def hexDigit? (c : Char) : Option Nat :=
  if '0' ≤ c && c ≤ '9' then some (c.toNat - '0'.toNat)
  else if 'a' ≤ c && c ≤ 'f' then some (c.toNat - 'a'.toNat + 10)
  else if 'A' ≤ c && c ≤ 'F' then some (c.toNat - 'A'.toNat + 10)
  else none

/-- The value of hexadecimal digits after the value `n` of those before. -/
def hexValue? (n : Nat) : Text → Option Nat
  | [] => some n
  | c :: t => (hexDigit? c).bind fun d => hexValue? (16 * n + d) t

/-- The unit is the first one of a pair. -/
def isLead (n : Nat) : Bool := 0xD800 ≤ n && n < 0xDC00

/-- The unit is the second one of a pair. -/
def isTrail (n : Nat) : Bool := 0xDC00 ≤ n && n < 0xE000

/-- The character of a pair of units. -/
def pairChar (lead trail : Nat) : Char :=
  Char.ofNat (0x10000 + (lead - 0xD800) * 0x400 + (trail - 0xDC00))

/-! ## Strings -/

/-- More text in front of what is read. -/
def prepend (a : Text) (p : Text × Text) : Text × Text := (a ++ p.1, p.2)

/-- Read a string from behind its opening double quote: its text, and what stands behind its closing
quote.  `lead` is a first unit that awaits the second one of its pair.  Units without the other one
of their pair are not read, nor are escapes by number other than by four digits. -/
def readString : (lead : Option Nat) → Text → Option (Text × Text)
  | none, '"' :: t => some ([], t)
  | lead, '\\' :: 'u' :: x₁ :: x₂ :: x₃ :: x₄ :: t =>
    (hexValue? 0 [x₁, x₂, x₃, x₄]).bind fun n =>
      match lead with
      | some m => if isTrail n then (readString none t).map (prepend [pairChar m n]) else none
      | none =>
        if isLead n then readString (some n) t
        else if isTrail n then none
        else (readString none t).map (prepend [Char.ofNat n])
  | none, '\\' :: c :: t => (escaped? c).bind fun a => (readString none t).map (prepend a)
  | none, c :: t => if c ∈ ['\n', '\r'] then none else (readString none t).map (prepend [c])
  | _, _ => none

/-- Characters of a character reference. -/
def isReferencePart (c : Char) : Bool := isAsciiLetter c || isAsciiDigit c || c == '#'

/-- The text of a reference at the front of a text, and how many characters follow on its first one.
`reference` tells what stands between the ampersand and the semicolon. -/
def referenceAt? (reference : Text → Option Text) : Text → Option (Text × Nat)
  | '&' :: t =>
    let body := t.takeWhile isReferencePart
    if t[body.length]? = some ';' then (reference body).map fun d => (d, body.length + 1) else none
  | _ => none

/-- A text with its references decoded.  `pending` characters of it belong to one that has been. -/
def decodeFrom (reference : Text → Option Text) : (pending : Nat) → Text → Text
  | _, [] => []
  | pending + 1, _ :: t => decodeFrom reference pending t
  | 0, c :: t => match referenceAt? reference (c :: t) with
    | some (d, n) => d ++ decodeFrom reference n t
    | none => c :: decodeFrom reference 0 t

/-- What the content of a quoted value denotes. -/
def decode (reference : Text → Option Text) (t : Text) : Text := decodeFrom reference 0 t

/-- Read a value at the front of a text, in quotes or a string in braces: what it denotes, and what
stands behind it. -/
def read (reference : Text → Option Text) : Text → Option (Text × Text)
  | [] => none
  | c :: t =>
    if c == '"' || c == '\'' then (halves? [c] t).map fun p => (decode reference p.1, p.2)
    else if c == '\x7b' then match trimLeft isBlank t with
      | '"' :: t => (readString none t).bind fun p => match trimLeft isBlank p.2 with
        | '\x7d' :: rest => some (p.1, rest)
        | _ => none
      | _ => none
    else none

/-- In quotes an escape is text, and a reference is not. -/
example : read (fun t => if t = "amp".toList then some ['&'] else none) "\"\\u00e9&amp;\" b" =
    some ("\\u00e9&".toList, " b".toList) := by decide

/-- In braces it is the other way round. -/
example : read (fun t => if t = "amp".toList then some ['&'] else none)
    "\x7b\"\\u00e9&amp;\" \x7d b" = some ("\u00e9&amp;".toList, " b".toList) := by decide

theorem prepend_comp (a b : Text) : prepend a ∘ prepend b = prepend (a ++ b) := by
  funext p
  simp [prepend]

theorem prepend_nil : prepend [] = id := rfl

/-! ## Digits -/

theorem hexDigit?_digitChar (h : n < 16) : hexDigit? n.digitChar = some n := by
  have hall : ∀ n < 16, hexDigit? (Nat.digitChar n) = some n := by decide
  exact hall n h

theorem hexValue?_append (n : Nat) (a b : Text) :
    hexValue? n (a ++ b) = (hexValue? n a).bind fun m => hexValue? m b := by
  induction a generalizing n with
  | nil => rfl
  | cons c a ih =>
    rw [List.cons_append, hexValue?, hexValue?]
    cases hexDigit? c with
    | none => rfl
    | some d => exact ih _

theorem hexValue?_toDigits (n : Nat) : hexValue? 0 (Nat.toDigits 16 n) = some n := by
  induction n using Nat.strongRecOn with
  | ind n ih =>
    rw [Nat.toDigits_eq_if (by decide)]
    by_cases hlt : n < 16
    · rw [if_pos hlt, hexValue?, hexDigit?_digitChar hlt]
      simp [hexValue?]
    · rw [if_neg hlt, hexValue?_append, ih (n / 16) (by omega), Option.bind_some, hexValue?,
        hexDigit?_digitChar (Nat.mod_lt _ (by decide)), Option.bind_some, hexValue?]
      congr 1
      omega

theorem hexValue?_hex (width n : Nat) : hexValue? 0 (hex width n) = some n := by
  have hzeros : ∀ k, hexValue? 0 (List.replicate k '0') = some 0 := by
    intro k
    induction k with
    | zero => rfl
    | succ k ih => exact ih
  rw [hex, hexValue?_append, hzeros, Option.bind_some]
  exact hexValue?_toDigits n

theorem length_hex_four (h : n < 0x10000) : (hex 4 n).length = 4 := by
  have hle : (Nat.toDigits 16 n).length ≤ 4 := (Nat.length_toDigits_le_iff (by decide) (by decide)).2 h
  rw [hex, List.length_append, List.length_replicate]
  omega

/-- Four digits of a unit. -/
theorem exists_hex_four (h : n < 0x10000) : ∃ x₁ x₂ x₃ x₄,
    hex 4 n = [x₁, x₂, x₃, x₄] ∧ hexValue? 0 [x₁, x₂, x₃, x₄] = some n := by
  have hlength := length_hex_four h
  have hvalue := hexValue?_hex 4 n
  match hex 4 n, hlength, hvalue with
  | [x₁, x₂, x₃, x₄], _, hvalue => exact ⟨x₁, x₂, x₃, x₄, rfl, hvalue⟩

/-! ## Written strings -/

theorem readString_unit (lead : Option Nat) (h : n < 0x10000) (t : Text) :
    readString lead ("\\u".toList ++ hex 4 n ++ t) = match lead with
      | some m => if isTrail n then (readString none t).map (prepend [pairChar m n]) else none
      | none =>
        if isLead n then readString (some n) t
        else if isTrail n then none
        else (readString none t).map (prepend [Char.ofNat n]) := by
  obtain ⟨x₁, x₂, x₃, x₄, hhex, hvalue⟩ := exists_hex_four h
  have htext : "\\u".toList ++ hex 4 n ++ t = '\\' :: 'u' :: x₁ :: x₂ :: x₃ :: x₄ :: t := by
    rw [hhex]
    rfl
  rw [htext]
  cases lead <;> rw [readString, hvalue, Option.bind_some]

theorem pairChar_eq (h : 0x10000 ≤ c.toNat) :
    pairChar (0xD800 + (c.toNat - 0x10000) / 0x400) (0xDC00 + (c.toNat - 0x10000) % 0x400) = c := by
  have hsum : 0x10000 + (0xD800 + (c.toNat - 0x10000) / 0x400 - 0xD800) * 0x400 +
      (0xDC00 + (c.toNat - 0x10000) % 0x400 - 0xDC00) = c.toNat := by omega
  rw [pairChar, hsum, Char.ofNat_toNat]

/-- The numbers of characters leave out those of units in pairs. -/
theorem toNat_range (c : Char) : c.toNat < 0xD800 ∨ 0xDFFF < c.toNat ∧ c.toNat < 0x110000 :=
  c.valid

/-- No character is half of a pair. -/
theorem not_isLead_or_isTrail (c : Char) : isLead c.toNat = false ∧ isTrail c.toNat = false := by
  have hrange := toNat_range c
  simp only [isLead, isTrail, Bool.and_eq_false_iff, decide_eq_false_iff_not]
  omega

theorem readString_escapeUnits (c : Char) (t : Text) :
    readString none (Json.escapeUnits c ++ t) = (readString none t).map (prepend [c]) := by
  unfold Json.escapeUnits
  dsimp only
  by_cases hone : c.toNat < 0x10000
  · obtain ⟨hlead, htrail⟩ := not_isLead_or_isTrail c
    rw [if_pos hone, readString_unit none hone, Char.ofNat_toNat]
    simp only [hlead, htrail, Bool.false_eq_true, if_false]
  · have hrange := toNat_range c
    have hlead : isLead (0xD800 + (c.toNat - 0x10000) / 0x400) = true := by
      simp only [isLead, Bool.and_eq_true, decide_eq_true_eq]
      omega
    have htrail : isTrail (0xDC00 + (c.toNat - 0x10000) % 0x400) = true := by
      simp only [isTrail, Bool.and_eq_true, decide_eq_true_eq]
      omega
    rw [if_neg hone, List.append_assoc, List.append_assoc, List.append_assoc,
      ← List.append_assoc "\\u".toList, readString_unit none (by omega)]
    simp only [hlead, if_true]
    rw [← List.append_assoc, readString_unit (some _) (by omega)]
    simp only [htrail, if_true]
    rw [pairChar_eq (by omega)]

/-- The characters that are escaped by a letter of their own or by a backslash. -/
def marks : List Char := ['"', '\\', '\n', '\r', '\t', '\x0c', '\x08']

/-- A printable character of ASCII. -/
def isPrintable (c : Char) : Bool := 32 ≤ c.toNat && c.toNat ≤ 126

theorem escapeChar_of_not_mem (h : c ∉ marks) :
    Json.escapeChar c = if isPrintable c then [c] else Json.escapeUnits c := by
  simp only [marks, List.mem_cons, List.not_mem_nil, or_false, not_or] at h
  simp [Json.escapeChar, isPrintable, h]

/-- What is written for a character reads as the character. -/
theorem readString_escapeChar (c : Char) (t : Text) :
    readString none (Json.escapeChar c ++ t) = (readString none t).map (prepend [c]) := by
  by_cases hmark : c ∈ marks
  · simp only [marks, List.mem_cons, List.not_mem_nil, or_false] at hmark
    rcases hmark with rfl | rfl | rfl | rfl | rfl | rfl | rfl <;> rfl
  · rw [escapeChar_of_not_mem hmark]
    by_cases hprintable : isPrintable c = true
    · simp only [marks, List.mem_cons, List.not_mem_nil, or_false, not_or] at hmark
      rw [if_pos hprintable, List.singleton_append, readString]
      · simp [hmark]
      · exact fun h => hmark.1 h
      · intro x₁ x₂ x₃ x₄ t' hslash
        exact absurd hslash hmark.2.1
      · intro x t' hslash
        exact absurd hslash hmark.2.1
    · rw [if_neg hprintable]
      exact readString_escapeUnits c t

theorem readString_flatMap (classes t : Text) :
    readString none (classes.flatMap Json.escapeChar ++ t) =
      (readString none t).map (prepend classes) := by
  induction classes with
  | nil =>
    rw [List.flatMap_nil, List.nil_append, prepend_nil, Option.map_id]
    rfl
  | cons c classes ih =>
    rw [List.flatMap_cons, List.append_assoc, readString_escapeChar, ih, Option.map_map,
      prepend_comp]
    rfl

/-- A written string reads as its text. -/
theorem readString_textLiteral (classes rest : Text) :
    readString none (classes.flatMap Json.escapeChar ++ '"' :: rest) = some (classes, rest) := by
  rw [readString_flatMap, readString]
  simp [prepend]

/-! ## Content of quotes -/

theorem isSome_hexDigit?_of_hexValue? {m : Nat} (h : hexValue? n t = some m) :
    ∀ c ∈ t, (hexDigit? c).isSome = true := by
  induction t generalizing n with
  | nil => simp
  | cons c t ih =>
    rw [hexValue?] at h
    obtain ⟨d, hd, hrest⟩ := Option.bind_eq_some_iff.1 h
    intro x hx
    rcases List.mem_cons.1 hx with rfl | hx
    · rw [hd]
      rfl
    · exact ih hrest x hx

/-- No quote is among the digits of an escape. -/
theorem not_mem_escapeUnits (c : Char) : '"' ∉ Json.escapeUnits c := by
  have hhex : ∀ n, '"' ∉ "\\u".toList ++ hex 4 n := by
    intro n hmem
    rcases List.mem_append.1 hmem with hmem | hmem
    · revert hmem
      decide
    · have hsome := isSome_hexDigit?_of_hexValue? (hexValue?_hex 4 n) _ hmem
      revert hsome
      decide
  unfold Json.escapeUnits
  dsimp only
  split
  · exact hhex _
  · rw [List.append_assoc]
    intro hmem
    rcases List.mem_append.1 hmem with hmem | hmem
    · exact hhex _ hmem
    · exact hhex _ hmem

theorem not_mem_escapeChar (h : c ≠ '"') : '"' ∉ Json.escapeChar c := by
  by_cases hmark : c ∈ marks
  · simp only [marks, List.mem_cons, List.not_mem_nil, or_false, h, false_or] at hmark
    rcases hmark with rfl | rfl | rfl | rfl | rfl | rfl <;> decide
  · rw [escapeChar_of_not_mem hmark]
    split
    · simpa using Ne.symm h
    · exact not_mem_escapeUnits c

theorem escapeChar_eq_singleton (hprintable : isPrintable c = true) (hquote : c ≠ '"')
    (hslash : c ≠ '\\') : Json.escapeChar c = [c] := by
  have hmark : c ∉ marks := by
    simp only [marks, List.mem_cons, List.not_mem_nil, or_false, hquote, hslash, false_or]
    rintro (rfl | rfl | rfl | rfl | rfl) <;> revert hprintable <;> decide
  rw [escapeChar_of_not_mem hmark, if_pos hprintable]

theorem backslash_mem_escapeUnits (c : Char) : '\\' ∈ Json.escapeUnits c := by
  have hslash : '\\' ∈ "\\u".toList := by decide
  unfold Json.escapeUnits
  dsimp only
  split
  · exact List.mem_append_left _ hslash
  · rw [List.append_assoc, List.append_assoc]
    exact List.mem_append_left _ hslash

theorem backslash_mem_escapeChar (h : isPrintable c = false) : '\\' ∈ Json.escapeChar c := by
  by_cases hmark : c ∈ marks
  · simp only [marks, List.mem_cons, List.not_mem_nil, or_false] at hmark
    rcases hmark with rfl | rfl | rfl | rfl | rfl | rfl | rfl
    -- the quote and the backslash are printable
    · cases h
    · cases h
    all_goals decide
  · rw [escapeChar_of_not_mem hmark, h]
    exact backslash_mem_escapeUnits c

/-! ## References -/

theorem of_referenceAt? {reference : Text → Option Text} (h : referenceAt? reference t = some (a, n)) :
    ∃ body rest, t = '&' :: (body ++ ';' :: rest) ∧ n = body.length + 1 ∧
      ∀ x ∈ body, isReferencePart x = true := by
  unfold referenceAt? at h
  split at h
  · rename_i u
    dsimp only at h
    split at h
    · rename_i hsemi
      obtain ⟨d, -, hpair⟩ := Option.map_eq_some_iff.1 h
      obtain ⟨-, rfl⟩ := Prod.mk.inj hpair
      obtain ⟨hlength, hget⟩ := List.getElem?_eq_some_iff.1 hsemi
      have hbody := List.prefix_iff_eq_take.1 (List.takeWhile_prefix isReferencePart (l := u))
      refine ⟨u.takeWhile isReferencePart, u.drop ((u.takeWhile isReferencePart).length + 1), ?_, rfl,
        fun x hx => List.all_eq_true.1 List.all_takeWhile x hx⟩
      rw [← hget, List.getElem_cons_drop]
      conv_lhs => rw [← List.take_append_drop (u.takeWhile isReferencePart).length u, ← hbody]
    · cases h
  · cases h

/-- Decoding leaves the backslashes, which are no part of a reference. -/
theorem backslash_mem_decodeFrom (reference : Text → Option Text) {pending : Nat}
    (h : '\\' ∈ t.drop pending) : '\\' ∈ decodeFrom reference pending t := by
  induction t generalizing pending with
  | nil => simp at h
  | cons c t ih =>
    cases pending with
    | succ pending => exact ih h
    | zero =>
      rw [decodeFrom]
      cases hat : referenceAt? reference (c :: t) with
      | none =>
        rcases List.mem_cons.1 h with heq | h
        · exact heq ▸ List.mem_cons_self
        · exact List.mem_cons_of_mem _ (ih h)
      | some p =>
        obtain ⟨d, n⟩ := p
        obtain ⟨body, rest, heq, rfl, hbody⟩ := of_referenceAt? hat
        obtain ⟨rfl, rfl⟩ := List.cons.inj heq
        refine List.mem_append_right _ (ih ?_)
        rcases List.mem_cons.1 h with hmem | hmem
        · cases hmem
        rcases List.mem_append.1 hmem with hmem | hmem
        · exact absurd (hbody _ hmem) (by decide)
        · rcases List.mem_cons.1 hmem with hmem | hmem
          · cases hmem
          · have hdrop : (body ++ ';' :: rest).drop (body.length + 1) = rest := by
              rw [← List.drop_drop, List.drop_left]
              rfl
            rw [hdrop]
            exact hmem

/-- Without ampersands there is nothing to decode. -/
theorem decode_eq_self (reference : Text → Option Text) (h : '&' ∉ t) : decode reference t = t := by
  induction t with
  | nil => rfl
  | cons c t ih =>
    rw [List.mem_cons, not_or] at h
    have hnone : referenceAt? reference (c :: t) = none := by
      cases hat : referenceAt? reference (c :: t) with
      | none => rfl
      | some p =>
        obtain ⟨body, rest, heq, -⟩ := of_referenceAt? hat
        exact absurd (List.cons.inj heq).1.symm h.1
    rw [decode, decodeFrom, hnone]
    exact congrArg (c :: ·) (ih h.2)

/-! ## What is put in place -/

/-- The classes stand in quotes as they are: no character is escaped, and nothing in them is taken
for a reference. -/
def IsPlain (reference : Text → Option Text) (classes : Text) : Prop :=
  (∀ c ∈ classes, isPrintable c = true) ∧ decode reference classes = classes

theorem flatMap_escapeChar_eq_self (hquote : '"' ∉ classes) (hslash : '\\' ∉ classes)
    (h : ∀ c ∈ classes, isPrintable c = true) : classes.flatMap Json.escapeChar = classes := by
  induction classes with
  | nil => rfl
  | cons c classes ih =>
    rw [List.mem_cons, not_or] at hquote hslash
    rw [List.flatMap_cons, escapeChar_eq_singleton (h c List.mem_cons_self) (Ne.symm hquote.1)
      (Ne.symm hslash.1), ih hquote.2 hslash.2 fun x hx => h x (List.mem_cons_of_mem _ hx)]
    rfl

/-- The content of the quotes denotes the classes just if they stand there as they are. -/
theorem decode_flatMap_eq_iff (reference : Text → Option Text) (hquote : '"' ∉ classes)
    (hslash : '\\' ∉ classes) :
    decode reference (classes.flatMap Json.escapeChar) = classes ↔ IsPlain reference classes := by
  by_cases hall : ∀ c ∈ classes, isPrintable c = true
  · rw [flatMap_escapeChar_eq_self hquote hslash hall, IsPlain]
    exact (and_iff_right hall).symm
  · refine iff_of_false ?_ fun h => hall h.1
    intro heq
    -- an escape leaves a backslash, and there is none in the classes
    simp only [not_forall, Bool.not_eq_true] at hall
    obtain ⟨c, hc, hnot⟩ := hall
    have hmem : '\\' ∈ (classes.flatMap Json.escapeChar).drop 0 :=
      List.mem_flatMap.2 ⟨c, hc, backslash_mem_escapeChar hnot⟩
    exact hslash (heq ▸ backslash_mem_decodeFrom reference hmem)

theorem read_quoted (reference : Text → Option Text) (h : '"' ∉ a) (rest : Text) :
    read reference ('"' :: (a ++ '"' :: rest)) = some (decode reference a, rest) := by
  have hhalves : halves? ['"'] (a ++ '"' :: rest) = some (a, rest) :=
    halves?_eq_some_iff.2 ⟨rfl, h⟩
  rw [read, if_pos (by decide), hhalves]
  rfl

theorem read_braces (reference : Text → Option Text) (classes rest : Text) :
    read reference ('\x7b' :: (Json.textLiteral classes ++ '\x7d' :: rest)) =
      some (classes, rest) := by
  have htext : Json.textLiteral classes ++ '\x7d' :: rest =
      '"' :: (classes.flatMap Json.escapeChar ++ '"' :: '\x7d' :: rest) := by
    simp [Json.textLiteral]
  have hopen : trimLeft isBlank ('"' :: (classes.flatMap Json.escapeChar ++ '"' :: '\x7d' :: rest)) =
      '"' :: (classes.flatMap Json.escapeChar ++ '"' :: '\x7d' :: rest) :=
    trimLeft_eq_self (by rintro x ⟨rfl⟩; decide)
  have hclose : trimLeft isBlank ('\x7d' :: rest) = '\x7d' :: rest :=
    trimLeft_eq_self (by rintro x ⟨rfl⟩; decide)
  rw [htext, read, if_neg (by decide), if_pos (by decide), hopen]
  simp only [readString_textLiteral, Option.bind_some, hclose]

/-- What is put in the place of a whole value reads as its classes just if it is in braces or the
classes stand in the quotes as they are. -/
theorem read_referenceText (reference : Text → Option Text) (classes rest : Text) :
    ∃ value, read reference (referenceText classes true ++ rest) = some (value, rest) ∧
      (value = classes ↔ '\\' ∈ classes ∨ '"' ∈ classes ∨ IsPlain reference classes) := by
  by_cases hmark : '\\' ∈ classes ∨ '"' ∈ classes
  · have htext : referenceText classes true ++ rest =
        '\x7b' :: (Json.textLiteral classes ++ '\x7d' :: rest) := by
      have hany : (classes.any fun c => c == '\\' || c == '"') = true := by
        rw [List.any_eq_true]
        rcases hmark with hmem | hmem
        · exact ⟨_, hmem, rfl⟩
        · exact ⟨_, hmem, rfl⟩
      simp [referenceText, hany]
    refine ⟨classes, ?_, iff_of_true rfl ?_⟩
    · rw [htext, read_braces]
    · exact hmark.imp_right Or.inl
  · have hnot := hmark
    rw [not_or] at hnot
    obtain ⟨hslash, hquote⟩ := hnot
    have htext : referenceText classes true ++ rest =
        '"' :: (classes.flatMap Json.escapeChar ++ '"' :: rest) := by
      have hany : (classes.any fun c => c == '\\' || c == '"') = false := by
        rw [List.any_eq_false]
        intro c hc
        simp only [Bool.or_eq_true, beq_iff_eq]
        rintro (rfl | rfl)
        · exact hslash hc
        · exact hquote hc
      simp [referenceText, hany, Json.textLiteral]
    have hcontent : '"' ∉ classes.flatMap Json.escapeChar := by
      intro hmem
      obtain ⟨c, hc, hmem⟩ := List.mem_flatMap.1 hmem
      refine not_mem_escapeChar ?_ hmem
      rintro rfl
      exact hquote hc
    refine ⟨decode reference (classes.flatMap Json.escapeChar), ?_, ?_⟩
    · rw [htext, read_quoted reference hcontent]
    · rw [decode_flatMap_eq_iff reference hquote hslash]
      simp only [hslash, hquote, false_or]

end SkinCompiler.Skin.AttributeValue
