import SkinCompiler.Stylesheet.ClassSelector
import Mathlib.Data.List.Basic

/-!
# The points of a selector

The replacement of class selectors takes every point with a name after it for one.  In an attribute
selector or a string, after a backslash and in a number a point begins no class, and a name that
stands there is changed by mistake.

* `piecesFrom_eq_onParts` -- a point and its name never reach over the edge of an attribute selector
  or a string, so that the parts of a selector are replaced one by one;
* `ClassReplacement.replace_eq_flatMap_cells` -- the replacement goes from piece to piece;
* `replace_eq_replaceClasses` -- class selectors are changed and nothing else, unless a name that is
  no class selector is changed, and for all components just if there is no such name.
-/

namespace SkinCompiler

open Text

namespace ClassSelector

/-! ## Attribute selectors and strings -/

/-- The quotes of strings. -/
inductive Quote where
  | single
  | double
  deriving DecidableEq

/-- The quote that a character is. -/
def quote? : Char → Option Quote
  | '\'' => some .single
  | '"' => some .double
  | _ => none

/-- What is open at a place in a selector. -/
structure Shelter where
  /-- The number of open brackets. -/
  depth : Nat := 0
  /-- The open quote. -/
  quote : Option Quote := none
  /-- The character before was a backslash, and the next one stands for itself. -/
  escaped : Bool := false

/-- The marks that open and close attribute selectors and strings. -/
def isMark (c : Char) : Bool := c == '[' || c == ']' || (quote? c).isSome

namespace Shelter

/-- A bracket or a quote is open. -/
def isOpen (s : Shelter) : Bool := s.depth != 0 || s.quote.isSome

/-- What is open after a mark.  Brackets in a string open and close nothing. -/
def onMark (s : Shelter) (c : Char) : Shelter :=
  match s.quote, quote? c with
  | some q, some q' => if q = q' then { s with quote := none } else s
  | some _, none => s
  | none, some q => { s with quote := some q }
  | none, none => { s with depth := if c == '[' then s.depth + 1 else s.depth - 1 }

/-- What is open after one more character. -/
def step (s : Shelter) (c : Char) : Shelter :=
  if s.escaped then { s with escaped := false }
  else if c == '\\' then { s with escaped := true }
  else if isMark c then s.onMark c
  else s

/-- The next character stands in an attribute selector or a string, or opens or closes one. -/
def covers (s : Shelter) (c : Char) : Bool := s.isOpen || (s.step c).isOpen

end Shelter

/-- A part of a selector. -/
structure Part where
  /-- It is made of attribute selectors and strings. -/
  sheltered : Bool
  /-- Its text. -/
  text : Text

/-- One more character in front of parts: in the first of them, if it is of the same kind. -/
def consPart (sheltered : Bool) (c : Char) : List Part → List Part
  | [] => [⟨sheltered, [c]⟩]
  | p :: ps =>
    if p.sheltered = sheltered then ⟨sheltered, c :: p.text⟩ :: ps else ⟨sheltered, [c]⟩ :: p :: ps

/-- The parts of a text: its attribute selectors and strings, and what stands between them. -/
def partsFrom (s : Shelter) : Text → List Part
  | [] => []
  | c :: t => consPart (s.covers c) c (partsFrom (s.step c) t)

/-- The parts of a selector. -/
def parts (t : Text) : List Part := partsFrom {} t

/-! ## Points with names -/

/-- A piece of a text. -/
inductive Piece where
  /-- A character. -/
  | plain (c : Char)
  /-- A point with a name after it, which may be a class selector. -/
  | dotted (isClass : Bool) (name : Text)

namespace Piece

/-- The text that the piece is taken from. -/
def text : Piece → Text
  | .plain c => [c]
  | .dotted _ name => '.' :: name

/-- The same piece where no class selector can stand. -/
def bare : Piece → Piece
  | .plain c => .plain c
  | .dotted _ name => .dotted false name

/-- The name after a point that begins no class selector. -/
def stray? : Piece → Option Text
  | .plain _ => none
  | .dotted isClass name => if isClass then none else some name

end Piece

/-- The name is an identifier: it begins with no digit, also not after a hyphen. -/
def isIdentifier : Text → Bool
  | '-' :: t => t.head?.any fun c => !isAsciiDigit c
  | t => t.head?.any fun c => !isAsciiDigit c

/-- The pieces of a point and what was read after it, last character first. -/
def pointPieces (escaped : Bool) (read : Text) : List Piece :=
  if read.isEmpty then [.plain '.']
  else [.dotted (!escaped && isIdentifier read.reverse) read.reverse]

/-- Where the reader of pieces is. -/
inductive Mode where
  /-- Not in a name, perhaps behind a backslash. -/
  | between (escaped : Bool)
  /-- In the name after a point, which may stand behind a backslash. -/
  | named (escaped : Bool) (read : Text)
  /-- Behind a backslash in the name after a point. -/
  | slash (escaped : Bool) (read : Text)

namespace Mode

/-- The pieces that are complete with one more character, and where the reader is then.  In a name
stand word characters, hyphens and escaped characters, but no escaped line break. -/
def step : Mode → Char → List Piece × Mode
  | .between escaped, c =>
    if c == '.' then ([], .named escaped []) else ([.plain c], .between (!escaped && c == '\\'))
  | .named escaped read, c =>
    if c == '\\' then ([], .slash escaped read)
    else if isWord c || c == '-' then ([], .named escaped (c :: read))
    else if c == '.' then (pointPieces escaped read, .named false [])
    else (pointPieces escaped read ++ [.plain c], .between false)
  | .slash escaped read, c =>
    if c == '\n' then (pointPieces escaped read ++ [.plain '\\', .plain c], .between false)
    else ([], .named escaped (c :: '\\' :: read))

/-- The pieces that are complete at the end of a text. -/
def rest : Mode → List Piece
  | .between _ => []
  | .named escaped read => pointPieces escaped read
  | .slash escaped read => pointPieces escaped read ++ [.plain '\\']

/-- What has been read and belongs to no piece yet. -/
def pending : Mode → Text
  | .between _ => []
  | .named _ read => '.' :: read.reverse
  | .slash _ read => '.' :: read.reverse ++ ['\\']

/-- The next character is escaped. -/
def isEscaped : Mode → Bool
  | .between escaped => escaped
  | .named _ _ => false
  | .slash _ _ => true

end Mode

/-- The pieces of a text. -/
def piecesFrom (m : Mode) : Text → List Piece
  | [] => m.rest
  | c :: t => (m.step c).1 ++ piecesFrom (m.step c).2 t

/-- The pieces of a text by itself. -/
def pieces (t : Text) : List Piece := piecesFrom (.between false) t

/-- The pieces of a part.  In attribute selectors and strings there are no class selectors. -/
def Part.pieces (p : Part) : List Piece :=
  if p.sheltered then (ClassSelector.pieces p.text).map Piece.bare else ClassSelector.pieces p.text

/-- The pieces of a selector. -/
def cells (t : Text) : List Piece := (parts t).flatMap Part.pieces

/-- The names of a selector that stand after a point and are no class selectors. -/
def strays (t : Text) : List Text := (cells t).filterMap Piece.stray?

end ClassSelector

namespace ClassReplacement

open ClassSelector

/-- What a piece becomes, if only class selectors are replaced. -/
def onPiece (w : ClassReplacement) : Piece → Text
  | .plain c => [c]
  | .dotted isClass name => if isClass then w.selector name else '.' :: name

/-- What a piece becomes, if every name after a point is replaced. -/
def onDotted (w : ClassReplacement) : Piece → Text
  | .plain c => [c]
  | .dotted _ name => w.selector name

/-- Attribute selectors and strings are copied, and of what stands between them class selectors are
replaced and nothing else. -/
def replaceClasses (w : ClassReplacement) (t : Text) : Text :=
  (parts t).flatMap fun p =>
    if p.sheltered then p.text else (ClassSelector.pieces p.text).flatMap w.onPiece

end ClassReplacement

namespace ClassSelector

variable {s : Shelter} {m m' : Mode} {p : Part} {ps : List Part} {c d : Char} {t u : Text}

/-! ## The text of pieces -/

theorem flatMap_text_pointPieces (escaped : Bool) (read : Text) :
    (pointPieces escaped read).flatMap Piece.text = '.' :: read.reverse := by
  cases read with
  | nil => rfl
  | cons c read => simp [pointPieces, Piece.text]

theorem Mode.flatMap_text_rest (m : Mode) : m.rest.flatMap Piece.text = m.pending := by
  cases m with
  | between escaped => rfl
  | named escaped read => exact flatMap_text_pointPieces escaped read
  | slash escaped read =>
    rw [rest, pending, List.flatMap_append, flatMap_text_pointPieces]
    rfl

/-- One step moves a character from the text to the pieces or to what is pending. -/
theorem Mode.flatMap_text_step (m : Mode) (c : Char) :
    (m.step c).1.flatMap Piece.text ++ (m.step c).2.pending = m.pending ++ [c] := by
  cases m with
  | between escaped =>
    rw [step]
    split_ifs with hpoint
    · rw [beq_iff_eq] at hpoint
      subst hpoint
      rfl
    · rfl
  | named escaped read =>
    rw [step]
    split_ifs with hslash hname hpoint
    · rw [beq_iff_eq] at hslash
      subst hslash
      rfl
    · simp [pending]
    · rw [beq_iff_eq] at hpoint
      subst hpoint
      simp [pending, flatMap_text_pointPieces]
    · simp [pending, flatMap_text_pointPieces, Piece.text]
  | slash escaped read =>
    rw [step]
    split_ifs
    · simp [pending, flatMap_text_pointPieces, Piece.text]
    · simp [pending]

theorem flatMap_text_piecesFrom (m : Mode) (t : Text) :
    (piecesFrom m t).flatMap Piece.text = m.pending ++ t := by
  induction t generalizing m with
  | nil => rw [piecesFrom, m.flatMap_text_rest, List.append_nil]
  | cons c t ih =>
    rw [piecesFrom, List.flatMap_append, ih, ← List.append_assoc, m.flatMap_text_step,
      List.append_assoc]
    rfl

/-- The pieces of a text are all of it, in order. -/
theorem flatMap_text_pieces (t : Text) : (pieces t).flatMap Piece.text = t :=
  flatMap_text_piecesFrom (.between false) t

/-! ## Names -/

/-- The text is made of word characters, hyphens and escaped characters. -/
inductive IsNameRun : Text → Prop where
  | nil : IsNameRun []
  | char {c : Char} {t : Text} (h : (isWord c || c == '-') = true) :
      IsNameRun t → IsNameRun (c :: t)
  | escape {c : Char} {t : Text} (h : c ≠ '\n') : IsNameRun t → IsNameRun ('\\' :: c :: t)

theorem IsNameRun.append (ht : IsNameRun t) (hu : IsNameRun u) : IsNameRun (t ++ u) := by
  induction ht with
  | nil => exact hu
  | char hc _ ih => exact .char hc ih
  | escape hc _ ih => exact .escape hc ih

/-- If the piece is a point, a name stands behind it. -/
def Piece.IsNamed : Piece → Prop
  | .plain _ => True
  | .dotted _ name => name ≠ [] ∧ IsNameRun name

/-- What was read after a point is a name or the beginning of one. -/
def Mode.IsNamed : Mode → Prop
  | .between _ => True
  | .named _ read => IsNameRun read.reverse
  | .slash _ read => IsNameRun read.reverse

theorem isNamed_of_mem_pointPieces {escaped : Bool} {read : Text} (h : IsNameRun read.reverse)
    {x : Piece} (hx : x ∈ pointPieces escaped read) : x.IsNamed := by
  cases read with
  | nil =>
    rw [List.mem_singleton.1 hx]
    trivial
  | cons c read =>
    rw [List.mem_singleton.1 hx]
    exact ⟨by simp, h⟩

theorem Mode.isNamed_of_mem_rest (hm : m.IsNamed) {x : Piece} (hx : x ∈ m.rest) : x.IsNamed := by
  cases m with
  | between escaped => cases hx
  | named escaped read => exact isNamed_of_mem_pointPieces hm hx
  | slash escaped read =>
    rcases List.mem_append.1 hx with hx | hx
    · exact isNamed_of_mem_pointPieces hm hx
    · rw [List.mem_singleton.1 hx]
      trivial

/-- One step keeps the form of names. -/
theorem Mode.isNamed_step (hm : m.IsNamed) (c : Char) :
    (m.step c).2.IsNamed ∧ ∀ x ∈ (m.step c).1, x.IsNamed := by
  cases m with
  | between escaped =>
    rw [step]
    split_ifs with hpoint
    · exact ⟨.nil, fun x hx => by cases hx⟩
    · refine ⟨trivial, fun x hx => ?_⟩
      rw [List.mem_singleton.1 hx]
      trivial
  | named escaped read =>
    rw [step]
    split_ifs with hslash hname hpoint
    · exact ⟨hm, fun x hx => by cases hx⟩
    · refine ⟨?_, fun x hx => by cases hx⟩
      rw [IsNamed, List.reverse_cons]
      exact IsNameRun.append hm (.char hname .nil)
    · exact ⟨.nil, fun x hx => isNamed_of_mem_pointPieces hm hx⟩
    · refine ⟨trivial, fun x hx => ?_⟩
      rcases List.mem_append.1 hx with hx | hx
      · exact isNamed_of_mem_pointPieces hm hx
      · rw [List.mem_singleton.1 hx]
        trivial
  | slash escaped read =>
    rw [step]
    split_ifs with hbreak
    · refine ⟨trivial, fun x hx => ?_⟩
      rcases List.mem_append.1 hx with hx | hx
      · exact isNamed_of_mem_pointPieces hm hx
      · rcases List.mem_pair.1 hx with rfl | rfl <;> trivial
    · refine ⟨?_, fun x hx => by cases hx⟩
      rw [IsNamed, List.reverse_cons, List.reverse_cons, List.append_assoc]
      exact IsNameRun.append hm (.escape (by simpa using hbreak) .nil)

theorem isNamed_of_mem_piecesFrom (hm : m.IsNamed) {x : Piece} (hx : x ∈ piecesFrom m t) :
    x.IsNamed := by
  induction t generalizing m with
  | nil => exact Mode.isNamed_of_mem_rest hm hx
  | cons c t ih =>
    obtain ⟨hnext, hout⟩ := Mode.isNamed_step hm c
    rcases List.mem_append.1 hx with hx | hx
    · exact hout x hx
    · exact ih hnext hx

theorem Piece.isNamed_bare {x : Piece} (h : x.IsNamed) : x.bare.IsNamed := by
  cases x with
  | plain c => trivial
  | dotted isClass name => exact h

/-- Behind the points of a selector stand names. -/
theorem isNamed_of_mem_cells {x : Piece} (hx : x ∈ cells t) : x.IsNamed := by
  obtain ⟨p, -, hx⟩ := List.mem_flatMap.1 hx
  rw [Part.pieces] at hx
  split_ifs at hx
  · obtain ⟨y, hy, rfl⟩ := List.mem_map.1 hx
    exact Piece.isNamed_bare (isNamed_of_mem_piecesFrom (m := .between false) trivial hy)
  · exact isNamed_of_mem_piecesFrom (m := .between false) trivial hx

theorem ne_nil_of_mem_strays {name : Text} (h : name ∈ strays t) : name ≠ [] := by
  obtain ⟨x, hx, hname⟩ := List.mem_filterMap.1 h
  have hnamed := isNamed_of_mem_cells hx
  cases x with
  | plain c => cases hname
  | dotted isClass name' =>
    cases isClass with
    | true => cases hname
    | false =>
      cases hname
      exact hnamed.1

/-! ## The edges of parts -/

theorem Shelter.escaped_onMark (s : Shelter) (c : Char) : (s.onMark c).escaped = s.escaped := by
  rw [onMark]
  split
  · split_ifs <;> rfl
  all_goals rfl

theorem Shelter.escaped_step (s : Shelter) (c : Char) :
    (s.step c).escaped = (!s.escaped && c == '\\') := by
  rw [step]
  split_ifs with hescaped hslash
  · simp [hescaped]
  · simp [hescaped, hslash]
  · simp [escaped_onMark, hescaped, hslash]
  · simp [hescaped, hslash]

/-- Only marks that are not escaped open or close anything. -/
theorem Shelter.isOpen_step (h : s.escaped = true ∨ isMark c = false) :
    (s.step c).isOpen = s.isOpen := by
  rw [step]
  split_ifs with hescaped hslash hmark
  · rfl
  · rfl
  · rcases h with h | h
    · exact absurd h hescaped
    · rw [hmark] at h
      cases h
  · rfl

/-- Where a part ends, nothing is escaped, and a mark stands before or behind. -/
theorem Shelter.edge_of_covers_ne (h : s.covers c ≠ (s.step c).covers d) :
    (s.step c).escaped = false ∧ (isMark c = true ∧ s.escaped = false ∨ isMark d = true) := by
  constructor
  · by_contra hescaped
    rw [Bool.not_eq_false] at hescaped
    have hslash := hescaped
    rw [escaped_step, Bool.and_eq_true, beq_iff_eq] at hslash
    have hc : (s.step c).isOpen = s.isOpen := isOpen_step (Or.inr (by rw [hslash.2]; decide))
    have hd : ((s.step c).step d).isOpen = (s.step c).isOpen := isOpen_step (Or.inl hescaped)
    exact h (by rw [covers, covers, hd, hc])
  · by_contra hmark
    rw [not_or, not_and, Bool.not_eq_false, Bool.not_eq_true] at hmark
    have hc : (s.step c).isOpen = s.isOpen := by
      refine isOpen_step ?_
      cases hm : isMark c with
      | true => exact Or.inl (hmark.1 hm)
      | false => exact Or.inr rfl
    have hd : ((s.step c).step d).isOpen = (s.step c).isOpen := isOpen_step (Or.inr hmark.2)
    exact h (by rw [covers, covers, hd, hc])

/-- The first part of a text begins with its first character. -/
theorem exists_of_partsFrom_cons (h : partsFrom s t = p :: ps) :
    ∃ d u, p.sheltered = s.covers d ∧ p.text = d :: u := by
  cases t with
  | nil => cases h
  | cons d t =>
    rw [partsFrom] at h
    cases hrest : partsFrom (s.step d) t with
    | nil =>
      rw [hrest, consPart, List.cons.injEq] at h
      obtain ⟨rfl, -⟩ := h
      exact ⟨d, [], rfl, rfl⟩
    | cons p' ps' =>
      rw [hrest, consPart] at h
      split_ifs at h <;> (cases h; exact ⟨d, _, rfl, rfl⟩)

/-! ## Pieces do not reach over an edge -/

theorem Mode.isEscaped_step (hm : m.isEscaped = s.escaped) (c : Char) :
    (m.step c).2.isEscaped = (s.step c).escaped := by
  rw [Shelter.escaped_step, ← hm]
  cases m with
  | between escaped =>
    rw [step]
    split_ifs with hpoint
    · rw [beq_iff_eq] at hpoint
      subst hpoint
      simp [isEscaped]
    · rfl
  | named escaped read =>
    rw [step]
    split_ifs with hslash hname hpoint <;> simp_all [isEscaped]
  | slash escaped read =>
    rw [step]
    split_ifs <;> simp [isEscaped]

theorem eq_of_isMark (h : isMark c = true) : c = '[' ∨ c = ']' ∨ c = '\'' ∨ c = '"' := by
  simp only [isMark, Bool.or_eq_true, beq_iff_eq, Option.isSome_iff_exists] at h
  rcases h with (h | h) | ⟨q, hq⟩
  · exact Or.inl h
  · exact Or.inr (Or.inl h)
  · unfold quote? at hq
    split at hq
    · exact Or.inr (Or.inr (Or.inl rfl))
    · exact Or.inr (Or.inr (Or.inr rfl))
    · cases hq

/-- A mark belongs to no name. -/
theorem Mode.step_of_isMark (hm : m.isEscaped = false) (hc : isMark c = true) :
    m.step c = (m.rest ++ [.plain c], .between false) := by
  have hout : c ≠ '.' ∧ c ≠ '\\' ∧ c ≠ '-' ∧ isWord c = false := by
    rcases eq_of_isMark hc with rfl | rfl | rfl | rfl <;> decide
  obtain ⟨hpoint, hslash, hhyphen, hword⟩ := hout
  cases m with
  | between escaped => simp [step, rest, hpoint, hslash]
  | named escaped read => simp [step, rest, hpoint, hslash, hhyphen, hword]
  | slash escaped read => cases hm

/-- What is read behind an edge is read as if nothing stood before it. -/
theorem piecesFrom_of_isMark (hm : m.isEscaped = false) (hd : isMark d = true) (u : Text) :
    piecesFrom m (d :: u) = m.rest ++ pieces (d :: u) := by
  rw [pieces, piecesFrom, piecesFrom, Mode.step_of_isMark hm hd, Mode.step_of_isMark rfl hd]
  simp [Mode.rest]

/-- The pieces of parts one after the other, where the reader begins in a mode. -/
def onParts (m : Mode) : List Part → List Piece
  | [] => m.rest
  | p :: ps => piecesFrom m p.text ++ ps.flatMap fun p => pieces p.text

/-- A point and its name never reach over the edge of an attribute selector or a string. -/
theorem piecesFrom_eq_onParts (hm : m.isEscaped = s.escaped) (t : Text) :
    piecesFrom m t = onParts m (partsFrom s t) := by
  -- what is kept is that both readers take the same characters for escaped ones
  induction t generalizing m s with
  | nil => rfl
  | cons c t ih =>
    have hnext := ih (Mode.isEscaped_step hm c)
    rw [piecesFrom, partsFrom, hnext]
    cases hparts : partsFrom (s.step c) t with
    | nil => simp [onParts, consPart, piecesFrom]
    | cons p ps =>
      rw [consPart]
      split_ifs with hsame
      · simp [onParts, piecesFrom]
      · -- the part before ends here: its last character or the next one is a mark, and neither
        -- goes on with a name
        obtain ⟨d, u, hsheltered, htext⟩ := exists_of_partsFrom_cons hparts
        rw [hsheltered] at hsame
        obtain ⟨hescaped, hmark⟩ := Shelter.edge_of_covers_ne (Ne.symm hsame)
        have hcut : piecesFrom (m.step c).2 p.text = (m.step c).2.rest ++ pieces p.text := by
          rcases hmark with ⟨hc, hs⟩ | hd
          · rw [Mode.step_of_isMark (hm.trans hs) hc]
            rfl
          · rw [htext]
            exact piecesFrom_of_isMark ((Mode.isEscaped_step hm c).trans hescaped) hd u
        rw [onParts, onParts, hcut]
        simp [piecesFrom]

theorem pieces_eq_flatMap_parts (t : Text) :
    pieces t = (parts t).flatMap fun p => pieces p.text := by
  rw [pieces, piecesFrom_eq_onParts (s := {}) rfl t, parts]
  cases partsFrom {} t with
  | nil => rfl
  | cons p ps => rfl

end ClassSelector

/-! ## The replacement, piece by piece -/

namespace ClassReplacement

open ClassSelector

variable {w : ClassReplacement} {t : Text}

theorem flatMap_onDotted_pointPieces (w : ClassReplacement) (escaped : Bool) (read : Text) :
    (pointPieces escaped read).flatMap w.onDotted = w.selector read.reverse := by
  cases read with
  | nil => rfl
  | cons c read => simp [pointPieces, onDotted]

/-- The mode of the reader behind a point and what was read after it. -/
def modeOf (escaped : Bool) : Option Text → Mode
  | none => .between escaped
  | some read => .named escaped read

theorem replaceFrom_eq (w : ClassReplacement) (escaped : Bool) (name : Option Text) (t : Text) :
    w.replaceFrom name t = (piecesFrom (modeOf escaped name) t).flatMap w.onDotted := by
  fun_induction replaceFrom w name t generalizing escaped with
  | case1 => rfl
  | case2 read => exact (flatMap_onDotted_pointPieces w escaped read).symm
  | case3 c t hpoint ih =>
    have hstep : (modeOf escaped none).step c = ([], modeOf escaped (some [])) := by
      simp [modeOf, Mode.step, hpoint]
    rw [piecesFrom, hstep]
    exact ih escaped
  | case4 c t hpoint ih =>
    have hstep : (modeOf escaped none).step c
        = ([.plain c], modeOf (!escaped && c == '\\') none) := by
      simp [modeOf, Mode.step, hpoint]
    rw [piecesFrom, hstep, ih (!escaped && c == '\\')]
    rfl
  | case5 read c t hbreak ih =>
    have hstep : (Mode.slash escaped read).step c
        = (pointPieces escaped read ++ [.plain '\\', .plain c], modeOf false none) := by
      simp [modeOf, Mode.step, hbreak]
    have hslash : (modeOf escaped (some read)).step '\\' = ([], .slash escaped read) := rfl
    rw [piecesFrom, hslash, piecesFrom, hstep, ih false]
    simp [flatMap_onDotted_pointPieces, onDotted]
  | case6 read c t hbreak ih =>
    have hstep : (Mode.slash escaped read).step c
        = ([], modeOf escaped (some (c :: '\\' :: read))) := by
      simp [modeOf, Mode.step, hbreak]
    have hslash : (modeOf escaped (some read)).step '\\' = ([], .slash escaped read) := rfl
    rw [piecesFrom, hslash, piecesFrom, hstep]
    exact ih escaped
  | case7 read c t hlast hname ih =>
    have hslash : c ≠ '\\' := by
      rintro rfl
      exact absurd hname (by decide)
    have hstep : (modeOf escaped (some read)).step c = ([], modeOf escaped (some (c :: read))) := by
      simp only [modeOf, Mode.step, beq_eq_false_iff_ne.2 hslash, hname]
      rfl
    rw [piecesFrom, hstep]
    exact ih escaped
  | case8 read c t hlast hname ihPoint ih =>
    by_cases hslash : c = '\\'
    · -- a backslash that ends the text belongs to no name
      have hnil : t = [] := by
        cases t with
        | nil => rfl
        | cons x t => exact (hlast x t hslash rfl).elim
      subst hslash hnil
      simp [modeOf, piecesFrom, Mode.step, Mode.rest, flatMap_onDotted_pointPieces, onDotted,
        replaceFrom]
    · by_cases hpoint : c = '.'
      · subst hpoint
        have hstep : (modeOf escaped (some read)).step '.'
            = (pointPieces escaped read, modeOf false (some [])) := by
          simp only [modeOf, Mode.step, beq_eq_false_iff_ne.2 hslash, if_neg hname]
          rfl
        rw [piecesFrom, hstep, List.flatMap_append, flatMap_onDotted_pointPieces, ← ihPoint false]
        rfl
      · have hstep : (modeOf escaped (some read)).step c
            = (pointPieces escaped read ++ [.plain c], modeOf false none) := by
          simp only [modeOf, Mode.step, beq_eq_false_iff_ne.2 hslash, if_neg hname,
            beq_eq_false_iff_ne.2 hpoint]
          rfl
        rw [piecesFrom, hstep, if_neg (by simpa using hpoint), ih false]
        simp [flatMap_onDotted_pointPieces, onDotted]

/-- Every name after a point is replaced, and all else is copied. -/
theorem replace_eq_flatMap_pieces (w : ClassReplacement) (t : Text) :
    w.replace t = (pieces t).flatMap w.onDotted :=
  replaceFrom_eq w false none t

theorem onDotted_bare (w : ClassReplacement) (x : Piece) : w.onDotted x.bare = w.onDotted x := by
  cases x <;> rfl

theorem onPiece_bare (w : ClassReplacement) (x : Piece) : w.onPiece x.bare = x.text := by
  cases x <;> rfl

/-- The replacement goes from piece to piece. -/
theorem replace_eq_flatMap_cells (w : ClassReplacement) (t : Text) :
    w.replace t = (cells t).flatMap w.onDotted := by
  rw [replace_eq_flatMap_pieces, pieces_eq_flatMap_parts, cells, List.flatMap_assoc,
    List.flatMap_assoc]
  refine List.flatMap_congr fun p _ => ?_
  rw [Part.pieces]
  split_ifs
  · simp [List.flatMap_map, onDotted_bare]
  · rfl

/-- So does that of class selectors alone. -/
theorem replaceClasses_eq_flatMap_cells (w : ClassReplacement) (t : Text) :
    w.replaceClasses t = (cells t).flatMap w.onPiece := by
  rw [replaceClasses, cells, List.flatMap_assoc]
  refine List.flatMap_congr fun p _ => ?_
  rw [Part.pieces]
  split_ifs
  · simp only [List.flatMap_map, onPiece_bare]
    exact (flatMap_text_pieces p.text).symm
  · rfl

end ClassReplacement

namespace ClassSelector

open ClassReplacement

/-! ## Names that are no class selectors -/

/-- A piece is replaced as it should be, or its name is a stray one. -/
theorem onDotted_eq_or (w : ClassReplacement) (x : Piece) :
    w.onDotted x = w.onPiece x ∨
      ∃ name, x.stray? = some name ∧ w.onDotted x = w.selector name ∧
        w.onPiece x = '.' :: name := by
  cases x with
  | plain c => exact Or.inl rfl
  | dotted isClass name =>
    cases isClass with
    | true => exact Or.inl rfl
    | false => exact Or.inr ⟨name, rfl, rfl, rfl⟩

/-- Where all stray names stand for themselves, only class selectors are replaced. -/
theorem replace_eq_of_strays {w : ClassReplacement} {t : Text}
    (h : ∀ name ∈ strays t, w.selector name = '.' :: name) : w.replace t = w.replaceClasses t := by
  rw [replace_eq_flatMap_cells, replaceClasses_eq_flatMap_cells]
  refine List.flatMap_congr fun x hx => ?_
  rcases onDotted_eq_or w x with heq | ⟨name, hname, hdotted, hpiece⟩
  · exact heq
  · rw [hdotted, hpiece]
    exact h name (List.mem_filterMap.2 ⟨x, hx, hname⟩)

/-- The first stray name makes a difference, if it is replaced by a text that does not begin with a
point. -/
theorem flatMap_ne_of_strays {w : ClassReplacement} {xs : List Piece} {name : Text}
    {names : List Text} (hs : xs.filterMap Piece.stray? = name :: names)
    (hw : (w.selector name).head?.any (· != '.') = true) :
    xs.flatMap w.onDotted ≠ xs.flatMap w.onPiece := by
  induction xs with
  | nil => cases hs
  | cons x xs ih =>
    intro h
    rw [List.flatMap_cons, List.flatMap_cons] at h
    cases x with
    | plain c => exact ih hs (List.append_cancel_left h)
    | dotted isClass name' =>
      cases isClass with
      | true => exact ih hs (List.append_cancel_left h)
      | false =>
        have hfirst : name' = name := (List.cons.inj hs).1
        subst hfirst
        cases hselector : w.selector name' with
        | nil =>
          rw [hselector] at hw
          cases hw
        | cons c rest =>
          rw [onDotted, hselector] at h
          rw [hselector, (List.cons.inj h).1] at hw
          cases hw

/-- A replacement that takes a single name for a component. -/
def only (name : Text) (byAttribute : Bool) : ClassReplacement where
  components := [(name, ['*'])]
  byAttribute := byAttribute

theorem selector_only {name : Text} (h : name ≠ []) (byAttribute : Bool) :
    ((only name byAttribute).selector name).head?.any (· != '.') = true := by
  have hempty : name.isEmpty = false := by simpa using h
  have hget : Table.get? name (only name byAttribute).components = some ['*'] := if_pos rfl
  rw [selector, hempty, hget]
  cases byAttribute <;> rfl

/-- Class selectors are replaced and nothing else where every stray name stands for itself.  A
selector without stray names is the only one of which this holds for all components. -/
theorem replace_eq_replaceClasses (t : Text) :
    (∀ w : ClassReplacement, (∀ name ∈ strays t, w.selector name = '.' :: name) →
      w.replace t = w.replaceClasses t) ∧
    ∀ byAttribute, (∀ components : Table Text, components.keys.Nodup →
      ClassReplacement.replace ⟨components, byAttribute⟩ t
        = replaceClasses ⟨components, byAttribute⟩ t) ↔ strays t = [] := by
  refine ⟨fun w h => replace_eq_of_strays h, fun byAttribute => ⟨fun h => ?_, fun h => ?_⟩⟩
  · cases hs : strays t with
    | nil => rfl
    | cons name names =>
      have hname : name ≠ [] := ne_nil_of_mem_strays (by rw [hs]; exact List.mem_cons_self)
      have heq := h (only name byAttribute).components (List.pairwise_singleton _ name)
      rw [replace_eq_flatMap_cells, replaceClasses_eq_flatMap_cells] at heq
      exact absurd heq (flatMap_ne_of_strays hs (selector_only hname byAttribute))
  · intro components _
    refine replace_eq_of_strays fun name hname => ?_
    rw [h] at hname
    cases hname

/-- A component with a string in brackets and an escaped mark behind it. -/
def shelteredSelector : Text := ".PlayButton[href=\".pdf\"]:not(.isOpen, .w-1\\.5)"

/-- The component is replaced by its element, the string and the escaped mark stay. -/
theorem replace_shelteredSelector :
    let w : ClassReplacement := { components := [("PlayButton", "media-play-button")] }
    strays shelteredSelector = ["pdf".toList] ∧
      w.replace shelteredSelector = w.replaceClasses shelteredSelector ∧
      w.replaceClasses shelteredSelector
        = "media-play-button[href=\".pdf\"]:not(.is-open, .w-1\\.5)".toList := by
  have hstrays : strays shelteredSelector = ["pdf".toList] := by decide +kernel
  refine ⟨hstrays, (replace_eq_replaceClasses shelteredSelector).1 _ ?_, by decide +kernel⟩
  rw [hstrays]
  decide

/-- An extension in capitals in the string of an attribute selector. -/
def extensionSelector : Text := "a[href$=\".PDF\"]"

/-- Its capitals are lost. -/
theorem replace_extensionSelector :
    strays extensionSelector = ["PDF".toList] ∧
      replaceClasses {} extensionSelector = extensionSelector ∧
      ClassReplacement.replace {} extensionSelector = "a[href$=\".pdf\"]".toList ∧
      ClassReplacement.replace {} extensionSelector ≠ replaceClasses {} extensionSelector := by
  decide

end ClassSelector

end SkinCompiler
