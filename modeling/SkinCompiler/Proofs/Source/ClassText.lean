import SkinCompiler.Proofs.Source.Node
import SkinCompiler.Proofs.Text.Words
import SkinCompiler.Source.ClassText

/-!
# Class texts of template literals

A template literal whose placeholders are strings, or template literals of the same kind, evaluates
to a string that is known beforehand: its texts and those of its placeholders, with nothing in
between.  Its class text has the words of the same texts, but sets every placeholder apart from what
stands around it.

* `Node.value?` -- the string that such a literal evaluates to;
* `Node.pieces?` -- the texts that it puts together;
* `words_classText` -- the class text has the words of each of them, and the words of the string
  just if no two of them meet in the middle of a word.
-/

namespace SkinCompiler.Source

open Text

/-! ## What a literal evaluates to -/

/-- The texts of a template literal, each with the string of the placeholder after it. -/
def concatenate? : List Text → List Text → Option Text
  | [t], [] => some t
  | t :: ts, v :: vs => (concatenate? ts vs).map (t ++ v ++ ·)
  | _, _ => none

/-- The texts of a template literal, each with the texts of the placeholder after it. -/
def interleave? : List Text → List (List Text) → Option (List Text)
  | [t], [] => some [t]
  | t :: ts, p :: ps => (interleave? ts ps).map fun rest => t :: (p ++ rest)
  | _, _ => none

namespace Node

mutual

/-- The string that a string literal evaluates to, or a template literal with no other placeholders
than these two. -/
def value? : Node → Option Text
  | .literal _ (.text value) => some value
  | .template _ texts placeholders => (values? placeholders).bind (concatenate? texts)
  | _ => none

/-- The strings that a row of such literals evaluates to. -/
def values? : List Node → Option (List Text)
  | [] => some []
  | n :: ns => (value? n).bind fun v => (values? ns).map (v :: ·)

end

mutual

/-- The texts that such a literal puts together, in their order. -/
def pieces? : Node → Option (List Text)
  | .literal _ (.text value) => some [value]
  | .template _ texts placeholders => (piecesOfRow? placeholders).bind (interleave? texts)
  | _ => none

/-- The texts that each literal of a row puts together. -/
def piecesOfRow? : List Node → Option (List (List Text))
  | [] => some []
  | n :: ns => (pieces? n).bind fun p => (piecesOfRow? ns).map (p :: ·)

end

end Node

variable {n : Node} {ns : List Node} {texts : List Text} {rows : List (List Text)}

theorem concatenate?_flatten (texts : List Text) (rows : List (List Text)) :
    concatenate? texts (rows.map List.flatten) = (interleave? texts rows).map List.flatten := by
  induction texts generalizing rows with
  | nil => cases rows <;> rfl
  | cons t ts ih =>
    cases rows with
    | nil => cases ts <;> simp [concatenate?, interleave?]
    | cons p ps =>
      rw [List.map_cons, concatenate?, interleave?, ih, Option.map_map, Option.map_map]
      congr 1
      funext rest
      simp

mutual

/-- The string is made of the texts, with nothing in between. -/
theorem value?_eq (n : Node) : n.value? = n.pieces?.map List.flatten := by
  cases n with
  | literal s v => cases v <;> simp [Node.value?, Node.pieces?]
  | template s texts placeholders =>
    rw [Node.value?, Node.pieces?, values?_eq placeholders]
    cases Node.piecesOfRow? placeholders with
    | none => rfl
    | some rows => exact concatenate?_flatten texts rows
  | _ => rfl

theorem values?_eq (ns : List Node) :
    Node.values? ns = (Node.piecesOfRow? ns).map (List.map List.flatten) := by
  cases ns with
  | nil => rfl
  | cons n ns =>
    rw [Node.values?, Node.piecesOfRow?, value?_eq n, values?_eq ns]
    cases n.pieces? with
    | none => rfl
    | some p => cases Node.piecesOfRow? ns <;> rfl

end

/-! ## Words of a class text -/

/-- A class text keeps the words of each of the texts. -/
theorem flatMap_words_joinTemplate {pieces : List Text} (hrow : interleave? texts rows = some pieces)
    {classes : List (Option Text)}
    (h : List.Forall₂ (fun c p => ∃ t, c = some t ∧ words t = p.flatMap words) classes rows) :
    (joinTemplate texts classes).flatMap words = pieces.flatMap words := by
  induction h generalizing texts pieces with
  | nil =>
    obtain ⟨t, rfl⟩ : ∃ t, texts = [t] := by
      rcases texts with _ | ⟨t, _ | ⟨t', ts⟩⟩ <;> simp [interleave?] at hrow ⊢
    obtain rfl := Option.some.inj hrow
    rfl
  | @cons c p classes rows hfirst _ ih =>
    obtain ⟨t, rfl, hwords⟩ := hfirst
    cases texts with
    | nil => cases hrow
    | cons own ts =>
      rw [interleave?, Option.map_eq_some_iff] at hrow
      obtain ⟨rest, hrest, rfl⟩ := hrow
      have hown : words (if t.isEmpty then own else own ++ " " ++ t ++ " ") =
          words own ++ words t := by
        cases t with
        | nil => simp [words, cutWhere]
        | cons x t =>
          have hspace : isBlankText " " = true := by decide
          rw [if_neg (by simp), words_of_blank_right hspace, words_append (by simp) hspace]
      rw [joinTemplate, List.flatMap_cons, hown, ih hrest, hwords]
      simp

mutual

theorem exists_classText {pieces : List Text} (n : Node) (h : n.pieces? = some pieces) :
    ∃ text, classText n = some text ∧ words text = pieces.flatMap words := by
  cases n with
  | literal s v =>
    cases v with
    | text value =>
      obtain rfl := Option.some.inj h
      exact ⟨value, rfl, by simp⟩
    | _ => cases h
  | template s texts placeholders =>
    obtain ⟨rows, hrows, hpieces⟩ := Option.bind_eq_some_iff.1 h
    have hclasses := forall₂_classTexts placeholders hrows
    refine ⟨_, rfl, ?_⟩
    rw [words_collapse, words_join_space, flatMap_words_joinTemplate hpieces hclasses]
  | _ => cases h

theorem forall₂_classTexts {rows : List (List Text)} (ns : List Node)
    (h : Node.piecesOfRow? ns = some rows) :
    List.Forall₂ (fun c p => ∃ t, c = some t ∧ words t = p.flatMap words) (classTexts ns) rows := by
  cases ns with
  | nil =>
    obtain rfl := Option.some.inj h
    exact .nil
  | cons n ns =>
    obtain ⟨p, hp, hrest⟩ := Option.bind_eq_some_iff.1 h
    obtain ⟨rows, hrows, rfl⟩ := Option.map_eq_some_iff.1 hrest
    exact .cons (exists_classText n hp) (forall₂_classTexts ns hrows)

end

/-- The class text of a template literal of strings has the words of each of its texts, in their
order.  They are the words of the string it evaluates to just if no two of the texts meet in the
middle of a word. -/
theorem words_classText (n : Node) (value : Text) (h : n.value? = some value) :
    ∃ pieces text, n.pieces? = some pieces ∧ value = pieces.flatten ∧ classText n = some text ∧
      words text = pieces.flatMap words ∧ (words text = words value ↔ AreApart pieces) := by
  rw [value?_eq] at h
  obtain ⟨pieces, hpieces, rfl⟩ := Option.map_eq_some_iff.1 h
  obtain ⟨text, htext, hwords⟩ := exists_classText n hpieces
  refine ⟨pieces, text, hpieces, rfl, htext, hwords, ?_⟩
  rw [hwords, eq_comm]
  exact words_flatten_iff pieces

/-- A string literal, at no place in particular. -/
def stringNode (value : Text) : Node := .literal ⟨0, 0⟩ (.text value)

/-- Blanks at the ends of the texts keep the words of nested literals apart. -/
theorem words_classText_nested :
    let inner : Node := .template ⟨0, 0⟩ ["hover:", ""] [stringNode " flex"]
    let n : Node := .template ⟨0, 0⟩ ["p-2 ", "\n", ""] [inner, stringNode ""]
    n.value? = some "p-2 hover: flex\n" ∧ ∃ text, classText n = some text ∧
      words text = ["p-2", "hover:", "flex"].map String.toList := by
  intro inner n
  have hvalue : n.value? = some "p-2 hover: flex\n" := by decide +kernel
  obtain ⟨pieces, text, hpieces, -, htext, -, hiff⟩ := words_classText n _ hvalue
  have hapart : AreApart pieces := by
    obtain rfl : ["p-2 ", "hover:", " flex", "", "\n", "", ""].map String.toList = pieces :=
      Option.some.inj (hpieces ▸ (by decide +kernel))
    decide +kernel
  refine ⟨hvalue, text, htext, ?_⟩
  rw [hiff.2 hapart]
  decide +kernel

/-- A placeholder in the middle of a word makes two words of it. -/
theorem words_classText_split : ¬∀ n value, Node.value? n = some value →
    ∃ text, classText n = some text ∧ words text = words value := by
  intro h
  have hvalue : (Node.template ⟨0, 0⟩ ["p-", ""] [stringNode "4"]).value? = some "p-4" := by
    decide +kernel
  obtain ⟨text, htext, hwords⟩ := h _ _ hvalue
  have hclass : classText (.template ⟨0, 0⟩ ["p-", ""] [stringNode "4"]) = some "p- 4" := by
    decide +kernel
  obtain rfl := Option.some.inj (hclass.symm.trans htext)
  revert hwords
  decide +kernel

end SkinCompiler.Source
