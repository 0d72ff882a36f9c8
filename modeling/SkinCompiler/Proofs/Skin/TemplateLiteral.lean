import Mathlib.Data.List.Basic
import SkinCompiler.Proofs.Text.Line
import SkinCompiler.Skin.ElementModule

/-!
# Template literals

How a template literal is read in a module: a backslash escapes what follows it, a backquote ends
the literal, and a dollar sign with a brace begins a placeholder.  An escaped text reads as itself.

* `TemplateLiteral.read` -- the reader, from behind the opening backquote;
* `escapeTemplate_eq_replace` -- escaping, as three replacements one after the other;
* `lines_escapeTemplate` -- escaping leaves the lines of a text as they are;
* `read_escapeTemplate` -- an escaped line reads as the line.
-/

namespace SkinCompiler.Skin

/-- What a template literal denotes. -/
structure TemplateLiteral where
  /-- The text up to the first placeholder. -/
  text : Text
  /-- The source of every placeholder, with the text behind it. -/
  placeholders : List (Text × Text)
  deriving DecidableEq

namespace TemplateLiteral

/-- A literal with more text in front of it, and what stands behind it. -/
def prepend (a : Text) (l : TemplateLiteral × Text) : TemplateLiteral × Text :=
  ({ l.1 with text := a ++ l.1.text }, l.2)

/-- The letters that stand for a control character behind a backslash. -/
def controls : List (Char × Char) :=
  [('b', '\x08'), ('t', '\t'), ('n', '\n'), ('v', '\x0b'), ('f', '\x0c'), ('r', '\r')]

/-- What a character denotes behind a backslash.  The end of a line denotes nothing; escapes by
number are not read. -/
def escaped? (c : Char) : Option Text :=
  if Text.isAsciiDigit c || c == 'x' || c == 'u' then none
  else if c ∈ ['\n', '\r', '\u2028', '\u2029'] then some []
  else some [(controls.lookup c).getD c]

mutual

/-- Read a literal from behind its opening backquote: what it denotes, and what stands behind its
closing backquote. -/
def read : Text → Option (TemplateLiteral × Text)
  | [] => none
  | '\x60' :: t => some (⟨[], []⟩, t)
  | '$' :: '\x7b' :: t =>
    (readCode 0 t).map fun (code, l, rest) => (⟨[], (code, l.text) :: l.placeholders⟩, rest)
  | '\\' :: '\r' :: '\n' :: t => read t
  | '\\' :: c :: t => (escaped? c).bind fun a => (read t).map (prepend a)
  | '\r' :: '\n' :: t => (read t).map (prepend ['\n'])
  | '\r' :: t => (read t).map (prepend ['\n'])
  | c :: t => (read t).map (prepend [c])

/-- Read the rest of a placeholder, inside `depth` braces of its own: its source, the literal behind
it, and what stands behind that.  Placeholders that hold strings, other templates or slashes are not
read. -/
def readCode (depth : Nat) : Text → Option (Text × TemplateLiteral × Text)
  | [] => none
  | '\x7d' :: t =>
    match depth with
    | 0 => (read t).map fun l => ([], l)
    | depth + 1 => (readCode depth t).map fun (code, l) => ('\x7d' :: code, l)
  | '\x7b' :: t => (readCode (depth + 1) t).map fun (code, l) => ('\x7b' :: code, l)
  | c :: t =>
    if c ∈ ['\'', '"', '\x60', '/'] then none
    else (readCode depth t).map fun (code, l) => (c :: code, l)

end

/-- Behind a backslash, a backquote does not end the literal and a brace begins no placeholder. -/
example : read "\\\x60$\\\x7b$\x7bx\x7d\\$\x7b\x60;" =
    some (TemplateLiteral.mk "\x60$\x7b" [("x", "$\x7b")], ";".toList) := by decide

variable {a b t code rest : Text} {c : Char}

theorem prepend_comp (a b : Text) : prepend a ∘ prepend b = prepend (a ++ b) := by
  funext l
  simp [prepend]

theorem prepend_nil : prepend [] = id := rfl

/-! ## Plain text -/

/-- A character that stands for itself wherever it stands in a literal. -/
def IsPlain (c : Char) : Prop := c ∉ ['\x60', '$', '\\', '\r']

instance (c : Char) : Decidable (IsPlain c) := inferInstanceAs (Decidable (c ∉ _))

theorem read_cons (hquote : c ≠ '\x60') (hslash : c ≠ '\\') (hreturn : c ≠ '\r')
    (hdollar : c = '$' → t.head? ≠ some '\x7b') :
    read (c :: t) = (read t).map (prepend [c]) := by
  cases t with
  | nil => simp [read]
  | cons d t =>
    rw [read] <;> simp_all

theorem read_plain (h : ∀ c ∈ a, IsPlain c) : read (a ++ t) = (read t).map (prepend a) := by
  induction a with
  | nil => simp [prepend_nil]
  | cons c a ih =>
    have hc := h c List.mem_cons_self
    simp only [IsPlain, List.mem_cons, List.not_mem_nil, or_false, not_or] at hc
    obtain ⟨hquote, hdollar, hslash, hreturn⟩ := hc
    rw [List.cons_append, read_cons hquote hslash hreturn fun h => absurd h hdollar,
      ih fun x hx => h x (List.mem_cons_of_mem _ hx), Option.map_map, prepend_comp]
    rfl

theorem read_placeholder (h : ∀ c ∈ code, c ∉ ['\x7b', '\x7d', '\'', '"', '\x60', '/']) :
    read ('$' :: '\x7b' :: (code ++ '\x7d' :: t)) =
      (read t).map fun l => (⟨[], (code, l.1.text) :: l.1.placeholders⟩, l.2) := by
  have hcode : readCode 0 (code ++ '\x7d' :: t) = (read t).map fun l => (code, l) := by
    induction code with
    | nil => simp [readCode]
    | cons c code ih =>
      have hc := h c List.mem_cons_self
      simp only [List.mem_cons, List.not_mem_nil, or_false, not_or] at hc
      rw [List.cons_append, readCode, ih fun x hx => h x (List.mem_cons_of_mem _ hx),
        Option.map_map] <;> simp_all [Function.comp_def]
  rw [read, hcode, Option.map_map]
  rfl

end TemplateLiteral

namespace ElementModule

open TemplateLiteral

variable {l t rest : Text} {c : Char}

/-! ## Escaping -/

/-- What is written for a character, apart from a dollar sign in front of a brace. -/
def escape (c : Char) : Text := if c == '\\' || c == '\x60' then ['\\', c] else [c]

theorem escapeTemplate_brace (t : Text) :
    escapeTemplate ('$' :: '\x7b' :: t) = '\\' :: '$' :: '\x7b' :: escapeTemplate t := rfl

theorem escapeTemplate_cons (h : c = '$' → t.head? ≠ some '\x7b') :
    escapeTemplate (c :: t) = escape c ++ escapeTemplate t := by
  cases t with
  | nil => simp [escapeTemplate, escape]
  | cons d t =>
    rw [escapeTemplate] <;> simp_all [escape]

/-- A text is taken apart as it is escaped: a dollar sign and a brace, or one character. -/
theorem templateInduction {motive : Text → Prop} (nil : motive [])
    (brace : ∀ t, motive t → motive ('$' :: '\x7b' :: t))
    (cons : ∀ c t, (c = '$' → t.head? ≠ some '\x7b') → motive t → motive (c :: t)) (t : Text) :
    motive t := by
  fun_induction escapeTemplate t with
  | case1 t ih => exact brace t ih
  | case2 c t hbrace ih =>
    refine cons c t (fun hc hhead => ?_) ih
    obtain ⟨t', rfl⟩ := List.head?_eq_some_iff.1 hhead
    exact hbrace t' hc rfl
  | case3 => exact nil

/-- Escaping puts nothing but a backslash in front. -/
theorem head?_escapeTemplate (t : Text) :
    (escapeTemplate t).head? = t.head? ∨ (escapeTemplate t).head? = some '\\' := by
  induction t using templateInduction with
  | nil => exact Or.inl rfl
  | brace t ih => exact Or.inr rfl
  | cons c t h ih =>
    rw [escapeTemplate_cons h, escape]
    split
    · exact Or.inr rfl
    · exact Or.inl rfl

theorem isBlankText_escapeTemplate (t : Text) :
    Text.isBlankText (escapeTemplate t) = Text.isBlankText t := by
  induction t using templateInduction with
  | nil => rfl
  | brace t ih =>
    rfl
  | cons c t h ih =>
    rw [escapeTemplate_cons h, escape]
    split
    · rename_i hc
      have hblank : Text.isBlank c = false := by
        rcases Bool.or_eq_true_iff.1 hc with hc | hc <;> rw [beq_iff_eq.1 hc] <;> decide
      simp [Text.isBlankText, hblank]
    · rw [Text.isBlankText, Text.isBlankText] at *
      simp [ih]

theorem head?_flatMap_escape (t : Text) :
    (t.flatMap escape).head? = t.head? ∨ (t.flatMap escape).head? = some '\\' := by
  cases t with
  | nil => exact Or.inl rfl
  | cons c t =>
    rw [List.flatMap_cons, escape]
    split
    · exact Or.inr rfl
    · exact Or.inl rfl

theorem escapeTemplate_eq_replace (t : Text) : escapeTemplate t =
    Text.replace "$\x7b" "\\$\x7b" (Text.replace "\x60" "\\\x60" (Text.replace "\\" "\\\\" t)) := by
  have hescape : Text.replace "\x60" "\\\x60" (Text.replace "\\" "\\\\" t) = t.flatMap escape := by
    have hslash := Text.replace_singleton '\\' "\\\\" t
    have hquote := Text.replace_singleton '\x60' "\\\x60" (Text.replace ['\\'] "\\\\" t)
    refine hquote.trans ?_
    rw [hslash, List.flatMap_assoc]
    refine congrArg (List.flatMap · t) (funext fun c => ?_)
    by_cases hc : c = '\\'
    · subst hc; rfl
    · by_cases hc' : c = '\x60'
      · subst hc'; rfl
      · simp [hc, hc', escape]
  rw [hescape]
  have hbrace : ∀ {u : Text} {x : Char}, (x = '$' → u.head? ≠ some '\x7b') →
      Text.replace "$\x7b" "\\$\x7b" (x :: u) = x :: Text.replace "$\x7b" "\\$\x7b" u :=
    Text.replace_cons
  clear hescape
  induction t using templateInduction with
  | nil => rfl
  | brace t ih =>
    rw [escapeTemplate_brace, ih]
    exact (Text.replace_cons_cons '$' '\x7b' "\\$\x7b" (t.flatMap escape)).symm
  | cons c t h ih =>
    have hc : c = '$' → (t.flatMap escape).head? ≠ some '\x7b' := by
      intro hdollar hhead
      rcases head?_flatMap_escape t with hsame | hslash
      · exact h hdollar (hsame ▸ hhead)
      · rw [hslash] at hhead
        simp at hhead
    rw [escapeTemplate_cons h, List.flatMap_cons, ih, escape]
    split
    · have hslash := hbrace (u := c :: t.flatMap escape) (x := '\\') (by simp)
      exact (congrArg ('\\' :: ·) (hbrace hc).symm).trans hslash.symm
    · exact (hbrace hc).symm

/-! ## Lines -/

theorem escape_ne_nil (c : Char) : escape c ≠ [] := by
  rw [escape]
  split <;> exact List.cons_ne_nil _ _

theorem isLineEnd_of_mem_escape {x : Char} (h : Text.isLineEnd c = false) (hx : x ∈ escape c) :
    Text.isLineEnd x = false := by
  rw [escape] at hx
  split at hx
  · rcases List.mem_cons.1 hx with rfl | hx
    · decide
    · rwa [List.mem_singleton.1 hx]
  · rwa [List.mem_singleton.1 hx]

theorem escape_of_isLineEnd (h : Text.isLineEnd c = true) : escape c = [c] := by
  rw [escape, if_neg]
  rw [Bool.or_eq_true_iff, beq_iff_eq, beq_iff_eq]
  rintro (rfl | rfl) <;> simp [Text.isLineEnd] at h

/-- More text in front of the first line, escaped with it. -/
theorem map_extendLines {ls : List Text} (h : c = '$' → ∀ l ∈ ls.head?, l.head? ≠ some '\x7b') :
    (Text.extendLines [c] ls).map escapeTemplate =
      Text.extendLines (escape c) (ls.map escapeTemplate) := by
  cases ls with
  | nil =>
    have hc : escapeTemplate [c] = escape c ++ escapeTemplate [] := escapeTemplate_cons (by simp)
    exact congrArg (fun l => [l]) (hc.trans (List.append_nil _))
  | cons l ls =>
    have hc : escapeTemplate (c :: l) = escape c ++ escapeTemplate l :=
      escapeTemplate_cons fun hdollar => h hdollar l rfl
    exact congrArg (· :: ls.map escapeTemplate) hc

/-- Escaping leaves the lines of a text as they are: each of them is escaped. -/
theorem lines_escapeTemplate (t : Text) :
    Text.lines (escapeTemplate t) = (Text.lines t).map escapeTemplate := by
  induction t using templateInduction with
  | nil => rfl
  | brace t ih =>
    have hleft := Text.lines_append (a := ['\\', '$', '\x7b']) (t := escapeTemplate t)
      (List.cons_ne_nil _ _) (List.forall_iff_forall_mem.1 (by decide))
    have hright := Text.lines_append (a := ['$', '\x7b']) (t := t) (List.cons_ne_nil _ _)
      (List.forall_iff_forall_mem.1 (by decide))
    rw [ih] at hleft
    refine hleft.trans (Eq.trans ?_ (congrArg (List.map escapeTemplate) hright.symm))
    cases Text.lines t <;> rfl
  | cons c t h ih =>
    rw [escapeTemplate_cons h]
    cases hend : Text.isLineEnd c with
    | false =>
      have hfirst : c = '$' → ∀ l ∈ (Text.lines t).head?, l.head? ≠ some '\x7b' := by
        intro hc l hl hhead
        obtain ⟨ls, hlines⟩ := List.head?_eq_some_iff.1 hl
        rcases Text.head?_line hlines with hnone | hsome
        · rw [hnone] at hhead
          cases hhead
        · exact h hc (hsome ▸ hhead)
      rw [Text.lines_append (escape_ne_nil c) fun x hx => isLineEnd_of_mem_escape hend hx,
        Text.lines_cons hend, ih, map_extendLines hfirst]
    | true =>
      rw [escape_of_isLineEnd hend, List.singleton_append]
      by_cases hreturn : c = '\r' ∧ t.head? = some '\n'
      · -- the two characters are one end, so that the line feed has no line of its own
        obtain ⟨rfl, hhead⟩ := hreturn
        obtain ⟨t, rfl⟩ := List.head?_eq_some_iff.1 hhead
        rw [escapeTemplate_cons (by simp), escape_of_isLineEnd (by decide), List.singleton_append,
          Text.lines_end (by decide) (by simp), Text.lines_end (by decide) (by simp),
          List.map_cons, List.cons.injEq] at ih
        rw [escapeTemplate_cons (by simp), escape_of_isLineEnd (by decide), List.singleton_append,
          Text.lines_return, Text.lines_return, ih.2]
        rfl
      · have hescaped : c = '\r' → (escapeTemplate t).head? ≠ some '\n' := by
          intro hc hhead
          rcases head?_escapeTemplate t with hsame | hslash
          · exact hreturn ⟨hc, hsame ▸ hhead⟩
          · rw [hslash] at hhead
            simp at hhead
        rw [Text.lines_end hend hescaped, Text.lines_end hend fun hc hhead => hreturn ⟨hc, hhead⟩,
          ih]
        rfl

/-! ## Reading back -/

theorem read_escape (hreturn : c ≠ '\r')
    (hdollar : c = '$' → t.head? ≠ some '\x7b') :
    read (escape c ++ t) = (read t).map (prepend [c]) := by
  rw [escape]
  split
  · rename_i hc
    rcases Bool.or_eq_true_iff.1 hc with hc | hc <;> rw [beq_iff_eq.1 hc] <;> rfl
  · rename_i hc
    rw [Bool.or_eq_true_iff, beq_iff_eq, beq_iff_eq, not_or] at hc
    exact read_cons hc.2 hc.1 hreturn hdollar

/-- An escaped text reads as the text, in front of anything that does not begin with a brace. -/
theorem read_escapeTemplate (h : ∀ c ∈ t, c ≠ '\r') (hrest : rest.head? ≠ some '\x7b') :
    read (escapeTemplate t ++ rest) = (read rest).map (prepend t) := by
  induction t using templateInduction with
  | nil =>
    rw [prepend_nil, Option.map_id]
    rfl
  | brace t ih =>
    have hbrace : read ('\x7b' :: (escapeTemplate t ++ rest)) =
        (read (escapeTemplate t ++ rest)).map (prepend ['\x7b']) :=
      read_cons (by decide) (by decide) (by decide) (by simp)
    have hdollar : read (escapeTemplate ('$' :: '\x7b' :: t) ++ rest) =
        (read ('\x7b' :: (escapeTemplate t ++ rest))).map (prepend ['$']) := rfl
    rw [hdollar, hbrace, ih fun c hc => h c (by simp [hc]), Option.map_map, Option.map_map,
      prepend_comp, prepend_comp]
    rfl
  | cons c t hc ih =>
    have hnext : c = '$' → (escapeTemplate t ++ rest).head? ≠ some '\x7b' := by
      intro hdollar hhead
      rw [List.head?_append, Option.or_eq_some_iff] at hhead
      rcases hhead with hhead | ⟨-, hhead⟩
      · rcases head?_escapeTemplate t with hsame | hslash
        · exact hc hdollar (hsame ▸ hhead)
        · rw [hslash] at hhead
          simp at hhead
      · exact hrest hhead
    rw [escapeTemplate_cons hc, List.append_assoc, read_escape (h c List.mem_cons_self) hnext,
      ih fun x hx => h x (List.mem_cons_of_mem _ hx), Option.map_map, prepend_comp]
    rfl

end ElementModule

end SkinCompiler.Skin
