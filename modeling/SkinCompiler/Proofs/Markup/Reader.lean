import SkinCompiler.Markup.Tree
import SkinCompiler.Proofs.Text.Blank

/-!
# Reading markup

A reader for the markup that is written: opening and closing tags, bare and quoted attributes, and
texts, in which blanks are collapsed.  What is written for a piece of markup reads as that piece,
except that texts next to each other have become one.

* `read` -- the reader, which goes through a text character by character;
* `Tree.merged` -- a piece of markup with texts next to each other joined;
* `read_element` -- what is written for an element reads as the element.
-/

namespace SkinCompiler.Markup

/-! ## The reader -/

/-- Characters that end a name. -/
def endsName (c : Char) : Bool :=
  Text.isBlank c || c == '<' || c == '>' || c == '/' || c == '=' || c == '"'

/-- What a quoted value stands for. -/
def decode : Text → Text
  | '&' :: 'a' :: 'm' :: 'p' :: ';' :: t => '&' :: decode t
  | '&' :: 'q' :: 'u' :: 'o' :: 't' :: ';' :: t => '"' :: decode t
  | c :: t => c :: decode t
  | [] => []

/-- What a run of characters between tags stands for: its text with blanks collapsed, if it is not
blank. -/
def runTrees (run : Text) : List Tree :=
  if Text.isBlankText run then [] else [.text (Text.collapse run)]

/-- Where the reader is. -/
inductive Mode where
  /-- Between tags, behind the characters of a run. -/
  | content (run : Text)
  /-- Behind the mark that begins a tag. -/
  | mark
  /-- In the name of an opening tag. -/
  | tag (name : Text)
  /-- In an opening tag, behind its name and some attributes. -/
  | attributes (tag : Text) (attributes : List Attribute)
  /-- In the name of an attribute. -/
  | attribute (tag : Text) (attributes : List Attribute) (name : Text)
  /-- Behind the sign of equality of an attribute. -/
  | value (tag : Text) (attributes : List Attribute) (name : Text)
  /-- In the quoted value of an attribute. -/
  | quoted (tag : Text) (attributes : List Attribute) (name value : Text)
  /-- In the name of a closing tag. -/
  | closing (name : Text)

/-- An element that has been opened and not closed. -/
structure OpenElement where
  /-- Its tag. -/
  tag : Text
  /-- Its attributes. -/
  attributes : List Attribute
  /-- What stands before it in the same element. -/
  before : List Tree

/-- How far a text has been read. -/
structure Reading where
  /-- The open elements, the innermost first. -/
  opened : List OpenElement := []
  /-- What has been read in the innermost element. -/
  row : List Tree := []
  /-- Where the reader is. -/
  mode : Mode := .content []

namespace Reading

/-- An element is opened. -/
def openElement (s : Reading) (tag : Text) (attributes : List Attribute) : Reading where
  opened := ⟨tag, attributes, s.row⟩ :: s.opened

/-- The innermost element is closed, by the name that it was opened with. -/
def closeElement (s : Reading) (name : Text) : Option Reading :=
  match s.opened with
  | [] => none
  | e :: opened =>
    if e.tag = name then some { opened, row := e.before ++ [.element e.tag e.attributes s.row] }
    else none

/-- Read one character more. -/
def step (s : Reading) (c : Char) : Option Reading :=
  match s.mode with
  | .content run =>
    if c == '<' then some { s with row := s.row ++ runTrees run, mode := .mark }
    else some { s with mode := .content (run ++ [c]) }
  | .mark =>
    if c == '/' then some { s with mode := .closing [] }
    else if endsName c then none
    else some { s with mode := .tag [c] }
  | .tag name =>
    if c == '>' then some (s.openElement name [])
    else if Text.isBlank c then some { s with mode := .attributes name [] }
    else if endsName c then none
    else some { s with mode := .tag (name ++ [c]) }
  | .attributes tag attributes =>
    if c == '>' then some (s.openElement tag attributes)
    else if Text.isBlank c then some s
    else if endsName c then none
    else some { s with mode := .attribute tag attributes [c] }
  | .attribute tag attributes name =>
    if c == '>' then some (s.openElement tag (attributes ++ [{ name }]))
    else if Text.isBlank c then some { s with mode := .attributes tag (attributes ++ [{ name }]) }
    else if c == '=' then some { s with mode := .value tag attributes name }
    else if endsName c then none
    else some { s with mode := .attribute tag attributes (name ++ [c]) }
  | .value tag attributes name =>
    if c == '"' then some { s with mode := .quoted tag attributes name [] } else none
  | .quoted tag attributes name value =>
    if c == '"' then
      let read : Attribute := { name, value := some (decode value) }
      some { s with mode := .attributes tag (attributes ++ [read]) }
    else some { s with mode := .quoted tag attributes name (value ++ [c]) }
  | .closing name =>
    if c == '>' then s.closeElement name
    else if endsName c then none
    else some { s with mode := .closing (name ++ [c]) }

/-- Read a text. -/
def run (s : Reading) (t : Text) : Option Reading := t.foldlM step s

end Reading

/-- The markup that a text stands for, if every element in it is closed. -/
def read (t : Text) : Option (List Tree) :=
  match Reading.run {} t with
  | some ⟨[], row, .content run⟩ => some (row ++ runTrees run)
  | _ => none

/-! ## Texts next to each other -/

namespace Tree

/-- A piece of markup in front of others; a text in front of a text is joined to it by a space. -/
def joined : Tree → List Tree → List Tree
  | .text a, .text b :: ts => .text (a ++ ' ' :: b) :: ts
  | t, ts => t :: ts

mutual

/-- A piece of markup with texts next to each other joined by spaces. -/
def merged : Tree → Tree
  | .element tag attributes children => .element tag attributes (mergedAll children)
  | .text t => .text t

/-- Pieces of markup with texts next to each other joined by spaces. -/
def mergedAll : List Tree → List Tree
  | [] => []
  | t :: ts => joined (merged t) (mergedAll ts)

end

end Tree

/-! ## Runs -/

variable {a b gap t tag : Text} {c : Char} {ts row : List Tree} {as : List Attribute}
variable {opened : List OpenElement}

theorem runTrees_eq (run : Text) : runTrees run =
    if Text.words run = [] then [] else [.text (Text.join " " (Text.words run))] := by
  simp only [runTrees, Text.words_eq_nil_iff, Text.collapse]

theorem runTrees_nil : runTrees [] = [] := rfl

theorem runTrees_of_blank (h : Text.isBlankText gap = true) (r : Text) :
    runTrees (r ++ gap) = runTrees r := by
  rw [runTrees_eq, runTrees_eq, Text.words_of_blank_right h]

/-- Two runs with blanks between them stand for their texts, joined. -/
theorem runTrees_append (hne : gap ≠ []) (h : Text.isBlankText gap = true) (a b : Text) :
    runTrees (a ++ gap ++ b) = (runTrees a).foldr Tree.joined (runTrees b) := by
  rw [runTrees_eq, runTrees_eq, runTrees_eq, Text.words_append hne h]
  by_cases ha : Text.words a = []
  · simp [ha]
  · by_cases hb : Text.words b = []
    · simp [ha, hb, Tree.joined]
    · rw [Text.join_append ha hb]
      simp [ha, hb, Tree.joined]

/-- What a run stands for is joined to other pieces as a whole. -/
theorem foldr_joined_runTrees (run : Text) (t : Text) (ts : List Tree) :
    ((runTrees run).foldr Tree.joined [.text t]).foldr Tree.joined ts =
      (runTrees run).foldr Tree.joined (Tree.joined (.text t) ts) := by
  rw [runTrees]
  split
  · rfl
  · rcases ts with _ | ⟨_ | _, ts⟩ <;> simp [Tree.joined]

theorem joined_element (tag : Text) (attributes : List Attribute) (children ts : List Tree) :
    Tree.joined (.element tag attributes children) ts = .element tag attributes children :: ts := by
  cases ts <;> rfl

theorem foldr_joined_element (run tag : Text) (attributes : List Attribute)
    (children ts : List Tree) :
    (runTrees run).foldr Tree.joined (.element tag attributes children :: ts) =
      runTrees run ++ .element tag attributes children :: ts := by
  rw [runTrees]
  split <;> rfl

theorem foldr_joined_nil (run : Text) : (runTrees run).foldr Tree.joined [] = runTrees run := by
  rw [runTrees]
  split <;> rfl

/-! ## What is written -/

/-- A name that the reader reads as a whole. -/
def IsName (t : Text) : Prop := t ≠ [] ∧ ∀ c ∈ t, endsName c = false

/-- A piece of markup that can be read: names are whole, and texts are runs of words. -/
inductive Tree.IsLegible : Tree → Prop
  /-- A text. -/
  | text {t : Text} (run : runTrees t = [.text t]) (tagless : '<' ∉ t) : IsLegible (.text t)
  /-- An element. -/
  | element {tag : Text} {attributes : List Attribute} {children : List Tree}
    (tag_isName : IsName tag) (names : ∀ a ∈ attributes, IsName a.name)
    (below : ∀ t ∈ children, t.IsLegible) :
    IsLegible (.element tag attributes children)

/-- The element that a tag opens if it ends here. -/
def Mode.opens : Mode → Option (Text × List Attribute)
  | .tag name => some (name, [])
  | .attributes tag as => some (tag, as)
  | .attribute tag as name => some (tag, as ++ [{ name }])
  | _ => none

/-! ## Values -/

theorem decode_escape (v : Text) : decode (v.flatMap escapeChar) = v := by
  induction v with
  | nil => rfl
  | cons c v ih =>
    rw [List.flatMap_cons, escapeChar]
    split
    · rename_i hc
      rw [beq_iff_eq.1 hc]
      exact congrArg ('&' :: ·) ih
    · rename_i hand
      split
      · rename_i hc
        rw [beq_iff_eq.1 hc]
        exact congrArg ('"' :: ·) ih
      · have hc : c ≠ '&' := by simpa using hand
        rw [List.singleton_append, decode]
        · rw [ih]
        all_goals exact fun _ h => absurd h hc

theorem quote_not_mem_escape (v : Text) : '"' ∉ v.flatMap escapeChar := by
  intro h
  obtain ⟨c, -, hc⟩ := List.mem_flatMap.1 h
  rw [escapeChar] at hc
  split at hc
  · simp at hc
  · split at hc
    · simp at hc
    · rename_i hquote
      exact hquote (beq_iff_eq.2 (List.mem_singleton.1 hc).symm)

namespace Reading

theorem run_append (s : Reading) (a b : Text) : s.run (a ++ b) = (s.run a).bind (·.run b) :=
  List.foldlM_append

@[simp] theorem run_cons (s : Reading) (c : Char) (t : Text) :
    s.run (c :: t) = (s.step c).bind (·.run t) :=
  List.foldlM_cons

@[simp] theorem run_nil (s : Reading) : s.run [] = some s := rfl

/-- A mode in which characters are collected. -/
theorem run_collect {mode : Text → Mode} {p : Char → Prop}
    (hstep : ∀ name c, p c →
      step ⟨opened, row, mode name⟩ c = some ⟨opened, row, mode (name ++ [c])⟩)
    (h : ∀ c ∈ t, p c) (name : Text) :
    run ⟨opened, row, mode name⟩ t = some ⟨opened, row, mode (name ++ t)⟩ := by
  induction t generalizing name with
  | nil => rw [run_nil, List.append_nil]
  | cons c t ih =>
    rw [run_cons, hstep name c (h c List.mem_cons_self), Option.bind_some,
      ih fun x hx => h x (List.mem_cons_of_mem _ hx), List.append_assoc]
    rfl

theorem ne_of_endsName (h : endsName c = false) :
    Text.isBlank c = false ∧ c ≠ '<' ∧ c ≠ '>' ∧ c ≠ '/' ∧ c ≠ '=' ∧ c ≠ '"' := by
  simpa [endsName, and_assoc] using h

theorem run_content (h : '<' ∉ t) (r : Text) :
    run ⟨opened, row, .content r⟩ t = some ⟨opened, row, .content (r ++ t)⟩ :=
  run_collect (p := (· ≠ '<')) (fun _ _ hc => by simp [step, hc])
    (fun _ hc hmark => h (hmark ▸ hc)) r

/-! ### Tags -/

theorem step_space {mode : Mode} (h : mode.opens = some (tag, as)) :
    step ⟨opened, row, mode⟩ ' ' = some ⟨opened, row, .attributes tag as⟩ := by
  have hblank : Text.isBlank ' ' = true := by decide
  cases mode <;> simp_all [Mode.opens, step]

theorem step_close {mode : Mode} (h : mode.opens = some (tag, as)) :
    step ⟨opened, row, mode⟩ '>' = some ⟨⟨tag, as, row⟩ :: opened, [], .content []⟩ := by
  cases mode <;> simp_all [Mode.opens, step, openElement]

/-- The name of an attribute is read as a whole. -/
theorem run_name {name : Text} (hname : IsName name) :
    run ⟨opened, row, .attributes tag as⟩ name = some ⟨opened, row, .attribute tag as name⟩ := by
  obtain ⟨c, rest, rfl⟩ := List.exists_cons_of_ne_nil hname.1
  have hc := hname.2 c List.mem_cons_self
  have hfirst : step ⟨opened, row, .attributes tag as⟩ c =
      some ⟨opened, row, .attribute tag as [c]⟩ := by
    simp [step, hc, ne_of_endsName hc]
  rw [run_cons, hfirst]
  exact run_collect (fun _ _ hc => by simp [step, hc, ne_of_endsName hc])
    (fun x hx => hname.2 x (List.mem_cons_of_mem _ hx)) [c]

/-- A quoted value is read as the value. -/
theorem run_value (opened : List OpenElement) (row : List Tree) (tag : Text) (as : List Attribute)
    (name v : Text) :
    run ⟨opened, row, .attribute tag as name⟩ ('=' :: '"' :: (v.flatMap escapeChar ++ ['"'])) =
      some ⟨opened, row, .attributes tag (as ++ [⟨name, some v⟩])⟩ := by
  have hopen : step ⟨opened, row, .attribute tag as name⟩ '=' =
      some ⟨opened, row, .value tag as name⟩ := by
    have hblank : Text.isBlank '=' = false := by decide
    simp [step, hblank]
  have hquote : step ⟨opened, row, .value tag as name⟩ '"' =
      some ⟨opened, row, .quoted tag as name []⟩ := rfl
  have hquoted : run ⟨opened, row, .quoted tag as name []⟩ (v.flatMap escapeChar) =
      some ⟨opened, row, .quoted tag as name (v.flatMap escapeChar)⟩ :=
    run_collect (p := (· ≠ '"')) (fun _ _ hc => by simp [step, hc])
      (fun _ hc hquote => quote_not_mem_escape v (hquote ▸ hc)) []
  have hclose : step ⟨opened, row, .quoted tag as name (v.flatMap escapeChar)⟩ '"' =
      some ⟨opened, row, .attributes tag (as ++ [⟨name, some v⟩])⟩ := by
    simp [step, decode_escape]
  rw [run_cons, hopen, Option.bind_some, run_cons, hquote, Option.bind_some, run_append, hquoted,
    Option.bind_some, run_cons, hclose]
  rfl

/-- An attribute is read behind what stands before it in a tag. -/
theorem run_attribute (opened : List OpenElement) (row : List Tree) {mode : Mode} {a : Attribute}
    (h : mode.opens = some (tag, as)) (ha : IsName a.name) : ∃ mode',
      run ⟨opened, row, mode⟩ a.write = some ⟨opened, row, mode'⟩ ∧
        mode'.opens = some (tag, as ++ [a]) := by
  obtain ⟨name, value⟩ := a
  cases value with
  | none =>
    refine ⟨.attribute tag as name, ?_, rfl⟩
    rw [Attribute.write, run_cons, step_space h]
    exact run_name ha
  | some v =>
    refine ⟨.attributes tag (as ++ [⟨name, some v⟩]), ?_, rfl⟩
    have hwrite : (⟨name, some v⟩ : Attribute).write =
        ' ' :: (name ++ '=' :: '"' :: (v.flatMap escapeChar ++ ['"'])) := by
      simp [Attribute.write]
    rw [hwrite, run_cons, step_space h, Option.bind_some, run_append, run_name ha,
      Option.bind_some, run_value]

theorem run_attributes (opened : List OpenElement) (row : List Tree) {mode : Mode}
    {bs : List Attribute} (h : mode.opens = some (tag, as)) (hbs : ∀ a ∈ bs, IsName a.name) :
    ∃ mode',
      run ⟨opened, row, mode⟩ (bs.flatMap Attribute.write) = some ⟨opened, row, mode'⟩ ∧
        mode'.opens = some (tag, as ++ bs) := by
  induction bs generalizing mode as with
  | nil => exact ⟨mode, rfl, by rw [h, List.append_nil]⟩
  | cons a bs ih =>
    obtain ⟨first, hfirst, hopens⟩ := run_attribute opened row h
      (hbs a List.mem_cons_self)
    obtain ⟨mode', hrest, hopens'⟩ := ih hopens fun b hb => hbs b (List.mem_cons_of_mem _ hb)
    refine ⟨mode', ?_, by rw [hopens', List.append_assoc]; rfl⟩
    rw [List.flatMap_cons, run_append, hfirst, Option.bind_some, hrest]

theorem run_openingTag (htag : IsName tag) (has : ∀ a ∈ as, IsName a.name) (r : Text) :
    run ⟨opened, row, .content r⟩ (Tree.openingTag tag as) =
      some ⟨⟨tag, as, row ++ runTrees r⟩ :: opened, [], .content []⟩ := by
  obtain ⟨c, rest, rfl⟩ := List.exists_cons_of_ne_nil htag.1
  have hc := htag.2 c List.mem_cons_self
  have hmark : step ⟨opened, row, .content r⟩ '<' = some ⟨opened, row ++ runTrees r, .mark⟩ := rfl
  have hfirst : step ⟨opened, row ++ runTrees r, .mark⟩ c =
      some ⟨opened, row ++ runTrees r, .tag [c]⟩ := by
    simp [step, hc, ne_of_endsName hc]
  have htag : run ⟨opened, row ++ runTrees r, .tag [c]⟩ rest =
      some ⟨opened, row ++ runTrees r, .tag (c :: rest)⟩ :=
    run_collect (fun _ _ hc => by simp [step, hc, ne_of_endsName hc])
      (fun x hx => htag.2 x (List.mem_cons_of_mem _ hx)) [c]
  have hmode : (Mode.tag (c :: rest)).opens = some (c :: rest, []) := rfl
  obtain ⟨mode, hattributes, hopens⟩ := run_attributes opened (row ++ runTrees r) hmode has
  have hwrite : Tree.openingTag (c :: rest) as =
      '<' :: c :: (rest ++ (as.flatMap Attribute.write ++ ['>'])) := by
    simp [Tree.openingTag]
  rw [hwrite, run_cons, hmark, Option.bind_some, run_cons, hfirst, Option.bind_some, run_append,
    htag, Option.bind_some, run_append, hattributes, Option.bind_some, run_cons,
    step_close hopens]
  rfl

theorem run_closingTag (htag : IsName tag) (before : List Tree) (r : Text) :
    run ⟨⟨tag, as, before⟩ :: opened, row, .content r⟩ (Tree.closingTag tag) =
      some ⟨opened, before ++ [.element tag as (row ++ runTrees r)], .content []⟩ := by
  have hmark : run ⟨⟨tag, as, before⟩ :: opened, row, .content r⟩ "</" =
      some ⟨⟨tag, as, before⟩ :: opened, row ++ runTrees r, .closing []⟩ := rfl
  have htag : run ⟨⟨tag, as, before⟩ :: opened, row ++ runTrees r, .closing []⟩ tag =
      some ⟨⟨tag, as, before⟩ :: opened, row ++ runTrees r, .closing tag⟩ :=
    run_collect (fun _ _ hc => by simp [step, hc, ne_of_endsName hc]) htag.2 []
  rw [Tree.closingTag, run_append, run_append, hmark, Option.bind_some, htag, Option.bind_some]
  simp [step, closeElement]

end Reading

/-! ## Pieces of markup -/

open Markup.Tree Reading

theorem not_mem_spaces (n : Nat) : '<' ∉ Text.spaces n := by
  intro h
  simpa using List.eq_of_mem_replicate h

theorem isBlankText_newline (n : Nat) : Text.isBlankText ('\n' :: Text.spaces n) = true :=
  Text.isBlankText_append (a := ['\n']).2 ⟨by decide, Text.isBlankText_spaces n⟩

theorem isLegible_text_iff : (Tree.text t).IsLegible ↔ runTrees t = [.text t] ∧ '<' ∉ t := by
  constructor
  · rintro ⟨hrun, hmark⟩
    exact ⟨hrun, hmark⟩
  · rintro ⟨hrun, hmark⟩
    exact .text hrun hmark

/-- Texts in a row are one run. -/
theorem runTrees_join {texts : List Text} (h : ∀ t ∈ texts, runTrees t = [.text t]) :
    runTrees (Text.join " " texts) = mergedAll (texts.map .text) := by
  induction texts with
  | nil => rfl
  | cons t texts ih =>
    have ht := h t List.mem_cons_self
    rcases eq_or_ne texts [] with rfl | hne
    · exact ht
    · rw [Text.join_cons_of_ne_nil hne, runTrees_append (by simp) (by decide), ht,
        ih fun x hx => h x (List.mem_cons_of_mem _ hx)]
      rfl

theorem mapM_text?_eq_some {children : List Tree} {texts : List Text}
    (h : children.mapM text? = some texts) : children = texts.map .text := by
  induction children generalizing texts with
  | nil =>
    obtain rfl := Option.some.inj h
    rfl
  | cons t children ih =>
    rw [List.mapM_cons] at h
    obtain ⟨x, hx, h⟩ := Option.bind_eq_some_iff.1 h
    obtain ⟨rest, hrest, h⟩ := Option.bind_eq_some_iff.1 h
    obtain rfl := Option.some.inj h
    rw [ih hrest]
    cases t with
    | element => cases hx
    | text x' =>
      obtain rfl := Option.some.inj hx
      rfl

mutual

/-- What is written for an element reads as the element, behind what stands before it. -/
theorem run_write (step : Nat) : ∀ (t : Tree), t.IsLegible → t.text? = none →
    ∀ (margin : Nat) (opened : List OpenElement) (row : List Tree) (r : Text),
      run ⟨opened, row, .content r⟩ (write step margin t) =
        some ⟨opened, row ++ runTrees r ++ [t.merged], .content []⟩
  | .text _, _, h, _, _, _, _ => by cases h
  | .element tag attributes children, .element htag hnames hchildren, _, margin, opened, row, r => by
    have hopening : run ⟨opened, row, .content r⟩
        (Text.spaces margin ++ openingTag tag attributes) =
          some ⟨⟨tag, attributes, row ++ runTrees r⟩ :: opened, [], .content []⟩ := by
      rw [run_append, run_content (not_mem_spaces margin), Option.bind_some,
        run_openingTag htag hnames, runTrees_of_blank (Text.isBlankText_spaces margin)]
    have hmerged : merged (.element tag attributes children) =
        .element tag attributes (mergedAll children) := by rw [merged]
    rw [write]
    split
    · -- nothing but texts: they stand on the line of the element
      rename_i texts htexts
      obtain rfl := mapM_text?_eq_some htexts
      have hlegible : ∀ t ∈ texts, runTrees t = [.text t] ∧ '<' ∉ t := fun t ht =>
        isLegible_text_iff.1 (hchildren _ (List.mem_map_of_mem ht))
      have hmark : '<' ∉ Text.join " " texts := by
        intro h
        rcases Text.mem_of_mem_join h with h | ⟨t, ht, h⟩
        · simp at h
        · exact (hlegible t ht).2 h
      rw [run_append, run_append, hopening, Option.bind_some, run_content hmark, Option.bind_some,
        run_closingTag htag, List.nil_append, List.nil_append,
        runTrees_join fun t ht => (hlegible t ht).1, hmerged]
    · obtain ⟨row', r', hlines, hrow⟩ := run_lines step children hchildren (margin + step)
        (⟨tag, attributes, row ++ runTrees r⟩ :: opened) [] []
      rw [runTrees_nil, List.foldr_nil, List.nil_append] at hrow
      have hmark : '<' ∉ '\n' :: Text.spaces margin := by simp [not_mem_spaces]
      rw [Text.join_newline, ← List.cons_append, run_append, run_append, hopening,
        Option.bind_some, hlines, Option.bind_some, run_append, run_content hmark,
        Option.bind_some, run_closingTag htag, runTrees_of_blank (isBlankText_newline margin), hrow,
        hmerged]

/-- Lines of markup read as their pieces, behind what stands before them. -/
theorem run_lines (step : Nat) : ∀ (ts : List Tree), (∀ t ∈ ts, t.IsLegible) →
    ∀ (margin : Nat) (opened : List OpenElement) (row : List Tree) (r : Text),
      ∃ row' r', run ⟨opened, row, .content r⟩ ((writeAll step margin ts).flatMap ('\n' :: ·)) =
          some ⟨opened, row', .content r'⟩ ∧
        row' ++ runTrees r' = row ++ (runTrees r).foldr joined (mergedAll ts)
  | [], _, _, opened, row, r => ⟨row, r, rfl, by rw [mergedAll, foldr_joined_nil]⟩
  | .text t :: ts, h, margin, opened, row, r => by
    obtain ⟨row', r', hlines, hrow⟩ := run_lines step ts
      (fun x hx => h x (List.mem_cons_of_mem _ hx)) margin opened row
      (r ++ '\n' :: Text.spaces margin ++ t)
    obtain ⟨hrun, hmark⟩ := isLegible_text_iff.1 (h _ List.mem_cons_self)
    have hline : '<' ∉ '\n' :: (Text.spaces margin ++ t) := by simp [not_mem_spaces, hmark]
    refine ⟨row', r', ?_, ?_⟩
    · rw [writeAll, List.flatMap_cons, write, run_append, run_content hline, Option.bind_some,
        ← hlines]
      simp
    · rw [hrow, runTrees_append (by simp) (isBlankText_newline margin), hrun,
        foldr_joined_runTrees, mergedAll, merged]
  | .element tag attributes children :: ts, h, margin, opened, row, r => by
    have helement := run_write step (.element tag attributes children) (h _ List.mem_cons_self) rfl
      margin opened row (r ++ ['\n'])
    obtain ⟨row', r', hlines, hrow⟩ := run_lines step ts
      (fun x hx => h x (List.mem_cons_of_mem _ hx)) margin opened
      (row ++ runTrees r ++ [merged (.element tag attributes children)]) []
    refine ⟨row', r', ?_, ?_⟩
    · have hnewline : run ⟨opened, row, .content r⟩ ['\n'] =
        some ⟨opened, row, .content (r ++ ['\n'])⟩ := run_content (by decide) r
      rw [writeAll, List.flatMap_cons, ← List.singleton_append, run_append, run_append, hnewline,
        Option.bind_some, helement, Option.bind_some, runTrees_of_blank (by decide), hlines]
    · rw [hrow, runTrees_nil, List.foldr_nil, mergedAll, merged, joined_element,
        foldr_joined_element]
      simp

end

/-- What is written for an element reads as the element, with texts next to each other joined. -/
theorem read_element {t : Tree} (h : t.IsLegible) (ht : t.text? = none) (step margin : Nat) :
    read (write step margin t) = some [t.merged] := by
  have hrun := run_write step t h ht margin [] [] []
  unfold read
  rw [hrun]
  rfl

end SkinCompiler.Markup
