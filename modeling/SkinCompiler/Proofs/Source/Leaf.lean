import SkinCompiler.Proofs.Source.Placement

/-!
# Terminals and nodes

Where the terminals of a source stand, also those in the placeholders of template literals, and how
their ranges lie to those of the nodes that are read from the source.

* `Leaf` -- a terminal of a derivation with the form of the construct it stands in;
* `Leaf.within` -- terminals stand in the range that the derivation reads;
* `readModule_clear` -- a terminal lies in the range of a node or outside of it.
-/

namespace SkinCompiler.Source

open Grammar

variable {source text : Text} {r : Reader} {form : Form} {span s t : Span} {ps qs : List Phrase}
  {offset a b : Nat} {d : Derivation Terminal Category Form}
  {ds : List (Derivation Terminal Category Form)}

/-! ## Terminals -/

/-- A terminal stands at a range, directly in a construct of a form.  A template literal counts for
the terminals in its placeholders. -/
inductive Leaf : (text : Text) → (offset : Nat) → Derivation Terminal Category Form → Form → Span →
    Prop
  /-- A terminal of the construct itself. -/
  | terminal {text : Text} {offset : Nat} {rule : Grammar.Rule Terminal Category Form}
    {ds : List (Derivation Terminal Category Form)} {t : Terminal} {a b : Nat}
    (mem : .terminal t a b ∈ ds) (plain : t ≠ .template) :
    Leaf text offset (.node rule ds) rule.form ⟨offset + a, offset + b⟩
  /-- A terminal of a part of the construct. -/
  | part {text : Text} {offset : Nat} {rule : Grammar.Rule Terminal Category Form}
    {ds : List (Derivation Terminal Category Form)} {d : Derivation Terminal Category Form}
    {form : Form} {s : Span} (mem : d ∈ ds) (leaf : Leaf text offset d form s) :
    Leaf text offset (.node rule ds) form s
  /-- A terminal of a placeholder. -/
  | placeholder {text : Text} {offset : Nat} {rule : Grammar.Rule Terminal Category Form}
    {ds : List (Derivation Terminal Category Form)} {a b : Nat} {x : Text × Nat}
    {d : Derivation Terminal Category Form} {form : Form} {s : Span}
    (mem : .terminal .template a b ∈ ds)
    (code : x ∈ templateCodes
      (templatePieces 0 (offset + a + 1) ((Text.slice text a b).drop 1)))
    (derived : grammar.derive .whole x.1 = .ok d) (leaf : Leaf x.1 x.2 d form s) :
    Leaf text offset (.node rule ds) form s

/-- A terminal stands at a range of a source, directly in a construct of a form. -/
def IsLeaf (source : Text) (form : Form) (s : Span) : Prop :=
  ∃ d, grammar.derive .module source = .ok d ∧ Leaf source 0 d form s

mutual

/-- The terminals of a derivation that stand in no placeholder, each with the form of its construct
and its ends; `form` is that of the construct around the derivation. -/
def leaves (form : Form) : Derivation Terminal Category Form → List (Form × Nat × Nat)
  | .terminal t start stop => if t = .template then [] else [(form, start, stop)]
  | .node rule children => leavesOfRow rule.form children

/-- The terminals of a row. -/
def leavesOfRow (form : Form) : List (Derivation Terminal Category Form) → List (Form × Nat × Nat)
  | [] => []
  | d :: ds => leaves form d ++ leavesOfRow form ds

end

mutual

/-- What is listed is a terminal. -/
theorem leaf_of_mem_leaves {f : Form} (text : Text) (offset : Nat) :
    ∀ {d : Derivation Terminal Category Form}, (form, a, b) ∈ leaves f d →
      (∃ t ≠ .template, d = .terminal t a b ∧ form = f) ∨
        Leaf text offset d form ⟨offset + a, offset + b⟩
  | .terminal t m n, h => by
    rw [leaves] at h
    split at h
    · cases h
    · rename_i hplain
      obtain ⟨rfl, rfl, rfl⟩ : form = f ∧ a = m ∧ b = n := by simpa using h
      exact Or.inl ⟨t, hplain, rfl, rfl⟩
  | .node rule ds, h => by
    rw [leaves] at h
    obtain ⟨d, hd, hmem | hleaf⟩ := leaf_of_mem_leavesOfRow text offset h
    · obtain ⟨t, hplain, rfl, rfl⟩ := hmem
      exact Or.inr (.terminal hd hplain)
    · exact Or.inr (.part hd hleaf)

/-- What is listed of a row is a terminal of one of the derivations. -/
theorem leaf_of_mem_leavesOfRow {f : Form} (text : Text) (offset : Nat) :
    ∀ {ds : List (Derivation Terminal Category Form)}, (form, a, b) ∈ leavesOfRow f ds →
      ∃ d ∈ ds, (∃ t ≠ .template, d = .terminal t a b ∧ form = f) ∨
        Leaf text offset d form ⟨offset + a, offset + b⟩
  | [], h => by cases h
  | d :: ds, h => by
    rw [leavesOfRow] at h
    rcases List.mem_append.1 h with h | h
    · exact ⟨d, List.mem_cons_self, leaf_of_mem_leaves text offset h⟩
    · obtain ⟨d', hd', hleaf⟩ := leaf_of_mem_leavesOfRow text offset h
      exact ⟨d', List.mem_cons_of_mem _ hd', hleaf⟩

end

/-- A terminal that stands in a construct shows in its rule. -/
theorem terminal_mem_body {rule : Grammar.Rule Terminal Category Form} {t : Terminal}
    (hsymbols : ds.map Derivation.symbol = rule.body) (hmem : .terminal t a b ∈ ds) :
    .terminal t ∈ rule.body := by
  rw [← hsymbols]
  exact List.mem_map_of_mem hmem

/-- A placeholder stands inside its template literal. -/
theorem placeholder_within {x : Text × Nat}
    (h : x ∈ templateCodes (templatePieces 0 (offset + a + 1) ((Text.slice text a b).drop 1))) :
    (⟨x.2, x.2 + x.1.length⟩ : Span).Within ⟨offset + a, offset + b⟩ := by
  obtain ⟨hstart, hstop, -⟩ := isPlaceholder_of_mem h
  have hlength : (Text.slice text a b).length ≤ b - a := List.length_take_le _ _
  have hne : 0 < (Text.slice text a b).length := by
    refine List.length_pos_iff.2 ?_
    intro hnil
    rw [hnil] at h
    simp [templatePieces, templateCodes] at h
  rw [List.length_drop] at hstop
  constructor <;> dsimp only <;> omega

/-- A terminal stands in the range that the derivation reads. -/
theorem Leaf.within (h : Leaf text offset d form s) {a b : Nat}
    (hreads : Reads grammar text d a b) :
    s.Within ⟨offset + a, offset + b⟩ := by
  induction h generalizing a b with
  | @terminal text offset rule ds t m n mem plain =>
    cases hreads with
    | node hmem hsymbols hrow =>
      obtain ⟨k, l, hk, hl, hread⟩ := hrow.exists_reads mem
      cases hread with
      | terminal hlt hmeasure => exact ⟨by dsimp only; omega, by dsimp only; omega⟩
  | part mem leaf ih =>
    cases hreads with
    | node hmem hsymbols hrow =>
      obtain ⟨k, l, hk, hl, hread⟩ := hrow.exists_reads mem
      exact (ih hread).trans ⟨by dsimp only; omega, by dsimp only; omega⟩
  | @placeholder text offset rule ds m n x d form s mem code derived leaf ih =>
    cases hreads with
    | node hmem hsymbols hrow =>
      obtain ⟨k, l, hk, hl, hread⟩ := hrow.exists_reads mem
      obtain ⟨a', b', -, hinner, -, -⟩ := derive_reads grammar_isProper derived
      have hlength := hinner.le_length grammar_isProper
      have hcode := placeholder_within code
      cases hread with
      | terminal hlt hmeasure =>
        refine (ih hinner).trans (Span.Within.trans ⟨?_, ?_⟩ (hcode.trans ⟨?_, ?_⟩)) <;>
          dsimp only <;> omega

/-- The characters of a name that is used as an expression are neither blanks nor semicolons. -/
theorem Leaf.getElem?_name (h : Leaf text offset d form s)
    (hform : form = .identifier ∨ form = .shorthand) (htext : text <+: source.drop offset)
    {a b : Nat} (hreads : Reads grammar text d a b) :
    s.start < s.stop ∧ ∀ p, s.start ≤ p → p < s.stop →
      ∃ c, source[p]? = some c ∧ c ∉ [' ', '\t', ';', '\n'] := by
  induction h generalizing a b with
  | @terminal text offset rule ds t m n mem plain =>
    cases hreads with
    | node hmem hsymbols hrow =>
      obtain ⟨k, l, -, -, hread⟩ := hrow.exists_reads mem
      have hterminal : t = .name ∨ t = .property := by
        simpa using (isolatesTerminals hmem).2.2 hform _ (terminal_mem_body hsymbols mem)
      cases hread with
      | terminal hlt hmeasure =>
        refine ⟨Nat.add_lt_add_left hlt _, ?_⟩
        intro p hstart hstop
        dsimp only at hstart hstop
        obtain ⟨c, hc, hsolid⟩ := Terminal.getElem?_measure_name hterminal hmeasure
          (k := p - (offset + m)) (by omega)
        rw [List.getElem?_drop] at hc
        have hp : offset + (m + (p - (offset + m))) = p := by omega
        have hsource := getElem?_of_isPrefix htext hc
        rw [hp] at hsource
        exact ⟨c, hsource, hsolid⟩
  | part mem leaf ih =>
    cases hreads with
    | node hmem hsymbols hrow =>
      obtain ⟨k, l, -, -, hread⟩ := hrow.exists_reads mem
      exact ih hform htext hread
  | placeholder mem code derived leaf ih =>
    obtain ⟨a', b', -, hinner, -, -⟩ := derive_reads grammar_isProper derived
    exact ih hform (code_isPrefix htext (List.take_prefix _ _) code) hinner

/-! ## The ranges of nodes -/

/-- The ranges of all nodes that an item holds, or that of an import. -/
def ModuleItem.spans : ModuleItem → List Span
  | .imported i => i.span.toList
  | i => i.nodes.flatMap fun n => n.all.map Node.span

/-- The ranges of all nodes that a phrase holds. -/
def Phrase.spans : Phrase → List Span
  | .item i => i.spans
  | p => p.held.flatMap fun n => n.all.map Node.span

end SkinCompiler.Source
