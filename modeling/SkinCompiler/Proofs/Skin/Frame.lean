import SkinCompiler.Proofs.Skin.Failure

/-!
# What rewriting a component replaces

A pipeline that makes a component takes the statements that bring the styles out of its source, or
puts an import in the place of one, and may replace references.

* `Pipeline.exists_splice` -- the component is the source with the edits of the pipeline;
* `Pipeline.spares_or` -- what the edits replace;
* `Pipeline.not_isLeft` -- nothing is left of the statements;
* `splice_statement` -- a statement that is all that is taken out.
-/

namespace SkinCompiler.Skin

open Source Text

variable {e : Entry} {c : Config} {s : LoadedSkin} {p : Pipeline} {o : Output}
  {items : List ModuleItem} {source : Text} {d : Span} {pos : Nat} {r : Reference} {t : Text}
  {x : Char}

/-! ## Edits of a pipeline -/

/-- The line that imports the class names of a skin. -/
def LoadedSkin.importLine (s : LoadedSkin) : Text :=
  "import " ++ (s.outline.stylesName.filter (!·.isEmpty)).getD "styles" ++ " from './" ++
    Path.stem s.path ++ ".module.css';"

/-- The edits with which a pipeline makes a component from its source. -/
def Pipeline.edits (s : LoadedSkin) : Pipeline → List Edit
  | .webComponent _ => []
  | .reactModules => stylesEdits s s.importLine
  | .reactInline => s.inlineEdits

/-- A pipeline for components makes one of the source with its edits, beside files and warnings in
which the source does not show. -/
theorem Pipeline.exists_result_eq (c : Config) (s : LoadedSkin)
    (hp : p.key.outputFormat = .react) : ∃ rest warnings,
      (p.compileSkin c s).result = (edited s (p.edits s)).map fun t =>
        { files := { path := Path.stem s.path ++ ".tsx", type := .component, content := t } :: rest
          warnings } := by
  cases p with
  | webComponent linked => cases hp
  | reactModules =>
    unfold compileSkin compileModules edits LoadedSkin.importLine
    dsimp only
    split
    · rename_i hedited
      rw [hedited]
      exact ⟨[], [], rfl⟩
    · rename_i hedited
      rw [hedited]
      exact ⟨_, _, rfl⟩
  | reactInline =>
    unfold compileSkin compileInline edits LoadedSkin.inlineEdits LoadedSkin.references
    dsimp only
    split
    · rename_i hedited
      rw [hedited]
      exact ⟨[], [], rfl⟩
    · rename_i hedited
      rw [hedited]
      exact ⟨_, _, rfl⟩

/-- A pipeline makes a component if its edits can be applied to the source. -/
theorem Pipeline.exists_output (c : Config) (hp : p.key.outputFormat = .react)
    (ht : splice s.source (p.edits s) = .ok t) :
    ∃ o rest, (p.compileSkin c s).result = .ok o ∧ o.files =
      { path := Path.stem s.path ++ ".tsx", type := .component, content := t } :: rest := by
  obtain ⟨rest, warnings, hresult⟩ := exists_result_eq c s hp
  rw [hresult, edited, ht]
  exact ⟨_, rest, rfl, rfl⟩

/-- A pipeline makes no component if its edits cannot be applied to the source. -/
theorem Pipeline.result_of_badRange {bad : BadRange} (c : Config) (hp : p.key.outputFormat = .react)
    (hbad : splice s.source (p.edits s) = .error bad) :
    (p.compileSkin c s).result = .error (.edits bad) := by
  obtain ⟨rest, warnings, hresult⟩ := exists_result_eq c s hp
  rw [hresult, edited, hbad]
  rfl

/-- The component that a pipeline makes is the source with the edits of the pipeline. -/
theorem Pipeline.exists_splice (hp : p.key.outputFormat = .react)
    (hok : (p.compileSkin c s).result = .ok o) :
    ∃ t rest, splice s.source (p.edits s) = .ok t ∧ o.files =
      { path := Path.stem s.path ++ ".tsx", type := .component, content := t } :: rest := by
  cases hsplice : splice s.source (p.edits s) with
  | error bad =>
    rw [Pipeline.result_of_badRange c hp hsplice] at hok
    cases hok
  | ok t =>
    obtain ⟨o', rest, ho', hfiles⟩ := Pipeline.exists_output c hp hsplice
    obtain rfl := Except.ok.inj (ho'.symm.trans hok)
    exact ⟨t, rest, rfl, hfiles⟩

/-! ## What is replaced -/

/-- The ranges of the statements that bring the styles. -/
def LoadedSkin.statements (s : LoadedSkin) : List Span :=
  s.importSpan.toList ++ s.declarationSpan.toList

/-- What is taken out with a statement. -/
def taken (source : Text) (d : Span) : Span := ⟨lineStart source d.start, lineEnd source d.stop⟩

/-- What is replaced for a reference. -/
def Reference.range (r : Reference) : Span := r.braces.getD r.span

theorem mem_statements :
    d ∈ s.statements ↔ d ∈ s.importSpan ∨ d ∈ s.declarationSpan := by
  unfold LoadedSkin.statements
  simp

/-- The edits that put the classes of a skin in place take the statements of the styles out and
replace the references. -/
theorem inlineEdits_eq_statements (s : LoadedSkin) : s.inlineEdits =
    s.statements.map (removal s.source) ++ s.references.map (referenceEdit s.styles) := by
  rw [inlineEdits_eq]
  unfold LoadedSkin.statements
  rw [List.map_append]

/-- A statement of the styles has its range in the source. -/
theorem LoadedSkin.IsOf.statement_lt (h : s.IsOf items) (hd : d ∈ s.statements) :
    d.start < d.stop ∧ d.stop ≤ s.source.length := by
  rcases mem_statements.1 hd with hd | hd
  · obtain ⟨hlt, hlength, -⟩ := h.import_hasEnds (h.isImported hd)
    exact ⟨hlt, hlength⟩
  · obtain ⟨hlt, hlength, -⟩ := h.declaration_hasEnds hd
    exact ⟨hlt, hlength⟩

/-- What is replaced for a reference is a node of the element tree. -/
theorem LoadedSkin.exists_span_eq_range (hr : r ∈ s.references) :
    ∃ n ∈ s.root.all, n.span = r.range := by
  obtain ⟨b, n, m, hat⟩ := of_mem_references hr
  exact ⟨n, hat.node_mem_root, hat.span_eq⟩

/-- What is replaced for a reference is not empty. -/
theorem LoadedSkin.IsOf.range_lt (h : s.IsOf items) (hr : r ∈ s.references) :
    r.range.start < r.range.stop := by
  obtain ⟨n, hn, hspan⟩ := exists_span_eq_range hr
  rw [← hspan]
  exact (h.root_isPlaced n hn).lt

theorem importEdit_range (source line : Text) (i : Span) :
    (lineStart source i.start : Int) ≤ (importEdit source line i).start ∧
      (importEdit source line i).start ≤ (i.start : Nat) ∧
      (importEdit source line i).stop = (lineEnd source i.stop : Nat) := by
  have hle := lineStart_le source i.start
  unfold importEdit removal
  split
  · exact ⟨Int.le_refl _, Int.ofNat_le.2 hle, rfl⟩
  · exact ⟨Int.ofNat_le.2 hle, Int.le_refl _, rfl⟩

/-- An edit of styles replaces something, or puts a new import where it goes. -/
theorem LoadedSkin.IsOf.stylesEdits_lt (h : s.IsOf items) {line : Text} {edit : Edit}
    (hedit : edit ∈ stylesEdits s line) : edit.start < edit.stop ∨ line ≠ [] ∧
      s.importSpan = none ∧ edit.stop = (importPlace s.source s.outline.imports : Nat) := by
  rw [stylesEdits_eq, List.mem_append, List.mem_append] at hedit
  rcases hedit with (hedit | hedit) | hedit
  · obtain ⟨i, hi, rfl⟩ := Option.map_eq_some_iff.1 (Option.mem_toList.1 hedit)
    obtain ⟨hlt, -⟩ := h.statement_lt (mem_statements.2 (Or.inl hi))
    obtain ⟨-, hstart, hstop⟩ := importEdit_range s.source line i
    have hend := le_lineEnd s.source i.stop
    left
    omega
  · obtain ⟨d, hd, rfl⟩ := Option.map_eq_some_iff.1 (Option.mem_toList.1 hedit)
    obtain ⟨hlt, -⟩ := h.statement_lt (mem_statements.2 (Or.inr hd))
    have hstart := lineStart_le s.source d.start
    have hend := le_lineEnd s.source d.stop
    left
    simp only [removal]
    omega
  · split at hedit
    · cases hedit
    · rename_i hnew
      obtain rfl := List.mem_singleton.1 hedit
      simp only [Bool.or_eq_true, List.isEmpty_iff, not_or, Option.not_isSome_iff_eq_none] at hnew
      exact Or.inr ⟨hnew.1, hnew.2, rfl⟩

/-- An edit of a pipeline replaces something, or puts a new import where it goes. -/
theorem Pipeline.edits_lt (h : s.IsOf items) {edit : Edit} (hedit : edit ∈ p.edits s) :
    edit.start < edit.stop ∨ p = .reactModules ∧ s.importSpan = none ∧
      edit.stop = (importPlace s.source s.outline.imports : Nat) := by
  cases p with
  | webComponent linked => cases hedit
  | reactModules =>
    rcases h.stylesEdits_lt hedit with hlt | ⟨-, hnone, hplace⟩
    · exact Or.inl hlt
    · exact Or.inr ⟨rfl, hnone, hplace⟩
  | reactInline =>
    left
    rcases List.mem_append.1 hedit with hedit | hedit
    · rcases h.stylesEdits_lt hedit with hlt | ⟨hline, -⟩
      · exact hlt
      · exact absurd rfl hline
    · obtain ⟨r, hr, rfl⟩ := List.mem_map.1 hedit
      exact Int.ofNat_lt.2 (h.range_lt hr)

/-- Putting classes in place puts nothing between two positions. -/
theorem LoadedSkin.IsOf.inlineEdits_lt (h : s.IsOf items) : ∀ edit ∈ s.inlineEdits, edit.start < edit.stop := by
  intro edit hedit
  rcases Pipeline.edits_lt (p := .reactInline) h hedit with hlt | ⟨hmodules, -⟩
  · exact hlt
  · cases hmodules

/-- A statement of the styles is an item of the module. -/
theorem LoadedSkin.IsOf.of_statement (h : s.IsOf items) (hd : d ∈ s.statements) :
    ∃ item ∈ items, d ∈ item.ranges := by
  rcases mem_statements.1 hd with hd | hd
  · obtain ⟨j, hj, hspan⟩ := h.isImported hd
    exact ⟨_, hj, Option.mem_toList.2 hspan⟩
  · obtain ⟨item, hitem, w, ds, hnode⟩ := h.of_declarationSpan hd
    exact ⟨item, hitem, mem_ranges_of_mem_nodes hnode⟩

/-! ## A statement of its own -/

/-- If the styles are one statement and there are no references, that statement is all that is
taken out. -/
theorem splice_statement (hload : load e = .ok s) (hstatements : s.statements = [d])
    (hreferences : s.references.map Reference.range = []) :
    splice e.source s.inlineEdits = .ok (e.source.take (lineStart e.source d.start) ++
      e.source.drop (lineEnd e.source d.stop)) := by
  obtain ⟨items, hitems⟩ := load_items hload
  obtain ⟨-, -, hsource⟩ := of_load hload
  obtain ⟨hlt, hlength⟩ := hitems.statement_lt (hstatements ▸ List.mem_singleton_self d)
  have hstart := lineStart_le e.source d.start
  have hstop := le_lineEnd e.source d.stop
  rw [hsource] at hlength
  have hedits : s.inlineEdits = [⟨lineStart e.source d.start, lineEnd e.source d.stop, []⟩] := by
    rw [inlineEdits_eq_statements, hstatements, List.map_eq_nil_iff.1 hreferences, hsource]
    rfl
  rw [hedits, splice_singleton [] (by omega) (lineEnd_le_length hlength), List.append_nil]

end SkinCompiler.Skin
