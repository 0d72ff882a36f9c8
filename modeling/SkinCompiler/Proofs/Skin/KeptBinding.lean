import SkinCompiler.Proofs.Skin.EditRange
import SkinCompiler.Proofs.Skin.Frame
import SkinCompiler.Proofs.Skin.ReplacedReference
import SkinCompiler.Proofs.Source.Beginning
import SkinCompiler.Proofs.Source.ImportLine
import SkinCompiler.Proofs.Source.Meaning

/-!
# What rewriting a component keeps bound

The edits of the styles take out statements, each with the rest of its line.  If these are whole
items that bind nothing but the styles, the component that a pipeline makes can be read again, and
binds and exports what its source does.

* `TakesItem` -- an edit takes out a whole item, or keeps clear of it;
* `Pipeline.SparesNames` -- what a pipeline needs for sparing all names but that of the styles;
* `Pipeline.react_bindings` -- then it does;
* `react_bindings_keptFunction` -- a component that keeps what it exports;
* `compile_sharedStatement` -- a component that loses a name.
-/

namespace SkinCompiler.Skin

open Grammar Source Text

variable {e : Entry} {c : Config} {s : LoadedSkin} {p : Pipeline} {o : Output}
  {items : List ModuleItem} {source t x line : Text} {d : Derivation Terminal Category Form}
  {ds : List (Derivation Terminal Category Form)} {edit : Edit} {range : Span} {a b m n : Nat}

/-! ## Items that are taken out -/

/-- An edit takes out a whole item that binds nothing but a name, or keeps clear of the item. -/
def TakesItem (source x : Text) (edit : Edit) (d : Derivation Terminal Category Form) : Prop :=
  ∀ a ∈ d.start?, ∀ b ∈ d.stop?,
    (edit.start ≤ (a : Int) ∧ (b : Int) ≤ edit.stop ∧ BindsOnly source x d) ∨
      (b : Int) ≤ edit.start ∨ edit.stop ≤ (a : Int)

instance (source x : Text) (edit : Edit) (d : Derivation Terminal Category Form) :
    Decidable (TakesItem source x edit d) :=
  inferInstanceAs (Decidable (∀ a ∈ _, ∀ b ∈ _, (_ ∧ _ ∧ _ ∧ _) ∨ _ ∨ _))

theorem TakesItem.or (h : TakesItem source x edit d) (hreads : Reads grammar source d a b) :
    (edit.start ≤ (a : Int) ∧ (b : Int) ≤ edit.stop ∧ BindsOnly source x d) ∨
      (b : Int) ≤ edit.start ∨ edit.stop ≤ (a : Int) :=
  h a hreads.start? b hreads.stop?

/-- No item goes over the beginning or the end of an edit that takes items out. -/
theorem isOff_of_takesItem (h : ∀ d ∈ ds, TakesItem source x edit d) (hstart : edit.start = m)
    (hstop : edit.stop = n) (hle : m ≤ n) : IsOff source ds m ∧ IsOff source ds n := by
  constructor
  · intro d hd a b hreads
    rcases (h d hd).or hreads with ⟨hfirst, -, -⟩ | hbefore | hbehind <;> omega
  · intro d hd a b hreads
    rcases (h d hd).or hreads with ⟨-, hlast, -⟩ | hbefore | hbehind <;> omega

theorem only_of_takesItem (h : ∀ d ∈ ds, TakesItem source x edit d) (hstart : edit.start = m)
    (hstop : edit.stop = n) : ∀ d ∈ ds, ∀ a b, Reads grammar source d a b → m ≤ a → b ≤ n →
      BindsOnly source x d := by
  intro d hd a b hreads hma hbn
  have hlt := hreads.lt
  rcases (h d hd).or hreads with ⟨-, -, honly⟩ | hbefore | hbehind
  · exact honly
  · omega
  · omega

/-- An edit begins where no terminal goes on. -/
def BeginsApart (source : Text) (edit : Edit) : Prop :=
  edit.start = 0 ∨ ∃ c ∈ seams, source[edit.start.toNat - 1]? = some c

instance (source : Text) (edit : Edit) : Decidable (BeginsApart source edit) :=
  inferInstanceAs (Decidable (_ ∨ ∃ c ∈ seams, _))

/-- What an edit of items needs, whatever it takes out. -/
structure IsEditOf (source x : Text) (ds : List (Derivation Terminal Category Form)) (edit : Edit) :
    Prop where
  /-- It takes out whole items. -/
  takes : ∀ d ∈ ds, TakesItem source x edit d
  /-- No terminal goes on where it begins. -/
  seam : BeginsApart source edit
  /-- It leaves nothing, or a line. -/
  text : edit.text = [] ∨ ∃ line, edit.text = line ++ ['\n'] ∧ IsLine x line

/-- No comment goes with a range that is widened. -/
theorem IsWidened.not_mem (h : IsWidened source range m n) :
    '/' ∉ slice source m range.start ∧ '/' ∉ slice source range.stop n := by
  have hblank {g : Text} (hg : isBlankText g = true) : '/' ∉ g := fun hmem =>
    absurd (isBlankText_iff.1 hg _ hmem) (by decide)
  constructor
  · rcases h.lead with hlead | ⟨g, g', hg, hg', hlead⟩
    · exact hblank hlead
    · rw [hlead, List.mem_append, List.mem_append, not_or, not_or]
      exact ⟨⟨hblank hg, by decide⟩, hblank hg'⟩
  · obtain ⟨gap, hgap, htrail⟩ := h.trail
    have hnot : '/' ∉ gap := by
      intro hmem
      rcases hgap _ hmem with heq | heq | heq <;> revert heq <;> decide
    simp only [List.mem_cons, List.not_mem_nil, or_false] at htrail
    rcases htrail with htrail | htrail
    · rwa [htrail]
    · rw [htrail, List.mem_append, not_or]
      exact ⟨hnot, by decide⟩

/-- An edit of items that takes out a range of an item with what goes with it. -/
theorem IsEditOf.isItemEdit (h : IsEditOf source x ds edit) (hitems : IsItems source 0 ds)
    (hstart : edit.start = m) (hstop : edit.stop = n) (hlength : n ≤ source.length)
    (hd : d ∈ ds) (hreads : Reads grammar source d a b) (ha : a ≤ range.start)
    (hb : range.stop ≤ b) (hlt : range.start < range.stop) (hwidened : IsWidened source range m n) :
    IsItemEdit source x 0 ds edit m n := by
  have hm := hwidened.start_le
  have hn := hwidened.le_stop
  obtain ⟨hma, hbn⟩ : m ≤ a ∧ b ≤ n := by
    rcases (h.takes d hd).or hreads with ⟨hfirst, hlast, -⟩ | hbefore | hafter <;> omega
  obtain ⟨hoff, hoff'⟩ := isOff_of_takesItem h.takes hstart hstop (by omega)
  obtain ⟨hslash, hbehind⟩ := hwidened.not_mem
  have hline := hwidened.line
  rw [← slice_append_slice hma ha, List.mem_append, not_or] at hslash hline
  rw [← slice_append_slice hb hbn, List.mem_append, not_or] at hbehind
  refine ⟨hstart, hstop, h.text, ?_, ?_, only_of_takesItem h.takes hstart hstop, ?_⟩
  · exact isPlace_before hitems (Nat.zero_le m) hoff hd hreads hma hslash.1 hline.1
  · exact isPlace_behind hitems (Nat.zero_le n) hlength hoff'
      (Or.inr ⟨d, hd, a, b, hreads, hbn, hbehind.2⟩)
  · have hseam := h.seam
    rw [BeginsApart, hstart, Int.toNat_natCast] at hseam
    exact hseam.imp_left Int.ofNat_eq_zero.1

/-- An edit that puts a line at the beginning of a source or behind an item. -/
theorem IsEditOf.isItemEdit_line (h : IsEditOf source x ds edit) (hitems : IsItems source 0 ds)
    (hstart : edit.start = n) (hstop : edit.stop = n) (hlength : n ≤ source.length)
    (hbehind : n = 0 ∨ ∃ d ∈ ds, ∃ a b, Reads grammar source d a b ∧ b ≤ n ∧
      '/' ∉ slice source b n) : IsItemEdit source x 0 ds edit n n := by
  obtain ⟨hoff, -⟩ := isOff_of_takesItem h.takes hstart hstop (Nat.le_refl n)
  have hplace : IsPlace source n 0 ds := by
    refine isPlace_behind hitems (Nat.zero_le n) hlength hoff (hbehind.imp_left ?_)
    rintro rfl
    exact List.not_mem_nil
  refine ⟨hstart, hstop, h.text, hplace, hplace, only_of_takesItem h.takes hstart hstop, ?_⟩
  have hseam := h.seam
  rw [BeginsApart, hstart, Int.toNat_natCast] at hseam
  exact hseam.imp_left Int.ofNat_eq_zero.1

/-! ## Edits of styles -/

/-- The name that the styles go by where they are imported. -/
def LoadedSkin.importedName (s : LoadedSkin) : Text :=
  (s.outline.stylesName.filter (!·.isEmpty)).getD "styles"

/-- The path that the styles are imported from, in quotes. -/
def LoadedSkin.quotedPath (s : LoadedSkin) : Text :=
  "'./" ++ Path.stem s.path ++ ".module.css'"

/-- The line that a pipeline puts in the place of the styles; none if it is empty. -/
def Pipeline.newLine (s : LoadedSkin) : Pipeline → Text
  | .reactModules => s.importLine
  | _ => []

/-- The edits of the items of a component. -/
def Pipeline.itemEdits (s : LoadedSkin) (p : Pipeline) : List Edit := stylesEdits s (p.newLine s)

/-- An edit of a pipeline is one of items or replaces a reference. -/
theorem Pipeline.mem_edits (hp : p.key.outputFormat = .react) (h : edit ∈ p.edits s) :
    edit ∈ p.itemEdits s ∨ p = .reactInline ∧ ∃ r ∈ s.references, edit = referenceEdit s.styles r := by
  cases p with
  | webComponent linked => cases hp
  | reactModules => exact Or.inl h
  | reactInline =>
    rcases List.mem_append.1 h with h | h
    · exact Or.inl h
    · obtain ⟨r, hr, rfl⟩ := List.mem_map.1 h
      exact Or.inr ⟨rfl, r, hr, rfl⟩

/-- What a pipeline needs of a component, which a derivation reads, and of what it makes of it, for
sparing all names but that of the styles. -/
structure Pipeline.SparesNames (p : Pipeline) (s : LoadedSkin)
    (d : Derivation Terminal Category Form) (t : Text) : Prop where
  /-- What is taken out is whole items that bind nothing but the styles. -/
  takes : ∀ edit ∈ p.itemEdits s, ∀ item ∈ moduleItems d,
    TakesItem s.source s.importedName edit item
  /-- No terminal goes on where something is taken out. -/
  seam : ∀ edit ∈ p.itemEdits s, BeginsApart s.source edit
  /-- The styles can be imported by their name. -/
  name : p = .reactModules →
    Terminal.measure .name s.importedName = some s.importedName.length
  /-- The path of the component can be quoted. -/
  path : p = .reactModules → Terminal.string? s.quotedPath = some s.quotedPath.length
  /-- Template literals with references in them stay such. -/
  templates : p = .reactInline → KeepsTemplates s.source (Edit.sorted (p.edits s)) d
  /-- All readings of the component that is made agree.  They may not if what stands in front of a
  statement that is taken out can be read on behind it. -/
  reading : HasOneReading t

/-! ## The items of a skin -/

/-- The items of a skin are read by a row of derivations. -/
structure LoadedSkin.IsReadBy (s : LoadedSkin) (items : List ModuleItem)
    (ds : List (Derivation Terminal Category Form)) : Prop where
  /-- The row reads the source. -/
  row : ∃ a b, ReadsRow grammar s.source ds a b
  /-- It means the items. -/
  meaning : ∃ qs, (Reader.whole s.source).phrasesOfRow ds = .ok qs ∧
    items = qs.filterMap Phrase.toItem
  /-- There is nothing else in the source. -/
  isItems : IsItems s.source 0 ds

/-- The items of a loaded skin are those of the derivation of its source. -/
theorem LoadedSkin.IsOf.exists_isReadBy (h : s.IsOf items) :
    ∃ d ds, grammar.derive .module s.source = .ok d ∧ IsModuleOf s.source d ds ∧
      s.IsReadBy items ds ∧ bindings? s.source = some (bindings s.source d) := by
  have hread := h.read
  obtain ⟨item, hitem, -⟩ := h.of_root
  obtain rfl | ⟨d, qs, -, -, hd, -, hqs, hitems⟩ := exists_of_readModule hread
  · cases hitem
  · obtain ⟨ds, a, b, hmodule, hrow, hisItems⟩ := exists_isItems hd hqs
    refine ⟨d, ds, hd, hmodule, ⟨⟨a, b, hrow⟩, ⟨qs, (hmodule.phrases_iff _ _).1 hqs, hitems⟩,
      hisItems⟩, ?_⟩
    unfold bindings?
    rw [if_neg, hd]
    · exact outcome_eq_some hqs
    · intro hgap
      rw [readModule, if_pos hgap] at hread
      rw [← Except.ok.inj hread] at hitem
      cases hitem

/-- A range of an item is read in a derivation of the row. -/
theorem LoadedSkin.IsReadBy.exists_reads (h : s.IsReadBy items ds) {item : ModuleItem}
    (hitem : item ∈ items) (hrange : range ∈ item.ranges) :
    ∃ d ∈ ds, ∃ a b, Reads grammar s.source d a b ∧ a ≤ range.start ∧ range.stop ≤ b := by
  obtain ⟨a, b, hrow⟩ := h.row
  obtain ⟨qs, hqs, rfl⟩ := h.meaning
  obtain ⟨d, hd, m, n, -, hreads, -, hranges, -⟩ := exists_item_of_mem hrow hqs hitem
  obtain ⟨hstart, hstop⟩ := hranges range hrange
  exact ⟨d, hd, m, n, hreads, hstart, hstop⟩

/-- The edit of a reference replaces a part of an item. -/
theorem LoadedSkin.IsReadBy.exists_isSpot {r : Reference} (h : s.IsReadBy items ds)
    (hof : s.IsOf items) (hr : r ∈ s.references) :
    ∃ d ∈ ds, IsSpot s.source d (referenceEdit s.styles r) := by
  obtain ⟨a, b, hrow⟩ := h.row
  obtain ⟨qs, hqs, rfl⟩ := h.meaning
  obtain ⟨item, hitem, k, hk, hroot⟩ := hof.of_root
  obtain ⟨d, hd, m, n, ps, hreads, hps, -, hnodes⟩ := exists_item_of_mem hrow hqs hitem
  exact ⟨d, hd, isSpot_referenceEdit hof.root_isPlaced s.styles hr hreads hps (hnodes k hk) hroot⟩

/-- What an edit of styles is like. -/
theorem LoadedSkin.IsOf.of_mem_stylesEdits (h : s.IsOf items) (hedit : edit ∈ stylesEdits s line) :
    (edit.text = [] ∨ edit.text = line ++ ['\n'] ∧ line ≠ []) ∧
      ((∃ range ∈ s.statements, ∃ m n : Nat, edit.start = m ∧ edit.stop = n ∧
          IsWidened s.source range m n ∧ n ≤ s.source.length) ∨
        edit.start = (importPlace s.source s.outline.imports : Nat) ∧
          edit.stop = (importPlace s.source s.outline.imports : Nat)) := by
  rw [stylesEdits_eq, List.mem_append, List.mem_append] at hedit
  rcases hedit with (hedit | hedit) | hedit
  · obtain ⟨i, hi, rfl⟩ := Option.map_eq_some_iff.1 (Option.mem_toList.1 hedit)
    have hstatement : i ∈ s.statements := mem_statements.2 (Or.inl hi)
    obtain ⟨hlt, hlength⟩ := h.statement_lt hstatement
    have hwidened := removal_isWidened (Nat.le_of_lt hlt) hlength
    have hend := lineEnd_le_length hlength
    unfold importEdit
    split
    · exact ⟨Or.inl rfl, Or.inl ⟨i, hstatement, _, _, rfl, rfl, hwidened, hend⟩⟩
    · rename_i hline
      refine ⟨Or.inr ⟨rfl, fun hnil => hline (by rw [hnil]; rfl)⟩,
        Or.inl ⟨i, hstatement, i.start, _, rfl, rfl, ?_, hend⟩⟩
      have hnil : slice s.source i.start i.start = [] := by
        rw [slice, Nat.sub_self, List.take_zero]
      refine ⟨Nat.le_refl _, hwidened.le_stop, ?_, Or.inl ?_, hwidened.trail⟩
      · rw [hnil]
        exact List.not_mem_nil
      · rw [hnil]
        rfl
  · obtain ⟨r, hr, rfl⟩ := Option.map_eq_some_iff.1 (Option.mem_toList.1 hedit)
    have hstatement : r ∈ s.statements := mem_statements.2 (Or.inr hr)
    obtain ⟨hlt, hlength⟩ := h.statement_lt hstatement
    exact ⟨Or.inl rfl, Or.inl ⟨r, hstatement, _, _, rfl, rfl,
      removal_isWidened (Nat.le_of_lt hlt) hlength, lineEnd_le_length hlength⟩⟩
  · split at hedit
    · cases hedit
    · rename_i hnew
      obtain rfl := List.mem_singleton.1 hedit
      refine ⟨Or.inr ⟨rfl, ?_⟩, Or.inr ⟨rfl, rfl⟩⟩
      rintro rfl
      simp at hnew

/-- A new import goes to the beginning of the source or behind an item. -/
theorem LoadedSkin.IsReadBy.importPlace_or (h : s.IsReadBy items ds) (hof : s.IsOf items)
    (htakes : ∀ d ∈ ds, TakesItem s.source x edit d)
    (hstart : edit.start = (importPlace s.source s.outline.imports : Nat))
    (hstop : edit.stop = (importPlace s.source s.outline.imports : Nat)) :
    importPlace s.source s.outline.imports ≤ s.source.length ∧
      (importPlace s.source s.outline.imports = 0 ∨ ∃ d ∈ ds, ∃ a b, Reads grammar s.source d a b ∧
        b ≤ importPlace s.source s.outline.imports ∧
          '/' ∉ slice s.source b (importPlace s.source s.outline.imports)) := by
  rcases importPlace_cases hof.toIsOutlined with hzero | ⟨i, hi, hplace⟩
  · exact ⟨by omega, Or.inl hzero⟩
  · obtain ⟨hlt, hlength, -⟩ := hof.import_hasEnds hi
    obtain ⟨j, hj, hspan⟩ := hi
    obtain ⟨d, hd, a, b, hreads, ha, hb⟩ := h.exists_reads hj (Option.mem_toList.2 hspan)
    have hwidened := removal_isWidened (Nat.le_of_lt hlt) hlength
    have hend := hwidened.le_stop
    rw [hplace] at hstart hstop ⊢
    have hbehind : b ≤ lineEnd s.source i.stop := by
      rcases (htakes d hd).or hreads with ⟨hfirst, hlast, -⟩ | hbefore | hafter <;> omega
    have hslash := hwidened.not_mem.2
    rw [← slice_append_slice hb hbehind, List.mem_append, not_or] at hslash
    exact ⟨lineEnd_le_length hlength, Or.inr ⟨d, hd, a, b, hreads, hbehind, hslash.2⟩⟩

/-! ## What the pipelines make -/

theorem importLine_eq (s : LoadedSkin) :
    s.importLine = "import " ++ s.importedName ++ " from " ++ s.quotedPath ++ ";" := by
  have hfrom : " from './".toList = " from ".toList ++ "'./".toList := by decide
  have hend : ".module.css';".toList = ".module.css'".toList ++ ";".toList := by decide
  unfold LoadedSkin.importLine LoadedSkin.importedName LoadedSkin.quotedPath
  rw [hfrom, hend]
  simp only [List.append_assoc]

/-- An edit of items leaves nothing or a line that imports the styles. -/
theorem Pipeline.SparesNames.text (h : p.SparesNames s d t)
    (htext : edit.text = [] ∨ edit.text = p.newLine s ++ ['\n'] ∧ p.newLine s ≠ []) :
    edit.text = [] ∨ ∃ line, edit.text = line ++ ['\n'] ∧ IsLine s.importedName line := by
  refine htext.imp_right ?_
  rintro ⟨htext, hne⟩
  refine ⟨p.newLine s, htext, ?_⟩
  cases p with
  | webComponent linked => exact absurd rfl hne
  | reactInline => exact absurd rfl hne
  | reactModules =>
    have hline := isLine_import (h.name rfl) (h.path rfl)
    rwa [← importLine_eq] at hline

/-- The edits of items take out items or put a line between them. -/
theorem Pipeline.SparesNames.isItemEdit (h : p.SparesNames s d t) (hof : s.IsOf items)
    (hread : s.IsReadBy items (moduleItems d)) (hedit : edit ∈ p.itemEdits s) :
    ∃ m n, IsItemEdit s.source s.importedName 0 (moduleItems d) edit m n := by
  obtain ⟨htext, hrange⟩ := hof.of_mem_stylesEdits hedit
  have hof' : IsEditOf s.source s.importedName (moduleItems d) edit :=
    ⟨h.takes edit hedit, h.seam edit hedit, h.text htext⟩
  rcases hrange with ⟨range, hmem, m, n, hstart, hstop, hwidened, hlength⟩ | ⟨hstart, hstop⟩
  · obtain ⟨hlt, -⟩ := hof.statement_lt hmem
    obtain ⟨item, hitem, hrange⟩ := hof.of_statement hmem
    obtain ⟨d', hd', a, b, hreads, ha, hb⟩ := hread.exists_reads hitem hrange
    exact ⟨m, n, hof'.isItemEdit hread.isItems hstart hstop hlength hd' hreads ha hb hlt hwidened⟩
  · obtain ⟨hlength, hbehind⟩ := hread.importPlace_or hof (h.takes edit hedit) hstart hstop
    exact ⟨_, _, hof'.isItemEdit_line hread.isItems hstart hstop hlength hbehind⟩

/-- The template literals of a component stay such. -/
theorem Pipeline.SparesNames.keepsTemplates (h : p.SparesNames s d t)
    (hp : p.key.outputFormat = .react)
    (hread : s.IsReadBy items (moduleItems d))
    (hbetween : AreBetween 0 (Edit.sorted (p.edits s)) s.source.length)
    {d' : Derivation Terminal Category Form} (hd' : d' ∈ moduleItems d) :
    KeepsTemplates s.source (Edit.sorted (p.edits s)) d' := by
  cases p with
  | webComponent linked => cases hp
  | reactInline =>
    intro a b hpart
    exact h.templates rfl a b (hpart.trans (isPart_of_mem_moduleItems hd'))
  | reactModules =>
    intro a b hpart hne
    obtain ⟨a', b', hreads⟩ := hread.isItems.exists_reads hd'
    obtain ⟨m, n, hm, hn, hreads'⟩ := hpart.exists_reads hreads
    obtain rfl : a = m := Option.some.inj hreads'.start?
    obtain rfl : b = n := Option.some.inj hreads'.stop?
    -- an edit of items is not inside of an item
    refine absurd (List.filter_eq_nil_iff.2 fun edit hedit => ?_) hne
    obtain ⟨-, hle, -⟩ := hbetween.bounds hedit
    have hmem := (Edit.sorted_perm _).mem_iff.1 hedit
    rw [isInside, Bool.and_eq_true, decide_eq_true_eq, decide_eq_true_eq]
    rcases (h.takes edit hmem d' hd').or hreads with ⟨hfirst, hlast, -⟩ | hbefore | hafter <;> omega

/-- The edits of a pipeline replace parts of items, take items out or put a line between them. -/
theorem Pipeline.SparesNames.isEditedModule (h : p.SparesNames s d t)
    (hp : p.key.outputFormat = .react) (hof : s.IsOf items)
    (hread : s.IsReadBy items (moduleItems d))
    (hbetween : AreBetween 0 (Edit.sorted (p.edits s)) s.source.length) :
    IsEditedModule s.source s.importedName 0 (moduleItems d) (Edit.sorted (p.edits s)) where
  items := hread.isItems
  between := hbetween
  edits edit hedit := by
    rcases Pipeline.mem_edits hp ((Edit.sorted_perm _).mem_iff.1 hedit) with hitem | ⟨-, r, hr, rfl⟩
    · exact Or.inr (h.isItemEdit hof hread hitem)
    · exact Or.inl (hread.exists_isSpot hof hr)
  templates d' hd' := h.keepsTemplates hp hread hbetween hd'

/-- If what is taken out of a component is whole items that bind nothing but the styles, what the
pipelines for components make of it can be read again, and all other names stay bound and are
exported if they were. -/
theorem Pipeline.react_bindings (hload : load e = .ok s) (hp : p.key.outputFormat = .react)
    (hok : (p.compileSkin c s).result = .ok o) (hd : grammar.derive .module s.source = .ok d)
    (h : ∀ f ∈ o.files.head?, p.SparesNames s d f.content) :
    ∃ t rest b b', o.files =
        { path := Path.stem s.path ++ ".tsx", type := .component, content := t } :: rest ∧
      (∃ outline, Source.outline t {} = .ok outline) ∧
      bindings? s.source = some b ∧ bindings? t = some b' ∧
      ∀ name, name ≠ s.importedName →
        (name ∈ b.bound ↔ name ∈ b'.bound) ∧ (name ∈ b.exported ↔ name ∈ b'.exported) := by
  obtain ⟨t, rest, ht, hfiles⟩ := Pipeline.exists_splice hp hok
  have hspares : p.SparesNames s d t := h _ (by rw [hfiles]; rfl)
  obtain ⟨items, hof⟩ := load_items hload
  obtain ⟨d', ds, hd', hmodule, hread, hbindings⟩ := hof.exists_isReadBy
  obtain rfl : d' = d := Except.ok.inj (hd'.symm.trans hd)
  obtain rfl := hmodule.items_eq
  obtain ⟨hbetween, htext⟩ := eq_spliceBetween ht
  obtain ⟨bs, xs, htail, hbound, hexported⟩ :=
    (hspares.isEditedModule hp hof hread hbetween).leavesModule
  rw [← htext] at htail
  have hnew := bindings?_eq hspares.reading htail.isReading
  obtain ⟨items', hitems'⟩ := (exists_bindings?_iff t).1 ⟨_, hnew⟩
  refine ⟨t, rest, _, _, hfiles, ⟨Outline.ofItems items' {}, ?_⟩, hbindings, hnew, ?_⟩
  · rw [Source.outline, hitems']
  · intro name hname
    rw [bindings, hmodule.bound_eq, hmodule.exported_eq, ← boundOfRow_eq, ← exportedOfRow_eq]
    exact ⟨(hbound name hname).symm, (hexported name hname).symm⟩

/-! ## A function that is kept -/

/-- Styles that are declared in front of a component. -/
def keptFunction : Entry where
  path := "App.tsx"
  source := "const styles=\x7b\x7d;\nexport function A()\x7breturn<a/>\x7d"

/-- The component without the styles. -/
def keptSource : Text := "export function A()\x7breturn<a/>\x7d"

theorem hasNoComment_keptSource : HasNoComment keptSource := by decide

/-- How the component can be read. -/
theorem viableRules_keptSource :
    (∀ r ∈ viableRules keptSource .item 0, r.body = [.category .exportDeclaration]) ∧
    (∀ r ∈ viableRules keptSource .exportDeclaration 0,
      r.body = [.terminal (.keyword "export"), .category .functionDeclaration]) ∧
    ∀ r ∈ viableRules keptSource .functionDeclaration 7,
      r.body = .terminal (.keyword "function") :: .terminal .name :: r.body.drop 2 ∧
        (∀ s ∈ r.body.drop 2, bindsNothing s = true) ∧
          r.body.getLast? = some (.category .block) := by
  decide

/-- A block ends with a brace, and there is one at the end of the component only. -/
theorem block_keptSource (hd : d.symbol = .category .block)
    (hreads : Reads grammar keptSource d a b) : b = keptSource.length := by
  have hrules : ∀ r ∈ grammar.rulesOf .block,
      r.body.getLast? = some (.terminal (.mark "\x7d")) := by
    decide
  have hbraces : ∀ m < keptSource.length, ∀ n ∈ (Terminal.mark "\x7d").measure (keptSource.drop m),
      m + n = keptSource.length := by
    decide
  obtain ⟨rule, ds, rfl, -, hmem, hsymbols, hrow⟩ := hreads.of_category hd
  have hlast := hrules rule hmem
  rw [← hsymbols] at hlast
  obtain ⟨brace, m, hbrace, -, hreads'⟩ := hrow.last hlast
  have hlt := hreads'.lt
  have hle := hreads'.le_length grammar_isProper
  have hend := hbraces m (by omega) (b - m) (hreads'.of_terminal hbrace)
  omega

/-- The function of the component goes up to its end. -/
theorem function_keptSource (hd : d.symbol = .category .functionDeclaration)
    (hreads : Reads grammar keptSource d 7 b) :
    b = keptSource.length ∧ bound keptSource d = [['A']] ∧ loneName keptSource d = [] := by
  obtain ⟨rule, ds, rfl, hhead, hmem, hsymbols, hregular, hrow⟩ :=
    hasNoComment_keptSource.exists_viable hd hreads
  obtain ⟨hbody, hdrop, hlast⟩ := viableRules_keptSource.2.2 rule hmem
  rw [← hsymbols] at hlast
  obtain ⟨block, m, hblock, -, hreads'⟩ := hrow.last hlast
  rw [hbody] at hsymbols
  obtain ⟨f, fs, rfl, hf, hfs⟩ := List.map_eq_cons_iff.1 hsymbols
  obtain ⟨x, rest, rfl, hx, hrest⟩ := List.map_eq_cons_iff.1 hfs
  -- the keyword, and the name behind it
  obtain ⟨rfl, hrow'⟩ :=
    hasNoComment_keptSource.of_readsRow (n := 8) hregular hf hrow (by decide)
  have hname := hrow' (List.cons_ne_nil _ _)
  have hplace : skipBlanks keptSource (7 + 8) = 16 := by decide
  rw [hplace] at hname
  obtain ⟨rfl, -⟩ := hasNoComment_keptSource.of_readsRow (n := 1)
    (fun s hs => hregular s (List.mem_cons_of_mem _ hs)) hx hname (by decide)
  refine ⟨block_keptSource hblock hreads', ?_, rfl⟩
  rw [← hrest] at hdrop
  have hnothing := boundOfRow_of_bindsNothing keptSource hdrop
  have hproperty : bindsProperty rule = false := by simp [bindsProperty, hhead]
  have hslice : slice keptSource 16 (16 + 1) = ['A'] := by decide
  rw [bound_node keptSource (by rw [hhead]; rfl) hproperty, boundOfRow, boundOfRow, hnothing, bound,
    bound, hslice]
  rfl

/-- The component is an item that exports its function. -/
theorem item_keptSource (hgap : IsGap grammar keptSource 0 a) (hd : d.symbol = .category .item)
    (hreads : Reads grammar keptSource d a b) :
    b = keptSource.length ∧ bound keptSource d = [['A']] ∧ exported keptSource d = [['A']] := by
  obtain ⟨hitem, hexport, -⟩ := viableRules_keptSource
  obtain ⟨c, hc, hblank⟩ := head_of_reads (by rw [hd]; rfl) hreads
  obtain rfl : a = 0 := hasNoComment_keptSource.eq_skipBlanks hgap hc hblank
  obtain ⟨rule, ds, rfl, hhead, hmem, hsymbols, -, hrow⟩ :=
    hasNoComment_keptSource.exists_viable hd hreads
  rw [hitem rule hmem] at hsymbols
  obtain ⟨e, rfl, he⟩ := List.map_eq_singleton_iff.1 hsymbols
  obtain ⟨rule', ds, rfl, hhead', hmem', hsymbols', hregular, hrow'⟩ :=
    hasNoComment_keptSource.exists_viable he hrow.of_singleton
  rw [hexport rule' hmem'] at hsymbols'
  obtain ⟨k, fs, rfl, hk, hfs⟩ := List.map_eq_cons_iff.1 hsymbols'
  obtain ⟨f, rfl, hf⟩ := List.map_eq_singleton_iff.1 hfs
  obtain ⟨rfl, hrest⟩ :=
    hasNoComment_keptSource.of_readsRow (n := 6) hregular hk hrow' (by decide)
  have hfunction := (hrest (List.cons_ne_nil _ _)).of_singleton
  have hplace : skipBlanks keptSource (0 + 6) = 7 := by decide
  rw [hplace] at hfunction
  obtain ⟨hlength, hbound, hname⟩ := function_keptSource hf hfunction
  obtain ⟨hbound', hexported⟩ := bound_exported_function keptSource hhead hhead' hf hname
  exact ⟨hlength, hbound'.trans hbound, hexported.trans hbound⟩

/-- There is one reading of the component. -/
theorem hasOneReading_keptSource : HasOneReading keptSource := by
  refine hasOneReading_of_item (by decide) (fun d a b hreads => ?_)
    fun d a b hgap hd hreads => item_keptSource hgap hd hreads
  exact exists_phrases_of_lacks (r := Reader.whole keptSource) (by decide)
    (by decide) hreads

/-- What is taken out in front of the function, and what the source binds. -/
theorem load_keptFunction : ((load keptFunction).toOption.bind fun s =>
      (grammar.derive .module s.source).toOption.map fun d =>
        (s.statements, s.references.map Reference.range, s.importedName, bindings s.source d,
          decide (∀ edit ∈ Pipeline.reactInline.itemEdits s, BeginsApart s.source edit ∧
            ∀ item ∈ moduleItems d, TakesItem s.source s.importedName edit item))) =
    some ([⟨0, 16⟩], [], "styles".toList, ⟨["styles".toList, ['A']], [['A']]⟩, true) := by
  decide +kernel

theorem exists_keptFunction : ∃ s d, load keptFunction = .ok s ∧
    grammar.derive .module s.source = .ok d ∧ s.importedName = "styles".toList ∧
      bindings? s.source = some ⟨["styles".toList, ['A']], [['A']]⟩ ∧
        splice s.source (Pipeline.reactInline.edits s) = .ok keptSource ∧
          Pipeline.reactInline.SparesNames s d keptSource := by
  obtain ⟨s, hload, hs⟩ := exists_eq_ok_of_bind load_keptFunction
  obtain ⟨d, hd, hfacts⟩ := exists_eq_ok hs
  simp only [Prod.mk.injEq, decide_eq_true_eq] at hfacts
  obtain ⟨hstatements, hreferences, hname, hbindings, htakes⟩ := hfacts
  obtain ⟨-, -, hsource⟩ := of_load hload
  obtain ⟨items, hof⟩ := load_items hload
  obtain ⟨d', -, hd', -, -, hsome⟩ := hof.exists_isReadBy
  obtain rfl : d' = d := Except.ok.inj (hd'.symm.trans hd)
  have hsplice : splice s.source (Pipeline.reactInline.edits s) = .ok keptSource := by
    rw [hsource]
    refine (splice_statement hload hstatements hreferences).trans ?_
    decide
  have hlacks : Lacks .template s.source := by
    rw [hsource]
    decide
  refine ⟨s, d', hload, hd, hname, hsome.trans (congrArg some hbindings), hsplice,
    fun edit hedit => (htakes edit hedit).2, fun edit hedit => (htakes edit hedit).1, nofun, nofun,
    ?_, hasOneReading_keptSource⟩
  intro _ a b hpart
  obtain ⟨m, n, -, hreads, -⟩ := derive_reads grammar_isProper hd
  obtain ⟨k, l, -, -, htemplate⟩ := hpart.exists_reads hreads
  exact absurd List.mem_cons_self (hlacks.not_mem (.one htemplate))

/-- The function of that component stays bound, and is exported. -/
theorem react_bindings_keptFunction : ∃ s d o t rest b b', load keptFunction = .ok s ∧
    grammar.derive .module s.source = .ok d ∧
    (Pipeline.reactInline.compileSkin { outputFormat := .react } s).result = .ok o ∧
    (∀ f ∈ o.files.head?, Pipeline.reactInline.SparesNames s d f.content) ∧ o.files =
      { path := Path.stem s.path ++ ".tsx", type := .component, content := t } :: rest ∧
    bindings? s.source = some b ∧ bindings? t = some b' ∧
    (['A'] ∈ b.bound ∧ ['A'] ∈ b'.bound) ∧ ['A'] ∈ b.exported ∧ ['A'] ∈ b'.exported := by
  obtain ⟨s, d, hload, hd, hname, hb, hsplice, hspares⟩ := exists_keptFunction
  obtain ⟨o, rest, hok, hfiles⟩ := Pipeline.exists_output { outputFormat := .react } rfl hsplice
  have hfirst : ∀ f ∈ o.files.head?, Pipeline.reactInline.SparesNames s d f.content := by
    intro f hf
    rw [hfiles] at hf
    obtain rfl := Option.some.inj hf
    exact hspares
  obtain ⟨t, rest, b, b', hfiles', -, hsome, hb', hnames⟩ :=
    Pipeline.react_bindings hload rfl hok hd hfirst
  obtain rfl : b = ⟨["styles".toList, ['A']], [['A']]⟩ := Option.some.inj (hsome.symm.trans hb)
  obtain ⟨hbound, hexported⟩ := hnames ['A'] (by rw [hname]; decide)
  have hbound' : ['A'] ∈ ["styles".toList, ['A']] := by decide
  have hexported' : ['A'] ∈ [['A']] := by decide
  exact ⟨s, d, o, t, rest, _, b', hload, hd, hok, hfirst, hfiles', hb, hb',
    ⟨hbound', hbound.1 hbound'⟩, hexported', hexported.1 hexported'⟩

/-! ## A name that is lost -/

/-- Styles that are declared in one statement with something else. -/
def sharedStatement : Entry where
  path := "App.tsx"
  source := "const styles=\x7b\x7d,size=2;export default()=><a/>"

theorem load_sharedStatement : ((load sharedStatement).toOption.map fun s =>
      (s.statements, s.references.map Reference.range)) = some ([⟨0, 23⟩], []) ∧
    bindings? sharedStatement.source = some ⟨["styles".toList, "size".toList], []⟩ := by
  decide +kernel

/-- What is declared beside the styles is no more bound in that component, although it can be read. -/
theorem compile_sharedStatement : ∃ o, (Registry.builtIn.compile { outputFormat := .react }
      sharedStatement).result = .ok o ∧
    o.files.head?.map File.content = some "export default()=><a/>".toList ∧
    bindings? sharedStatement.source = some ⟨["styles".toList, "size".toList], []⟩ ∧
    bindings? "export default()=><a/>" = some ⟨[], []⟩ := by
  obtain ⟨hspans, hbindings⟩ := load_sharedStatement
  obtain ⟨s, hload, hspans⟩ := exists_eq_ok hspans
  obtain ⟨hstatements, hreferences⟩ := Prod.mk.inj hspans
  obtain ⟨-, -, hsource⟩ := of_load hload
  have hsplice :
      splice s.source (Pipeline.reactInline.edits s) = .ok "export default()=><a/>".toList := by
    rw [hsource]
    refine (splice_statement hload hstatements hreferences).trans ?_
    decide
  obtain ⟨o, rest, hok, hfiles⟩ := Pipeline.exists_output { outputFormat := .react } rfl hsplice
  refine ⟨o, (Registry.result_compile rfl hload).trans hok, ?_, hbindings, ?_⟩
  · rw [hfiles]
    rfl
  · decide +kernel

end SkinCompiler.Skin
