import SkinCompiler.Proofs.Skin.Reference
import SkinCompiler.Proofs.Skin.StylesEdit
import SkinCompiler.Proofs.Source.Outline
import SkinCompiler.Proofs.Text.Splice
import SkinCompiler.Skin.Pipeline

/-!
# When the styles of a component can be taken out

The edits of a component keep clear of one another unless a reference to the styles stands inside
their own declaration, or the import of the styles follows on an `export` that ends their
declaration.

* `load_items` -- a loaded skin is the outline of the items of its source;
* `inline_isOk_iff` -- when the classes of a component can be put in place;
* `modules_isOk` -- the styles of a component can always be imported instead.
-/

namespace SkinCompiler.Skin

open Source Text

variable {e : Entry} {s : LoadedSkin} {items : List ModuleItem} {parts : Parts}

/-! ## Loaded skins -/

/-- A skin has an outline of the items of its source. -/
structure LoadedSkin.IsOutlined (s : LoadedSkin) (items : List ModuleItem) (parts : Parts) :
    Prop where
  /-- The items are those of the source. -/
  read : readModule s.source = .ok items
  /-- The outline is that of the items. -/
  outline : s.outline = Outline.ofItems items parts

/-- A skin that was loaded is made of the items of its source. -/
structure LoadedSkin.IsOf (s : LoadedSkin) (items : List ModuleItem) : Prop
    extends s.IsOutlined items {} where
  /-- The element is that of the outline. -/
  root : s.outline.root = some s.root

theorem outline_eq_ok {source : Text} {o : Outline} (h : Source.outline source parts = .ok o) :
    ∃ items, readModule source = .ok items ∧ o = Outline.ofItems items parts := by
  unfold Source.outline at h
  cases hread : readModule source with
  | error e =>
    rw [hread] at h
    cases h
  | ok items =>
    rw [hread] at h
    exact ⟨items, rfl, (Except.ok.inj h).symm⟩

theorem readOutline_eq_ok {path source : Text} {o : Outline}
    (h : readOutline path source {} = .ok o) :
    ∃ items, readModule source = .ok items ∧ o = Outline.ofItems items {} := by
  unfold readOutline at h
  cases hread : Source.outline source {} with
  | error e =>
    rw [hread] at h
    cases h
  | ok o' =>
    rw [hread] at h
    obtain rfl := Except.ok.inj h
    exact outline_eq_ok hread

/-- What a loaded skin is made of: the outline of its source, the element of this outline, and the
source under its name. -/
theorem parts_of_load (h : load e = .ok s) : readOutline e.path e.source {} = .ok s.outline ∧
    s.outline.root = some s.root ∧ s.source = e.source ∧ s.path = e.path := by
  unfold load at h
  obtain ⟨o, hread, h⟩ := bind_eq_ok_iff.1 h
  split at h
  · rename_i root name hroot hname
    obtain ⟨value, -, h⟩ := bind_eq_ok_iff.1 h
    cases h
    exact ⟨hread, hroot, rfl, rfl⟩
  · cases h

/-- A loaded skin has the outline of its source, which has an element. -/
theorem of_load (h : load e = .ok s) : readOutline e.path e.source {} = .ok s.outline ∧
    s.outline.root = some s.root ∧ s.source = e.source := by
  obtain ⟨hread, hroot, hsource, -⟩ := parts_of_load h
  exact ⟨hread, hroot, hsource⟩

theorem path_of_load (h : load e = .ok s) : s.path = e.path := (parts_of_load h).2.2.2

/-- A loaded skin has the outline of its source. -/
theorem outline_of_load (h : load e = .ok s) : Source.outline s.source {} = .ok s.outline := by
  obtain ⟨hread, -, hsource⟩ := of_load h
  obtain ⟨items, hitems, houtline⟩ := readOutline_eq_ok hread
  unfold Source.outline
  rw [hsource, hitems, houtline]

theorem load_items (h : load e = .ok s) : ∃ items, s.IsOf items := by
  obtain ⟨hread, hroot, hsource⟩ := of_load h
  obtain ⟨items, hitems, houtline⟩ := readOutline_eq_ok hread
  exact ⟨items, ⟨by rw [hsource, hitems], houtline⟩, hroot⟩

/-- A range that an import among the items has. -/
def IsImported (items : List ModuleItem) (i : Span) : Prop :=
  ∃ j, .imported j ∈ items ∧ j.span = some i

/-- The range of the import of the styles. -/
def LoadedSkin.importSpan (s : LoadedSkin) : Option Span := s.outline.stylesImport.bind (·.span)

/-- The range of the declaration of the styles, if they have a value. -/
def LoadedSkin.declarationSpan (s : LoadedSkin) : Option Span :=
  if s.outline.stylesValue.isSome then s.outline.stylesSpan else none

/-- The references to styles in the element tree. -/
def LoadedSkin.references (s : LoadedSkin) : List Reference :=
  Skin.references s.outline.stylesName s.root

/-- The edits of styles: of the import, of the declaration, and a new import. -/
theorem stylesEdits_eq (s : LoadedSkin) (replacement : Text) :
    stylesEdits s replacement =
      (s.importSpan.map (importEdit s.source replacement)).toList
        ++ (s.declarationSpan.map (removal s.source)).toList
        ++ if replacement.isEmpty || s.importSpan.isSome then []
          else [⟨(importPlace s.source s.outline.imports : Nat),
            (importPlace s.source s.outline.imports : Nat), replacement ++ ['\n']⟩] := by
  unfold stylesEdits LoadedSkin.declarationSpan LoadedSkin.importSpan
  dsimp only
  congr 2
  cases s.outline.stylesSpan <;> cases s.outline.stylesValue <;> rfl

/-! ## Ranges of removals -/

variable {source : Text} {d i : Span} {b : Node} {r r' : Reference}

theorem removal_isIn (h : d.start < d.stop) (hlength : d.stop ≤ source.length) :
    (removal source d).IsIn source.length := by
  have hstart := lineStart_le source d.start
  have hstop := le_lineEnd source d.stop
  exact Text.Edit.isIn_of_le [] (by omega) (lineEnd_le_length hlength)

/-- Braces that do not overlap a range do not overlap its removal. -/
theorem removal_clear (hb : b.IsSeated source) (hbraces : ∃ s e, b = .container s (some e))
    (hapart : d.Before b.span ∨ b.span.Before d) :
    b.span.stop ≤ lineStart source d.start ∨ lineEnd source d.stop ≤ b.span.start := by
  obtain ⟨s, e, rfl⟩ := hbraces
  obtain ⟨hopen, hclose⟩ := hb.ends
  rcases hapart with hbefore | hbefore
  · exact Or.inr (lineEnd_le hbefore hopen (by decide))
  · left
    have hlt : s.start < s.stop := hb.lt
    have hle : s.stop ≤ d.start := hbefore
    have hstart : s.stop - 1 < lineStart source d.start :=
      le_lineStart (by omega) hclose (by decide) (by decide)
    exact Nat.le_of_pred_lt hstart

theorem mem_ranges_of_mem_nodes {item : ModuleItem} {n : Node} (h : n ∈ item.nodes) :
    n.span ∈ item.ranges := by
  cases item with
  | imported _ => cases h
  | _ => exact List.mem_map_of_mem h

theorem not_mem_of_isAsciiLetter {c : Char} (h : isAsciiLetter c = true) :
    c ∉ [' ', '\t', ';', '\n'] := by
  intro hc
  simp only [List.mem_cons, List.not_mem_nil, or_false] at hc
  rcases hc with rfl | rfl | rfl | rfl <;> revert h <;> decide

namespace LoadedSkin.IsOutlined

theorem arePlaced (h : s.IsOutlined items parts) : ModuleItem.ArePlaced s.source items :=
  readModule_placed h.read

/-- An import is an item of its own. -/
theorem of_imports (h : s.IsOutlined items parts) {j : Import} (hj : j ∈ s.outline.imports)
    (hspan : j.span = some i) : IsImported items i := by
  rw [h.outline] at hj
  exact ⟨j, Outline.mem_of_imports hj, hspan⟩

/-- The import of the styles is an import. -/
theorem isImported (h : s.IsOutlined items parts) (hi : i ∈ s.importSpan) : IsImported items i := by
  obtain ⟨j, hj, hspan⟩ := Option.bind_eq_some_iff.1 hi
  rw [h.outline] at hj
  exact ⟨j, Outline.mem_of_stylesImport hj, hspan⟩

/-- The declaration of the styles is the node of an item. -/
theorem of_declarationSpan (h : s.IsOutlined items parts) (hd : d ∈ s.declarationSpan) :
    ∃ item ∈ items, ∃ w ds, Node.declaration d w ds ∈ item.nodes := by
  unfold LoadedSkin.declarationSpan at hd
  split at hd
  · rw [h.outline] at hd
    obtain ⟨w, ds, hmem⟩ := Outline.mem_of_stylesSpan hd
    obtain ⟨item, hitem, hnode⟩ := List.mem_flatMap.1 hmem
    exact ⟨item, hitem, w, ds, hnode⟩
  · cases hd

/-- An import has its range in the source. -/
theorem import_hasEnds (h : s.IsOutlined items parts) (hi : IsImported items i) :
    i.start < i.stop ∧ i.stop ≤ s.source.length ∧ s.source[i.start]? = some 'i' ∧
      ∃ c ∈ ['\'', '"', ';'], s.source[i.stop - 1]? = some c := by
  obtain ⟨j, hj, hspan⟩ := hi
  obtain ⟨i', hspan', hends⟩ := h.arePlaced.imports j hj
  obtain rfl : i' = i := Option.some.inj (hspan'.symm.trans hspan)
  exact hends

/-- The declaration has its range in the source. -/
theorem declaration_hasEnds (h : s.IsOutlined items parts) (hd : d ∈ s.declarationSpan) :
    d.start < d.stop ∧ d.stop ≤ s.source.length ∧
      (∃ c, s.source[d.start]? = some c ∧ isAsciiLetter c = true) ∧ IsSolidAt s.source d.stop := by
  obtain ⟨item, hitem, w, ds, hnode⟩ := h.of_declarationSpan hd
  have hplaced := h.arePlaced.placed _ (List.mem_flatMap.2 ⟨item, hitem, hnode⟩)
  have hseated := hplaced _ (Node.mem_all_self _)
  exact ⟨hseated.lt, hseated.le_length, hseated.ends⟩

/-- An import and the declaration follow one another. -/
theorem import_declaration (h : s.IsOutlined items parts) (hi : IsImported items i)
    (hd : d ∈ s.declarationSpan) : i.Before d ∨ d.Before i := by
  obtain ⟨j, hj, hspan⟩ := hi
  obtain ⟨item, hitem, w, ds, hnode⟩ := h.of_declarationSpan hd
  have hne : .imported j ≠ item := by
    rintro rfl
    cases hnode
  exact h.arePlaced.apart hj hitem hne (Option.mem_toList.2 hspan) (mem_ranges_of_mem_nodes hnode)

/-- The removal of an import does not reach the declaration after it. -/
theorem import_clear (h : s.IsOutlined items parts) (hi : IsImported items i)
    (hd : d ∈ s.declarationSpan) (hbefore : i.Before d) :
    lineEnd s.source i.stop ≤ lineStart s.source d.start := by
  obtain ⟨hlt, -, -, c, hc, hlast⟩ := h.import_hasEnds hi
  obtain ⟨-, -, ⟨c', hfirst, hletter⟩, -⟩ := h.declaration_hasEnds hd
  have hstop : i.stop ≤ d.start := hbefore
  refine (lineEnd_le_lineStart_iff hfirst (not_mem_of_isAsciiLetter hletter) hstop).2 ?_
  have hsolid : isBlank c = false ∧ c ∉ "export".toList := by
    simp only [List.mem_cons, List.not_mem_nil, or_false] at hc
    rcases hc with rfl | rfl | rfl <;> decide
  have hle : i.stop - 1 < lineStart s.source d.start :=
    le_lineStart (by omega) hlast hsolid.1 hsolid.2
  omega

/-- The removal of a declaration reaches the import after it just if that takes the end of the
declaration for its `export`. -/
theorem declaration_clear_iff (h : s.IsOutlined items parts) (hi : IsImported items i)
    (hbefore : d.Before i) :
    lineEnd s.source d.stop ≤ lineStart s.source i.start ↔
      d.stop ≤ lineStart s.source i.start := by
  obtain ⟨-, -, hfirst, -⟩ := h.import_hasEnds hi
  exact lineEnd_le_lineStart_iff hfirst (by decide) hbefore

/-- The removals of the import and of the declaration keep clear of one another unless the import
takes the end of the declaration for its `export`. -/
theorem removals_apart_iff (h : s.IsOutlined items parts) (hi : IsImported items i)
    (hd : d ∈ s.declarationSpan) :
    (removal s.source i).IsApart (removal s.source d) ↔
      (d.Before i → d.stop ≤ lineStart s.source i.start) := by
  have hi_begin := lineStart_le s.source i.start
  have hi_end := le_lineEnd s.source i.stop
  have hd_begin := lineStart_le s.source d.start
  have hd_end := le_lineEnd s.source d.stop
  obtain ⟨hi_lt, -⟩ := h.import_hasEnds hi
  obtain ⟨hd_lt, -⟩ := h.declaration_hasEnds hd
  unfold Text.Edit.IsApart
  simp only [removal, Int.ofNat_le]
  rcases h.import_declaration hi hd with hbefore | hbefore
  · have hclear := h.import_clear hi hd hbefore
    have hle : i.stop ≤ d.start := hbefore
    constructor
    · intro _ (hback : d.stop ≤ i.start)
      omega
    · intro _
      exact Or.inl hclear
  · have hle : d.stop ≤ i.start := hbefore
    rw [← h.declaration_clear_iff hi hbefore]
    constructor
    · rintro (hclear | hclear) _
      · omega
      · exact hclear
    · intro hclear
      exact Or.inr (hclear hbefore)

end LoadedSkin.IsOutlined

namespace LoadedSkin.IsOf

variable {n m : Node}

/-- The element tree stands in a node of an item. -/
theorem of_root (h : s.IsOf items) : ∃ item ∈ items, ∃ n ∈ item.nodes, s.root ∈ n.all := by
  have hroot := h.root
  rw [h.outline] at hroot
  obtain ⟨n, hn, hmem⟩ := Outline.mem_of_root hroot
  obtain ⟨item, hitem, hnode⟩ := List.mem_flatMap.1 hn
  exact ⟨item, hitem, n, hnode, hmem⟩

theorem root_isPlaced (h : s.IsOf items) : s.root.IsPlaced s.source := by
  obtain ⟨item, hitem, n, hn, hroot⟩ := h.of_root
  have hplaced := h.arePlaced.placed n (List.mem_flatMap.2 ⟨item, hitem, hn⟩)
  exact fun m hm => hplaced m (Node.mem_all_trans hm hroot)

/-- Nodes of the element tree keep clear of the range of an item or lie in the node of the item. -/
theorem range_apart (h : s.IsOf items) {item : ModuleItem} (hitem : item ∈ items)
    (ha : d ∈ item.ranges) (hn : n ∈ s.root.all) :
    (d.Before n.span ∨ n.span.Before d) ∨ ∃ k ∈ item.nodes, n.span.Within k.span := by
  obtain ⟨item', hitem', k, hk, hroot⟩ := h.of_root
  have hplaced := h.arePlaced.placed k (List.mem_flatMap.2 ⟨item', hitem', hk⟩)
  have hwithin := hplaced.within (Node.mem_all_trans hn hroot)
  by_cases hsame : item = item'
  · rw [hsame]
    exact Or.inr ⟨k, hk, hwithin⟩
  · left
    rcases h.arePlaced.apart hitem hitem' hsame ha (mem_ranges_of_mem_nodes hk)
      with hbefore | hbefore
    · exact Or.inl (hbefore.mono (Span.Within.refl _) hwithin)
    · exact Or.inr (hbefore.mono hwithin (Span.Within.refl _))

/-- Nodes of the element tree keep clear of the import. -/
theorem import_apart (h : s.IsOf items) (hi : IsImported items i) (hn : n ∈ s.root.all) :
    i.Before n.span ∨ n.span.Before i := by
  obtain ⟨j, hj, hspan⟩ := hi
  rcases h.range_apart hj (Option.mem_toList.2 hspan) hn with hapart | ⟨k, hk, -⟩
  · exact hapart
  · cases hk

/-- Nodes of the element tree keep clear of the declaration or lie inside it. -/
theorem declaration_apart (h : s.IsOf items) (hd : d ∈ s.declarationSpan) (hn : n ∈ s.root.all) :
    (d.Before n.span ∨ n.span.Before d) ∨ n.span.Within d := by
  obtain ⟨item, hitem, w, ds, hnode⟩ := h.of_declarationSpan hd
  refine (h.range_apart hitem (mem_ranges_of_mem_nodes hnode) hn).imp_right ?_
  rintro ⟨k, hk, hwithin⟩
  -- an item has no more than one node
  have heq : k = .declaration d w ds := by
    cases item <;> simp [ModuleItem.nodes] at hnode hk <;> rw [hk, hnode]
  rwa [heq] at hwithin

/-- The edit of a reference lies in the braces around it and holds the reference. -/
theorem referenceEdit_within (h : s.IsOf items) (hr : r ∈ s.references) :
    ∃ b ∈ s.root.all, (∃ t e, b = .container t (some e)) ∧ ∃ n ∈ b.all,
      (referenceEdit s.styles r).start = n.span.start ∧
      (referenceEdit s.styles r).stop = n.span.stop ∧ r.span.Within n.span ∧
      n.span.Within b.span ∧ r.span.start < r.span.stop := by
  obtain ⟨b, n, m, hat⟩ := of_mem_references hr
  have hplaced := h.root_isPlaced
  have hb : b.IsPlaced s.source := fun k hk => hplaced k (Node.mem_all_trans hk hat.braces_mem)
  have hn : n.IsPlaced s.source := fun k hk => hb k (Node.mem_all_trans hk hat.node_mem)
  have hmem : m ∈ n.all := hat.member_mem
  refine ⟨b, hat.braces_mem, hat.braces, n, hat.node_mem, ?_, ?_, ?_, hb.within hat.node_mem, ?_⟩
  · rw [hat.span_eq]
    rfl
  · rw [hat.span_eq]
    rfl
  · rw [← hat.member_span]
    exact hn.within hmem
  · rw [← hat.member_span]
    exact (hn m hmem).lt

end LoadedSkin.IsOf

/-! ## Components -/

/-- The classes of a skin can be put in place: no reference stands in the declaration that is taken
out, and the import does not take the end of the declaration for its `export`. -/
structure LoadedSkin.IsDetachable (s : LoadedSkin) : Prop where
  /-- References are outside the declaration. -/
  outside : ∀ d ∈ s.declarationSpan, ∀ r ∈ s.references, ¬r.span.Within d
  /-- What is taken out with the import begins after the declaration. -/
  clear : ∀ d ∈ s.declarationSpan, ∀ i ∈ s.importSpan, d.Before i →
    d.stop ≤ lineStart s.source i.start

/-- The edits that put the classes of a skin in place. -/
def LoadedSkin.inlineEdits (s : LoadedSkin) : List Edit :=
  stylesEdits s [] ++ s.references.map (referenceEdit s.styles)

theorem pairwise_toList {α : Type} {R : α → α → Prop} (o : Option α) : o.toList.Pairwise R := by
  cases o <;> simp

theorem stylesEdits_nil (s : LoadedSkin) : stylesEdits s [] =
    s.importSpan.toList.map (removal s.source) ++
      s.declarationSpan.toList.map (removal s.source) := by
  have himport : importEdit s.source [] = removal s.source := rfl
  rw [stylesEdits_eq, himport, Option.toList_map, Option.toList_map]
  simp

theorem inlineEdits_eq (s : LoadedSkin) : s.inlineEdits =
    s.importSpan.toList.map (removal s.source) ++
      s.declarationSpan.toList.map (removal s.source) ++
        s.references.map (referenceEdit s.styles) := by
  unfold LoadedSkin.inlineEdits
  rw [stylesEdits_nil]

theorem inlineEdits_isIn (h : s.IsOf items) :
    ∀ edit ∈ s.inlineEdits, edit.IsIn s.source.length := by
  intro edit hedit
  simp only [inlineEdits_eq, List.mem_append, List.mem_map, Option.mem_toList] at hedit
  rcases hedit with (⟨i, hi, rfl⟩ | ⟨d, hd, rfl⟩) | ⟨r, hr, rfl⟩
  · obtain ⟨hlt, hlength, -⟩ := h.import_hasEnds (h.isImported hi)
    exact removal_isIn hlt hlength
  · obtain ⟨hlt, hlength, -⟩ := h.declaration_hasEnds hd
    exact removal_isIn hlt hlength
  · obtain ⟨b, hb, -, n, hn, hstart, hstop, -⟩ := h.referenceEdit_within hr
    have hseated := h.root_isPlaced n (Node.mem_all_trans hn hb)
    have hlt := hseated.lt
    have hlength := hseated.le_length
    constructor <;> omega

/-- A removal keeps clear of what is replaced for a reference if its range keeps clear of the braces
around it. -/
theorem removal_referenceEdit (h : s.IsOf items) (hr : r ∈ s.references)
    (hapart : ∀ b ∈ s.root.all, r.span.Within b.span → d.Before b.span ∨ b.span.Before d) :
    (removal s.source d).IsApart (referenceEdit s.styles r) := by
  obtain ⟨b, hb, hbraces, n, hn, hstart, hstop, hin, hwithin, -⟩ := h.referenceEdit_within hr
  have hstarts := hwithin.start_le
  have hstops := hwithin.le_stop
  have hclear := removal_clear (h.root_isPlaced b hb) hbraces (hapart b hb (hin.trans hwithin))
  unfold Text.Edit.IsApart
  rw [hstart, hstop]
  simp only [removal]
  omega

/-- What is replaced for references with ranges of their own keeps clear of one another. -/
theorem referenceEdit_apart (h : s.IsOf items) (hr : r ∈ s.references) (hr' : r' ∈ s.references)
    (hne : r.span ≠ r'.span) :
    (referenceEdit s.styles r).IsApart (referenceEdit s.styles r') := by
  obtain ⟨b, n, m, hat⟩ := of_mem_references hr
  obtain ⟨b', n', m', hat'⟩ := of_mem_references hr'
  have hspan := hat.span_eq
  have hspan' := hat'.span_eq
  unfold Text.Edit.IsApart referenceEdit
  dsimp only
  rw [← hspan, ← hspan']
  rcases hat.apart h.root_isPlaced hat' hne with hbefore | hbefore
  · left
    exact Int.ofNat_le.2 hbefore
  · right
    exact Int.ofNat_le.2 hbefore

/-- A reference in the declaration is in what is taken out with it. -/
theorem not_apart_of_within (h : s.IsOf items) (hr : r ∈ s.references) (hwithin : r.span.Within d) :
    ¬(removal s.source d).IsApart (referenceEdit s.styles r) := by
  obtain ⟨b, hb, hbraces, n, hn, hstart, hstop, hin, -, hlt⟩ := h.referenceEdit_within hr
  have hbegin := lineStart_le s.source d.start
  have hend := le_lineEnd s.source d.stop
  have hstarts := hwithin.start_le
  have hstops := hwithin.le_stop
  have hle := hin.start_le
  have hle' := hin.le_stop
  unfold Text.Edit.IsApart
  rw [hstart, hstop]
  simp only [removal]
  omega

/-- The classes of a component can be put in place just if it can be detached from its styles. -/
theorem inline_isOk_iff (h : s.IsOf items) :
    (∃ t, splice s.source s.inlineEdits = .ok t) ↔ s.IsDetachable := by
  rw [splice_isOk_iff, and_iff_right (inlineEdits_isIn h), inlineEdits_eq, List.pairwise_append,
    List.pairwise_append]
  simp only [List.pairwise_map, List.mem_append, List.forall_mem_map, Option.mem_toList]
  constructor
  · rintro ⟨⟨-, -, hremovals⟩, -, hreferences⟩
    constructor
    · intro d hd r hr hwithin
      exact not_apart_of_within h hr hwithin
        (hreferences _ (Or.inr (List.mem_map_of_mem (Option.mem_toList.2 hd))) r hr)
    · intro d hd i hi
      exact (h.removals_apart_iff (h.isImported hi) hd).1 (hremovals i hi d hd)
  · intro hdetach
    refine ⟨⟨pairwise_toList _, pairwise_toList _, ?_⟩, ?_, ?_⟩
    · intro i hi d hd
      exact (h.removals_apart_iff (h.isImported hi) hd).2 (hdetach.clear d hd i hi)
    · refine references_pairwise.imp_of_mem ?_
      intro r r' hr hr' hne
      exact referenceEdit_apart h hr hr' hne
    · rintro edit (hedit | hedit) r hr <;> obtain ⟨d, hd, rfl⟩ := List.mem_map.1 hedit
      · refine removal_referenceEdit h hr ?_
        intro b hb _
        exact h.import_apart (h.isImported (Option.mem_toList.1 hd)) hb
      · refine removal_referenceEdit h hr ?_
        intro b hb hwithin
        refine (h.declaration_apart (Option.mem_toList.1 hd) hb).resolve_right ?_
        intro hinside
        exact hdetach.outside d (Option.mem_toList.1 hd) r hr (hwithin.trans hinside)

/-! ### Styles that are imported instead -/

variable {line : Text}

theorem foldl_max_mem (n : Nat) (ns : List Nat) : ns.foldl max n ∈ n :: ns := by
  induction ns generalizing n with
  | nil => exact List.mem_singleton_self n
  | cons k ns ih =>
    rw [List.foldl_cons]
    rcases List.mem_cons.1 (ih (max n k)) with heq | hmem
    · rw [heq]
      rcases Nat.le_total n k with hle | hle
      · rw [Nat.max_eq_right hle]
        simp
      · rw [Nat.max_eq_left hle]
        simp
    · exact List.mem_cons_of_mem _ (List.mem_cons_of_mem _ hmem)

/-- The place of a new import is the beginning or the end of an import. -/
theorem importPlace_cases (h : s.IsOutlined items parts) :
    importPlace s.source s.outline.imports = 0 ∨
      ∃ i, IsImported items i ∧
        importPlace s.source s.outline.imports = lineEnd s.source i.stop := by
  unfold importPlace
  cases hspans : s.outline.imports.filterMap (·.span) with
  | nil => exact Or.inl rfl
  | cons i spans =>
    right
    have hmem : ((i :: spans).map (·.stop)).foldl max 0 ∈ (i :: spans).map (·.stop) := by
      rw [List.map_cons, List.foldl_cons, Nat.zero_max]
      exact foldl_max_mem _ _
    obtain ⟨k, hk, hstop⟩ := List.mem_map.1 hmem
    rw [← hspans] at hk
    obtain ⟨j, hj, hspan⟩ := List.mem_filterMap.1 hk
    exact ⟨k, h.of_imports hj hspan, congrArg (lineEnd s.source) hstop.symm⟩

/-- A new import goes into the source and keeps clear of the removal of the declaration. -/
theorem importPlace_clear (h : s.IsOutlined items parts) (text : Text) :
    let place : Int := importPlace s.source s.outline.imports
    Edit.IsIn s.source.length ⟨place, place, text⟩ ∧
      ∀ d ∈ s.declarationSpan, (removal s.source d).IsApart ⟨place, place, text⟩ := by
  intro place
  rcases importPlace_cases h with hplace | ⟨i, hi, hplace⟩
  · constructor
    · exact Edit.isIn_of_le text (Nat.le_refl _) (by omega)
    · intro d _
      right
      simp only [place, hplace, removal]
      omega
  · obtain ⟨hlt, hlength, hfirst, -⟩ := h.import_hasEnds hi
    have hend := le_lineEnd s.source i.stop
    constructor
    · refine Edit.isIn_of_le text (Nat.le_refl _) ?_
      rw [hplace]
      exact lineEnd_le_length hlength
    · intro d hd
      unfold Edit.IsApart
      simp only [place, hplace, removal, Int.ofNat_le]
      rcases h.import_declaration hi hd with hbefore | hbefore
      · exact Or.inr (h.import_clear hi hd hbefore)
      · left
        have hle := lineEnd_le hbefore hfirst (by decide)
        omega

/-- What is put in the place of an import is in the source and keeps clear of the removal of the
declaration. -/
theorem importEdit_clear (h : s.IsOutlined items parts) (hi : IsImported items i) (text : Text) :
    Edit.IsIn s.source.length ⟨i.start, lineEnd s.source i.stop, text⟩ ∧
      ∀ d ∈ s.declarationSpan,
        Edit.IsApart ⟨i.start, lineEnd s.source i.stop, text⟩ (removal s.source d) := by
  obtain ⟨hlt, hlength, hfirst, -⟩ := h.import_hasEnds hi
  constructor
  · have hend := le_lineEnd s.source i.stop
    exact Edit.isIn_of_le text (by omega) (lineEnd_le_length hlength)
  · intro d hd
    unfold Edit.IsApart
    simp only [removal, Int.ofNat_le]
    rcases h.import_declaration hi hd with hbefore | hbefore
    · exact Or.inl (h.import_clear hi hd hbefore)
    · exact Or.inr (lineEnd_le hbefore hfirst (by decide))

/-- A line can be put in the place of the import and the declaration of the styles. -/
theorem modules_isOk (h : s.IsOutlined items parts) (hline : line ≠ []) :
    ∃ t, splice s.source (stylesEdits s line) = .ok t := by
  have hempty : line.isEmpty = false := by simpa using hline
  have hedit : importEdit s.source line =
      fun i => ⟨i.start, lineEnd s.source i.stop, line ++ ['\n']⟩ := by
    funext i
    rw [importEdit, if_neg (by simpa using hline)]
  have hremoval : ∀ d ∈ s.declarationSpan, (removal s.source d).IsIn s.source.length := by
    intro d hd
    obtain ⟨hlt, hlength, -⟩ := h.declaration_hasEnds hd
    exact removal_isIn hlt hlength
  rw [splice_isOk_iff, stylesEdits_eq, hedit, hempty, Bool.false_or]
  cases himport : s.importSpan with
  | some i =>
    obtain ⟨hin, hapart⟩ := importEdit_clear h (h.isImported himport) (line ++ ['\n'])
    cases hdeclaration : s.declarationSpan with
    | none => simpa using hin
    | some d => simpa using ⟨⟨hin, hremoval d hdeclaration⟩, hapart d hdeclaration⟩
  | none =>
    obtain ⟨hin, hapart⟩ := importPlace_clear h (line ++ ['\n'])
    cases hdeclaration : s.declarationSpan with
    | none => simpa using hin
    | some d => simpa using ⟨⟨hremoval d hdeclaration, hin⟩, hapart d hdeclaration⟩

end SkinCompiler.Skin
