import SkinCompiler.Proofs.Source.Lookahead
import SkinCompiler.Proofs.Source.Placement
import SkinCompiler.Proofs.Source.StandIn

/-!
# Items of a module

A derivation of a module is a row of derivations of items, and any such row makes a module.

* `moduleItems` -- the items of a derivation;
* `exists_module` -- the module of a row of items;
* `IsModuleOf` -- what a module binds and exports, and whether it has a meaning, is so of its items;
* `exists_item_of_mem` -- where the ranges and the nodes of a module are read.
-/

namespace SkinCompiler.Source

open Grammar

variable {text : Text} {d d' : Derivation Terminal Category Form}
  {ds es : List (Derivation Terminal Category Form)} {ps qs : List Phrase} {a b m n : Nat}
  {r : Reader}

/-! ## Rows of items -/

mutual

/-- The items that a derivation holds. -/
def moduleItems : Derivation Terminal Category Form → List (Derivation Terminal Category Form)
  | .terminal _ _ _ => []
  | .node rule children =>
    if rule.head = .item then [.node rule children] else moduleItemsOfRow children

/-- The items that a row of derivations holds. -/
def moduleItemsOfRow :
    List (Derivation Terminal Category Form) → List (Derivation Terminal Category Form)
  | [] => []
  | d :: ds => moduleItems d ++ moduleItemsOfRow ds

end

mutual

/-- Items are parts of what holds them. -/
theorem isPart_of_mem_moduleItems : ∀ {d e : Derivation Terminal Category Form},
    e ∈ moduleItems d → IsPart e d
  | .terminal _ _ _, _, he => nomatch he
  | .node rule ds, e, he => by
    rw [moduleItems] at he
    split at he
    · rw [List.mem_singleton.1 he]
      exact .self
    · obtain ⟨d, hd, hpart⟩ := isPart_of_mem_moduleItemsOfRow he
      exact .part hd hpart

theorem isPart_of_mem_moduleItemsOfRow : ∀ {ds : List (Derivation Terminal Category Form)}
    {e : Derivation Terminal Category Form}, e ∈ moduleItemsOfRow ds → ∃ d ∈ ds, IsPart e d
  | [], _, he => nomatch he
  | d :: ds, _, he => by
    rcases List.mem_append.1 he with he | he
    · exact ⟨d, List.mem_cons_self, isPart_of_mem_moduleItems he⟩
    · obtain ⟨d', hd', hpart⟩ := isPart_of_mem_moduleItemsOfRow he
      exact ⟨d', List.mem_cons_of_mem _ hd', hpart⟩

end

/-- The rules for modules and for their items. -/
theorem of_mem_items : (∀ r ∈ grammar.rulesOf .items, r.head = .items ∧ r.form = .contents ∧
      (r.body = [.category .item] ∨ r.body = [.category .items, .category .item])) ∧
    (∀ r ∈ grammar.rulesOf .module,
      r.head = .module ∧ r.form = .contents ∧ r.body = [.category .items]) ∧
    (∃ r ∈ grammar.rulesOf .items, r.body = [.category .item]) ∧
    (∃ r ∈ grammar.rulesOf .items, r.body = [.category .items, .category .item]) ∧
    ∃ r ∈ grammar.rulesOf .module, r.body = [.category .items] := by
  decide

theorem phrasesOfRow_append_iff : r.phrasesOfRow (ds ++ es) = .ok qs ↔
    ∃ ps ps', r.phrasesOfRow ds = .ok ps ∧ r.phrasesOfRow es = .ok ps' ∧ qs = ps ++ ps' := by
  induction ds generalizing qs with
  | nil => simp [Reader.phrasesOfRow]
  | cons d ds ih =>
    rw [List.cons_append, phrasesOfRow_cons_iff]
    constructor
    · rintro ⟨ps, rest, hps, hrest, rfl⟩
      obtain ⟨ps₁, ps₂, hps₁, hps₂, rfl⟩ := ih.1 hrest
      exact ⟨_, ps₂, phrasesOfRow_cons_iff.2 ⟨ps, ps₁, hps, hps₁, rfl⟩, hps₂,
        (List.append_assoc _ _ _).symm⟩
    · rintro ⟨ps, ps', hps, hps', rfl⟩
      obtain ⟨ps₁, ps₂, hps₁, hps₂, rfl⟩ := phrasesOfRow_cons_iff.1 hps
      exact ⟨ps₁, _, hps₁, ih.2 ⟨ps₂, ps', hps₂, hps', rfl⟩, List.append_assoc _ _ _⟩

theorem readsRow_append (h : ReadsRow grammar text ds a m) (hgap : IsGap grammar text m n)
    (h' : ReadsRow grammar text es n b) : ReadsRow grammar text (ds ++ es) a b := by
  induction ds generalizing a with
  | nil => exact absurd rfl h.ne_nil
  | cons d ds ih =>
    cases h with
    | one first => exact .cons first hgap h'
    | cons first gap rest => exact .cons first gap (ih rest)

/-- What a derivation of a module, or of its items, has in common with a row. -/
structure IsModuleOf (text : Text) (d : Derivation Terminal Category Form)
    (ds : List (Derivation Terminal Category Form)) : Prop where
  /-- It holds the row. -/
  items_eq : moduleItems d = ds
  /-- The row is one of items. -/
  symbol : ∀ x ∈ ds, x.symbol = .category .item
  /-- It binds what the items bind. -/
  bound_eq : bound text d = ds.flatMap (bound text)
  /-- It exports what they export. -/
  exported_eq : exported text d = ds.flatMap (exported text)
  /-- It means what they mean. -/
  phrases_iff : ∀ (r : Reader) (qs : List Phrase),
    r.phrases d = .ok qs ↔ r.phrasesOfRow ds = .ok qs

theorem boundOfRow_eq (text : Text) (ds : List (Derivation Terminal Category Form)) :
    boundOfRow text ds = ds.flatMap (bound text) := by
  induction ds with
  | nil => rfl
  | cons d ds ih => rw [boundOfRow, List.flatMap_cons, ih]

theorem exportedOfRow_eq (text : Text) (ds : List (Derivation Terminal Category Form)) :
    exportedOfRow text ds = ds.flatMap (exported text) := by
  induction ds with
  | nil => rfl
  | cons d ds ih => rw [exportedOfRow, List.flatMap_cons, ih]

theorem phrases_contents_iff {rule : Grammar.Rule Terminal Category Form}
    (hform : rule.form = .contents) :
    r.phrases (.node rule ds) = .ok qs ↔ r.phrasesOfRow ds = .ok qs := by
  rw [phrases_node_iff, hform]
  constructor
  · rintro ⟨ps, hps, hbuild⟩
    rwa [← Except.ok.inj hbuild]
  · intro hps
    exact ⟨qs, hps, rfl⟩

theorem phrasesOfRow_singleton_iff : r.phrasesOfRow [d] = .ok qs ↔ r.phrases d = .ok qs := by
  rw [phrasesOfRow_cons_iff]
  constructor
  · rintro ⟨ps, rest, hps, hrest, rfl⟩
    obtain rfl := Except.ok.inj hrest
    rwa [List.append_nil]
  · intro hps
    exact ⟨qs, [], hps, rfl, (List.append_nil _).symm⟩

theorem moduleItems_of_item (hd : d.symbol = .category .item) : moduleItems d = [d] := by
  cases d with
  | terminal _ _ _ => cases hd
  | node rule children =>
    have hhead : rule.head = .item := by simpa [Derivation.symbol] using hd
    rw [moduleItems, if_pos hhead]

/-- A construct that holds nothing but items. -/
theorem isModuleOf_node {rule : Grammar.Rule Terminal Category Form}
    (hhead : rule.head = .items ∨ rule.head = .module) (hform : rule.form = .contents)
    (hitems : ds.flatMap moduleItems = es) (hsymbol : ∀ x ∈ es, x.symbol = .category .item)
    (hbound : ds.flatMap (bound text) = es.flatMap (bound text))
    (hexported : ds.flatMap (exported text) = es.flatMap (exported text))
    (hphrases : ∀ (r : Reader) (qs : List Phrase),
      r.phrasesOfRow ds = .ok qs ↔ r.phrasesOfRow es = .ok qs) :
    IsModuleOf text (.node rule ds) es := by
  have hrow : moduleItemsOfRow ds = ds.flatMap moduleItems := by
    clear hitems hbound hexported hphrases
    induction ds with
    | nil => rfl
    | cons d ds ih => rw [moduleItemsOfRow, List.flatMap_cons, ih]
  obtain ⟨hitem, hopen, hproperty, hexport, hspine⟩ : rule.head ≠ .item ∧ rule.head.isOpen = true ∧
      bindsProperty rule = false ∧ rule.head ≠ .exportDeclaration ∧
        [Category.module, .items, .item].contains rule.head = true := by
    rcases hhead with hhead | hhead <;> simp [hhead, bindsProperty] <;> decide
  refine ⟨?_, hsymbol, ?_, ?_, fun r qs => (phrases_contents_iff hform).trans (hphrases r qs)⟩
  · rw [moduleItems, if_neg hitem, hrow, hitems]
  · rw [bound_node text hopen hproperty, boundOfRow_eq, hbound]
  · rw [exported, if_neg hexport, hspine, exportedOfRow_eq, hexported]
    rfl

/-- A derivation of items alone is one of them. -/
theorem isModuleOf_single {rule : Grammar.Rule Terminal Category Form}
    (hhead : rule.head = .items ∨ rule.head = .module) (hform : rule.form = .contents)
    (hd : IsModuleOf text d es) : IsModuleOf text (.node rule [d]) es := by
  refine isModuleOf_node hhead hform ?_ hd.symbol ?_ ?_ fun r qs =>
    phrasesOfRow_singleton_iff.trans (hd.phrases_iff r qs)
  · rw [List.flatMap_cons, List.flatMap_nil, List.append_nil, hd.items_eq]
  · rw [List.flatMap_cons, List.flatMap_nil, List.append_nil, hd.bound_eq]
  · rw [List.flatMap_cons, List.flatMap_nil, List.append_nil, hd.exported_eq]

/-- An item is a row of itself. -/
theorem isModuleOf_item (text : Text) (hd : d.symbol = .category .item) : IsModuleOf text d [d] where
  items_eq := moduleItems_of_item hd
  symbol x hx := by rw [List.mem_singleton.1 hx, hd]
  bound_eq := by rw [List.flatMap_cons, List.flatMap_nil, List.append_nil]
  exported_eq := by rw [List.flatMap_cons, List.flatMap_nil, List.append_nil]
  phrases_iff _ _ := phrasesOfRow_singleton_iff.symm

/-- Items and one more. -/
theorem isModuleOf_concat {rule : Grammar.Rule Terminal Category Form}
    (hhead : rule.head = .items) (hform : rule.form = .contents) (hd : IsModuleOf text d es)
    (hd' : d'.symbol = .category .item) :
    IsModuleOf text (.node rule [d, d']) (es ++ [d']) := by
  have hitem := isModuleOf_item text hd'
  refine isModuleOf_node (Or.inl hhead) hform ?_ ?_ ?_ ?_ fun r qs => ?_
  · simp [hd.items_eq, hitem.items_eq]
  · intro x hx
    rcases List.mem_append.1 hx with hx | hx
    · exact hd.symbol x hx
    · exact hitem.symbol x hx
  · simp [hd.bound_eq]
  · simp [hd.exported_eq]
  · rw [phrasesOfRow_cons_iff, phrasesOfRow_append_iff]
    simp only [hd.phrases_iff]

/-- Items are a row of items. -/
theorem exists_items : ∀ {d : Derivation Terminal Category Form} {a b : Nat},
    Reads grammar text d a b → d.symbol = .category .items →
      ∃ ds, IsModuleOf text d ds ∧ ReadsRow grammar text ds a b
  | .terminal _ _ _, _, _, _, hd => nomatch hd
  | .node rule ds, a, b, .node hmem hsymbols hrow, hd => by
    have hhead : rule.head = .items := by simpa [Derivation.symbol] using hd
    obtain ⟨-, hform, hbody⟩ := of_mem_items.1 rule (hhead ▸ hmem)
    rw [← hsymbols] at hbody
    cases hrow with
    | one first =>
      rename_i d
      have hd : d.symbol = .category .item := by simpa using hbody
      exact ⟨[d], isModuleOf_single (Or.inl hhead) hform (isModuleOf_item text hd), .one first⟩
    | cons first gap rest =>
      rename_i d ds m n
      cases rest with
      | one last =>
        rename_i d'
        obtain ⟨hd, hd'⟩ : d.symbol = .category .items ∧ d'.symbol = .category .item := by
          simpa using hbody
        obtain ⟨es, hes, hrow⟩ := exists_items first hd
        exact ⟨es ++ [d'], isModuleOf_concat hhead hform hes hd',
          readsRow_append hrow gap (.one last)⟩
      | cons last gap' row =>
        rename_i d' ds _ _
        have hnil : d.symbol = .category .items ∧ d'.symbol = .category .item ∧ ds = [] := by
          simpa using hbody
        exact absurd hnil.2.2 row.ne_nil

/-- A module is a row of items. -/
theorem exists_items_of_module (h : Reads grammar text d a b)
    (hsymbol : d.symbol = .category .module) :
    ∃ ds, IsModuleOf text d ds ∧ ReadsRow grammar text ds a b := by
  obtain ⟨rule, ds, rfl, hhead, hmem, hsymbols, hrow⟩ := h.of_category hsymbol
  obtain ⟨-, hform, hbody⟩ := of_mem_items.2.1 rule (hhead ▸ hmem)
  rw [hbody] at hsymbols
  obtain ⟨d, rfl, hd⟩ := List.map_eq_singleton_iff.1 hsymbols
  obtain ⟨es, hes, hrow⟩ := exists_items hrow.of_singleton hd
  exact ⟨es, isModuleOf_single (Or.inr hhead) hform hes, hrow⟩

/-- Items and a row of more of them make items. -/
theorem exists_items_append (hd : d.symbol = .category .items) (hreads : Reads grammar text d a m)
    (hmodule : IsModuleOf text d es) (hgap : IsGap grammar text m n)
    (hrow : ReadsRow grammar text ds n b) (hitem : ∀ d' ∈ ds, d'.symbol = .category .item) :
    ∃ y, y.symbol = .category .items ∧ Reads grammar text y a b ∧ IsModuleOf text y (es ++ ds) := by
  obtain ⟨hall, -, -, ⟨rule, hmem, hbody⟩, -⟩ := of_mem_items
  obtain ⟨hhead, hform, -⟩ := hall rule hmem
  induction ds generalizing d es m n with
  | nil => exact absurd rfl hrow.ne_nil
  | cons d' ds ih =>
    have hd' := hitem d' List.mem_cons_self
    have hsymbol : (Derivation.node rule [d, d']).symbol = .category .items := by
      rw [Derivation.symbol, hhead]
    have hmodule' := isModuleOf_concat hhead hform hmodule hd'
    have hnext {p : Nat} (hlast : Reads grammar text d' n p) :
        Reads grammar text (.node rule [d, d']) a p :=
      .node (hhead.symm ▸ hmem) (by simp [hbody, hd, hd']) (.cons hreads hgap (.one hlast))
    cases hrow with
    | one hlast => exact ⟨_, hsymbol, hnext hlast, hmodule'⟩
    | cons hlast hgap' hrow' =>
      rw [List.append_cons]
      exact ih hsymbol (hnext hlast) hmodule' hgap' hrow'
        fun x hx => hitem x (List.mem_cons_of_mem _ hx)

/-- A row of items makes items. -/
theorem exists_items_of_row (h : ReadsRow grammar text ds a b)
    (hitem : ∀ d ∈ ds, d.symbol = .category .item) :
    ∃ d, d.symbol = .category .items ∧ Reads grammar text d a b ∧ IsModuleOf text d ds := by
  obtain ⟨hall, -, ⟨rule, hmem, hbody⟩, -, -⟩ := of_mem_items
  obtain ⟨hhead, hform, -⟩ := hall rule hmem
  obtain ⟨d, ds, rfl⟩ := List.exists_cons_of_ne_nil h.ne_nil
  have hd := hitem d List.mem_cons_self
  have hsymbol : (Derivation.node rule [d]).symbol = .category .items := by
    rw [Derivation.symbol, hhead]
  have hmodule := isModuleOf_single (Or.inl hhead) hform (isModuleOf_item text hd)
  have hone {m : Nat} (hreads : Reads grammar text d a m) :
      Reads grammar text (.node rule [d]) a m :=
    .node (hhead.symm ▸ hmem) (by rw [hbody, List.map_singleton, hd]) (.one hreads)
  cases h with
  | one hreads => exact ⟨_, hsymbol, hone hreads, hmodule⟩
  | cons hreads hgap hrow =>
    exact exists_items_append hsymbol (hone hreads) hmodule hgap hrow
      fun x hx => hitem x (List.mem_cons_of_mem _ hx)

/-- A row of items makes a module. -/
theorem exists_module (h : ReadsRow grammar text ds a b)
    (hitem : ∀ d ∈ ds, d.symbol = .category .item) :
    ∃ d, d.symbol = .category .module ∧ Reads grammar text d a b ∧ IsModuleOf text d ds := by
  obtain ⟨d, hd, hreads, hmodule⟩ := exists_items_of_row h hitem
  obtain ⟨-, hall, -, -, rule, hmem, hbody⟩ := of_mem_items
  obtain ⟨hhead, hform, -⟩ := hall rule hmem
  refine ⟨.node rule [d], ?_, ?_, isModuleOf_single (Or.inr hhead) hform hmodule⟩
  · rw [Derivation.symbol, hhead]
  · exact .node (hhead.symm ▸ hmem) (by rw [hbody, List.map_singleton, hd]) (.one hreads)

/-! ## Where items are read -/

theorem exists_mem_of_phrasesOfRow {p : Phrase} (h : r.phrasesOfRow ds = .ok qs) (hp : p ∈ qs) :
    ∃ d ∈ ds, ∃ ps, r.phrases d = .ok ps ∧ p ∈ ps := by
  induction ds generalizing qs with
  | nil =>
    obtain rfl := Except.ok.inj h
    cases hp
  | cons d ds ih =>
    obtain ⟨ps, rest, hps, hrest, rfl⟩ := phrasesOfRow_cons_iff.1 h
    rcases List.mem_append.1 hp with hp | hp
    · exact ⟨d, List.mem_cons_self, ps, hps, hp⟩
    · obtain ⟨d', hd', hmem⟩ := ih hrest hp
      exact ⟨d', List.mem_cons_of_mem _ hd', hmem⟩

/-- What a module holds is read in one of its items. -/
theorem exists_item_of_mem {item : ModuleItem} (hrow : ReadsRow grammar text ds a b)
    (hqs : (Reader.whole text).phrasesOfRow ds = .ok qs)
    (hitem : item ∈ qs.filterMap Phrase.toItem) :
    ∃ d ∈ ds, ∃ m n ps, Reads grammar text d m n ∧ (Reader.whole text).phrases d = .ok ps ∧
      (∀ s ∈ item.ranges, m ≤ s.start ∧ s.stop ≤ n) ∧
        ∀ k ∈ item.nodes, k ∈ ps.flatMap Phrase.held := by
  obtain ⟨p, hp, htoItem⟩ := List.mem_filterMap.1 hitem
  obtain ⟨d, hd, ps, hps, hmem⟩ := exists_mem_of_phrasesOfRow hqs hp
  obtain ⟨m, n, -, -, hreads⟩ := hrow.exists_reads hd
  have hmem' : item ∈ [p].filterMap Phrase.toItem :=
    List.mem_filterMap.2 ⟨p, List.mem_singleton_self p, htoItem⟩
  have hsource : text <+: text.drop 0 := List.prefix_rfl
  have hplaced := (isInvariant_arePlaced (isFaithful_readExpressionAt _ hsource)).of_reads hreads hps
  refine ⟨d, hd, m, n, ps, hreads, hps, fun s hs => ?_, fun k hk => ?_⟩
  · have hrange := (ranges_toItem_sublist [p]).subset (List.mem_flatMap.2 ⟨item, hmem', hs⟩)
    obtain ⟨p', hp', hs⟩ := List.mem_flatMap.1 hrange
    obtain rfl := List.mem_singleton.1 hp'
    have hwithin := hplaced.inside s (List.mem_flatMap.2 ⟨p', hmem, hs⟩)
    have hstart := hwithin.start_le
    have hstop := hwithin.le_stop
    simp only [Nat.zero_add] at hstart hstop
    exact ⟨hstart, hstop⟩
  · have hheld := (nodes_toItem_sublist [p]).subset (List.mem_flatMap.2 ⟨item, hmem', hk⟩)
    obtain ⟨p', hp', hk⟩ := List.mem_flatMap.1 hheld
    obtain rfl := List.mem_singleton.1 hp'
    exact List.mem_flatMap.2 ⟨p', hmem, hk⟩

end SkinCompiler.Source
