import SkinCompiler.Proofs.Source.Placement
import SkinCompiler.Source.Outline

/-!
# Where the parts of an outline come from

The import and the declaration of the styles and the element that the component returns are among
the items of the module.

* `mem_of_imports`, `mem_of_stylesImport`, `mem_of_stylesSpan`, `mem_of_root` -- the items that they
  stand in.
-/

namespace SkinCompiler.Source.Outline

variable {items : List ModuleItem} {parts : Parts} {n m : Node} {exported : Bool} {i : Import}
variable {span : Span}

/-- A declared node is held by an item. -/
theorem mem_of_declared {item : ModuleItem} (h : declared item = some (n, exported)) :
    n ∈ item.nodes := by
  unfold declared at h
  split at h
  · obtain ⟨rfl, -⟩ : _ = n ∧ _ := by simpa using h
    exact List.mem_cons_self
  · obtain ⟨rfl, -⟩ : _ = n ∧ _ := by simpa using h
    exact List.mem_cons_self
  · split at h
    · cases h
    · obtain ⟨rfl, -⟩ : _ = n ∧ _ := by simpa using h
      exact List.mem_cons_self
  · cases h

theorem mem_nodes_of_declared (h : (n, exported) ∈ items.filterMap declared) :
    n ∈ items.flatMap ModuleItem.nodes := by
  obtain ⟨item, hitem, hdeclared⟩ := List.mem_filterMap.1 h
  exact List.mem_flatMap.2 ⟨item, hitem, mem_of_declared hdeclared⟩

/-- A variable is declared by a declaration with its range, and its value stands there. -/
theorem of_mem_variablesOf {v : Variable} (h : v ∈ variablesOf n) :
    (∃ w ds, n = .declaration v.span w ds) ∧ ∀ value, v.value = some value → value ∈ n.all := by
  cases n with
  | declaration s w ds =>
    obtain ⟨d, hd, hv⟩ := List.mem_filterMap.1 h
    cases d with
    | declarator s' name value =>
      cases name with
      | none => cases hv
      | some name =>
        obtain rfl := Option.some.inj hv
        refine ⟨⟨w, ds, rfl⟩, ?_⟩
        rintro value' rfl
        refine Node.mem_all_of_mem_children hd ?_
        exact Node.mem_all_of_mem_children (List.mem_singleton.2 rfl) (Node.mem_all_self _)
    | _ => cases hv
  | _ => cases h

/-- A variable that is looked up is declared by a node of an item. -/
theorem exists_of_find_declared {v : Variable} {p : Variable → Bool} (h : ((items.filterMap
    declared).flatMap fun (n, _) => variablesOf n).reverse.find? p = some v) :
    ∃ n ∈ items.flatMap ModuleItem.nodes, v ∈ variablesOf n := by
  have hmem := List.mem_reverse.1 (List.mem_of_find?_eq_some h)
  obtain ⟨⟨n, exported⟩, hn, hvn⟩ := List.mem_flatMap.1 hmem
  exact ⟨n, mem_nodes_of_declared hn, hvn⟩

/-- A function that a node declares stands in that node. -/
theorem mem_all_of_functions {name : Option Text} {f : Node} (h : (name, f) ∈ functions n) :
    f ∈ n.all := by
  cases n with
  | function s name' body a =>
    obtain ⟨-, rfl⟩ : name = name' ∧ f = .function s name' body a := by simpa [functions] using h
    exact Node.mem_all_self _
  | declaration s w ds =>
    obtain ⟨v, hv, hf⟩ := List.mem_filterMap.1 h
    split at hf
    · rename_i s' name' body a hvalue
      obtain ⟨-, rfl⟩ : _ = name ∧ _ = f := by simpa using hf
      exact (of_mem_variablesOf hv).2 _ hvalue
    · cases hf
  | _ => cases h

/-- The element that a function returns stands in the function. -/
theorem mem_all_of_returned? {root : Node} (h : returned? n = some root) : root ∈ n.all := by
  unfold returned? at h
  split at h
  · obtain rfl := Option.some.inj h
    exact Node.mem_all_of_mem_children (List.mem_singleton.2 rfl) (Node.mem_all_self _)
  · rename_i s name span statements a
    obtain ⟨statement, hstatement, hroot⟩ := List.exists_of_findSome?_eq_some h
    split at hroot
    · obtain rfl := Option.some.inj hroot
      refine Node.mem_all_of_mem_children (List.mem_singleton.2 rfl) ?_
      refine Node.mem_all_of_mem_children hstatement ?_
      exact Node.mem_all_of_mem_children (List.mem_singleton.2 rfl) (Node.mem_all_self _)
    · cases hroot
  · cases h

/-- Functions of a module stand in its items. -/
theorem mem_of_functions {name : Option Text} {f : Node} {declarations : List (Node × Bool)}
    (hsub : ∀ x ∈ declarations, x ∈ items.filterMap declared)
    (h : (name, f) ∈ declarations.flatMap fun (n, _) => functions n) :
    ∃ n ∈ items.flatMap ModuleItem.nodes, f ∈ n.all := by
  obtain ⟨⟨n, exported⟩, hn, hf⟩ := List.mem_flatMap.1 h
  exact ⟨n, mem_nodes_of_declared (hsub _ hn), mem_all_of_functions hf⟩

/-- The component of a module stands in its items. -/
theorem mem_of_component {f : Node} (h : (component items).2 = some f) :
    ∃ n ∈ items.flatMap ModuleItem.nodes, f ∈ n.all := by
  have hall : ∀ x ∈ items.filterMap declared, x ∈ items.filterMap declared := fun _ => id
  have hexported : ∀ x ∈ (items.filterMap declared).filter (·.2), x ∈ items.filterMap declared :=
    fun x hx => (List.mem_filter.1 hx).1
  unfold component at h
  dsimp only at h
  split at h
  · rename_i s name body a hdefault
    obtain rfl := Option.some.inj h
    obtain ⟨item, hitem, hnode⟩ := List.mem_filterMap.1 (List.mem_of_getLast? hdefault)
    refine ⟨_, List.mem_flatMap.2 ⟨item, hitem, ?_⟩, Node.mem_all_self _⟩
    cases item with
    | exportDefault n =>
      obtain rfl := Option.some.inj hnode
      exact List.mem_cons_self
    | _ => cases hnode
  · obtain ⟨⟨name, f'⟩, hfind, rfl⟩ := Option.map_eq_some_iff.1 h
    have hmem := List.mem_reverse.1 (List.mem_of_find?_eq_some hfind)
    exact mem_of_functions hall hmem
  · split at h
    · rename_i name f' hfind
      obtain rfl := Option.some.inj h
      rcases List.mem_append.1 (List.mem_of_find?_eq_some hfind) with hmem | hmem
      · exact mem_of_functions hexported hmem
      · exact mem_of_functions hall hmem
    · cases h

/-- The element that the component returns stands in an item of the module. -/
theorem mem_of_root {root : Node} (h : (ofItems items {}).root = some root) :
    ∃ n ∈ items.flatMap ModuleItem.nodes, root ∈ n.all := by
  have hroot : (component items).2.bind returned? = some root := h
  obtain ⟨f, hf, hreturned⟩ := Option.bind_eq_some_iff.1 hroot
  obtain ⟨n, hn, hfn⟩ := mem_of_component hf
  exact ⟨n, hn, Node.mem_all_trans (mem_all_of_returned? hreturned) hfn⟩

/-- The imports are items of the module. -/
theorem mem_of_imports (h : i ∈ (ofItems items parts).imports) : .imported i ∈ items := by
  have himports : (ofItems items parts).imports ⊆ (ofItems items {}).imports := by
    rcases parts with ⟨_, _, _ | _, _ | _⟩
    · exact List.nil_subset _
    · exact List.nil_subset _
    · exact List.Subset.refl _
    · exact List.Subset.refl _
  obtain ⟨item, hitem, himport⟩ := List.mem_filterMap.1 (himports h)
  cases item with
  | imported j =>
    obtain rfl := Option.some.inj himport
    exact hitem
  | _ => cases himport

/-- The import of the styles is an item of the module. -/
theorem mem_of_stylesImport (h : (ofItems items parts).stylesImport = some i) :
    .imported i ∈ items := by
  rcases parts with ⟨_, _, _, _ | _⟩
  · cases h
  · have hmem : i ∈ (ofItems items {}).imports := List.mem_of_find?_eq_some h
    exact mem_of_imports hmem

/-- The declaration of the styles is held by an item of the module. -/
theorem mem_of_stylesSpan (h : (ofItems items parts).stylesSpan = some span) :
    ∃ w ds, Node.declaration span w ds ∈ items.flatMap ModuleItem.nodes := by
  rcases parts with ⟨_, _, _, _ | _⟩
  · cases h
  · obtain ⟨v, hv, rfl⟩ := Option.map_eq_some_iff.1 h
    obtain ⟨name, -, hfind⟩ := Option.bind_eq_some_iff.1 hv
    obtain ⟨n, hn, hvn⟩ := exists_of_find_declared hfind
    obtain ⟨⟨w, ds, rfl⟩, -⟩ := of_mem_variablesOf hvn
    exact ⟨w, ds, hn⟩

end SkinCompiler.Source.Outline
