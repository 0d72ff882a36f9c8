import Mathlib.Data.List.Basic
import SkinCompiler.Proofs.Style.Compiled

/-!
# What the keys of a styles object share

The keys of a styles object are compiled one by one.  All that one of them learns about the others
is which selectors the groups and the peers have, and only keys with a marker have a say in that.

* `SelectorContext.Agrees` -- two contexts in which every name has the same anchor;
* `SelectorContext.Agrees.block` -- in such contexts an entry gives the same block;
* `selectorContext_filter` -- the context comes from the entries with markers alone;
* `compile_frame` -- what becomes of a key when the other keys change.
-/

namespace SkinCompiler.Style

/-! ## Contexts -/

/-- Every name of a group and every name of a peer has the same anchor, and the theme is the
same. -/
structure SelectorContext.Agrees (context context' : SelectorContext) : Prop where
  /-- The themes are the same. -/
  theme : context.theme = context'.theme
  /-- The groups have the same anchors. -/
  groups : ∀ name, anchor context.groups "group" name = anchor context'.groups "group" name
  /-- The peers have the same anchors. -/
  peers : ∀ name, anchor context.peers "peer" name = anchor context'.peers "peer" name

namespace SelectorContext.Agrees

variable {context context' : SelectorContext} (h : context.Agrees context')
include h

theorem applyStatic (root selector : Text) :
    applyStatic context root selector = applyStatic context' root selector := by
  rw [Style.applyStatic, Style.applyStatic, h.theme]

theorem applyFunctional (root : Text) (value : Value) (modifier : Option Modifier)
    (selector : Text) : applyFunctional context root value modifier selector
      = applyFunctional context' root value modifier selector := by
  unfold Style.applyFunctional
  rw [h.theme]

/-- A variant looks at the context for anchors and for the theme only. -/
theorem applyVariant (v : Variant) (selector : Text) :
    applyVariant context v selector = applyVariant context' v selector := by
  induction v generalizing selector with
  | static root => exact h.applyStatic root selector
  | arbitrary fragment => rfl
  | functional root value modifier => exact h.applyFunctional root value modifier selector
  | other root value modifier => rfl
  | compound root inner modifier ih =>
    have hroot {s : String} (hs : String.ofList root = s) : root = s.toList := by
      rw [← hs, String.toList_ofList]
    rw [Style.applyVariant, Style.applyVariant]
    split
    · rename_i hs
      rw [hroot hs, h.groups, ih]
    · rename_i hs
      rw [hroot hs, h.peers, ih]
    · rw [ih]
    · rfl

theorem applyAll (r : Resolved) (vs : List Variant) :
    applyAll context r vs = applyAll context' r vs := by
  induction vs generalizing r with
  | nil => rfl
  | cons v vs ih =>
    rw [Style.applyAll, Style.applyAll, h.applyVariant]
    congr 1
    funext next
    exact ih _

theorem applyVariants (base : Text) (vs : List Variant) :
    applyVariants context base vs = applyVariants context' base vs :=
  h.applyAll _ vs

/-- One token does the same in both contexts. -/
theorem token (selector key : Text) (s : KeyState) (p : Text × Option Candidate) :
    KeyState.token context selector key s p = KeyState.token context' selector key s p := by
  obtain ⟨t, c⟩ := p
  cases c with
  | none => rfl
  | some c =>
    rw [KeyState.token, KeyState.token, h.theme]
    simp only [KeyState.declare, h.applyVariants]

/-- An entry gives the same rules, findings and events in both contexts. -/
theorem block (e : Entry) : e.block context = e.block context' := by
  have hstep : KeyState.token context e.selector e.key
      = KeyState.token context' e.selector e.key := by
    funext s p
    exact h.token e.selector e.key s p
  rw [Entry.block, Entry.block, hstep]

end SelectorContext.Agrees

/-! ## Markers -/

/-- A row of classes holds no marker of a group or a peer without variants. -/
def IsUnmarked (o : Options) (classes : Text) : Prop :=
  ∀ t ∈ Text.words classes, ∀ c, Candidate.read? o.designSystem t = some c →
    c.variants = [] → isMarker c = false

theorem isUnmarked_iff (o : Options) (classes : Text) : IsUnmarked o classes ↔
    ∀ t ∈ Text.words classes,
      (Candidate.read? o.designSystem t).all (fun c => !c.variants.isEmpty || !isMarker c) = true := by
  refine forall₂_congr fun t _ => ?_
  cases Candidate.read? o.designSystem t with
  | none => simp
  | some c =>
    rw [Option.all_some, Bool.or_eq_true, Bool.not_eq_true', Bool.not_eq_true',
      List.isEmpty_eq_false_iff]
    constructor
    · intro h
      exact or_iff_not_imp_left.2 fun hvariants => h c rfl (not_not.1 hvariants)
    · intro h c' hc hvariants
      obtain rfl := Option.some.inj hc
      exact h.resolve_left (not_not.2 hvariants)

instance decidableIsUnmarked (o : Options) (classes : Text) : Decidable (IsUnmarked o classes) :=
  decidable_of_iff _ (isUnmarked_iff o classes).symm

/-- A candidate with a name for its element is a marker without variants. -/
theorem of_markedName? {marker name : Text} {c : Candidate}
    (hmarker : marker = "group".toList ∨ marker = "peer".toList)
    (h : markedName? marker c = some name) : c.variants = [] ∧ isMarker c = true := by
  unfold markedName? at h
  split at h
  · rename_i root modifier hutility hvariants
    split_ifs at h with hroot
    refine ⟨hvariants, ?_⟩
    rw [isMarker, hutility]
    simp only [Bool.or_eq_true, decide_eq_true_eq]
    rwa [hroot]
  · cases h

/-- The entry of a row without markers marks nothing. -/
theorem marks_of_isUnmarked {o : Options} {e : Entry} {classes marker : Text}
    (hmarker : marker = "group".toList ∨ marker = "peer".toList) (h : IsUnmarked o classes)
    (he : e.tokens = (Text.words classes).map fun t => (t, Candidate.read? o.designSystem t)) :
    e.marks marker = [] := by
  rw [Entry.marks, he, List.filterMap_map, List.filterMap_eq_nil_iff]
  intro t ht
  cases hread : Candidate.read? o.designSystem t with
  | none => simp [hread]
  | some c =>
    cases hname : markedName? marker c with
    | none => simp [hread, hname]
    | some name =>
      obtain ⟨hvariants, htrue⟩ := of_markedName? hmarker hname
      rw [h t ht c hread hvariants] at htrue
      cases htrue

theorem flatMap_filter_of_nil {α β : Type} {p : α → Bool} {f : α → List β} {l : List α}
    (h : ∀ x ∈ l, p x = false → f x = []) : (l.filter p).flatMap f = l.flatMap f := by
  induction l with
  | nil => rfl
  | cons x l ih =>
    have ih := ih fun y hy => h y (List.mem_cons_of_mem _ hy)
    cases hx : p x with
    | true => rw [List.filter_cons_of_pos hx, List.flatMap_cons, List.flatMap_cons, ih]
    | false =>
      rw [List.filter_cons_of_neg (by simp [hx]), List.flatMap_cons, ih, h x List.mem_cons_self hx,
        List.nil_append]

/-- Rows without markers have no say in the anchors. -/
theorem anchors_filter {o : Options} {styles : Table Text} {kept : Text → Bool} {marker : Text}
    (hmarker : marker = "group".toList ∨ marker = "peer".toList)
    (h : ∀ row ∈ styles, kept row.1 = false → IsUnmarked o row.2) :
    anchors marker (entries o (styles.filter fun row => kept row.1))
      = anchors marker (entries o styles) := by
  rw [anchors, anchors, entries, entries, List.flatMap_map, List.flatMap_map]
  congr 1
  refine flatMap_filter_of_nil ?_
  intro row hrow hkept
  rw [marks_of_isUnmarked hmarker (h row hrow hkept) rfl, List.map_nil]

theorem selectorContext_filter {o : Options} {styles : Table Text} {kept : Text → Bool}
    (h : ∀ row ∈ styles, kept row.1 = false → IsUnmarked o row.2) :
    selectorContext o.theme (entries o (styles.filter fun row => kept row.1))
      = selectorContext o.theme (entries o styles) := by
  rw [selectorContext, selectorContext, anchors_filter (Or.inl rfl) h,
    anchors_filter (Or.inr rfl) h]

/-! ## The blocks of keys -/

/-- What comes of a key. -/
def Compiled.block? (c : Compiled) (key : Text) : Option Block := c.blocks.find? (·.key = key)

/-- The block of a key comes from its classes and the context. -/
theorem block?_compile {o : Options} {styles : Table Text} {key classes : Text}
    (h : Table.get? key styles = some classes) :
    (compile o styles).block? key = some (Entry.block (selectorContext o.theme (entries o styles))
      { key, className := className o.pattern key classes
        tokens := (Text.words classes).map fun t => (t, Candidate.read? o.designSystem t) }) := by
  rw [Compiled.block?, compile]
  dsimp only
  generalize selectorContext o.theme (entries o styles) = context
  induction styles with
  | nil => cases h
  | cons row styles ih =>
    obtain ⟨k, cs⟩ := row
    rw [Table.get?_cons] at h
    rw [entries, List.map_cons, List.map_cons, List.find?_cons]
    by_cases hk : k = key
    · subst hk
      rw [if_pos rfl] at h
      obtain rfl := Option.some.inj h
      simp [Entry.block]
    · rw [if_neg hk] at h
      have hne : ((Entry.block context
          { key := k, className := className o.pattern k cs
            tokens := (Text.words cs).map fun t => (t, Candidate.read? o.designSystem t) }).key
          = key) = False := by simpa [Entry.block] using hk
      simp only [hne, decide_false]
      exact ih h

/-- The blocks of the keys that are kept are those of the rows that are kept. -/
theorem filter_blocks_compile (o : Options) (styles : Table Text) (kept : Text → Bool) :
    (compile o styles).blocks.filter (fun b => kept b.key)
      = (entries o (styles.filter fun row => kept row.1)).map
          (Entry.block (selectorContext o.theme (entries o styles))) := by
  rw [compile]
  dsimp only
  rw [List.filter_map, entries, List.filter_map]
  rfl

/-- What becomes of a key depends on the other keys only through the anchors of the groups and the
peers.  Keys without markers can therefore be added, removed and put elsewhere, and the other keys
keep their blocks in the same order. -/
theorem compile_frame (o : Options) (styles styles' : Table Text) :
    (∀ key classes, Table.get? key styles = some classes → Table.get? key styles' = some classes →
      (selectorContext o.theme (entries o styles)).Agrees
        (selectorContext o.theme (entries o styles')) →
      ∃ b, (compile o styles).block? key = some b ∧ (compile o styles').block? key = some b) ∧
    ∀ kept : Text → Bool,
      (styles.filter fun row => kept row.1) = (styles'.filter fun row => kept row.1) →
      (∀ row ∈ styles, kept row.1 = false → IsUnmarked o row.2) →
      (∀ row ∈ styles', kept row.1 = false → IsUnmarked o row.2) →
      (compile o styles).blocks.filter (fun b => kept b.key)
        = (compile o styles').blocks.filter (fun b => kept b.key) := by
  constructor
  · intro key classes h h' hagrees
    refine ⟨_, block?_compile h, ?_⟩
    rw [block?_compile h', hagrees.block]
  · intro kept hsame h h'
    rw [filter_blocks_compile, filter_blocks_compile, ← selectorContext_filter h,
      ← selectorContext_filter h', hsame]

/-- A design system with few names. -/
def iconOptions : Options where
  designSystem :=
    { staticUtilities := ["group", "flex"], functionalUtilities := [], staticVariants := ["hover"]
      functionalVariants := [], compoundVariants := ["group"] }

/-- Styles whose icon looks at the group that the root marks.  The marker of the last key has a
variant and is none for the others. -/
def iconStyles : Table Text :=
  [("Root", "group"), ("Icon", "group-hover:flex"), ("Extra", "hover:group flex")]

/-- The same styles with the last key in front. -/
def iconStylesMoved : Table Text :=
  [("Extra", "hover:group flex"), ("Root", "group"), ("Icon", "group-hover:flex")]

theorem selectorContext_iconStyles :
    (selectorContext .builtIn (entries iconOptions iconStyles)).groups = [([], ".Root".toList)] ∧
      (selectorContext .builtIn (entries iconOptions iconStylesMoved)).groups
        = [([], ".Root".toList)] ∧
      (selectorContext .builtIn (entries iconOptions iconStyles)).peers = [] ∧
      (selectorContext .builtIn (entries iconOptions iconStylesMoved)).peers = [] := by
  decide +kernel

/-- Moving the unmarked key leaves the blocks of the others as they are. -/
theorem compile_frame_iconStyles :
    (∃ b, (compile iconOptions iconStyles).block? "Icon" = some b ∧
      (compile iconOptions iconStylesMoved).block? "Icon" = some b) ∧
    (compile iconOptions iconStyles).blocks.filter (fun b => b.key != "Extra".toList)
      = (compile iconOptions iconStylesMoved).blocks.filter (fun b => b.key != "Extra".toList) := by
  obtain ⟨hgroups, hgroups', hpeers, hpeers'⟩ := selectorContext_iconStyles
  obtain ⟨hblock, hkept⟩ := compile_frame iconOptions iconStyles iconStylesMoved
  have hunmarked : ∀ row ∈ iconStyles, (row.1 != "Extra".toList) = false →
      IsUnmarked iconOptions row.2 := by
    decide +kernel
  have hunmarked' : ∀ row ∈ iconStylesMoved, (row.1 != "Extra".toList) = false →
      IsUnmarked iconOptions row.2 := by
    decide +kernel
  refine ⟨hblock "Icon" "group-hover:flex" rfl rfl ⟨rfl, fun name => ?_, fun name => ?_⟩,
    hkept (· != "Extra".toList) rfl hunmarked hunmarked'⟩
  · exact congrArg (anchor · "group" name) (hgroups.trans hgroups'.symm)
  · exact congrArg (anchor · "peer" name) (hpeers.trans hpeers'.symm)

end SkinCompiler.Style
