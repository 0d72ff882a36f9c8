import SkinCompiler.Proofs.Style.Anchor

/-!
# What becomes of a class token

A class token adds declarations to a rule of its key, or gives the key a name by which others look at
it, or is reported.  Markers are the exception.  The first key with a mark gets its name, and a marker
with variants gives none, but no marker is ever reported.

* `Block.IsOf.isEmitted` -- what a token emits stands in a rule of its key;
* `Block.IsOf.isReported` -- a token that emits nothing is reported, unless it is a marker;
* `isAnchored_iff` -- a marker names its own key if no earlier key has the mark;
* `isAccountedFor_iff` -- a token is accounted for unless it is a marker for a name that its key does
  not get.
-/

namespace SkinCompiler.Style

/-! ## Markers -/

/-- The name that a candidate would give its element with `marker`, whatever its variants. -/
def markName? (marker : Text) (c : Candidate) : Option Text :=
  match c.utility with
  | .static root modifier => if root = marker then some (nameOf modifier) else none
  | _ => none

/-- The markers, each with the table of its anchors. -/
def SelectorContext.anchorTables (context : SelectorContext) : List (Text × Table Text) :=
  [("group", context.groups), ("peer", context.peers)]

/-- The first key that carries the mark of the token, if it is a marker, has the class of the
entry. -/
def OwnsMark (es : List Entry) (e : Entry) (p : Text × Option Candidate) : Prop :=
  ∀ marker ∈ (["group", "peer"] : List Text), ∀ name, p.2.bind (markName? marker) = some name →
    (es.find? fun e' => (e'.marks marker).contains name).map Entry.selector = some e.selector

/-! ## Accounts of a token -/

/-- The declarations of the token, of which there are some, stand next to each other in a rule of
the block, under the selector of its variants. -/
def IsEmitted (context : SelectorContext) (e : Entry) (b : Block) (p : Text × Option Candidate) :
    Prop :=
  ∃ m, p.2.bind (emission? context e.selector) = some m ∧ m.declarations ≠ [] ∧
    ∃ ds, m.declarations <:+: ds ∧
      wrap m.resolved.atRules (.style m.resolved.selector ds) ∈ b.rules

/-- The token is a marker, and its name stands for the class of the entry. -/
def IsAnchored (context : SelectorContext) (e : Entry) (p : Text × Option Candidate) : Prop :=
  ∃ m ∈ context.anchorTables, ∃ name, p.2.bind (markName? m.1) = some name ∧
    Table.get? name m.2 = some e.selector

/-- A warning of the block is about the token. -/
def IsReported (e : Entry) (b : Block) (p : Text × Option Candidate) : Prop :=
  ∃ d ∈ b.diagnostics, IsAbout e.key p.1 d

/-- The token is not ignored. -/
def IsAccountedFor (context : SelectorContext) (e : Entry) (b : Block)
    (p : Text × Option Candidate) : Prop :=
  IsEmitted context e b p ∨ IsAnchored context e p ∨ IsReported e b p

theorem ownsMark_iff (es : List Entry) (e : Entry) (p : Text × Option Candidate) :
    OwnsMark es e p ↔ ∀ marker ∈ (["group", "peer"] : List Text),
      (p.2.bind (markName? marker)).all (fun name =>
        (es.find? fun e' => (e'.marks marker).contains name).map Entry.selector
          = some e.selector) = true := by
  refine forall₂_congr fun marker _ => ?_
  cases p.2.bind (markName? marker) <;> simp

instance decidableOwnsMark (es : List Entry) (e : Entry) (p : Text × Option Candidate) :
    Decidable (OwnsMark es e p) :=
  decidable_of_iff _ (ownsMark_iff es e p).symm

variable {context : SelectorContext} {e : Entry} {b : Block} {p : Text × Option Candidate}
  {c : Candidate} {marker name : Text} {m : Emission}

theorem isMarker_iff : isMarker c = true ↔
    ∃ marker ∈ (["group", "peer"] : List Text), ∃ name, markName? marker c = some name := by
  rw [isMarker]
  cases hc : c.utility with
  | static root modifier => simp [markName?, hc]
  | _ => simp [markName?, hc]

/-- A candidate has one name for its element at most. -/
theorem markName?_unique {marker' name' : Text} (h : markName? marker c = some name)
    (h' : markName? marker' c = some name') : marker' = marker ∧ name' = name := by
  unfold markName? at h h'
  split at h
  · rename_i root modifier hutility
    rw [hutility] at h'
    dsimp only at h'
    split_ifs at h h' with hroot hroot'
    cases h
    cases h'
    exact ⟨hroot'.symm.trans hroot, rfl⟩
  · cases h

/-! ## Emitted tokens -/

theorem declarations?_ne_nil {theme : Theme} {ds : List Declaration}
    (h : declarations? theme c = some ds) : ds ≠ [] := by
  rw [declarations?] at h
  split at h
  · cases h
  · cases h
  · rename_i assignments hassignments _
    cases h
    simpa using hassignments

theorem declarationsOf?_ne_nil {theme : Theme} {ds : List Declaration}
    (h : declarationsOf? theme c = some ds) : ds ≠ [] := by
  rw [declarationsOf?] at h
  split at h
  · split_ifs at h
    · cases h
      simp [containerDeclarations]
    · exact declarations?_ne_nil h
  · exact declarations?_ne_nil h

/-- What an emission is made of. -/
theorem of_emission? {selector : Text} (h : emission? context selector c = some m) :
    isMarker c = false ∧ m.declarations ≠ [] ∧
      applyVariants context selector m.variants = .ok m.resolved := by
  rw [emission?] at h
  split_ifs at h with hmarker
  split at h
  · rename_i ds r hds hr
    cases h
    exact ⟨by simpa using hmarker, declarationsOf?_ne_nil hds, hr⟩
  · cases h

theorem mem_variantStacks {ms : List Emission} (h : m ∈ ms) : m.variants ∈ variantStacks ms :=
  List.mem_eraseDups.2 (List.mem_map_of_mem h)

/-- The declarations of an emission stand next to each other among those of its stack. -/
theorem isInfix_declarationsAt {ms : List Emission} (h : m ∈ ms) :
    m.declarations <:+: declarationsAt ms m.variants := by
  have hmem : m ∈ ms.filter (·.variants = m.variants) := List.mem_filter.2 ⟨h, by simp⟩
  obtain ⟨before, after, hsplit⟩ := List.append_of_mem hmem
  refine ⟨before.flatMap (·.declarations), after.flatMap (·.declarations), ?_⟩
  rw [declarationsAt, hsplit]
  simp

theorem mem_emissions {tokens : List (Text × Option Candidate)} {selector : Text} (hp : p ∈ tokens)
    (h : p.2.bind (emission? context selector) = some m) : m ∈ emissions context selector tokens :=
  List.mem_filterMap.2 ⟨p, hp, h⟩

/-- What a token emits stands in a rule of its key. -/
theorem Block.IsOf.isEmitted (hb : b.IsOf context e) (hp : p ∈ e.tokens)
    (h : p.2.bind (emission? context e.selector) = some m) : IsEmitted context e b p := by
  obtain ⟨c, -, hc⟩ := Option.bind_eq_some_iff.1 h
  obtain ⟨-, hne, hresolved⟩ := of_emission? hc
  have hmem := mem_emissions hp h
  obtain ⟨i, hi, hstack⟩ := List.mem_iff_getElem.1 (mem_variantStacks hmem)
  have hrule := hb.rules.get hi (hb.rules.length_eq ▸ hi)
  rw [List.get_eq_getElem, hstack] at hrule
  obtain ⟨r, hr, heq⟩ := hrule
  obtain rfl : r = m.resolved := Except.ok.inj (hr.symm.trans hresolved)
  refine ⟨m, h, hne, _, ?_, heq ▸ List.get_mem b.rules _⟩
  exact (isInfix_declarationsAt hmem).trans (List.suffix_append _ _).isInfix

/-! ## Reported tokens -/

/-- A token that emits nothing is reported, unless it is a marker. -/
theorem Block.IsOf.isReported (hb : b.IsOf context e) (hp : p ∈ e.tokens)
    (hmarker : p.2.any isMarker = false)
    (h : p.2.bind (emission? context e.selector) = none) : IsReported e b p := by
  obtain ⟨hcount, habout⟩ := findings_spec context e.selector e.key p
  rw [hmarker, h] at hcount
  have hpos : 0 < (findings context e.selector e.key p).countP isSkip := by
    rw [hcount]
    decide
  obtain ⟨d, hd, -⟩ := List.countP_pos_iff.1 hpos
  refine ⟨d, ?_, habout d hd⟩
  rw [hb.diagnostics]
  exact List.mem_flatMap.2 ⟨p, hp, hd⟩

/-- What was read of the tokens of an entry depends on their text alone. -/
theorem snd_eq_of_mem_tokens {o : Options} {styles : Table Text} (he : e ∈ entries o styles)
    (hp : p ∈ e.tokens) : p.2 = Candidate.read? o.designSystem p.1 := by
  obtain ⟨row, -, rfl⟩ := List.mem_map.1 he
  obtain ⟨t, -, rfl⟩ := List.mem_map.1 hp
  rfl

/-- A marker is never reported. -/
theorem Block.IsOf.not_isReported {o : Options} {styles : Table Text} (hb : b.IsOf context e)
    (he : e ∈ entries o styles) (hp : p ∈ e.tokens) (hmarker : p.2.any isMarker = true) :
    ¬IsReported e b p := by
  rintro ⟨d, hd, habout⟩
  rw [hb.diagnostics] at hd
  obtain ⟨p', hp', hd⟩ := List.mem_flatMap.1 hd
  obtain ⟨-, hall⟩ := findings_spec context e.selector e.key p'
  have htoken : p'.1 = p.1 := Option.some.inj ((hall d hd).2.1.symm.trans habout.2.1)
  have hread : p'.2 = p.2 := by
    rw [snd_eq_of_mem_tokens he hp', snd_eq_of_mem_tokens he hp, htoken]
  obtain ⟨t, c⟩ := p'
  obtain rfl : c = p.2 := hread
  cases hc : p.2 with
  | none =>
    rw [hc] at hmarker
    cases hmarker
  | some c =>
    rw [hc, Option.any_some] at hmarker
    rw [hc, findings, if_pos hmarker] at hd
    cases hd

/-! ## Accounts -/

/-- A name is anchored at an entry if the first entry that carries it has the same class. -/
theorem get?_anchorTables {theme : Theme} {es : List Entry} {name selector : Text} :
    ∀ m ∈ (selectorContext theme es).anchorTables, (Table.get? name m.2 = some selector ↔
      (es.find? fun e => (e.marks m.1).contains name).map Entry.selector = some selector) := by
  intro m hm
  rcases List.mem_pair.1 hm with rfl | rfl
  · exact iff_of_eq (congrArg (· = some selector) (anchors_get? "group" name es))
  · exact iff_of_eq (congrArg (· = some selector) (anchors_get? "peer" name es))

theorem any_isMarker_iff : p.2.any isMarker = true ↔
    ∃ marker ∈ (["group", "peer"] : List Text), ∃ name, p.2.bind (markName? marker) = some name := by
  obtain ⟨t, c⟩ := p
  cases c with
  | none => simp
  | some c => exact isMarker_iff

/-- A marker is anchored at its own key just if the first key that carries the mark has the same
class. -/
theorem isAnchored_iff {theme : Theme} {es : List Entry} (hmarker : p.2.any isMarker = true) :
    IsAnchored (selectorContext theme es) e p ↔ OwnsMark es e p := by
  obtain ⟨marker, hmem, name, hname⟩ := any_isMarker_iff.1 hmarker
  obtain ⟨c, hc, hmark⟩ := Option.bind_eq_some_iff.1 hname
  have hunique : ∀ marker' name', p.2.bind (markName? marker') = some name' →
      marker' = marker ∧ name' = name := by
    intro marker' name' h
    rw [hc] at h
    exact markName?_unique hmark h
  constructor
  · rintro ⟨m, hm, name', hname', hget⟩ marker'' _ name'' hname''
    obtain ⟨hmarker', rfl⟩ := hunique _ _ hname'
    obtain ⟨rfl, rfl⟩ := hunique _ _ hname''
    rw [← hmarker']
    exact (get?_anchorTables m hm).1 hget
  · intro h
    have htable : ∃ m ∈ (selectorContext theme es).anchorTables, m.1 = marker := by
      rcases List.mem_pair.1 hmem with rfl | rfl
      · exact ⟨_, List.mem_cons_self, rfl⟩
      · exact ⟨_, List.mem_cons_of_mem _ List.mem_cons_self, rfl⟩
    obtain ⟨m, hm, rfl⟩ := htable
    exact ⟨m, hm, name, hname, (get?_anchorTables m hm).2 (h m.1 hmem name hname)⟩

theorem not_isEmitted_of_isMarker (hmarker : p.2.any isMarker = true) :
    ¬IsEmitted context e b p := by
  rintro ⟨m, hm, -⟩
  obtain ⟨c, hc, hemission⟩ := Option.bind_eq_some_iff.1 hm
  rw [hc, Option.any_some, (of_emission? hemission).1] at hmarker
  cases hmarker

/-- Every class token adds declarations to a rule of its key, is anchored at its key as a marker or
is reported, just if it is no marker or the first key that carries the mark has the class of its
key. -/
theorem isAccountedFor_iff (o : Options) (styles : Table Text) :
    let es := entries o styles
    let context := selectorContext o.theme es
    List.Forall₂ (fun e b => b.key = e.key ∧
      ∀ p ∈ e.tokens, IsAccountedFor context e b p ↔ OwnsMark es e p)
      es (compile o styles).blocks := by
  intro es context
  rw [compile, List.forall₂_map_right_iff, List.forall₂_same]
  refine fun e he => ⟨rfl, fun p hp => ?_⟩
  have hb := block_isOf context e
  cases hmarker : p.2.any isMarker with
  | true =>
    rw [IsAccountedFor, isAnchored_iff hmarker]
    constructor
    · rintro (h | h | h)
      · exact absurd h (not_isEmitted_of_isMarker hmarker)
      · exact h
      · exact absurd h (hb.not_isReported he hp hmarker)
    · exact fun h => Or.inr (Or.inl h)
  | false =>
    have hunmarked : OwnsMark es e p := by
      intro marker hmem name hname
      rw [any_isMarker_iff.2 ⟨marker, hmem, name, hname⟩] at hmarker
      cases hmarker
    refine iff_of_true ?_ hunmarked
    cases hemission : p.2.bind (emission? context e.selector) with
    | none => exact Or.inr (Or.inr (hb.isReported hp hmarker hemission))
    | some m => exact Or.inl (hb.isEmitted hp hemission)

/-- Styles whose root is a group, also under a variant, and whose icon has a token that means
nothing. -/
def groupStyles : Table Text :=
  [("Root", "group hover:group"), ("Icon", "group-hover:flex nope")]

/-- All tokens are accounted for: two name the root, one adds a declaration and one is reported. -/
theorem isAccountedFor_groupStyles :
    let es := entries iconOptions groupStyles
    let context := selectorContext iconOptions.theme es
    List.Forall₂ (fun e b => ∀ p ∈ e.tokens, IsAccountedFor context e b p)
      es (compile iconOptions groupStyles).blocks := by
  intro es context
  have howns : ∀ e ∈ es, ∀ p ∈ e.tokens, OwnsMark es e p := by decide +kernel
  refine (List.forall₂_iff_get.2 ?_)
  obtain ⟨hlength, hall⟩ := List.forall₂_iff_get.1 (isAccountedFor_iff iconOptions groupStyles)
  exact ⟨hlength, fun i h h' p hp =>
    ((hall i h h').2 p hp).2 (howns _ (List.get_mem es _) p hp)⟩

/-- Styles whose only token is a marker with a variant. -/
def hoverGroupStyles : Table Text := [("A", "hover:group")]

/-- The only key of these styles. -/
def hoverGroupEntry : Entry where
  key := "A"
  className := "A"
  tokens := [("hover:group", Candidate.read? iconOptions.designSystem "hover:group")]

/-- The marker names nothing, adds nothing and is not reported. -/
theorem not_isAccountedFor_hoverGroupStyles :
    let es := entries iconOptions hoverGroupStyles
    let context := selectorContext iconOptions.theme es
    es = [hoverGroupEntry] ∧ (compile iconOptions hoverGroupStyles).rules = [] ∧
      (compile iconOptions hoverGroupStyles).diagnostics = [] ∧
      ∀ p ∈ hoverGroupEntry.tokens, ∀ b ∈ (compile iconOptions hoverGroupStyles).blocks,
        ¬IsAccountedFor context hoverGroupEntry b p := by
  intro es context
  have hrules : (compile iconOptions hoverGroupStyles).rules = [] := by
    rw [← List.isEmpty_iff]
    decide +kernel
  have hdiagnostics : (compile iconOptions hoverGroupStyles).diagnostics = [] := by decide +kernel
  have htables : ∀ m ∈ context.anchorTables, m.2 = [] := by decide +kernel
  refine ⟨rfl, hrules, hdiagnostics, fun p hp b hb => ?_⟩
  rintro (⟨m, -, -, ds, -, hrule⟩ | ⟨m, hm, name, -, hget⟩ | ⟨d, hd, -⟩)
  · have hmem := List.mem_flatMap.2 ⟨b, hb, hrule⟩
    rw [Compiled.rules] at hrules
    rw [hrules] at hmem
    cases hmem
  · rw [htables m hm] at hget
    cases hget
  · have hmem := List.mem_flatMap.2 ⟨b, hb, hd⟩
    rw [Compiled.diagnostics] at hdiagnostics
    rw [hdiagnostics] at hmem
    cases hmem

end SkinCompiler.Style
