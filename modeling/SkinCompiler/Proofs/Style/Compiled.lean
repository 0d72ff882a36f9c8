import Mathlib.Data.List.Forall2
import Mathlib.Data.List.Induction
import Mathlib.Tactic.Common
import SkinCompiler.Proofs.Table
import SkinCompiler.Style.Compiled

/-!
# What styles are compiled to

The compiler goes through the tokens of a key once and keeps groups of declarations as it goes.  Said
of the whole row of tokens, every token emits something, marks its element or is reported
(`emission?`, `findings`), and the rules of a key are one for every stack of variants that is
emitted.

* `groups_of_tokens` -- the groups after any tokens, from the invariant of one token;
* `anchors_get?` -- an anchor is the first entry with that mark;
* `compile_spec` -- the rules and the findings of a whole styles object.
-/

namespace SkinCompiler.Style

/-! ## What a token does -/

/-- The candidate marks its element for the variants of others. -/
def isMarker (c : Candidate) : Bool :=
  match c.utility with
  | .static root _ => root = "group".toList || root = "peer".toList
  | _ => false

/-- The declarations of a candidate, or of a container. -/
def declarationsOf? (theme : Theme) (c : Candidate) : Option (List Declaration) :=
  match c.utility with
  | .static root modifier =>
    if root = "@container".toList then some (containerDeclarations modifier c.important)
    else declarations? theme c
  | _ => declarations? theme c

/-- What a token adds to the styles of its key. -/
structure Emission where
  /-- Its stack of variants. -/
  variants : List Variant
  /-- The selector of the stack. -/
  resolved : Resolved
  /-- Its declarations. -/
  declarations : List Declaration

/-- What a candidate emits: nothing if it is a marker, has no declarations or has variants without a
selector. -/
def emission? (context : SelectorContext) (selector : Text) (c : Candidate) : Option Emission :=
  if isMarker c then none
  else match declarationsOf? context.theme c, applyVariants context selector c.variants with
    | some ds, .ok r => some ⟨c.variants, r, ds⟩
    | _, _ => none

/-- The finding about an arbitrary value that is not of the type its root expects. -/
def misfits (key token : Text) (c : Candidate) : List Diagnostic :=
  match expectation? c with
  | some (d, type) =>
    if Arbitrary.isValid d.value type then []
    else [invalidArbitraryValue key token c.utility.root d.value type]
  | none => []

/-- What is found in a token. -/
def findings (context : SelectorContext) (selector key : Text) :
    Text × Option Candidate → List Diagnostic
  | (t, none) => [unparseableClass key t]
  | (t, some c) =>
    if isMarker c then []
    else match declarationsOf? context.theme c with
      | none => [noCss key t]
      | some _ => misfits key t c ++ match applyVariants context selector c.variants with
        | .error e => [unsupportedVariant key t e]
        | .ok _ => []

variable {context : SelectorContext} {selector key : Text} {c : Candidate}

theorem effect_eq (theme : Theme) (c : Candidate) :
    effect theme c = if isMarker c then .marks
      else match declarationsOf? theme c with
        | some ds => .declares ds
        | none => .nothing := by
  obtain ⟨utility, variants, important, negative⟩ := c
  cases utility with
  | static root modifier =>
    by_cases hc : root = "@container".toList
    · subst hc
      simp [effect, isMarker, declarationsOf?]
    · by_cases hm : root = "group".toList ∨ root = "peer".toList
      · rcases hm with rfl | rfl <;> rfl
      · have hmark : DesignSystem.markers.contains root = false := by
          simp_all [DesignSystem.markers]
        cases hd : declarations? theme ⟨.static root modifier, variants, important, negative⟩ <;>
          simp_all [effect, isMarker, declarationsOf?]
  | functional => rfl
  | property => rfl
  | other => rfl

/-! ## Groups -/

/-- The stacks of variants, each where it first comes. -/
def variantStacks (emissions : List Emission) : List (List Variant) :=
  (emissions.map (·.variants)).eraseDups

/-- The declarations that are emitted with a stack, in order. -/
def declarationsAt (emissions : List Emission) (variants : List Variant) : List Declaration :=
  (emissions.filter (·.variants = variants)).flatMap (·.declarations)

/-- The group of a stack. -/
structure IsGroup (context : SelectorContext) (selector : Text) (emissions : List Emission)
    (variants : List Variant) (g : Group) : Prop where
  variants_eq : g.variants = variants
  resolved : applyVariants context selector variants = .ok g.resolved
  declarations : g.declarations
    = KeyState.firstDeclarations g.resolved ++ declarationsAt emissions variants

theorem nodup_eraseDups {α : Type} [BEq α] [LawfulBEq α] (l : List α) : l.eraseDups.Nodup := by
  induction h : l.length using Nat.strongRecOn generalizing l with
  | ind n ih =>
    cases l with
    | nil => simp
    | cons a l =>
      rw [List.eraseDups_cons, List.nodup_cons]
      refine ⟨by simp [List.mem_eraseDups], ?_⟩
      refine ih _ ?_ _ rfl
      have := List.length_filter_le (fun b => !b == a) l
      simp only [List.length_cons] at h
      omega

theorem variantStacks_concat (ems : List Emission) (e : Emission) : variantStacks (ems ++ [e])
    = if e.variants ∈ variantStacks ems then variantStacks ems else variantStacks ems ++ [e.variants] := by
  have hm : e.variants ∈ variantStacks ems ↔ e.variants ∈ ems.map (·.variants) := List.mem_eraseDups
  rw [variantStacks, List.map_append, List.eraseDups_append, List.map_singleton]
  split_ifs with h
  · rw [hm] at h
    have hr : [e.variants].removeAll (ems.map (·.variants)) = [] := by
      rw [List.removeAll, List.filter_cons_of_neg (by simpa using h), List.filter_nil]
    rw [hr, List.eraseDups_nil, List.append_nil, variantStacks]
  · rw [hm] at h
    have hr : [e.variants].removeAll (ems.map (·.variants)) = [e.variants] := by
      rw [List.removeAll, List.filter_cons_of_pos (by simpa using h), List.filter_nil]
    rw [hr, variantStacks]
    rfl

theorem declarationsAt_concat (ems : List Emission) (e : Emission) (vs : List Variant) :
    declarationsAt (ems ++ [e]) vs
      = declarationsAt ems vs ++ if e.variants = vs then e.declarations else [] := by
  rw [declarationsAt, List.filter_append, List.flatMap_append]
  by_cases h : e.variants = vs <;> simp [declarationsAt, h]

theorem declarationsAt_of_not_mem {ems : List Emission} {vs : List Variant}
    (h : vs ∉ variantStacks ems) : declarationsAt ems vs = [] := by
  have hm : vs ∉ ems.map (·.variants) := fun hm => h (List.mem_eraseDups.2 hm)
  have hf : ems.filter (·.variants = vs) = [] := by
    rw [List.filter_eq_nil_iff]
    intro e he hv
    rw [decide_eq_true_eq] at hv
    exact hm (List.mem_map.2 ⟨e, he, hv⟩)
  rw [declarationsAt, hf]
  rfl

section

variable {ems : List Emission} {e : Emission} {vs : List Variant} {l : List (List Variant)}
  {g : Group} {gs : List Group}

/-- An emission under another stack leaves a group as it is. -/
theorem IsGroup.concat_of_ne (h : IsGroup context selector ems vs g) (hv : e.variants ≠ vs) :
    IsGroup context selector (ems ++ [e]) vs g where
  variants_eq := h.variants_eq
  resolved := h.resolved
  declarations := by
    rw [declarationsAt_concat, if_neg hv, List.append_nil]
    exact h.declarations

theorem IsGroup.concat_self (h : IsGroup context selector ems e.variants g) :
    IsGroup context selector (ems ++ [e]) e.variants
      { g with declarations := g.declarations ++ e.declarations } where
  variants_eq := h.variants_eq
  resolved := h.resolved
  declarations := by
    rw [declarationsAt_concat, if_pos rfl, h.declarations, List.append_assoc]

theorem forall₂_concat_of_not_mem (h : List.Forall₂ (IsGroup context selector ems) l gs)
    (hv : e.variants ∉ l) : List.Forall₂ (IsGroup context selector (ems ++ [e])) l gs := by
  induction h with
  | nil => exact .nil
  | cons hg _ ih =>
    rw [List.mem_cons, not_or] at hv
    exact .cons (hg.concat_of_ne hv.1) (ih hv.2)

/-- Declarations are added to the group of their stack and to no other. -/
theorem forall₂_addTo (h : List.Forall₂ (IsGroup context selector ems) l gs) (hl : l.Nodup) :
    List.Forall₂ (IsGroup context selector (ems ++ [e])) l
      (KeyState.addTo e.variants e.declarations gs) := by
  induction h with
  | nil => exact .nil
  | @cons vs g l gs hg hgs ih =>
    rw [List.nodup_cons] at hl
    rw [KeyState.addTo]
    split_ifs with hv
    · rw [hg.variants_eq] at hv
      subst hv
      exact .cons hg.concat_self (forall₂_concat_of_not_mem hgs hl.1)
    · rw [hg.variants_eq] at hv
      exact .cons (hg.concat_of_ne (Ne.symm hv)) (ih hl.2)

theorem any_variants_iff (h : List.Forall₂ (IsGroup context selector ems) l gs) :
    (gs.any fun g => g.variants = vs) = true ↔ vs ∈ l := by
  induction h with
  | nil => simp
  | cons hg _ ih =>
    rw [List.any_cons, Bool.or_eq_true, ih, hg.variants_eq, decide_eq_true_eq, List.mem_cons, eq_comm]

end

/-! ## A row of tokens -/

/-- What a row of tokens emits. -/
def emissions (context : SelectorContext) (selector : Text) (tokens : List (Text × Option Candidate)) :
    List Emission :=
  tokens.filterMap fun (_, c) => c.bind (emission? context selector)

/-- What is kept while the tokens are gone through. -/
structure KeyState.IsAfter (context : SelectorContext) (selector key : Text)
    (tokens : List (Text × Option Candidate)) (s : KeyState) : Prop where
  groups : List.Forall₂ (IsGroup context selector (emissions context selector tokens))
    (variantStacks (emissions context selector tokens)) s.groups
  diagnostics : s.diagnostics = tokens.flatMap (findings context selector key)

variable {tokens : List (Text × Option Candidate)} {s : KeyState} {t : Text}

theorem checkValue_groups (s : KeyState) (key t : Text) (c : Candidate) :
    (s.checkValue key t c).groups = s.groups := by
  rw [KeyState.checkValue]
  repeat' split
  all_goals rfl

theorem checkValue_diagnostics (s : KeyState) (key t : Text) (c : Candidate) :
    (s.checkValue key t c).diagnostics = s.diagnostics ++ misfits key t c := by
  rw [KeyState.checkValue, misfits]
  cases expectation? c with
  | none => simp
  | some p =>
    obtain ⟨d, type⟩ := p
    dsimp only
    split <;> rename_i h <;> simp [Arbitrary.isValid, h, KeyState.record, KeyState.report]

theorem emissions_concat (tokens : List (Text × Option Candidate)) (p : Text × Option Candidate) :
    emissions context selector (tokens ++ [p]) = emissions context selector tokens
      ++ (p.2.bind (emission? context selector)).toList := by
  rw [emissions, List.filterMap_append, List.filterMap_cons, List.filterMap_nil]
  split <;> rename_i h <;> simp [h, emissions]

/-- A token that emits nothing leaves the groups as they are. -/
theorem KeyState.IsAfter.concat_of_none {p : Text × Option Candidate} {s' : KeyState}
    (h : s.IsAfter context selector key tokens) (hp : p.2.bind (emission? context selector) = none)
    (hg : s'.groups = s.groups)
    (hd : s'.diagnostics = s.diagnostics ++ findings context selector key p) :
    s'.IsAfter context selector key (tokens ++ [p]) where
  groups := by
    rw [emissions_concat, hp, Option.toList_none, List.append_nil, hg]
    exact h.groups
  diagnostics := by
    rw [hd, h.diagnostics, List.flatMap_append, List.flatMap_singleton]

/-- A token that emits something adds to the group of its stack, or makes it. -/
theorem KeyState.IsAfter.concat_of_some {p : Text × Option Candidate} {s' : KeyState} {e : Emission}
    (h : s.IsAfter context selector key tokens)
    (hp : p.2.bind (emission? context selector) = some e)
    (he : applyVariants context selector e.variants = .ok e.resolved)
    (hg : s'.groups = if (s.groups.any fun g => g.variants = e.variants) = true then
      addTo e.variants e.declarations s.groups
      else s.groups ++ [⟨e.variants, e.resolved, firstDeclarations e.resolved ++ e.declarations⟩])
    (hd : s'.diagnostics = s.diagnostics ++ findings context selector key p) :
    s'.IsAfter context selector key (tokens ++ [p]) where
  groups := by
    rw [emissions_concat, hp, Option.toList_some, variantStacks_concat, hg]
    simp only [any_variants_iff h.groups]
    split_ifs with hm
    · exact forall₂_addTo h.groups (nodup_eraseDups _)
    · refine List.rel_append (forall₂_concat_of_not_mem h.groups hm) (.cons ?_ .nil)
      refine ⟨rfl, he, ?_⟩
      rw [declarationsAt_concat, declarationsAt_of_not_mem hm, if_pos rfl, List.nil_append]
  diagnostics := by
    rw [hd, h.diagnostics, List.flatMap_append, List.flatMap_singleton]

/-- A stack that has a group has a selector. -/
theorem KeyState.IsAfter.resolved_of_any (h : s.IsAfter context selector key tokens)
    {vs : List Variant} (hv : (s.groups.any fun g => g.variants = vs) = true) :
    ∃ r, applyVariants context selector vs = .ok r := by
  obtain ⟨i, hi, rfl⟩ := List.mem_iff_getElem.1 ((any_variants_iff h.groups).1 hv)
  have hg := h.groups.get hi (h.groups.length_eq ▸ hi)
  exact ⟨_, hg.resolved⟩

/-- What one token does to the groups and the findings. -/
theorem KeyState.IsAfter.token (h : s.IsAfter context selector key tokens)
    (p : Text × Option Candidate) :
    (KeyState.token context selector key s p).IsAfter context selector key (tokens ++ [p]) := by
  obtain ⟨t, c⟩ := p
  cases c with
  | none => exact h.concat_of_none rfl rfl rfl
  | some c =>
    rw [KeyState.token, effect_eq]
    by_cases hm : isMarker c
    · rw [if_pos hm]
      refine h.concat_of_none ?_ rfl ?_
      · simp [emission?, hm]
      · simp [findings, hm]
    · rw [if_neg hm]
      cases hd : declarationsOf? context.theme c with
      | none =>
        refine h.concat_of_none ?_ rfl ?_
        · simp [emission?, hm, hd]
        · simp [findings, hm, hd, KeyState.report]
      | some ds =>
        dsimp only
        rw [KeyState.declare, checkValue_groups]
        split_ifs with hany
        · obtain ⟨r, hr⟩ := h.resolved_of_any hany
          refine h.concat_of_some (e := ⟨c.variants, r, ds⟩) ?_ hr ?_ ?_
          · simp [emission?, hm, hd, hr]
          · rw [if_pos hany]
          · simp [findings, hm, hd, hr, checkValue_diagnostics]
        · cases hr : applyVariants context selector c.variants with
          | error e =>
            refine h.concat_of_none ?_ (checkValue_groups ..) ?_
            · simp [emission?, hm, hd, hr]
            · simp [findings, hm, hd, hr, KeyState.report, checkValue_diagnostics]
          | ok r =>
            refine h.concat_of_some (e := ⟨c.variants, r, ds⟩) ?_ hr ?_ ?_
            · simp [emission?, hm, hd, hr]
            · rw [if_neg hany]
            · simp [findings, hm, hd, hr, checkValue_diagnostics]

theorem groups_of_tokens (context : SelectorContext) (selector key : Text)
    (tokens : List (Text × Option Candidate)) :
    (tokens.foldl (KeyState.token context selector key) {}).IsAfter context selector key tokens := by
  induction tokens using List.reverseRecOn with
  | nil => exact ⟨.nil, rfl⟩
  | append_singleton tokens p ih =>
    rw [List.foldl_concat]
    exact ih.token p

/-! ## Anchors -/

/-- The anchor of a name is the first entry that carries the mark. -/
theorem anchors_get? (marker name : Text) (es : List Entry) : Table.get? name (anchors marker es)
    = (es.find? fun e => (e.marks marker).contains name).map Entry.selector := by
  have h := Table.get?_foldl_setDefault name []
    (es.flatMap fun e => (e.marks marker).map fun name => (name, e.selector))
  rw [anchors]
  refine h.trans ?_
  clear h
  induction es with
  | nil => rfl
  | cons e es ih =>
    have hmarks : ((e.marks marker).map fun name => (name, e.selector)).find? (·.1 = name)
        = if (e.marks marker).contains name then some (name, e.selector) else none := by
      induction e.marks marker with
      | nil => rfl
      | cons m marks ih =>
        rw [List.map_cons, List.find?_cons]
        by_cases hm : m = name
        · simp [hm]
        · simp_all [eq_comm]
    rw [List.flatMap_cons, List.find?_append, hmarks, List.find?_cons]
    split_ifs with hc
    · rw [hc]
      rfl
    · rw [Bool.not_eq_true] at hc
      rw [hc, Option.none_or]
      exact ih

/-! ## A styles object -/

/-- The rule of a stack: the selector and the at-rules of the stack around the declarations that are
emitted with it, after the content of a pseudo-element before or after its element. -/
def IsRule (context : SelectorContext) (selector : Text) (emissions : List Emission)
    (variants : List Variant) (rule : Rule) : Prop :=
  ∃ r, applyVariants context selector variants = .ok r ∧
    rule = wrap r.atRules (.style r.selector
      ((if r.pseudoElement = some "before".toList ∨ r.pseudoElement = some "after".toList then
        [{ property := "content", value := "''" }] else []) ++ declarationsAt emissions variants))

theorem IsGroup.isRule {ems : List Emission} {vs : List Variant} {g : Group}
    (h : IsGroup context selector ems vs g) : IsRule context selector ems vs g.rule := by
  refine ⟨g.resolved, h.resolved, ?_⟩
  rw [Group.rule, h.declarations, KeyState.firstDeclarations]
  simp only [Bool.or_eq_true, decide_eq_true_eq]

/-- What comes of an entry: a rule for every stack that its tokens emit, where the stack first
comes, and the findings of its tokens. -/
structure Block.IsOf (context : SelectorContext) (e : Entry) (b : Block) : Prop where
  key : b.key = e.key
  rules : List.Forall₂ (IsRule context e.selector (emissions context e.selector e.tokens))
    (variantStacks (emissions context e.selector e.tokens)) b.rules
  diagnostics : b.diagnostics = e.tokens.flatMap (findings context e.selector e.key)

theorem block_isOf (context : SelectorContext) (e : Entry) : (e.block context).IsOf context e := by
  have h := groups_of_tokens context e.selector e.key e.tokens
  refine ⟨rfl, ?_, h.diagnostics⟩
  rw [Entry.block, List.forall₂_map_right_iff]
  exact h.groups.imp fun _ _ hg => hg.isRule

/-- A token is left out: it was not read, means nothing or has a variant without a selector. -/
def isSkip (d : Diagnostic) : Bool := d.rule != "invalid-arbitrary-value".toList

/-- The finding is a warning about a token of a key. -/
def IsAbout (key token : Text) (d : Diagnostic) : Prop :=
  d.styleKey = some key ∧ d.token = some token ∧ d.severity = .warning

theorem mem_misfits {token : Text} {d : Diagnostic} (h : d ∈ misfits key token c) :
    isSkip d = false ∧ IsAbout key token d := by
  rw [misfits] at h
  split at h
  · split_ifs at h
    · cases h
    · rw [List.mem_singleton.1 h]
      exact ⟨rfl, rfl, rfl, rfl⟩
  · cases h

/-- Every token marks its element, emits something or is left out with one finding, and whatever is
found in it is about it. -/
theorem findings_spec (context : SelectorContext) (selector key : Text)
    (p : Text × Option Candidate) : (findings context selector key p).countP isSkip
        = (if p.2.any isMarker || (p.2.bind (emission? context selector)).isSome then 0 else 1) ∧
      ∀ d ∈ findings context selector key p, IsAbout key p.1 d := by
  obtain ⟨t, c⟩ := p
  cases c with
  | none =>
    refine ⟨rfl, fun d hd => ?_⟩
    rw [List.mem_singleton.1 hd]
    exact ⟨rfl, rfl, rfl⟩
  | some c =>
    have hmis : (misfits key t c).countP isSkip = 0 :=
      List.countP_eq_zero.2 fun d hd => by rw [(mem_misfits hd).1]; exact Bool.false_ne_true
    by_cases hm : isMarker c = true
    · rw [findings, if_pos hm]
      exact ⟨by simp [hm], by simp⟩
    · have hm' : isMarker c = false := by simpa using hm
      rw [findings, if_neg hm, Option.any_some, Option.bind_some, emission?, if_neg hm, hm',
        Bool.false_or]
      cases hd : declarationsOf? context.theme c with
      | none =>
        refine ⟨rfl, fun d hd => ?_⟩
        rw [List.mem_singleton.1 hd]
        exact ⟨rfl, rfl, rfl⟩
      | some ds =>
        cases hr : applyVariants context selector c.variants with
        | error e =>
          dsimp only
          refine ⟨by rw [List.countP_append, hmis]; rfl, fun d hd => ?_⟩
          rcases List.mem_append.1 hd with hd | hd
          · exact (mem_misfits hd).2
          · rw [List.mem_singleton.1 hd]
            exact ⟨rfl, rfl, rfl⟩
        | ok r =>
          dsimp only
          rw [List.append_nil]
          exact ⟨hmis, fun d hd => (mem_misfits hd).2⟩

end SkinCompiler.Style
