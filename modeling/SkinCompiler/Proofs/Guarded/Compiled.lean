import SkinCompiler.Proofs.Guarded.Declarations
import SkinCompiler.Proofs.Guarded.Reader
import SkinCompiler.Style.Compiled

/-!
# Compiling with guarded operations

The compilation of a styles object, from the tokens of its keys to the groups of their rules, with
guarded operations.  Whatever the tokens are, it comes to the end that `Style.compile` comes to; the
only errors on the way are variants without a selector, and these are reported.

* `applyVariants_eq` -- stacks of variants;
* `token_eq` -- one token, from any state of its key;
* `compile_of_hasSizes`, `compile_eq_ok` -- whole styles objects.
-/

namespace SkinCompiler.Guarded

open Text Style

variable {d : DesignSystem} {theme : Theme} {context : SelectorContext} {styles : Table Text}
  {c : Candidate} {raw key : Text}

/-! ## Variants -/

/-- A variant that stands alone, applied to a selector. -/
def applyStatic (context : SelectorContext) (root selector : Text) :
    Guarded (Except UnsupportedVariant Resolved) := do
  match ← found? root pseudoClasses with
  | some c => return .ok { selector := selector ++ c }
  | none => match ← found? root pseudoElements with
    | some e => return .ok { selector := selector ++ e, pseudoElement := some root }
    | none => match ← found? root context.theme.breakpoints with
      | some width => return .ok { selector, atRules := [fromWidth width] }
      | none => match ← found? root mediaFeatures with
        | some feature => return .ok { selector, atRules := ["@media " ++ feature] }
        | none => return .error ⟨.static root, .noSelector⟩

/-- The selector of a group or a peer. -/
def anchor (registered : Table Text) (marker name : Text) : Guarded Text := do
  match ← found? name registered with
  | some selector => return selector
  | none => return if name.isEmpty then '.' :: marker else '.' :: marker ++ "\\/" ++ name

/-- A variant applied to a selector. -/
def applyVariant (context : SelectorContext) :
    Variant → Text → Guarded (Except UnsupportedVariant Resolved)
  | .static root, selector => applyStatic context root selector
  | .arbitrary fragment, selector => return .ok (applyArbitrary fragment selector)
  | .functional root value modifier, selector =>
    return applyFunctional context root value modifier selector
  | .other root value modifier, _ => return .error ⟨.other root value modifier, .noSelector⟩
  | .compound root inner modifier, selector => do
    match String.ofList root with
    | "group" =>
      let anchor ← anchor context.groups root (nameOf modifier)
      return (← applyVariant context inner anchor).map fun r =>
        { selector := r.selector ++ " " ++ selector, atRules := r.atRules }
    | "peer" =>
      let anchor ← anchor context.peers root (nameOf modifier)
      return (← applyVariant context inner anchor).map fun r =>
        { selector := r.selector ++ " ~ " ++ selector, atRules := r.atRules }
    | "not" => match ← applyVariant context inner [] with
      | .error e => return .error e
      | .ok r =>
        if !r.atRules.isEmpty || r.selector.isEmpty then
          return .error ⟨.compound root inner modifier, .atRuleNegated⟩
        else return .ok { selector := selector ++ ":not(" ++ r.selector ++ ")" }
    | _ => return .error ⟨.compound root inner modifier, .noSelector⟩

/-- Variants applied one after the other. -/
def applyAll (context : SelectorContext) (r : Resolved) :
    List Variant → Guarded (Except UnsupportedVariant Resolved)
  | [] => return .ok r
  | v :: vs => do
    match ← applyVariant context v r.selector with
    | .error e => return .error e
    | .ok next =>
      applyAll context
        { selector := next.selector, atRules := r.atRules ++ next.atRules
          pseudoElement := next.pseudoElement.or r.pseudoElement } vs

/-- The selector of a stack of variants on a base selector. -/
def applyVariants (context : SelectorContext) (base : Text) (variants : List Variant) :
    Guarded (Except UnsupportedVariant Resolved) :=
  applyAll context { selector := base } variants

theorem applyStatic_eq (context : SelectorContext) (root selector : Text) :
    applyStatic context root selector = .ok (Style.applyStatic context root selector) := by
  rw [applyStatic, Style.applyStatic]
  simp only [found?_eq, ok_bind]
  cases Table.get? root pseudoClasses with
  | some c => rfl
  | none => cases Table.get? root pseudoElements with
    | some e => rfl
    | none => cases Table.get? root context.theme.breakpoints with
      | some width => rfl
      | none => cases Table.get? root mediaFeatures <;> rfl

@[simp] theorem anchor_eq (registered : Table Text) (marker name : Text) :
    anchor registered marker name = .ok (Style.anchor registered marker name) := by
  rw [anchor, Style.anchor, found?_eq, ok_bind]
  cases Table.get? name registered <;> rfl

@[simp] theorem applyVariant_eq (context : SelectorContext) (v : Variant) (selector : Text) :
    applyVariant context v selector = .ok (Style.applyVariant context v selector) := by
  induction v generalizing selector with
  | static root => exact applyStatic_eq context root selector
  | functional root value m => rfl
  | arbitrary fragment => rfl
  | other root value m => rfl
  | compound root inner m ih =>
    simp only [applyVariant, Style.applyVariant, anchor_eq, ih, ok_bind, pure_eq_ok]
    generalize String.ofList root = name
    split
    · rfl
    · rfl
    · cases Style.applyVariant context inner [] with
      | error e => rfl
      | ok r =>
        dsimp only
        rw [← apply_ite Except.ok]
        rfl
    · simp only

@[simp] theorem applyAll_eq (context : SelectorContext) (r : Resolved) (vs : List Variant) :
    applyAll context r vs = .ok (Style.applyAll context r vs) := by
  induction vs generalizing r with
  | nil => rfl
  | cons v vs ih =>
    rw [applyAll, Style.applyAll, applyVariant_eq, ok_bind]
    cases Style.applyVariant context v r.selector with
    | error e => rfl
    | ok next => exact ih _

/-- The selectors of variants are found inside the domains of their operations; a variant that has
none is an error of its own kind. -/
@[simp] theorem applyVariants_eq (context : SelectorContext) (base : Text)
    (variants : List Variant) : applyVariants context base variants
      = .ok (Style.applyVariants context base variants) := applyAll_eq context _ variants

/-! ## Tokens -/

/-- What a candidate adds to its key. -/
def effect (theme : Theme) (c : Candidate) : Guarded Effect :=
  let declared := do
    match ← declarations theme c with
    | some ds => return Effect.declares ds
    | none => return .nothing
  match c.utility with
  | .static root modifier =>
    if root = "@container".toList then
      return .declares (containerDeclarations modifier c.important)
    else if DesignSystem.markers.contains root then return .marks
    else declared
  | _ => declared

/-- Add the declarations of a candidate to the group of its stack. -/
def declare (context : SelectorContext) (selector : Text) (s : KeyState) (key token : Text)
    (c : Candidate) (ds : List Declaration) : Guarded KeyState := do
  if s.groups.any fun g => g.variants = c.variants then
    return { s with groups := KeyState.addTo c.variants ds s.groups }
  else match ← applyVariants context selector c.variants with
    | .error e => return s.report (unsupportedVariant key token e)
    | .ok resolved =>
      return { s with groups := s.groups ++ [
        { variants := c.variants, resolved
          declarations := KeyState.firstDeclarations resolved ++ ds }] }

/-- Take in one token. -/
def token (context : SelectorContext) (selector key : Text) (s : KeyState) :
    Text × Option Candidate → Guarded KeyState
  | (t, none) => return (s.report (unparseableClass key t)).record (.unparseable t key)
  | (t, some c) => do match ← effect context.theme c with
    | .marks => return s
    | .nothing => return s.report (noCss key t)
    | .declares ds => declare context selector (s.checkValue key t c) key t c ds

theorem effect_eq_ok (htheme : HasSizes theme) (hc : c.utility.IsWellFormed d) :
    effect theme c = .ok (Style.effect theme c) := by
  have hdeclared : (do match ← declarations theme c with
      | some ds => return Effect.declares ds
      | none => return .nothing) = Except.ok (match declarations? theme c with
        | some ds => .declares ds
        | none => .nothing) := by
    rw [declarations_eq htheme hc, ok_bind]
    cases declarations? theme c <;> rfl
  rw [effect, Style.effect, hdeclared]
  cases c.utility with
  | static root m =>
    dsimp only
    split_ifs <;> rfl
  | functional root v m => rfl
  | property name content m => rfl
  | other root v m => rfl

theorem declare_eq (context : SelectorContext) (selector : Text) (s : KeyState) (key t : Text)
    (c : Candidate) (ds : List Declaration) : declare context selector s key t c ds
      = .ok (KeyState.declare context selector s key t c ds) := by
  rw [declare, KeyState.declare]
  split_ifs
  · rfl
  · rw [applyVariants_eq, ok_bind]
    cases Style.applyVariants context selector c.variants <;> rfl

/-- One token is taken in, whatever those before it have come to. -/
theorem token_eq (htheme : HasSizes context.theme) (selector key : Text) (s : KeyState)
    {p : Text × Option Candidate} (hp : ∀ c ∈ p.2, c.utility.IsWellFormed d) :
    token context selector key s p = .ok (KeyState.token context selector key s p) := by
  obtain ⟨t, c⟩ := p
  cases c with
  | none => rfl
  | some c =>
    rw [token, KeyState.token, effect_eq_ok htheme (hp c rfl), ok_bind]
    cases Style.effect context.theme c with
    | marks => rfl
    | nothing => rfl
    | declares ds => exact declare_eq context selector _ key t c ds

/-! ## Styles -/

/-- The entry of a key, whose class name is looked up. -/
def entry (o : Options) (names : Table Text) : Text × Text → Guarded Entry
  | (key, classes) => do
    let tokens ← (words classes).mapM fun t => do return (t, ← readCandidate o.designSystem t)
    return { key, className := ← value key names, tokens }

/-- What comes of an entry. -/
def block (context : SelectorContext) (e : Entry) : Guarded Block := do
  let s ← e.tokens.foldlM (token context e.selector e.key) {}
  return { key := e.key, rules := s.groups.map (·.rule), diagnostics := s.diagnostics
           events := s.events }

/-- Compile a styles object. -/
def compile (o : Options) (styles : Table Text) : Guarded Compiled := do
  let names := classNames o.pattern styles
  let entries ← styles.mapM (entry o names)
  let blocks ← entries.mapM (block (selectorContext o.theme entries))
  return { classNames := names, blocks }

/-- The key of a row has the class name of that row if no key stands twice. -/
theorem value_classNames {pattern : Option Text} {classes : Text} (h : styles.keys.Nodup)
    (hmem : (key, classes) ∈ styles) :
    value key (classNames pattern styles) = .ok (className pattern key classes) := by
  have hkeys : (classNames pattern styles).keys = styles.keys := by
    rw [Table.keys, classNames, List.map_map]
    rfl
  exact value_of_get? (Table.get?_of_mem (hkeys ▸ h) (List.mem_map_of_mem hmem))

theorem utility_of_read? (h : Candidate.read? d raw = some c) :
    ∃ t, Utility.read? d t = some c.utility := by
  unfold Candidate.read? at h
  split at h
  · cases h
  · dsimp only at h
    split at h
    · cases h
    · split at h
      · rename_i hutility
        split_ifs at h
        cases h
        exact ⟨_, hutility⟩
      · cases h

/-- The tokens of an entry are read. -/
theorem entry_eq (o : Options) (h : styles.keys.Nodup) {p : Text × Text} (hp : p ∈ styles) :
    entry o (classNames o.pattern styles) p
      = .ok { key := p.1, className := className o.pattern p.1 p.2
              tokens := (words p.2).map fun t => (t, Candidate.read? o.designSystem t) } := by
  obtain ⟨key, classes⟩ := p
  have htokens : ((words classes).mapM fun t => do return (t, ← readCandidate o.designSystem t))
      = Except.ok ((words classes).map fun t => (t, Candidate.read? o.designSystem t)) := by
    apply mapM_of_ok
    intro t _
    rw [readCandidate_eq, ok_bind, pure_eq_ok]
  rw [entry, htokens, ok_bind, value_classNames h hp]
  rfl

theorem block_eq (htheme : HasSizes context.theme) {e : Entry}
    (he : ∀ p ∈ e.tokens, ∀ c ∈ p.2, c.utility.IsWellFormed d) :
    block context e = .ok (e.block context) := by
  have hstep : ∀ s, ∀ p ∈ e.tokens, token context e.selector e.key s p
      = .ok (KeyState.token context e.selector e.key s p) := by
    intro s p hp
    exact token_eq htheme e.selector e.key s (he p hp)
  rw [block, foldlM_of_ok {} hstep]
  rfl

/-- With every theme whose sizes are filled, a styles object is compiled inside the domains of all
operations. -/
theorem compile_of_hasSizes (o : Options) (htheme : HasSizes o.theme) (h : styles.keys.Nodup) :
    compile o styles = .ok (Style.compile o styles) := by
  have hentries : styles.mapM (entry o (classNames o.pattern styles))
      = .ok (entries o styles) := mapM_of_ok fun p hp => entry_eq o h hp
  have hblocks : (entries o styles).mapM (block (selectorContext o.theme (entries o styles)))
      = .ok ((entries o styles).map
        (Entry.block (selectorContext o.theme (entries o styles)))) := by
    apply mapM_of_ok
    intro e he
    apply block_eq (d := o.designSystem) htheme
    intro p hp c hc
    -- the candidate was read from a token of the row that the entry is made of
    obtain ⟨⟨key, classes⟩, -, rfl⟩ := List.mem_map.1 he
    obtain ⟨t, -, rfl⟩ := List.mem_map.1 hp
    obtain ⟨text, hutility⟩ := utility_of_read? hc
    exact Utility.isWellFormed_of_read?_eq_some hutility
  rw [compile, hentries, ok_bind, hblocks]
  rfl

/-- Every styles object is compiled, with every design system and the built-in theme: no token ends
the compilation. -/
theorem compile_eq_ok (d : DesignSystem) (pattern : Option Text) (h : styles.keys.Nodup) :
    compile { designSystem := d, pattern } styles
      = .ok (Style.compile { designSystem := d, pattern } styles) :=
  compile_of_hasSizes _ hasSizes_builtIn h

/-- A half with the opposite sign, a quotient by zero, an unknown root, a variant without a selector
and a token that cannot be read. -/
theorem compile_eq_ok_card :
    let styles : Table Text := [
      ("card", "-mt-1/2 w-3/0 unknown-[x] not-md:p-4 text-lg/[1.5] group-hover:bg-sky-500/50"),
      ("", "[color:]] opacity-5.5 aspect-4/3 [&_a]:rounded-tl")]
    styles.keys.Nodup ∧ compile { pattern := some "[name]_[hash]".toList } styles
      = .ok (Style.compile { pattern := some "[name]_[hash]".toList } styles) :=
  ⟨by decide, compile_eq_ok .builtIn (some "[name]_[hash]".toList) (by decide)⟩

end SkinCompiler.Guarded
