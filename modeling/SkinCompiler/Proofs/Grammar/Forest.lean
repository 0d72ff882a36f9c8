import SkinCompiler.Proofs.Grammar.Trace

/-!
# The readings that a chart keeps

Every reading that a chart keeps fits the text: what was read before its last symbol is kept
elsewhere, and so is that symbol if it is a category.  A choice among the readings therefore always
comes to an end, with a derivation that reads the text.

* `Names`, `Nodes.Fit`, `Item.IsRead` -- what nodes and items stand for;
* `IsRanked` -- a grammar without endless chains of rules of a single category;
* `exists_choose` -- a choice among the readings of a node comes to an end.
-/

namespace SkinCompiler.Grammar

variable {T C F : Type} {g : Grammar T C F} {text : Text} {goal c : C}
variable {here i k p q : Nat} {key : Key} {R : NodeRef} {r : Rule T C F} {ρ : Reading T C F}
variable {names names' : NodeRef → Key → Prop} {item : Item T C F} {nodes : Nodes T C F}
variable {columns : Array (Column T C F)} {column : Column T C F}

/-! ## Readings -/

/-- A node of the columns keeps the readings of a key. -/
def Names (columns : Array (Column T C F)) (R : NodeRef) (key : Key) : Prop :=
  ∃ column, columns[R.column]? = some column ∧ (key, R.slot) ∈ (column.nodes R.ending).slots

/-- The first symbols of a rule have been read from `i` up to `p`: none, or those of a node. -/
inductive ReadsFirst (g : Grammar T C F) (names : NodeRef → Key → Prop) (r : Rule T C F) (i : Nat) :
    Option NodeRef → (k p : Nat) → Prop
  /-- Nothing has been read. -/
  | none : ReadsFirst g names r i none 0 i
  /-- What the node keeps has been read. -/
  | some {R : NodeRef} {k : Nat} (pos : 0 < k) (names_eq : names R (r.keyAt g k i))
    (lt : i < R.column) : ReadsFirst g names r i (some R) k R.column

/-- The last symbol of a reading that ends at `q`, behind what ends at `p`. -/
inductive ReadsLast (g : Grammar T C F) (text : Text) (names : NodeRef → Key → Prop) (p q : Nat) :
    Last T → Symbol T C → Prop
  /-- A terminal, behind a gap. -/
  | terminal {t : T} {start : Nat} (gap : g.IsGap text p start) (lt : start < q)
    (measure : g.measure t (text.drop start) = some (q - start)) :
    ReadsLast g text names p q (.terminal t start q) (.terminal t)
  /-- A category, as a node keeps it. -/
  | category {R : NodeRef} {c : C} {r : Rule T C F} (rule_mem : r ∈ g.rulesOf c)
    (names_eq : names R (r.keyAt g r.body.length p)) (column_eq : R.column = q) (lt : p < q) :
    ReadsLast g text names p q (.category R) (.category c)

/-- A reading fits a key at a position. -/
structure Reading.Fits (g : Grammar T C F) (text : Text) (names : NodeRef → Key → Prop) (q : Nat)
    (key : Key) (ρ : Reading T C F) : Prop where
  /-- The rule is one of the grammar. -/
  rule_mem : ρ.rule ∈ g.rulesOf ρ.rule.head
  /-- What the reading consists of. -/
  parts : ∃ k i p s, key = ρ.rule.keyAt g (k + 1) i ∧ ρ.rule.body[k]? = some s ∧
    ReadsFirst g names ρ.rule i ρ.before k p ∧ ReadsLast g text names p q ρ.last s

/-- The readings of nodes fit their keys. -/
structure Nodes.Fit (g : Grammar T C F) (text : Text) (names : NodeRef → Key → Prop) (q : Nat)
    (nodes : Nodes T C F) : Prop where
  /-- Every slot is that of one key. -/
  slot_inj : ∀ x ∈ nodes.slots, ∀ y ∈ nodes.slots, x.2 = y.2 → x.1 = y.1
  /-- Every slot has readings, and they fit. -/
  readings : ∀ x ∈ nodes.slots, ∃ rs, nodes.readings[x.2]? = some rs ∧ rs ≠ [] ∧
    ∀ ρ ∈ rs, ρ.Fits g text names q x.1

/-- An item has been read up to a position from which it has come here over a gap. -/
def Item.IsRead (g : Grammar T C F) (goal : C) (text : Text) (names : NodeRef → Key → Prop)
    (here : Nat) (item : Item T C F) : Prop :=
  ∃ p, ReadsFirst g names item.rule item.start item.node item.done p ∧ g.IsGap text p here ∧
    (item.expectsTerminal = true ∨ p = here ∨ (item.todo = [] ∧ item.rule.head = goal))

theorem IsGap.refl (p : Nat) : g.IsGap text p p := ⟨Nat.le_refl p, by simp [gapCovers]⟩

section Mono

variable (hnames : ∀ R key, names R key → names' R key)
include hnames

theorem ReadsFirst.mono {node : Option NodeRef} (h : ReadsFirst g names r i node k p) :
    ReadsFirst g names' r i node k p := by
  cases h with
  | none => exact .none
  | some pos names_eq lt => exact .some pos (hnames _ _ names_eq) lt

theorem ReadsLast.mono {last : Last T} {s : Symbol T C} (h : ReadsLast g text names p q last s) :
    ReadsLast g text names' p q last s := by
  cases h with
  | terminal gap lt measure => exact .terminal gap lt measure
  | category rule_mem names_eq column_eq lt =>
    exact .category rule_mem (hnames _ _ names_eq) column_eq lt

theorem Reading.Fits.mono (h : ρ.Fits g text names q key) : ρ.Fits g text names' q key := by
  obtain ⟨hrule, k, i, p, s, hkey, hs, hfirst, hlast⟩ := h
  exact ⟨hrule, k, i, p, s, hkey, hs, hfirst.mono hnames, hlast.mono hnames⟩

theorem Nodes.Fit.mono (h : nodes.Fit g text names q) : nodes.Fit g text names' q where
  slot_inj := h.slot_inj
  readings x hx := by
    obtain ⟨rs, hrs, hne, hfits⟩ := h.readings x hx
    exact ⟨rs, hrs, hne, fun ρ hρ => (hfits ρ hρ).mono hnames⟩

theorem Item.IsRead.mono (h : item.IsRead g goal text names here) :
    item.IsRead g goal text names' here := by
  obtain ⟨p, hfirst, hrest⟩ := h
  exact ⟨p, hfirst.mono hnames, hrest⟩

end Mono

namespace Nodes.Fit

theorem empty : (({} : Nodes T C F)).Fit g text names q where
  slot_inj _ hx := absurd hx List.not_mem_nil
  readings _ hx := absurd hx List.not_mem_nil

theorem slot_lt (h : nodes.Fit g text names q) {x : Key × Nat} (hx : x ∈ nodes.slots) :
    x.2 < nodes.readings.size := by
  obtain ⟨rs, hrs, -⟩ := h.readings x hx
  obtain ⟨hlt, -⟩ := Array.getElem?_eq_some_iff.1 hrs
  exact hlt

/-- A slot is given one more reading. -/
theorem extend (h : nodes.Fit g text names q) {slot : Nat} (hslot : nodes.slot? key = some slot)
    (hρ : ρ.Fits g text names q key) : (nodes.extend slot ρ).Fit g text names q where
  slot_inj := h.slot_inj
  readings x hx := by
    obtain ⟨rs, hrs, hne, hfits⟩ := h.readings x hx
    show ∃ rs, (nodes.readings.modify slot (ρ :: ·))[x.2]? = some rs ∧ _
    rw [Array.getElem?_modify, hrs]
    split
    · rename_i hsame
      refine ⟨ρ :: rs, rfl, List.cons_ne_nil _ _, ?_⟩
      have hkey : x.1 = key :=
        h.slot_inj x hx (key, slot) (Nodes.mem_of_slot? hslot) hsame.symm
      rintro σ (_ | ⟨_, hσ⟩)
      · exact hkey ▸ hρ
      · exact hfits σ hσ
    · exact ⟨rs, rfl, hne, hfits⟩

/-- A slot is opened with its first reading. -/
theorem «open» (h : nodes.Fit g text names q) (hρ : ρ.Fits g text names q key) :
    (nodes.open key ρ).Fit g text names q where
  slot_inj := by
    rintro x (_ | ⟨_, hx⟩) y (_ | ⟨_, hy⟩) hsame
    · rfl
    · exact absurd hsame (Nat.ne_of_gt (h.slot_lt hy))
    · exact absurd hsame (Nat.ne_of_lt (h.slot_lt hx))
    · exact h.slot_inj x hx y hy hsame
  readings x hx := by
    show ∃ rs, (nodes.readings.push [ρ])[x.2]? = some rs ∧ _
    rw [Array.getElem?_push]
    rcases List.mem_cons.1 hx with rfl | hx
    · rw [if_pos rfl]
      refine ⟨[ρ], rfl, List.cons_ne_nil _ _, fun σ hσ => ?_⟩
      rw [List.mem_singleton.1 hσ]
      exact hρ
    · rw [if_neg (Nat.ne_of_lt (h.slot_lt hx))]
      exact h.readings x hx

end Nodes.Fit

/-! ## Choosing -/

/-- The categories have ranks that fall along rules of a single category; there are fewer ranks than
places in all rules. -/
structure IsRanked (g : Grammar T C F) (rank : C → Nat) : Prop where
  /-- What a rule of a single category reads is of a smaller rank. -/
  unit_lt : ∀ c, ∀ r ∈ g.rulesOf c, ∀ c', r.body = [.category c'] → rank c' < rank c
  /-- There are more places than ranks. -/
  lt_extent : ∀ c, rank c + 1 < g.extent

/-- How long a choice goes on at most without getting on in the text. -/
def Rule.rankAt (g : Grammar T C F) (rank : C → Nat) (r : Rule T C F) (k : Nat) : Nat :=
  if k = r.body.length then rank r.head else g.extent - 1

/-- The nodes of all columns have readings that fit. -/
def NodesFit (g : Grammar T C F) (text : Text) (columns : Array (Column T C F)) : Prop :=
  ∀ (j : Nat) (column : Column T C F) (e : Ending), columns[j]? = some column →
    (column.nodes e).Fit g text (Names columns) j

theorem exists_preferred {rs : List (Reading T C F)} (h : rs ≠ []) :
    ∃ ρ ∈ rs, preferred rs = some ρ := by
  induction rs with
  | nil => exact absurd rfl h
  | cons ρ rs ih =>
    rw [preferred]
    split
    · exact ⟨ρ, List.mem_cons_self, rfl⟩
    · rename_i best hbest
      have hne : rs ≠ [] := by
        rintro rfl
        cases hbest
      obtain ⟨σ, hσ, hσ'⟩ := ih hne
      obtain rfl : σ = best := Option.some.inj (hσ'.symm.trans hbest)
      split
      · exact ⟨ρ, List.mem_cons_self, rfl⟩
      · exact ⟨σ, List.mem_cons_of_mem _ hσ, rfl⟩

/-- A node has a preferred reading, which fits its key. -/
theorem exists_reading (h : NodesFit g text columns) (hR : Names columns R key) :
    ∃ ρ, preferred (readingsAt columns R) = some ρ ∧
      ρ.Fits g text (Names columns) R.column key := by
  obtain ⟨column, hcolumn, hslot⟩ := hR
  obtain ⟨rs, hrs, hne, hfits⟩ := (h _ _ R.ending hcolumn).readings _ hslot
  obtain ⟨ρ, hρ, hpreferred⟩ := exists_preferred hne
  refine ⟨ρ, ?_, hfits ρ hρ⟩
  rw [readingsAt, hcolumn, ← hpreferred]
  dsimp only
  rw [Array.getD_eq_getD_getElem?, hrs, Option.getD_some]

theorem ReadsLast.lt {last : Last T} {s : Symbol T C} (h : ReadsLast g text names p q last s) :
    p < q := by
  cases h with
  | terminal gap lt measure =>
    have hle := gap.le
    omega
  | category rule_mem names_eq column_eq lt => exact lt

/-- What is left of the rank when something has been read. -/
theorem rank_lt {m n extent rank rank' fuel : Nat} (hmn : m < n) (hrank : rank < extent)
    (hfuel : n * extent + rank' < fuel + 1) : m * extent + rank < fuel := by
  have hmul : (m + 1) * extent ≤ n * extent := Nat.mul_le_mul_right extent hmn
  rw [Nat.add_mul, Nat.one_mul] at hmul
  omega

variable [DecidableEq T] [DecidableEq C] [DecidableEq F]

theorem extentOfRow?_append (ds es : List (Derivation T C F)) (p : Nat) :
    extentOfRow? g text (ds ++ es) p =
      (extentOfRow? g text ds p).bind fun m => extentOfRow? g text es m := by
  induction ds generalizing p with
  | nil => rfl
  | cons d ds ih =>
    rw [List.cons_append, extentOfRow?, extentOfRow?]
    cases d.extent? g text p with
    | none => rfl
    | some m => exact ih m

/-- What a choice gives for a key: a rule with that key, and derivations of its first symbols that
read the text up to a position. -/
structure IsChosen (g : Grammar T C F) (text : Text) (r : Rule T C F) (k i q : Nat)
    (x : Rule T C F × List (Derivation T C F)) : Prop where
  /-- The rule is one of the grammar. -/
  rule_mem : x.1 ∈ g.rulesOf x.1.head
  /-- So many of its symbols have been read. -/
  symbols : ∃ k', x.1.keyAt g k' i = r.keyAt g k i ∧ k' ≤ x.1.body.length ∧
    x.2.map Derivation.symbol = x.1.body.take k'
  /-- They read the text. -/
  extent : extentOfRow? g text x.2 i = some q

/-- The symbols before the last one have derivations if there is a choice for shorter ranges. -/
theorem Reading.exists_first (hg : g.IsTabled) (text : Text) (choice : Choice T C F)
    (hrule : ρ.rule ∈ g.rulesOf ρ.rule.head) (hk : k < ρ.rule.body.length)
    (h : ReadsFirst g names ρ.rule i ρ.before k p)
    (hchoice : ∀ R, names R (ρ.rule.keyAt g k i) → R.column = p → i < p →
      ∃ x, choice R = some x ∧ IsChosen g text ρ.rule k i p x) :
    ∃ ds, ρ.first choice = some ds ∧ ds.map Derivation.symbol = ρ.rule.body.take k ∧
      extentOfRow? g text ds i = some p := by
  unfold Reading.first
  generalize ρ.before = before at h
  cases h with
  | none => exact ⟨[], rfl, rfl, rfl⟩
  | @some R k pos names_eq lt =>
    obtain ⟨x, hx, hmem, ⟨k', hkey, hk', hsymbols⟩, hrow⟩ := hchoice R names_eq rfl lt
    obtain ⟨-, ⟨-, hdone, -⟩ | ⟨-, hsame, hsame'⟩⟩ :=
      hg.of_key_eq hmem hrule hk' (Nat.le_of_lt hk) hkey
    · omega
    · rw [hsame, hsame'] at hsymbols
      refine ⟨x.2, ?_, hsymbols, hrow⟩
      dsimp only
      rw [hx, Option.map_some]

/-- The last symbol has a derivation if there is a choice for a category. -/
theorem Reading.exists_final (hg : g.IsTabled) (choice : Choice T C F) {s : Symbol T C}
    (h : ReadsLast g text names p q ρ.last s)
    (hchoice : ∀ R c r, s = .category c → r ∈ g.rulesOf c → names R (r.keyAt g r.body.length p) →
      R.column = q → ∃ x, choice R = some x ∧ IsChosen g text r r.body.length p q x) :
    ∃ d, ρ.final choice = some d ∧ d.symbol = s ∧ d.extent? g text p = some q := by
  unfold Reading.final
  generalize ρ.last = last at h
  cases h with
  | terminal gap lt measure =>
    exact ⟨_, rfl, rfl, Derivation.extent?_terminal.2 ⟨gap, lt, measure, rfl⟩⟩
  | @category R c r rule_mem names_eq column_eq lt =>
    obtain ⟨x, hx, hmem, ⟨k', hkey, hk', hsymbols⟩, hrow⟩ :=
      hchoice R c r rfl rule_mem names_eq column_eq
    obtain ⟨-, ⟨hdone, -, hhead⟩ | ⟨hdone, hsame, hsame'⟩⟩ :=
      hg.of_key_eq hmem rule_mem hk' (Nat.le_refl _) hkey
    · rw [hdone, List.take_length] at hsymbols
      refine ⟨.node x.1 x.2, ?_, ?_, Derivation.extent?_node.2 ⟨hmem, hsymbols, hrow⟩⟩
      · dsimp only
        rw [hx, Option.map_some]
      · rw [Derivation.symbol, hhead, hg.head_eq c r rule_mem]
    · rw [hsame] at hdone
      omega

/-- A choice among the readings of a node comes to an end. -/
theorem exists_choose (hg : g.IsTabled) {rank : C → Nat} (hrank : g.IsRanked rank)
    (h : NodesFit g text columns) (fuel : Nat) (hr : r ∈ g.rulesOf c) (hk : k ≤ r.body.length)
    (hR : Names columns R (r.keyAt g k i))
    (hfuel : (R.column - i) * g.extent + r.rankAt g rank k < fuel) :
    ∃ x, choose columns fuel R = some x ∧ IsChosen g text r k i R.column x := by
  induction fuel generalizing c r k R i with
  | zero => omega
  | succ fuel ih =>
    obtain ⟨ρ, hρ, hrule, k', i', p, s, hkey, hs, hfirst, hlast⟩ := exists_reading h hR
    obtain ⟨hk', hget⟩ := List.getElem?_eq_some_iff.1 hs
    obtain ⟨rfl, hplace⟩ := hg.of_key_eq hr hrule hk hk' hkey
    have hextent : 0 < g.extent := Nat.lt_of_le_of_lt (Nat.zero_le _) (hrank.lt_extent c)
    have hpq := hlast.lt
    obtain ⟨ds, hds, hsymbols, hrow⟩ := Reading.exists_first hg text (choose columns fuel) hrule hk'
      hfirst fun R' hR' hp hip => by
        have hrankAt : ρ.rule.rankAt g rank k' = g.extent - 1 := if_neg (Nat.ne_of_lt hk')
        rw [← hp]
        refine ih hrule (Nat.le_of_lt hk') hR' ?_
        rw [hrankAt, hp]
        exact rank_lt (by omega) (by omega) hfuel
    obtain ⟨d, hd, hsymbol, hfinal⟩ := Reading.exists_final hg (choose columns fuel) hlast
      fun R' c' r' hc' hr' hR' hq => by
        have hsmall := hrank.lt_extent c'
        rw [← hq]
        refine ih hr' (Nat.le_refl _) hR' ?_
        rw [Rule.rankAt, if_pos rfl, hg.head_eq c' r' hr', hq]
        generalize ρ.before = before at hfirst
        cases hfirst with
        | some pos _ lt => exact rank_lt (by omega) (by omega) hfuel
        | none =>
          -- a single symbol: the range is the same, but the rank falls
          have hfalls : rank c' < r.rankAt g rank k := by
            rw [Rule.rankAt]
            rcases hplace with ⟨hdone, hdone', hsame⟩ | ⟨hdone, -, -⟩
            · rw [if_pos hdone, hsame]
              refine hrank.unit_lt _ ρ.rule hrule c' ?_
              obtain ⟨s', hbody⟩ := List.length_eq_one_iff.1 hdone'.symm
              rw [hbody] at hs ⊢
              rw [← hc', ← Option.some.inj hs]
            · rw [if_neg (Nat.ne_of_lt hdone)]
              omega
          omega
    refine ⟨(ρ.rule, ds ++ [d]), ?_, hrule, ⟨k' + 1, hkey.symm, hk', ?_⟩, ?_⟩
    · rw [choose, hρ]
      dsimp only
      rw [hds, hd]
    · rw [List.map_append, hsymbols, List.map_cons, List.map_nil, hsymbol, ← hget,
        List.take_append_getElem hk']
    · rw [extentOfRow?_append, hrow, Option.bind_some, extentOfRow?, hfinal]
      rfl

end SkinCompiler.Grammar
