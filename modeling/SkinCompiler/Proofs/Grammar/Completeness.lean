import SkinCompiler.Proofs.Grammar.Forest

/-!
# Texts that have a derivation have a preferred one

On its way over a text a chart keeps only readings that fit, for every item that it holds.  At the
end of a text that has a derivation there is a complete item, and a choice among its readings gives
the preferred derivation.

* `Work.IsRead`, `Work.isRead_run` -- what has been read when a position is worked off;
* `Chart.IsRead`, `isRead_chartAt` -- what has been read on the way over a text;
* `derive_isOk_iff` -- a text has a preferred derivation just if it has one at all.
-/

namespace SkinCompiler.Grammar

variable {T C F : Type} {g : Grammar T C F} {text : Text} {goal c : C}
variable {here i j k p q : Nat} {key : Key} {R : NodeRef} {r : Rule T C F} {ρ : Reading T C F}
variable {item : Item T C F} {nodes nodes' : Nodes T C F} {w : Work T C F}
variable {columns : Array (Column T C F)} {column : Column T C F} {chart : Chart T C F}
variable {a : Arrival T C F}

/-! ## Gaps -/

theorem gapCovers_mono {fuel fuel' : Nat} (hle : fuel ≤ fuel') {t : Text} {length : Nat}
    (h : gapCovers g fuel t length = true) : gapCovers g fuel' t length = true := by
  induction fuel generalizing fuel' t length with
  | zero =>
    cases length with
    | zero => cases fuel' <;> rfl
    | succ length => cases h
  | succ fuel ih =>
    obtain ⟨fuel', rfl⟩ := Nat.exists_eq_succ_of_ne_zero (by omega : fuel' ≠ 0)
    cases length with
    | zero => rfl
    | succ length =>
      unfold gapCovers at h ⊢
      obtain ⟨gap, hgap, hcovers⟩ := List.any_eq_true.1 h
      refine List.any_eq_true.2 ⟨gap, hgap, ?_⟩
      split at hcovers
      · rename_i n hn
        rw [Bool.and_eq_true] at hcovers ⊢
        exact ⟨hcovers.1, ih (by omega) hcovers.2⟩
      · cases hcovers

/-- A gap in front of others. -/
theorem IsGap.cons {gap : Text → Option Nat} {n : Nat} (hgap : gap ∈ g.gaps)
    (hn : gap (text.drop p) = some n) (hpos : 0 < n) (h : g.IsGap text (p + n) q) :
    g.IsGap text p q := by
  have hle := h.le
  have hcovers := h.covers
  obtain ⟨n, rfl⟩ := Nat.exists_eq_succ_of_ne_zero (Nat.ne_of_gt hpos)
  refine ⟨by omega, ?_⟩
  obtain ⟨length, hlength⟩ := Nat.exists_eq_succ_of_ne_zero (by omega : q - p ≠ 0)
  rw [hlength]
  unfold gapCovers
  refine List.any_eq_true.2 ⟨gap, hgap, ?_⟩
  rw [hn]
  simp only [Nat.succ_eq_add_one, Bool.and_eq_true, decide_eq_true_eq, List.drop_drop]
  refine ⟨by omega, ?_⟩
  rw [show length + 1 - (n + 1) = q - (p + n.succ) by omega]
  exact gapCovers_mono (by omega) hcovers

theorem gapCovers_trans (fuel : Nat) {m length : Nat}
    (h : gapCovers g fuel (text.drop m) length = true) (hq : g.IsGap text (m + length) q) :
    g.IsGap text m q := by
  induction fuel generalizing m length with
  | zero =>
    cases length with
    | zero => exact hq
    | succ length => cases h
  | succ fuel ih =>
    cases length with
    | zero => exact hq
    | succ length =>
      unfold gapCovers at h
      obtain ⟨gap, hgap, hcovers⟩ := List.any_eq_true.1 h
      split at hcovers
      · rename_i n hn
        rw [Bool.and_eq_true, decide_eq_true_eq, List.drop_drop] at hcovers
        refine IsGap.cons hgap hn (Nat.succ_pos n) (ih hcovers.2 ?_)
        rwa [show m + (n + 1) + (length + 1 - (n + 1)) = m + (length + 1) by omega]
      · cases hcovers

/-- Gaps that follow one another. -/
theorem IsGap.trans {m : Nat} (h : g.IsGap text p m) (h' : g.IsGap text m q) :
    g.IsGap text p q := by
  refine gapCovers_trans (m - p) h.covers ?_
  rwa [Nat.add_sub_cancel' h.le]

/-- A single gap. -/
theorem IsGap.one {gap : Text → Option Nat} {n : Nat} (hgap : gap ∈ g.gaps)
    (hn : gap (text.drop p) = some n) (hpos : 0 < n) : g.IsGap text p (p + n) :=
  .cons hgap hn hpos (.refl _)

/-! ## Names while a position is worked off -/

/-- What the nodes at the last position keep, and those before. -/
abbrev namesAt (columns : Array (Column T C F)) (nodes nodes' : Nodes T C F) :
    NodeRef → Key → Prop := Names (columns.push ⟨[], nodes, nodes'⟩)

theorem names_push (h : Names columns R key) (column : Column T C F) :
    Names (columns.push column) R key := by
  obtain ⟨other, hother, hslot⟩ := h
  refine ⟨other, ?_, hslot⟩
  obtain ⟨hlt, -⟩ := Array.getElem?_eq_some_iff.1 hother
  rw [Array.getElem?_push, if_neg (Nat.ne_of_lt hlt)]
  exact hother

/-- Only the nodes of a column matter. -/
theorem names_congr (items : List (Item T C F)) :
    Names (columns.push ⟨items, nodes, nodes'⟩) R key ↔ namesAt columns nodes nodes' R key := by
  unfold namesAt Names
  simp only [Array.getElem?_push]
  split
  · simp only [Option.some.injEq, exists_eq_left']
    cases R.ending <;> rfl
  · rfl

/-- Nodes that keep more name more. -/
theorem namesAt_mono {late late' : Nodes T C F} (h : nodes.slots ⊆ late.slots)
    (h' : nodes'.slots ⊆ late'.slots) (hR : namesAt columns nodes nodes' R key) :
    namesAt columns late late' R key := by
  obtain ⟨column, hcolumn, hslot⟩ := hR
  rw [Array.getElem?_push] at hcolumn
  by_cases hlast : R.column = columns.size
  · rw [if_pos hlast] at hcolumn
    obtain rfl := Option.some.inj hcolumn
    refine ⟨_, by rw [Array.getElem?_push, if_pos hlast], ?_⟩
    cases he : R.ending with
    | terminal =>
      rw [he] at hslot
      exact h hslot
    | category =>
      rw [he] at hslot
      exact h' hslot
  · rw [if_neg hlast] at hcolumn
    exact ⟨column, by rw [Array.getElem?_push, if_neg hlast]; exact hcolumn, hslot⟩

theorem namesAt_category (hsize : columns.size = here) {slot : Nat}
    (h : (key, slot) ∈ nodes'.slots) : namesAt columns nodes nodes' ⟨here, .category, slot⟩ key :=
  ⟨⟨[], nodes, nodes'⟩, by rw [Array.getElem?_push, if_pos hsize.symm], h⟩

theorem namesAt_terminal (hsize : columns.size = here) {slot : Nat}
    (h : (key, slot) ∈ nodes.slots) : namesAt columns nodes nodes' ⟨here, .terminal, slot⟩ key :=
  ⟨⟨[], nodes, nodes'⟩, by rw [Array.getElem?_push, if_pos hsize.symm], h⟩

/-! ## Working a position off -/

theorem Work.nodes_put (w : Work T C F) (item : Item T C F) : (w.put item).nodes = w.nodes := by
  unfold put
  split <;> rfl

theorem slots_advance (g : Grammar T C F) (here : Nat) (last : NodeRef) (w : Work T C F)
    (item : Item T C F) : w.nodes.slots ⊆ (w.advance g here last item).nodes.slots := by
  unfold Work.advance
  dsimp only
  split
  · exact List.Subset.refl _
  · split
    · exact List.subset_cons_self _ _
    · rw [Work.nodes_put]
      exact List.subset_cons_self _ _

/-- What has been read at the earlier positions. -/
def ColumnsRead (g : Grammar T C F) (goal : C) (text : Text) (columns : Array (Column T C F)) :
    Prop :=
  ∀ (j : Nat) (column : Column T C F), columns[j]? = some column →
    ∀ item ∈ column.items, item.IsRead g goal text (Names columns) j

/-- What has been read at a position that is worked off. -/
structure Work.IsRead (g : Grammar T C F) (goal : C) (text : Text)
    (columns : Array (Column T C F)) (nodes : Nodes T C F) (here : Nat) (w : Work T C F) :
    Prop where
  /-- All items have been read up to here. -/
  items : ∀ item ∈ w.items ++ w.awaiting,
    item.IsRead g goal text (namesAt columns nodes w.nodes) here
  /-- The readings that have been found fit. -/
  nodes : w.nodes.Fit g text (namesAt columns nodes w.nodes) here

/-- The goal occurs in no rule. -/
def IsApart (g : Grammar T C F) (goal : C) : Prop :=
  ∀ c, ∀ r ∈ g.rulesOf c, .category goal ∉ r.body

/-- The item for a new node has been read up to the node. -/
theorem Item.isRead_next (goal : C) (text : Text) {names : NodeRef → Key → Prop}
    (hfits : item.Fits g j) (hj : j < R.column)
    (hR : names R (item.rule.keyAt g (item.done + 1) item.start)) :
    (item.next R).IsRead g goal text names R.column :=
  ⟨R.column, .some (Nat.succ_pos _) hR (Nat.lt_of_le_of_lt hfits.start_le hj), .refl _,
    Or.inr (Or.inl rfl)⟩

namespace Work.IsRead

/-- A new item is put where it belongs. -/
theorem put (h : w.IsRead g goal text columns nodes here)
    (hitem : item.IsRead g goal text (namesAt columns nodes w.nodes) here) :
    (w.put item).IsRead g goal text columns nodes here := by
  unfold Work.put
  split
  · refine ⟨fun other hother => ?_, h.nodes⟩
    rcases List.mem_append.1 hother with hother | hother
    · exact h.items other (List.mem_append_left _ hother)
    · rcases List.mem_cons.1 hother with rfl | hother
      · exact hitem
      · exact h.items other (List.mem_append_right _ hother)
  · refine ⟨?_, h.nodes⟩
    rintro other (_ | ⟨_, hother⟩)
    · exact hitem
    · exact h.items other hother

/-- More readings are noted. -/
theorem withNodes (h : w.IsRead g goal text columns nodes here) {late : Nodes T C F}
    (hslots : w.nodes.slots ⊆ late.slots)
    (hlate : late.Fit g text (namesAt columns nodes w.nodes) here) :
    ({ w with nodes := late } : Work T C F).IsRead g goal text columns nodes here := by
  have hmono : ∀ R key, namesAt columns nodes w.nodes R key → namesAt columns nodes late R key :=
    fun R key => namesAt_mono (List.Subset.refl _) hslots
  exact ⟨fun other hother => (h.items other hother).mono hmono, hlate.mono hmono⟩

/-- An item that waited for a category is read on. -/
theorem advance (h : w.IsRead g goal text columns nodes here) (hsize : columns.size = here)
    (hfits : item.Fits g j) (hj : j < here) {rest : List (Symbol T C)}
    (htodo : item.todo = .category c :: rest)
    (hρ : (⟨item.rule, item.node, .category R⟩ : Reading T C F).Fits g text
      (namesAt columns nodes w.nodes) here (item.rule.keyAt g (item.done + 1) item.start)) :
    (w.advance g here R item).IsRead g goal text columns nodes here := by
  unfold Work.advance
  dsimp only
  generalize hR : (⟨here, .category, w.nodes.readings.size⟩ : NodeRef) = R'
  have hcolumn : R'.column = here := by rw [← hR]
  rw [hfits.key_next htodo hj]
  generalize hkey : item.rule.keyAt g (item.done + 1) item.start = key at hρ
  split
  · rename_i slot hslot
    exact h.withNodes (List.Subset.refl _) (h.nodes.extend hslot hρ)
  · have hread := h.withNodes (List.subset_cons_self _ _) (h.nodes.open hρ)
    generalize hmore : w.nodes.open key ⟨item.rule, item.node, .category R⟩ = late at hread
    split
    · exact hread
    · refine hread.put ?_
      have hnames : namesAt columns nodes late R' (item.rule.keyAt g (item.done + 1) item.start) := by
        rw [hkey, ← hR]
        refine namesAt_category hsize ?_
        rw [← hmore]
        exact List.mem_cons_self
      have hread := Item.isRead_next goal text hfits (hcolumn ▸ hj) hnames
      rwa [hcolumn] at hread

/-- Items that are put one after the other. -/
theorem foldl_put (items : List (Item T C F)) (h : w.IsRead g goal text columns nodes here)
    (hitems : ∀ item ∈ items, ∀ names, item.IsRead g goal text names here) :
    (items.foldl Work.put w).IsRead g goal text columns nodes here := by
  induction items generalizing w with
  | nil => exact h
  | cons item items ih =>
    exact ih (h.put (hitems item List.mem_cons_self _)) fun other hother =>
      hitems other (List.mem_cons_of_mem _ hother)

/-- Items that waited for a category are read on. -/
theorem foldl_advance {others : List (Item T C F)}
    (h : w.IsRead g goal text columns nodes here) (hsize : columns.size = here) (hj : j < here)
    (hothers : ∀ other ∈ others, other.Fits g j ∧ (∃ rest, other.todo = .category c :: rest) ∧
      other.IsRead g goal text (Names columns) j)
    (hr : r ∈ g.rulesOf c) (hcolumn : R.column = here)
    (hR : namesAt columns nodes w.nodes R (r.keyAt g r.body.length j)) :
    (others.foldl (Work.advance g here R) w).IsRead g goal text columns nodes here := by
  induction others generalizing w with
  | nil => exact h
  | cons other others ih =>
    obtain ⟨hfits, ⟨rest, htodo⟩, p, hfirst, hgap, hplace⟩ := hothers other List.mem_cons_self
    -- what waits for a category has been read up to where it waits
    obtain rfl : p = j := by
      rcases hplace with hterminal | hsame | ⟨hnil, -⟩
      · rw [Item.expectsTerminal, htodo] at hterminal
        cases hterminal
      · exact hsame
      · rw [htodo] at hnil
        cases hnil
    have hρ : (⟨other.rule, other.node, .category R⟩ : Reading T C F).Fits g text
        (namesAt columns nodes w.nodes) here
        (other.rule.keyAt g (other.done + 1) other.start) :=
      ⟨hfits.rule_mem, other.done, other.start, p, _, rfl, hfits.getElem?_of_todo htodo,
        hfirst.mono fun _ _ hnames => names_push hnames _, .category hr hR hcolumn hj⟩
    have hnext := h.advance hsize hfits hj htodo hρ
    refine ih hnext (fun x hx => hothers x (List.mem_cons_of_mem _ hx)) ?_
    exact namesAt_mono (List.Subset.refl _) (slots_advance g here R w other) hR

end Work.IsRead

variable [DecidableEq C]

theorem Work.nodes_openCategory (g : Grammar T C F) (here : Nat) (w : Work T C F) (c : C) :
    (w.openCategory g here c).nodes = w.nodes := by
  have hput : ∀ (rules : List (Rule T C F)) (w : Work T C F),
      (rules.foldl (fun w r => w.put ⟨r, 0, r.body, here, none⟩) w).nodes = w.nodes := by
    intro rules
    induction rules with
    | nil => exact fun w => rfl
    | cons r rules ih => exact fun w => (ih _).trans (nodes_put w _)
  unfold openCategory
  split
  · rfl
  · rename_i hnew
    clear hnew
    induction g.openingsOf c generalizing w with
    | nil => rfl
    | cons d ds ih =>
      rw [List.foldl_cons, ih]
      split
      · rfl
      · exact hput _ _

/-- Opening rules reads nothing. -/
theorem Work.IsRead.openCategory (h : w.IsRead g goal text columns nodes here) (c : C) :
    (w.openCategory g here c).IsRead g goal text columns nodes here := by
  unfold Work.openCategory
  split
  · exact h
  · rename_i hnew
    clear hnew
    induction g.openingsOf c generalizing w with
    | nil => exact h
    | cons d ds ih =>
      rw [List.foldl_cons]
      split
      · exact ih h
      · refine ih ?_
        have hread : ({ w with opened := d :: w.opened } : Work T C F).IsRead g goal text columns
            nodes here := ⟨h.items, h.nodes⟩
        have hput := foldl_put ((g.rulesOf d).map fun r => r.opening here) hread ?_
        · rwa [List.foldl_map] at hput
        · intro item hitem names
          obtain ⟨r, -, rfl⟩ := List.mem_map.1 hitem
          exact ⟨here, .none, .refl _, Or.inr (Or.inl rfl)⟩

namespace Work

/-- Looking at an item reads on what waits for it. -/
theorem isRead_step (hg : g.IsTabled) (hapart : g.IsApart goal) (hsize : columns.size = here)
    (hcolumns : ColumnsFit g columns) (hread : ColumnsRead g goal text columns)
    (h : w.IsRead g goal text columns nodes here) (hfits : item.Fits g here)
    (hitem : item.IsRead g goal text (namesAt columns nodes w.nodes) here) :
    (w.step g columns here item).IsRead g goal text columns nodes here := by
  unfold step
  split
  · rename_i R htodo hR
    split
    · rename_i column hcolumn
      have hlt := hfits.start_lt (hfits.done_pos hg htodo)
      obtain ⟨p, hfirst, -, hplace⟩ := hitem
      have hdone := hfits.todo_eq_nil_iff.1 htodo
      rw [hR] at hfirst
      cases hfirst with
      | some pos names_eq lt =>
      have hothers : ∀ other ∈ (column.items.filter (Item.expects item.rule.head)).reverse,
          other.Fits g item.start ∧ (∃ rest, other.todo = .category item.rule.head :: rest) ∧
            other.IsRead g goal text (Names columns) item.start := by
        intro other hother
        obtain ⟨hmem, hexpects⟩ := List.mem_filter.1 (List.mem_reverse.1 hother)
        exact ⟨hcolumns _ _ hcolumn other hmem, Item.exists_of_expects hexpects,
          hread _ _ hcolumn other hmem⟩
      rw [hdone] at names_eq
      rcases hplace with hterminal | hplace | ⟨-, hgoal⟩
      · rw [Item.expectsTerminal, htodo] at hterminal
        cases hterminal
      · exact h.foldl_advance hsize hlt hothers hfits.rule_mem hplace names_eq
      · -- nothing waits for the goal
        have hnone : (column.items.filter (Item.expects item.rule.head)).reverse = [] := by
          refine List.eq_nil_iff_forall_not_mem.2 fun other hother => ?_
          obtain ⟨hother, ⟨rest, htodo'⟩, -⟩ := hothers other hother
          refine hapart _ other.rule hother.rule_mem ?_
          rw [← hgoal]
          exact List.mem_of_getElem? (hother.getElem?_of_todo htodo')
        rw [hnone]
        exact h
    · exact h
  · exact h.openCategory _
  · exact h

/-- What has been read when the agenda is worked off. -/
theorem isRead_run (hg : g.IsTabled) (hapart : g.IsApart goal) (hsize : columns.size = here)
    (hcolumns : ColumnsFit g columns) (hread : ColumnsRead g goal text columns) (fuel : Nat)
    (htidy : w.IsTidy g here) (h : w.IsRead g goal text columns nodes here) :
    (run g columns here fuel w).IsRead g goal text columns nodes here := by
  induction fuel generalizing w with
  | zero => exact h
  | succ fuel ih =>
    rw [run]
    split
    · exact h
    · rename_i item agenda hagenda
      have hmem := htidy.agenda item (hagenda ▸ List.mem_cons_self)
      have hfits := htidy.fits item (List.mem_append_left _ hmem)
      refine ih (step_handles hg hcolumns (htidy.tail hagenda) hfits).1 ?_
      exact isRead_step hg hapart hsize hcolumns hread ⟨h.items, h.nodes⟩ hfits
        (h.items item (List.mem_append_left _ hmem))

end Work

/-! ## On the way over a text -/

/-- What arrives at a position has been read up to where it comes from. -/
def Arrival.IsRead (g : Grammar T C F) (goal : C) (text : Text) (names : NodeRef → Key → Prop)
    (there : Nat) (a : Arrival T C F) : Prop :=
  match a.passed with
  | none => a.item.IsRead g goal text names there
  | some (t, start, stop) => stop = there ∧ start < there ∧ a.item.Fits g start ∧
    (∃ todo, a.item.todo = .terminal t :: todo) ∧
    g.measure t (text.drop start) = some (there - start) ∧ a.item.IsRead g goal text names start

omit [DecidableEq C] in
theorem Arrival.IsRead.mono {names names' : NodeRef → Key → Prop}
    (hnames : ∀ R key, names R key → names' R key) (h : a.IsRead g goal text names here) :
    a.IsRead g goal text names' here := by
  unfold Arrival.IsRead at *
  split at h
  · exact Item.IsRead.mono hnames h
  · obtain ⟨hstop, hlt, hfits, htodo, hmeasure, hitem⟩ := h
    exact ⟨hstop, hlt, hfits, htodo, hmeasure, hitem.mono hnames⟩

/-- What has been read by a chart on its way over a text. -/
structure Chart.IsRead (g : Grammar T C F) (goal : C) (text : Text) (here : Nat)
    (chart : Chart T C F) : Prop where
  /-- All items have been read up to here. -/
  items : ∀ item ∈ chart.items ++ chart.awaiting,
    item.IsRead g goal text (namesAt chart.columns chart.nodes {}) here
  /-- The readings of what a terminal has brought here fit. -/
  nodes : chart.nodes.Fit g text (namesAt chart.columns chart.nodes {}) here
  /-- What is in the columns has been read. -/
  columns : ColumnsRead g goal text chart.columns
  /-- Its readings fit. -/
  nodesFit : NodesFit g text chart.columns
  /-- What is announced has been read. -/
  coming : ∀ distance a, Announced chart.coming distance a →
    a.IsRead g goal text (Names chart.columns) (here + distance + 1)

/-- What has been read at a position that has been worked off. -/
structure Chart.IsReadOff (g : Grammar T C F) (goal : C) (text : Text) (here : Nat)
    (chart : Chart T C F) : Prop where
  /-- All items have been read up to here. -/
  items : ∀ item ∈ chart.items ++ chart.awaiting,
    item.IsRead g goal text (Names chart.columns) here
  /-- What is in the columns has been read. -/
  columns : ColumnsRead g goal text chart.columns
  /-- Its readings fit. -/
  nodesFit : NodesFit g text chart.columns
  /-- What is announced has been read. -/
  coming : ∀ distance a, Announced chart.coming distance a →
    a.IsRead g goal text (Names chart.columns) (here + distance + 1)

namespace Chart

/-- Working a position off reads only what fits. -/
theorem IsRead.settle (hg : g.IsTabled) (hapart : g.IsApart goal) (hway : chart.IsOnWay g here)
    (h : chart.IsRead g goal text here) :
    (chart.settle g here).IsReadOff g goal text here := by
  have hwork : (chart.work g).IsRead g goal text chart.columns chart.nodes here :=
    ⟨h.items, .empty⟩
  have hrun := Work.isRead_run hg hapart hway.size hway.columns h.columns
    (g.extent * (here + 1)) hway.toIsTidy.work hwork
  rw [settle_eq]
  generalize Work.run g chart.columns here (g.extent * (here + 1)) (chart.work g) = w at hrun
  have hsame : ∀ R key, namesAt chart.columns chart.nodes w.nodes R key →
      Names (chart.columns.push ⟨w.items, chart.nodes, w.nodes⟩) R key :=
    fun R key => (names_congr w.items).2
  have hmore : ∀ R key, namesAt chart.columns chart.nodes {} R key →
      Names (chart.columns.push ⟨w.items, chart.nodes, w.nodes⟩) R key :=
    fun R key hR => hsame R key (namesAt_mono (List.Subset.refl _) (List.nil_subset _) hR)
  have hold : ∀ R key, Names chart.columns R key →
      Names (chart.columns.push ⟨w.items, chart.nodes, w.nodes⟩) R key :=
    fun R key hR => names_push hR _
  refine ⟨fun item hitem => (hrun.items item hitem).mono hsame, ?_, ?_,
    fun distance a ha => (h.coming distance a ha).mono hold⟩
  · intro j column hcolumn item hitem
    rw [Array.getElem?_push] at hcolumn
    split at hcolumn
    · rename_i hj
      obtain rfl := Option.some.inj hcolumn
      rw [hj, hway.size]
      exact (hrun.items item (List.mem_append_left _ hitem)).mono hsame
    · exact (h.columns j column hcolumn item hitem).mono hold
  · intro j column e hcolumn
    rw [Array.getElem?_push] at hcolumn
    split at hcolumn
    · rename_i hj
      obtain rfl := Option.some.inj hcolumn
      rw [hj, hway.size]
      cases e with
      | terminal => exact h.nodes.mono hmore
      | category => exact hrun.nodes.mono hsame
    · exact (h.nodesFit j column e hcolumn).mono hold

/-- What is announced when a position is left has been read. -/
theorem IsReadOff.scan (hsettled : chart.IsSettled g here) (h : chart.IsReadOff g goal text here) :
    (chart.scan g goal here (text.drop here)).IsReadOff g goal text here := by
  refine ⟨h.items, h.columns, h.nodesFit, fun distance a ha => ?_⟩
  rcases announced_scan.1 ha with
    hold | ⟨item, hitem, t, todo, htodo, hmeasure, rfl⟩ | ⟨gap, hgap, hlength, item, hitem, rfl⟩
  · exact h.coming distance a hold
  · have hmem := List.mem_append_right chart.items hitem
    refine ⟨rfl, by omega, hsettled.fits item hmem, ⟨todo, htodo⟩, ?_, h.items item hmem⟩
    rw [hmeasure]
    congr 1
    omega
  · have hover : g.IsGap text here (here + distance + 1) :=
      .one hgap hlength (Nat.succ_pos distance)
    rcases hitem with hitem | ⟨hitem, htodo, hgoal, -⟩
    · obtain ⟨p, hfirst, hto, -⟩ := h.items item (List.mem_append_right _ hitem)
      exact ⟨p, hfirst, hto.trans hover, Or.inl (hsettled.awaiting_plain item hitem)⟩
    · obtain ⟨p, hfirst, hto, -⟩ := h.items item (List.mem_append_left _ hitem)
      exact ⟨p, hfirst, hto.trans hover, Or.inr (Or.inr ⟨htodo, hgoal⟩)⟩

section

omit [DecidableEq C]

/-- An item is put where it belongs. -/
theorem isRead_put (h : chart.IsRead g goal text here)
    (hitem : item.IsRead g goal text (namesAt chart.columns chart.nodes {}) here) :
    (chart.put g item).IsRead g goal text here := by
  unfold put
  split
  · exact h
  · split
    · refine ⟨fun other hother => ?_, h.nodes, h.columns, h.nodesFit, h.coming⟩
      rcases List.mem_append.1 hother with hother | hother
      · exact h.items other (List.mem_append_left _ hother)
      · rcases List.mem_cons.1 hother with rfl | hother
        · exact hitem
        · exact h.items other (List.mem_append_right _ hother)
    · refine ⟨?_, h.nodes, h.columns, h.nodesFit, h.coming⟩
      rintro other (_ | ⟨_, hother⟩)
      · exact hitem
      · exact h.items other hother

/-- More readings are noted. -/
theorem IsRead.withNodes (h : chart.IsRead g goal text here) {late : Nodes T C F}
    (hslots : chart.nodes.slots ⊆ late.slots)
    (hlate : late.Fit g text (namesAt chart.columns chart.nodes {}) here) :
    ({ chart with nodes := late } : Chart T C F).IsRead g goal text here := by
  have hmono : ∀ R key, namesAt chart.columns chart.nodes {} R key →
      namesAt chart.columns late {} R key :=
    fun R key => namesAt_mono hslots (List.Subset.refl _)
  exact ⟨fun other hother => (h.items other hother).mono hmono, hlate.mono hmono, h.columns,
    h.nodesFit, h.coming⟩

/-- What arrives has been read. -/
theorem isRead_arrive (hsize : chart.columns.size = here) (h : chart.IsRead g goal text here)
    (ha : a.IsRead g goal text (Names chart.columns) here) :
    (chart.arrive g here a).IsRead g goal text here := by
  have hold : ∀ R key, Names chart.columns R key → namesAt chart.columns chart.nodes {} R key :=
    fun R key hR => names_push hR _
  obtain ⟨item, passed⟩ := a
  unfold arrive
  cases passed with
  | none => exact isRead_put h (Item.IsRead.mono hold ha)
  | some passed =>
    obtain ⟨t, start, stop⟩ := passed
    obtain ⟨rfl, hlt, hfits, ⟨todo, htodo⟩, hmeasure, p, hfirst, hgap, -⟩ := ha
    dsimp only at hfits htodo hfirst ⊢
    generalize hR : (⟨stop, .terminal, chart.nodes.readings.size⟩ : NodeRef) = R
    have hcolumn : R.column = stop := by rw [← hR]
    have hρ : (⟨item.rule, item.node, .terminal t start stop⟩ : Reading T C F).Fits g text
        (namesAt chart.columns chart.nodes {}) stop
        (item.rule.keyAt g (item.done + 1) item.start) :=
      ⟨hfits.rule_mem, item.done, item.start, p, _, rfl, hfits.getElem?_of_todo htodo,
        hfirst.mono hold, .terminal hgap hlt hmeasure⟩
    rw [hfits.key_next htodo hlt]
    generalize hkey : item.rule.keyAt g (item.done + 1) item.start = key at hρ
    split
    · rename_i slot hslot
      exact h.withNodes (List.Subset.refl _) (h.nodes.extend hslot hρ)
    · have hread := h.withNodes (List.subset_cons_self _ _) (h.nodes.open hρ)
      generalize hmore : chart.nodes.open key ⟨item.rule, item.node, .terminal t start stop⟩ = late
        at hread
      refine isRead_put hread ?_
      have hnames : namesAt chart.columns late {} R
          (item.rule.keyAt g (item.done + 1) item.start) := by
        rw [hkey, ← hR]
        refine namesAt_terminal hsize ?_
        rw [← hmore]
        exact List.mem_cons_self
      have hnext := Item.isRead_next goal text hfits (hcolumn ▸ hlt) hnames
      rwa [hcolumn] at hnext

/-- What arrives one after the other has been read. -/
theorem isRead_foldl_arrive {arrivals : List (Arrival T C F)} (hsize : chart.columns.size = here)
    (h : chart.IsRead g goal text here)
    (harrivals : ∀ a ∈ arrivals, a.IsRead g goal text (Names chart.columns) here) :
    (arrivals.foldl (arrive g here) chart).IsRead g goal text here := by
  induction arrivals generalizing chart with
  | nil => exact h
  | cons a arrivals ih =>
    obtain ⟨hcolumns, -⟩ := arrive_columns g here chart a
    refine ih (by rw [hcolumns]; exact hsize)
      (isRead_arrive hsize h (harrivals a List.mem_cons_self)) fun b hb => ?_
    rw [hcolumns]
    exact harrivals b (List.mem_cons_of_mem _ hb)

/-- What arrives at the next position has been read. -/
theorem IsReadOff.move (hsize : chart.columns.size = here + 1)
    (h : chart.IsReadOff g goal text here) :
    (chart.move g (here + 1)).IsRead g goal text (here + 1) := by
  have hempty : ∀ later, (∀ distance a, Announced later distance a →
      a.IsRead g goal text (Names chart.columns) (here + 1 + distance + 1)) → ({ chart with
        items := [], awaiting := [], opened := [], nodes := {}, coming := later } :
          Chart T C F).IsRead g goal text (here + 1) := fun later hlater =>
    ⟨fun item hitem => absurd hitem List.not_mem_nil, .empty, h.columns, h.nodesFit, hlater⟩
  unfold Chart.move
  dsimp only
  split
  · rename_i hnone
    refine hempty chart.coming fun distance a ha => ?_
    rw [hnone] at ha
    exact absurd ha not_announced_nil
  · rename_i now later hsome
    have hcoming := h.coming
    rw [hsome] at hcoming
    refine isRead_foldl_arrive hsize (hempty later fun distance a ha => ?_) fun a ha => ?_
    · rw [show here + 1 + distance + 1 = here + (distance + 1) + 1 by omega]
      exact hcoming (distance + 1) a (announced_cons_succ.2 ha)
    · exact hcoming 0 a (announced_cons_zero.2 (List.mem_reverse.1 ha))

end

theorem isRead_start (g : Grammar T C F) (goal : C) (text : Text) :
    (Chart.start g goal).IsRead g goal text 0 := by
  have hempty : (⟨[], [], [], [], {}, []⟩ : Work T C F).IsRead g goal text #[] {} 0 :=
    ⟨fun item hitem => absurd hitem List.not_mem_nil, .empty⟩
  obtain ⟨hitems, -⟩ := hempty.openCategory goal
  refine ⟨fun item hitem => ?_, .empty, ?_, ?_, fun distance a ha => absurd ha not_announced_nil⟩
  · have hread := hitems item hitem
    rwa [Work.nodes_openCategory] at hread
  · intro j column hcolumn
    simp [Chart.start] at hcolumn
  · intro j column e hcolumn
    simp [Chart.start] at hcolumn

end Chart

/-- On its way over a text, a chart reads only what fits. -/
theorem isRead_chartAt (hg : g.IsTabled) (hapart : g.IsApart goal) (n : Nat) :
    (chartAt g goal text n).IsRead g goal text n := by
  induction n with
  | zero => exact Chart.isRead_start g goal text
  | succ n ih =>
    have hway := isOnWay_chartAt hg goal text n
    have hoff := ih.settle hg hapart hway
    have hleaving := hoff.scan (isSettled_settledAt hg goal text n)
    have hsize : (leavingAt g goal text n).columns.size = n + 1 := hway.size_settle
    exact hleaving.move hsize

theorem isReadOff_settledAt (hg : g.IsTabled) (hapart : g.IsApart goal) (text : Text) (n : Nat) :
    (settledAt g goal text n).IsReadOff g goal text n :=
  (isRead_chartAt hg hapart n).settle hg hapart (isOnWay_chartAt hg goal text n)

/-! ## The preferred derivation -/

variable [DecidableEq T] [DecidableEq F]

/-- A finished item that covers a text is chosen as a derivation of it. -/
theorem Chart.IsReadOff.exists_choice (hg : g.IsTabled) {rank : C → Nat} (hrank : g.IsRanked rank)
    (h : chart.IsReadOff g goal text text.length) (hitem : item ∈ chart.items)
    (hfits : item.Fits g text.length) (htodo : item.todo = []) (hgoal : item.rule.head = goal)
    (hstart : item.start = 0) :
    ∃ R x, item.node = some R ∧
      choose chart.columns (g.extent * (text.length + 1)) R = some x ∧
        (Derivation.node x.1 x.2).covers g goal text = true := by
  obtain ⟨p, hfirst, hgap, -⟩ := h.items item (List.mem_append_left _ hitem)
  have hpos := hfits.done_pos hg htodo
  have hdone := hfits.todo_eq_nil_iff.1 htodo
  generalize hnode : item.node = node at hfirst
  rw [hdone, hstart] at hfirst
  generalize hk : item.rule.body.length = k at hfirst
  cases hfirst with
  | none => omega
  | @some R k pos names_eq lt =>
    rw [← hk] at names_eq
    have hsmall := hrank.lt_extent item.rule.head
    have hmul : R.column * g.extent ≤ text.length * g.extent :=
      Nat.mul_le_mul_right g.extent hgap.le
    obtain ⟨x, hx, hrule, ⟨k', hkey, hk', hsymbols⟩, hrow⟩ :=
      exists_choose hg hrank h.nodesFit (g.extent * (text.length + 1))
        hfits.rule_mem (Nat.le_refl _) names_eq (by
          rw [Rule.rankAt, if_pos rfl, Nat.sub_zero, Nat.mul_comm g.extent, Nat.add_mul,
            Nat.one_mul]
          omega)
    refine ⟨R, x, rfl, hx, ?_⟩
    obtain ⟨-, ⟨hdone', -, hhead⟩ | ⟨hdone', hsame, hsame'⟩⟩ :=
      hg.of_key_eq hrule hfits.rule_mem hk' (Nat.le_refl _) hkey
    · rw [hdone', List.take_length] at hsymbols
      have hextent : (Derivation.node x.1 x.2).extent? g text 0 = some R.column :=
        Derivation.extent?_node.2 ⟨hrule, hsymbols, hrow⟩
      rw [Derivation.covers, hextent]
      simp only [Bool.and_eq_true, beq_iff_eq]
      exact ⟨congrArg Symbol.category (hhead.trans hgoal), hgap.covers⟩
    · rw [hsame] at hdone'
      omega

/-- A text has a preferred derivation just if it has one at all. -/
theorem derive_isOk_iff (hg : g.IsTabled) (hproper : g.IsProper) (hapart : g.IsApart goal)
    {rank : C → Nat} (hrank : g.IsRanked rank) :
    (∃ d, g.derive goal text = .ok d) ↔ ∃ d : Derivation T C F, d.covers g goal text = true := by
  constructor
  · rintro ⟨d, hd⟩
    exact ⟨d, covers_of_derive hd⟩
  · rintro ⟨d, hd⟩
    obtain ⟨hfill, item, hitem, hfits, htodo, hgoal, hstart⟩ := exists_fill hg hproper hd
    have hread := isReadOff_settledAt hg hapart text text.length
    have hsettled := isSettled_settledAt hg goal text text.length
    unfold Grammar.derive
    rw [hfill]
    dsimp only
    generalize settledAt g goal text text.length = chart at hitem hread hsettled ⊢
    cases hfind : chart.items.reverse.find? fun item =>
        item.todo.isEmpty && item.rule.head = goal && item.start = 0 with
    | none =>
      have hnot := List.find?_eq_none.1 hfind item (List.mem_reverse.2 hitem)
      simp [htodo, hgoal, hstart] at hnot
    | some complete =>
      have hmem := List.mem_reverse.1 (List.mem_of_find?_eq_some hfind)
      have hcomplete := List.find?_some hfind
      simp only [Bool.and_eq_true, List.isEmpty_iff, decide_eq_true_eq] at hcomplete
      obtain ⟨⟨htodo', hgoal'⟩, hstart'⟩ := hcomplete
      have hfits' := hsettled.fits complete (List.mem_append_left _ hmem)
      obtain ⟨R, x, hnode, hx, hcovers⟩ :=
        hread.exists_choice hg hrank hmem hfits' htodo' hgoal' hstart'
      rw [Option.bind_some, hnode]
      dsimp only
      rw [hx]
      exact ⟨.node x.1 x.2, if_pos hcovers⟩

end SkinCompiler.Grammar
