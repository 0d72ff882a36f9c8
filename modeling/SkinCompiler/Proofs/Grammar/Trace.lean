import SkinCompiler.Proofs.Grammar.Chart

/-!
# Moving a chart over a text

What a chart holds at every position of a text, followed from one position to the next one.

* `Chart.IsTidy`, `Chart.isTidy_arrive` -- what has arrived at a position;
* `Chart.IsSettled`, `Chart.IsTidy.settle` -- what a position holds when it has been worked off;
* `chartAt`, `isOnWay_chartAt` -- the chart on its way over the text;
* `has_arrival` -- what is announced arrives;
* `exists_fill` -- a derivation of the whole text leaves a complete item at its end.
-/

namespace SkinCompiler.Grammar

variable {T C F : Type} {g : Grammar T C F} {here there distance : Nat} {key : Key}
variable {item : Item T C F} {chart : Chart T C F} {a : Arrival T C F}
variable {coming : List (List (Arrival T C F))} {arrivals : List (Arrival T C F)}

/-! ## Announcements -/

/-- An arrival is announced so many positions ahead. -/
def Announced (coming : List (List (Arrival T C F))) (distance : Nat) (a : Arrival T C F) : Prop :=
  ∃ arrivals, coming[distance]? = some arrivals ∧ a ∈ arrivals

theorem not_announced_nil : ¬Announced ([] : List (List (Arrival T C F))) distance a := by
  rintro ⟨arrivals, h, -⟩
  simp at h

theorem announced_cons_zero :
    Announced (arrivals :: coming) 0 a ↔ a ∈ arrivals := by
  simp [Announced]

theorem announced_cons_succ :
    Announced (arrivals :: coming) (distance + 1) a ↔ Announced coming distance a := by
  simp [Announced]

theorem announced_announce {d : Nat} : Announced (announce arrivals d coming) distance a ↔
    Announced coming distance a ∨ (distance = d ∧ a ∈ arrivals) := by
  induction d generalizing coming distance with
  | zero =>
    cases coming with
    | nil =>
      cases distance <;>
        simp [announce, announced_cons_zero, announced_cons_succ, not_announced_nil]
    | cons now later =>
      cases distance <;> simp [announce, announced_cons_zero, announced_cons_succ, or_comm]
  | succ d ih =>
    cases coming with
    | nil =>
      cases distance <;>
        simp [announce, announced_cons_zero, announced_cons_succ, not_announced_nil, ih]
    | cons now later =>
      cases distance <;> simp [announce, announced_cons_zero, announced_cons_succ, ih]

/-- What is announced one by one. -/
theorem announced_foldl {α : Type} {f : List (List (Arrival T C F)) → α → List (List (Arrival T C F))}
    {p : α → Nat → Arrival T C F → Prop}
    (hf : ∀ coming x distance a, Announced (f coming x) distance a ↔
      Announced coming distance a ∨ p x distance a) (xs : List α) :
    Announced (xs.foldl f coming) distance a ↔
      Announced coming distance a ∨ ∃ x ∈ xs, p x distance a := by
  induction xs generalizing coming with
  | nil => simp
  | cons x xs ih => simp [ih, hf, or_assoc]

/-- An item that is carried over a gap: it expects a terminal, or is a complete text. -/
def Chart.Carries [DecidableEq C] (chart : Chart T C F) (goal : C) (item : Item T C F) : Prop :=
  item ∈ chart.awaiting ∨
    (item ∈ chart.items ∧ item.todo = [] ∧ item.rule.head = goal ∧ item.start = 0)

theorem Chart.announced_scan [DecidableEq C] {goal : C} {rest : Text} :
    Announced (chart.scan g goal here rest).coming distance a ↔
      Announced chart.coming distance a ∨
      (∃ item ∈ chart.awaiting, ∃ t todo, item.todo = .terminal t :: todo ∧
        g.measure t rest = some (distance + 1) ∧
          a = ⟨item, some (t, here, here + distance + 1)⟩) ∨
      ∃ gap ∈ g.gaps, gap rest = some (distance + 1) ∧
        ∃ item, chart.Carries goal item ∧ a = ⟨item, none⟩ := by
  unfold scan
  dsimp only
  rw [announced_foldl (p := fun gap distance a => gap rest = some (distance + 1) ∧
      ∃ item, chart.Carries goal item ∧ a = ⟨item, none⟩),
    announced_foldl (p := fun item distance a => ∃ t todo, item.todo = .terminal t :: todo ∧
      g.measure t rest = some (distance + 1) ∧ a = ⟨item, some (t, here, here + distance + 1)⟩)]
  · simp only [List.mem_reverse, or_assoc]
  · intro coming item distance a
    split
    · rename_i t todo htodo
      split
      · rename_i length hmeasure
        rw [announced_announce]
        refine or_congr_right ⟨?_, ?_⟩
        · rintro ⟨rfl, ha⟩
          exact ⟨t, todo, htodo, hmeasure, List.mem_singleton.1 ha⟩
        · rintro ⟨t', todo', htodo', hmeasure', rfl⟩
          obtain ⟨ht, -⟩ := List.cons.inj (htodo.symm.trans htodo')
          obtain rfl := Symbol.terminal.inj ht
          obtain rfl : length = distance := by
            have hsame := Option.some.inj (hmeasure.symm.trans hmeasure')
            omega
          exact ⟨rfl, List.mem_singleton_self _⟩
      · rename_i hmeasure
        refine (or_iff_left ?_).symm
        rintro ⟨t', todo', htodo', hmeasure', -⟩
        obtain ⟨ht, -⟩ := List.cons.inj (htodo.symm.trans htodo')
        obtain rfl := Symbol.terminal.inj ht
        exact hmeasure _ hmeasure'
    · rename_i hplain
      refine (or_iff_left ?_).symm
      rintro ⟨t, todo, htodo, -⟩
      exact hplain t todo htodo
  · intro coming gap distance a
    split
    · rename_i length hgap
      rw [announced_announce]
      refine or_congr_right ⟨?_, ?_⟩
      · rintro ⟨rfl, ha⟩
        obtain ⟨item, hitem, rfl⟩ := List.mem_map.1 (List.mem_reverse.1 ha)
        refine ⟨hgap, item, ?_, rfl⟩
        rcases List.mem_append.1 hitem with hitem | hitem
        · exact Or.inl (List.mem_reverse.1 hitem)
        · obtain ⟨hmem, hcomplete⟩ := List.mem_filter.1 hitem
          right
          simpa [List.isEmpty_iff, and_assoc, List.mem_reverse.1 hmem] using hcomplete
      · rintro ⟨hgap', item, hitem, rfl⟩
        obtain rfl : length = distance := by
          have hsame := Option.some.inj (hgap.symm.trans hgap')
          omega
        refine ⟨rfl, List.mem_reverse.2 (List.mem_map.2 ⟨item, ?_, rfl⟩)⟩
        rcases hitem with hitem | ⟨hmem, hcomplete⟩
        · exact List.mem_append_left _ (List.mem_reverse.2 hitem)
        · refine List.mem_append_right _ (List.mem_filter.2 ⟨List.mem_reverse.2 hmem, ?_⟩)
          simpa [List.isEmpty_iff, and_assoc] using hcomplete
    · rename_i hgap
      refine (or_iff_left ?_).symm
      rintro ⟨hgap', -⟩
      exact hgap _ hgap'

/-! ## Arrivals -/

/-- An item with the key has come to the position. -/
def Chart.Has (g : Grammar T C F) (chart : Chart T C F) (key : Key) : Prop :=
  ∃ item ∈ chart.items ++ chart.awaiting, item.key g = key

/-- What has arrived at a position. -/
structure Chart.IsTidy (g : Grammar T C F) (here : Nat) (chart : Chart T C F) : Prop where
  /-- All items fit. -/
  fits : ∀ item ∈ chart.items ++ chart.awaiting, item.Fits g here
  /-- Items that expect a terminal are kept apart. -/
  items_plain : ∀ item ∈ chart.items, item.expectsTerminal = false
  /-- Nothing else is with them. -/
  awaiting_plain : ∀ item ∈ chart.awaiting, item.expectsTerminal = true
  /-- No two other items have the same key. -/
  nodup : (chart.items.map (Item.key g)).Nodup
  /-- What has readings is there. -/
  slots : ∀ x ∈ chart.nodes.slots, chart.Has g x.1
  /-- An item that has read nothing is that of an opened category. -/
  opening : ∀ item ∈ chart.items, item.done = 0 → item.rule.head ∈ chart.opened ∧ item.start = here
  /-- The rules of opened categories are there. -/
  opened : ∀ c ∈ chart.opened, ∀ r ∈ g.rulesOf c, chart.Has g (r.keyAt g 0 here)

/-- The key with which something arrives. -/
def Arrival.newKey (g : Grammar T C F) (a : Arrival T C F) : Key :=
  match a.passed with
  | none => a.item.key g
  | some _ => a.item.rule.keyAt g (a.item.done + 1) a.item.start

/-- What arrives at a position is carried over a gap or has passed a terminal. -/
inductive Arrival.Fits (g : Grammar T C F) (there : Nat) : Arrival T C F → Prop
  /-- An item that expects a terminal, or one that is finished. -/
  | carried {item : Item T C F} (fits : item.Fits g there)
    (plain : item.expectsTerminal = true ∨ 0 < item.done) : Fits g there ⟨item, none⟩
  /-- An item that has read the terminal that it expected. -/
  | passed {item : Item T C F} {t : T} {todo : List (Symbol T C)} {start stop before : Nat}
    (fits : item.Fits g before) (lt : before < there) (todo_eq : item.todo = .terminal t :: todo) :
    Fits g there ⟨item, some (t, start, stop)⟩

namespace Chart

/-- What was there is there. -/
theorem has_put_of_has {item : Item T C F} (h : chart.Has g key) : (chart.put g item).Has g key := by
  obtain ⟨other, hother, rfl⟩ := h
  unfold put
  split
  · exact ⟨other, hother, rfl⟩
  · rcases List.mem_append.1 hother with hother | hother
    · split
      · exact ⟨other, List.mem_append_left _ hother, rfl⟩
      · exact ⟨other, List.mem_append_left _ (List.mem_cons_of_mem _ hother), rfl⟩
    · split
      · exact ⟨other, List.mem_append_right _ (List.mem_cons_of_mem _ hother), rfl⟩
      · exact ⟨other, List.mem_append_right _ hother, rfl⟩

theorem has_put (chart : Chart T C F) (item : Item T C F) :
    (chart.put g item).Has g (item.key g) := by
  unfold put
  split
  · rename_i hany
    obtain ⟨other, hother, hkey⟩ := List.any_eq_true.1 hany
    exact ⟨other, hother, of_decide_eq_true hkey⟩
  · split
    · exact ⟨item, List.mem_append_right _ List.mem_cons_self, rfl⟩
    · exact ⟨item, List.mem_append_left _ List.mem_cons_self, rfl⟩

/-- An item is put where it belongs. -/
theorem IsTidy.put (h : chart.IsTidy g here) (hfits : item.Fits g here)
    (hplain : item.expectsTerminal = true ∨ 0 < item.done) : (chart.put g item).IsTidy g here := by
  have hmono : ∀ {key : Key}, chart.Has g key → (chart.put g item).Has g key := has_put_of_has
  revert hmono
  unfold Chart.put
  split
  · exact fun _ => h
  · rename_i hany
    have hnew : ∀ other ∈ chart.items ++ chart.awaiting, other.key g ≠ item.key g := by
      intro other hother hkey
      exact hany (List.any_eq_true.2 ⟨other, hother, by simpa using hkey⟩)
    split
    · rename_i hterminal
      intro hmono
      refine ⟨?_, h.items_plain, ?_, h.nodup, fun x hx => hmono (h.slots x hx), h.opening,
        fun c hc r hr => hmono (h.opened c hc r hr)⟩
      · intro other hother
        rcases List.mem_append.1 hother with hother | hother
        · exact h.fits other (List.mem_append_left _ hother)
        · rcases List.mem_cons.1 hother with rfl | hother
          · exact hfits
          · exact h.fits other (List.mem_append_right _ hother)
      · rintro other (_ | ⟨_, hother⟩)
        · exact hterminal
        · exact h.awaiting_plain other hother
    · rename_i hterminal
      intro hmono
      refine ⟨?_, ?_, h.awaiting_plain, ?_, fun x hx => hmono (h.slots x hx), ?_,
        fun c hc r hr => hmono (h.opened c hc r hr)⟩
      · rintro other (_ | ⟨_, hother⟩)
        · exact hfits
        · exact h.fits other hother
      · rintro other (_ | ⟨_, hother⟩)
        · simpa using hterminal
        · exact h.items_plain other hother
      · refine List.nodup_cons.2 ⟨fun hmem => ?_, h.nodup⟩
        obtain ⟨other, hother, hkey⟩ := List.mem_map.1 hmem
        exact hnew other (List.mem_append_left _ hother) hkey
      · rintro other (_ | ⟨_, hother⟩) hzero
        · rcases hplain with hplain | hpos
          · exact absurd hplain hterminal
          · omega
        · exact h.opening other hother hzero

/-- Something arrives, and all that has arrived before is there. -/
theorem isTidy_arrive (h : chart.IsTidy g here) (ha : a.Fits g here) :
    (chart.arrive g here a).IsTidy g here ∧ (chart.arrive g here a).Has g (a.newKey g) ∧
      ∀ key, chart.Has g key → (chart.arrive g here a).Has g key := by
  cases ha with
  | carried fits plain => exact ⟨h.put fits plain, has_put _ _, fun _ => has_put_of_has⟩
  | @passed item t todo start stop before fits lt todo_eq =>
    unfold arrive Arrival.newKey
    dsimp only
    generalize hnew : item.next ⟨here, .terminal, chart.nodes.readings.size⟩ = new
    have hfits : new.Fits g here := hnew ▸ fits.next todo_eq lt _
    have hpos : 0 < new.done := hnew ▸ Nat.succ_pos item.done
    have hkey : item.rule.keyAt g (item.done + 1) item.start = new.key g := by
      rw [← hnew, fits.key_next todo_eq lt]
    rw [hkey]
    split
    · rename_i slot hslot
      exact ⟨⟨h.fits, h.items_plain, h.awaiting_plain, h.nodup, h.slots, h.opening, h.opened⟩,
        h.slots _ (Nodes.mem_of_slot? hslot), fun _ hhas => hhas⟩
    · rename_i hslot
      generalize hreading : (⟨item.rule, item.node, .terminal t start stop⟩ : Reading T C F) = ρ
      -- the new item may stand in for its readings before it is put
      have hput : (chart.put g new).IsTidy g here := h.put hfits (Or.inr hpos)
      have hnodes : Chart.put g { chart with nodes := chart.nodes.open (new.key g) ρ } new =
          { chart.put g new with nodes := chart.nodes.open (new.key g) ρ } := by
        unfold Chart.put
        dsimp only
        split
        · rfl
        · split <;> rfl
      rw [hnodes]
      refine ⟨⟨hput.fits, hput.items_plain, hput.awaiting_plain, hput.nodup, ?_, hput.opening,
        hput.opened⟩, has_put (g := g) chart new, fun _ hhas => has_put_of_has (g := g) hhas⟩
      rintro x (_ | ⟨_, hx⟩)
      · exact has_put (g := g) chart new
      · exact has_put_of_has (g := g) (h.slots x hx)

theorem arrive_columns (g : Grammar T C F) (here : Nat) (chart : Chart T C F) (a : Arrival T C F) :
    (chart.arrive g here a).columns = chart.columns ∧
      (chart.arrive g here a).coming = chart.coming := by
  have hput : ∀ (chart : Chart T C F) (item : Item T C F),
      (chart.put g item).columns = chart.columns ∧ (chart.put g item).coming = chart.coming := by
    intro chart item
    unfold put
    split
    · exact ⟨rfl, rfl⟩
    · split <;> exact ⟨rfl, rfl⟩
  unfold arrive
  split
  · exact hput _ _
  · dsimp only
    split
    · exact ⟨rfl, rfl⟩
    · exact hput _ _

/-- All that arrives at a position is there afterwards. -/
theorem foldl_arrive (h : chart.IsTidy g here) {arrivals : List (Arrival T C F)}
    (harrivals : ∀ a ∈ arrivals, a.Fits g here) :
    (arrivals.foldl (arrive g here) chart).IsTidy g here ∧
      (∀ key, chart.Has g key → (arrivals.foldl (arrive g here) chart).Has g key) ∧
      (∀ a ∈ arrivals, (arrivals.foldl (arrive g here) chart).Has g (a.newKey g)) ∧
      (arrivals.foldl (arrive g here) chart).columns = chart.columns ∧
      (arrivals.foldl (arrive g here) chart).coming = chart.coming := by
  induction arrivals generalizing chart with
  | nil => exact ⟨h, fun _ hkey => hkey, fun a ha => absurd ha List.not_mem_nil, rfl, rfl⟩
  | cons a arrivals ih =>
    obtain ⟨htidy, hnew, hold⟩ := isTidy_arrive h (harrivals a List.mem_cons_self)
    obtain ⟨hcolumns, hcoming⟩ := arrive_columns g here chart a
    obtain ⟨htidy', hmono, hall, hcolumns', hcoming'⟩ :=
      ih htidy fun b hb => harrivals b (List.mem_cons_of_mem _ hb)
    refine ⟨htidy', fun key hkey => hmono key (hold key hkey), ?_, hcolumns'.trans hcolumns,
      hcoming'.trans hcoming⟩
    rintro b (_ | ⟨_, hb⟩)
    · exact hmono _ hnew
    · exact hall b hb

end Chart

/-! ## Positions that have been worked off -/

/-- The work at a position before any of it is done. -/
def Chart.work (g : Grammar T C F) (chart : Chart T C F) : Work T C F where
  arrived := (chart.items ++ chart.awaiting).map (Item.key g)
  items := chart.items
  awaiting := chart.awaiting
  agenda := chart.items
  nodes := {}
  opened := chart.opened

theorem Chart.IsTidy.work (h : chart.IsTidy g here) : (chart.work g).IsTidy g here where
  fits := h.fits
  items_plain := h.items_plain
  awaiting_plain := h.awaiting_plain
  nodup := h.nodup
  arrived key hkey := by
    obtain ⟨item, hitem, rfl⟩ := List.mem_map.1 hkey
    exact ⟨item, hitem, rfl⟩
  slots x hx := absurd hx List.not_mem_nil
  known item hitem _ := Or.inl (List.mem_map_of_mem (List.mem_append_left _ hitem))
  opening := h.opening
  opened := h.opened
  agenda _ hitem := hitem

variable [DecidableEq C]

/-- What a position holds when it has been worked off. -/
structure Chart.IsSettled (g : Grammar T C F) (here : Nat) (chart : Chart T C F) : Prop where
  /-- All items fit. -/
  fits : ∀ item ∈ chart.items ++ chart.awaiting, item.Fits g here
  /-- Items that expect a terminal are kept apart. -/
  items_plain : ∀ item ∈ chart.items, item.expectsTerminal = false
  /-- Nothing else is with them. -/
  awaiting_plain : ∀ item ∈ chart.awaiting, item.expectsTerminal = true
  /-- What the category is that an item expects, its rules are there. -/
  opened : ∀ item ∈ chart.items, ∀ c rest, item.todo = .category c :: rest →
    ∀ r ∈ g.rulesOf c, chart.Has g (r.keyAt g 0 here)
  /-- What waits for the category that an item has finished has moved on. -/
  advanced : ∀ item ∈ chart.items, item.todo = [] →
    ∀ column, chart.columns[item.start]? = some column → ∀ other ∈ column.items,
      other.expects item.rule.head = true →
        chart.Has g (other.rule.keyAt g (other.done + 1) other.start)

theorem Chart.settle_eq (chart : Chart T C F) : chart.settle g here =
    let w := Work.run g chart.columns here (g.extent * (here + 1)) (chart.work g)
    { chart with
      columns := chart.columns.push ⟨w.items, chart.nodes, w.nodes⟩
      items := w.items, awaiting := w.awaiting } := rfl

/-- A position that is worked off has everything that arrived, and what follows from it. -/
theorem Chart.IsTidy.settle (hg : g.IsTabled) (h : chart.IsTidy g here)
    (hsize : chart.columns.size = here) (hcolumns : ColumnsFit g chart.columns) :
    (chart.settle g here).IsSettled g here ∧ ColumnsFit g (chart.settle g here).columns ∧
      ∀ key, chart.Has g key → (chart.settle g here).Has g key := by
  have hclosed : (chart.work g).IsClosed g chart.columns here := fun item hitem => Or.inl hitem
  have hwork := h.work
  obtain ⟨htidy, hdone⟩ :=
    Work.isClosed_run hg hcolumns (g.extent * (here + 1)) hwork hclosed
  have hagenda := Work.agenda_run hg hcolumns (g.extent * (here + 1)) hwork hclosed
    (by rw [Nat.add_comm]; exact Nat.le_refl _)
  have hhas : ∀ key, chart.Has g key → _ := fun key hkey =>
    Work.run_has chart.columns here (g.extent * (here + 1)) (w := chart.work g) hkey
  rw [settle_eq]
  generalize Work.run g chart.columns here (g.extent * (here + 1)) (chart.work g) = w at *
  refine ⟨⟨htidy.fits, htidy.items_plain, htidy.awaiting_plain, ?_, ?_⟩, ?_, hhas⟩
  · intro item hitem c rest htodo r hr
    rcases hdone item hitem with hwaits | hhandles
    · rw [hagenda] at hwaits
      cases hwaits
    · exact hhandles.opened c rest htodo r hr
  · intro item hitem htodo column hcolumn other hother hexpects
    have hfits := htidy.fits item (List.mem_append_left _ hitem)
    have hlt := hfits.start_lt (hfits.done_pos hg htodo)
    rw [Array.getElem?_push, if_neg (by omega)] at hcolumn
    rcases hdone item hitem with hwaits | hhandles
    · rw [hagenda] at hwaits
      cases hwaits
    · exact hhandles.advanced htodo column hcolumn other hother hexpects
  · intro j column hcolumn item hitem
    rw [Array.getElem?_push] at hcolumn
    split at hcolumn
    · rename_i hj
      obtain rfl := Option.some.inj hcolumn
      rw [hj, hsize]
      exact htidy.fits item (List.mem_append_left _ hitem)
    · exact hcolumns j column hcolumn item hitem

/-! ## The way over a text -/

variable {goal : C} {text : Text}

/-- The chart at a position of the text, with what has arrived there. -/
def chartAt (g : Grammar T C F) (goal : C) (text : Text) : Nat → Chart T C F
  | 0 => Chart.start g goal
  | n + 1 =>
    (((chartAt g goal text n).settle g n).scan g goal n (text.drop n)).move g (n + 1)

/-- The chart at a position of the text, worked off. -/
def settledAt (g : Grammar T C F) (goal : C) (text : Text) (n : Nat) : Chart T C F :=
  (chartAt g goal text n).settle g n

/-- A chart on its way over a text. -/
structure Chart.IsOnWay (g : Grammar T C F) (here : Nat) (chart : Chart T C F) : Prop
    extends chart.IsTidy g here where
  /-- There is a column for every position before. -/
  size : chart.columns.size = here
  /-- The columns hold what fits. -/
  columns : ColumnsFit g chart.columns
  /-- What is announced fits where it arrives. -/
  coming : ∀ distance a, Announced chart.coming distance a → a.Fits g (here + distance + 1)

theorem Chart.isOnWay_start (hg : g.IsTabled) (goal : C) :
    (Chart.start g goal).IsOnWay g 0 ∧
      ∀ r ∈ g.rulesOf goal, (Chart.start g goal).Has g (r.keyAt g 0 0) := by
  have hempty : (⟨[], [], [], [], {}, []⟩ : Work T C F).IsTidy g 0 := by
    constructor <;> simp
  obtain ⟨h, hopened⟩ := hempty.openCategory hg goal
  refine ⟨⟨⟨h.fits, h.items_plain, h.awaiting_plain, h.nodup, ?_, h.opening, h.opened⟩, rfl, ?_, ?_⟩,
    h.opened goal hopened⟩
  · intro x hx
    cases hx
  · intro j column hcolumn
    simp [Chart.start] at hcolumn
  · intro distance a ha
    exact absurd ha not_announced_nil

omit [DecidableEq C] in
/-- What is announced for a position arrives when the chart moves there. -/
theorem Chart.isOnWay_move (hsize : chart.columns.size = there)
    (hcolumns : ColumnsFit g chart.columns)
    (hcoming : ∀ distance a, Announced chart.coming distance a → a.Fits g (there + distance)) :
    (chart.move g there).IsOnWay g there ∧ (chart.move g there).columns = chart.columns ∧
      (∀ a, Announced chart.coming 0 a → (chart.move g there).Has g (a.newKey g)) ∧
      ∀ distance a, Announced chart.coming (distance + 1) a →
        Announced (chart.move g there).coming distance a := by
  have hempty : ∀ later, ({ chart with
      items := [], awaiting := [], opened := [], nodes := {}, coming := later } :
        Chart T C F).IsTidy g there := by
    intro later
    constructor <;> simp
  unfold move
  dsimp only
  split
  · rename_i hnone
    have hnothing : ∀ {distance : Nat} {a : Arrival T C F}, ¬Announced chart.coming distance a := by
      intro distance a
      rw [hnone]
      exact not_announced_nil
    refine ⟨⟨hempty chart.coming, hsize, hcolumns, ?_⟩, rfl, ?_, ?_⟩
    · exact fun distance a ha => absurd ha hnothing
    · exact fun a ha => absurd ha hnothing
    · exact fun distance a ha => absurd ha hnothing
  · rename_i now later hsome
    have hnow : ∀ a ∈ now.reverse, a.Fits g there := by
      intro a ha
      refine hcoming 0 a ?_
      rw [hsome, announced_cons_zero]
      exact List.mem_reverse.1 ha
    obtain ⟨htidy, -, hall, hcolumns', hcoming'⟩ := foldl_arrive (hempty later) hnow
    refine ⟨⟨htidy, ?_, ?_, ?_⟩, hcolumns', ?_, ?_⟩
    · rw [hcolumns']
      exact hsize
    · rw [hcolumns']
      exact hcolumns
    · intro distance a ha
      rw [hcoming'] at ha
      rw [Nat.add_assoc]
      refine hcoming (distance + 1) a ?_
      rw [hsome, announced_cons_succ]
      exact ha
    · intro a ha
      rw [hsome, announced_cons_zero] at ha
      exact hall a (List.mem_reverse.2 ha)
    · intro distance a ha
      rw [hsome, announced_cons_succ] at ha
      rw [hcoming']
      exact ha

/-- Everything that is announced when a position is left fits where it arrives. -/
theorem fits_of_announced_scan (hg : g.IsTabled) (hsettled : chart.IsSettled g here)
    (hcoming : ∀ distance a, Announced chart.coming distance a → a.Fits g (here + distance + 1))
    {rest : Text} (ha : Announced (chart.scan g goal here rest).coming distance a) :
    a.Fits g (here + distance + 1) := by
  rcases Chart.announced_scan.1 ha with
    hold | ⟨item, hitem, t, todo, htodo, -, rfl⟩ | ⟨gap, -, -, item, hitem, rfl⟩
  · exact hcoming distance a hold
  · exact .passed (hsettled.fits item (List.mem_append_right _ hitem)) (by omega) htodo
  · rcases hitem with hitem | ⟨hitem, htodo, -⟩
    · exact .carried ((hsettled.fits item (List.mem_append_right _ hitem)).mono (by omega))
        (Or.inl (hsettled.awaiting_plain item hitem))
    · have hfits := hsettled.fits item (List.mem_append_left _ hitem)
      exact .carried (hfits.mono (by omega)) (Or.inr (hfits.done_pos hg htodo))

/-- The chart that leaves a position. -/
def leavingAt (g : Grammar T C F) (goal : C) (text : Text) (n : Nat) : Chart T C F :=
  (settledAt g goal text n).scan g goal n (text.drop n)

theorem chartAt_succ (n : Nat) :
    chartAt g goal text (n + 1) = (leavingAt g goal text n).move g (n + 1) := rfl

/-- Working a position off adds a column for it. -/
theorem Chart.exists_columns_settle (chart : Chart T C F) (g : Grammar T C F) (here : Nat) :
    ∃ nodes nodes', (chart.settle g here).columns =
      chart.columns.push ⟨(chart.settle g here).items, nodes, nodes'⟩ := ⟨_, _, rfl⟩

theorem Chart.IsOnWay.size_settle (h : chart.IsOnWay g here) :
    (chart.settle g here).columns.size = here + 1 := by
  obtain ⟨nodes, nodes', hcolumns⟩ := chart.exists_columns_settle g here
  rw [hcolumns, Array.size_push, h.size]

/-- A chart stays on its way over the text. -/
theorem isOnWay_chartAt (hg : g.IsTabled) (goal : C) (text : Text) (n : Nat) :
    (chartAt g goal text n).IsOnWay g n := by
  induction n with
  | zero => exact (Chart.isOnWay_start hg goal).1
  | succ n ih =>
    obtain ⟨hsettled, hcolumns, -⟩ := ih.settle hg ih.size ih.columns
    have hsize : (leavingAt g goal text n).columns.size = n + 1 := ih.size_settle
    refine (Chart.isOnWay_move hsize hcolumns ?_).1
    intro distance a ha
    rw [Nat.add_right_comm]
    exact fits_of_announced_scan hg hsettled ih.coming ha

theorem isSettled_settledAt (hg : g.IsTabled) (goal : C) (text : Text) (n : Nat) :
    (settledAt g goal text n).IsSettled g n :=
  have h := isOnWay_chartAt hg goal text n
  (h.settle hg h.size h.columns).1

theorem has_settledAt (hg : g.IsTabled) {n : Nat} (h : (chartAt g goal text n).Has g key) :
    (settledAt g goal text n).Has g key :=
  have hway := isOnWay_chartAt hg goal text n
  (hway.settle hg hway.size hway.columns).2.2 key h

/-- What moves from one position to the next one. -/
theorem chartAt_succ_of (hg : g.IsTabled) (n : Nat) :
    (chartAt g goal text (n + 1)).columns = (settledAt g goal text n).columns ∧
      (∀ a, Announced (leavingAt g goal text n).coming 0 a →
        (chartAt g goal text (n + 1)).Has g (a.newKey g)) ∧
      ∀ distance a, Announced (leavingAt g goal text n).coming (distance + 1) a →
        Announced (chartAt g goal text (n + 1)).coming distance a := by
  have h := isOnWay_chartAt hg goal text n
  obtain ⟨hsettled, hcolumns, -⟩ := h.settle hg h.size h.columns
  have hsize : (leavingAt g goal text n).columns.size = n + 1 := h.size_settle
  refine (Chart.isOnWay_move hsize hcolumns ?_).2
  intro distance a ha
  rw [Nat.add_right_comm]
  exact fits_of_announced_scan hg hsettled h.coming ha

/-- What is announced arrives. -/
theorem has_arrival (hg : g.IsTabled) {n : Nat}
    (h : Announced (leavingAt g goal text n).coming distance a) :
    (settledAt g goal text (n + distance + 1)).Has g (a.newKey g) := by
  induction distance generalizing n with
  | zero => exact has_settledAt hg ((chartAt_succ_of hg n).2.1 a h)
  | succ distance ih =>
    have hnext := (chartAt_succ_of hg n).2.2 distance a h
    have hleaving : Announced (leavingAt g goal text (n + 1)).coming distance a :=
      Chart.announced_scan.2 (Or.inl hnext)
    have harrived := ih hleaving
    rwa [show n + 1 + distance + 1 = n + (distance + 1) + 1 by omega] at harrived

/-- The columns hold what stood at the positions when they were left. -/
theorem columns_settledAt (hg : g.IsTabled) (goal : C) (text : Text) {j n : Nat} (hj : j ≤ n) :
    ∃ column, (settledAt g goal text n).columns[j]? = some column ∧
      column.items = (settledAt g goal text j).items := by
  have hsize (n : Nat) : (chartAt g goal text n).columns.size = n := (isOnWay_chartAt hg goal text n).size
  have hpush (n : Nat) := (chartAt g goal text n).exists_columns_settle g n
  induction n with
  | zero =>
    obtain rfl := Nat.le_zero.1 hj
    obtain ⟨nodes, nodes', hcolumns⟩ := hpush 0
    refine ⟨⟨(settledAt g goal text 0).items, nodes, nodes'⟩, ?_, rfl⟩
    rw [settledAt, hcolumns, Array.getElem?_push, if_pos (hsize 0).symm]
  | succ n ih =>
    obtain ⟨nodes, nodes', hcolumns⟩ := hpush (n + 1)
    by_cases hlast : j = n + 1
    · subst hlast
      refine ⟨⟨(settledAt g goal text (n + 1)).items, nodes, nodes'⟩, ?_, rfl⟩
      rw [settledAt, hcolumns, Array.getElem?_push, if_pos (hsize (n + 1)).symm]
    · obtain ⟨column, hcolumn, hitems⟩ := ih (by omega)
      refine ⟨column, ?_, hitems⟩
      have hne : j ≠ (chartAt g goal text (n + 1)).columns.size := by
        rw [hsize]
        exact hlast
      rw [settledAt, hcolumns, Array.getElem?_push, if_neg hne, (chartAt_succ_of hg n).1]
      exact hcolumn

/-! ## What follows from what is there -/

variable {n k i : Nat} {c : C} {r : Rule T C F}

/-- The item that has come with the key of a place inside a rule. -/
theorem Chart.IsSettled.exists_item (hg : g.IsTabled) (h : chart.IsSettled g here)
    (hr : r ∈ g.rulesOf c) (hk : k < r.body.length) (hhas : chart.Has g (r.keyAt g k i)) :
    ∃ item ∈ chart.items ++ chart.awaiting, item.Fits g here ∧ item.rule = r ∧ item.done = k ∧
      item.start = i := by
  obtain ⟨item, hitem, hkey⟩ := hhas
  have hfits := h.fits item hitem
  rw [hfits.key_eq] at hkey
  obtain ⟨hstart, ⟨-, hdone, -⟩ | ⟨-, hrule, hdone⟩⟩ :=
    hg.of_key_eq hfits.rule_mem hr hfits.done_le (Nat.le_of_lt hk) hkey
  · omega
  · exact ⟨item, hitem, hfits, hrule, hdone, hstart⟩

/-- The item that has come with the key of a finished category. -/
theorem Chart.IsSettled.exists_finished (hg : g.IsTabled) (h : chart.IsSettled g here)
    (hr : r ∈ g.rulesOf c) (hhas : chart.Has g (r.keyAt g r.body.length i)) :
    ∃ item ∈ chart.items, item.Fits g here ∧ item.todo = [] ∧ item.rule.head = c ∧
      item.start = i := by
  obtain ⟨item, hitem, hkey⟩ := hhas
  have hfits := h.fits item hitem
  rw [hfits.key_eq] at hkey
  obtain ⟨hstart, ⟨hdone, -, hhead⟩ | ⟨hlt, hrule, hdone⟩⟩ :=
    hg.of_key_eq hfits.rule_mem hr hfits.done_le (Nat.le_refl _) hkey
  · have htodo := hfits.todo_eq_nil_iff.2 hdone
    rcases List.mem_append.1 hitem with hitem | hitem
    · exact ⟨item, hitem, hfits, htodo, hhead.trans (hg.head_eq c r hr), hstart⟩
    · have hterminal := h.awaiting_plain item hitem
      rw [Item.expectsTerminal, htodo] at hterminal
      cases hterminal
  · rw [hrule] at hlt
    omega

/-- What an item expects tells where it is kept. -/
theorem Chart.IsSettled.mem_awaiting (h : chart.IsSettled g here)
    (hitem : item ∈ chart.items ++ chart.awaiting) {t : T} {todo : List (Symbol T C)}
    (htodo : item.todo = .terminal t :: todo) : item ∈ chart.awaiting := by
  rcases List.mem_append.1 hitem with hitem | hitem
  · have hplain := h.items_plain item hitem
    rw [Item.expectsTerminal, htodo] at hplain
    cases hplain
  · exact hitem

theorem Chart.IsSettled.mem_items (h : chart.IsSettled g here)
    (hitem : item ∈ chart.items ++ chart.awaiting) {todo : List (Symbol T C)}
    (htodo : item.todo = .category c :: todo) : item ∈ chart.items := by
  rcases List.mem_append.1 hitem with hitem | hitem
  · exact hitem
  · have hterminal := h.awaiting_plain item hitem
    rw [Item.expectsTerminal, htodo] at hterminal
    cases hterminal

omit [DecidableEq C] in
/-- The rest of a rule from a symbol on. -/
theorem Item.Fits.exists_todo (h : item.Fits g here) {s : Symbol T C}
    (hs : item.rule.body[item.done]? = some s) : ∃ todo, item.todo = s :: todo := by
  obtain ⟨hlt, hs⟩ := List.getElem?_eq_some_iff.1 hs
  refine ⟨item.rule.body.drop (item.done + 1), ?_⟩
  rw [h.todo_eq, List.drop_eq_getElem_cons hlt, hs]

/-- An item that expects a terminal has read it where the terminal ends. -/
theorem has_of_terminal (hg : g.IsTabled) {length : Nat} {t : T} (hr : r ∈ g.rulesOf c)
    (h : (settledAt g goal text n).Has g (r.keyAt g k i))
    (ht : r.body[k]? = some (.terminal t)) (hpos : 0 < length)
    (hmeasure : g.measure t (text.drop n) = some length) :
    (settledAt g goal text (n + length)).Has g (r.keyAt g (k + 1) i) := by
  have hsettled := isSettled_settledAt hg goal text n
  obtain ⟨hk, -⟩ := List.getElem?_eq_some_iff.1 ht
  obtain ⟨item, hitem, hfits, rfl, rfl, rfl⟩ := hsettled.exists_item hg hr hk h
  obtain ⟨todo, htodo⟩ := hfits.exists_todo ht
  obtain ⟨distance, rfl⟩ := Nat.exists_eq_succ_of_ne_zero (Nat.ne_of_gt hpos)
  have hannounced : Announced (leavingAt g goal text n).coming distance
      ⟨item, some (t, n, n + distance + 1)⟩ :=
    Chart.announced_scan.2 (Or.inr (Or.inl
      ⟨item, hsettled.mem_awaiting hitem htodo, t, todo, htodo, hmeasure, rfl⟩))
  exact has_arrival hg hannounced

/-- A gap is passed by what is carried over it. -/
theorem has_of_gap (hg : g.IsTabled) {length : Nat} {gap : Text → Option Nat}
    (hgap : gap ∈ g.gaps) (hpos : 0 < length) (hlength : gap (text.drop n) = some length)
    (hitem : (settledAt g goal text n).Carries goal item) :
    (settledAt g goal text (n + length)).Has g (item.key g) := by
  obtain ⟨distance, rfl⟩ := Nat.exists_eq_succ_of_ne_zero (Nat.ne_of_gt hpos)
  have hannounced : Announced (leavingAt g goal text n).coming distance ⟨item, none⟩ :=
    Chart.announced_scan.2 (Or.inr (Or.inr ⟨gap, hgap, hlength, item, hitem, rfl⟩))
  exact has_arrival hg hannounced

omit [DecidableEq C] in
theorem gapCovers_induction {p : Nat → Prop} (fuel : Nat) {m length : Nat}
    (h : gapCovers g fuel (text.drop m) length = true) (hm : p m)
    (hstep : ∀ n gap length, p n → gap ∈ g.gaps → 0 < length →
      gap (text.drop n) = some length → p (n + length)) : p (m + length) := by
  induction fuel generalizing m length with
  | zero =>
    cases length with
    | zero => exact hm
    | succ length => cases h
  | succ fuel ih =>
    cases length with
    | zero => exact hm
    | succ length =>
      unfold gapCovers at h
      obtain ⟨gap, hgap, hcovers⟩ := List.any_eq_true.1 h
      split at hcovers
      · rename_i n hn
        rw [Bool.and_eq_true, decide_eq_true_eq, List.drop_drop] at hcovers
        have hnext := ih hcovers.2 (hstep m gap (n + 1) hm hgap (Nat.succ_pos n) hn)
        rwa [show m + (n + 1) + (length + 1 - (n + 1)) = m + (length + 1) by omega] at hnext
      · cases hcovers

omit [DecidableEq C] in
/-- An induction over the gaps that cover a range. -/
theorem IsGap.induction {p : Nat → Prop} {m q : Nat} (h : g.IsGap text m q) (hm : p m)
    (hstep : ∀ n gap length, p n → gap ∈ g.gaps → 0 < length →
      gap (text.drop n) = some length → p (n + length)) : p q := by
  have hq := gapCovers_induction (q - m) h.covers hm hstep
  rwa [Nat.add_sub_cancel' h.le] at hq

/-- An item that expects a terminal is carried over gaps. -/
theorem has_of_isGap (hg : g.IsTabled) {m q : Nat} {t : T} (hr : r ∈ g.rulesOf c)
    (h : (settledAt g goal text m).Has g (r.keyAt g k i))
    (ht : r.body[k]? = some (.terminal t)) (hgap : g.IsGap text m q) :
    (settledAt g goal text q).Has g (r.keyAt g k i) := by
  refine hgap.induction (p := fun n => (settledAt g goal text n).Has g (r.keyAt g k i)) h ?_
  intro n gap length hhas hmem hpos hlength
  have hsettled := isSettled_settledAt hg goal text n
  obtain ⟨hk, -⟩ := List.getElem?_eq_some_iff.1 ht
  obtain ⟨item, hitem, hfits, rfl, rfl, rfl⟩ := hsettled.exists_item hg hr hk hhas
  obtain ⟨todo, htodo⟩ := hfits.exists_todo ht
  rw [← hfits.key_eq]
  exact has_of_gap hg hmem hpos hlength (Or.inl (hsettled.mem_awaiting hitem htodo))

/-- A complete text is carried over gaps. -/
theorem has_goal_of_isGap (hg : g.IsTabled) {m q : Nat} (hr : r ∈ g.rulesOf goal)
    (h : (settledAt g goal text m).Has g (r.keyAt g r.body.length 0)) (hgap : g.IsGap text m q) :
    (settledAt g goal text q).Has g (r.keyAt g r.body.length 0) := by
  refine hgap.induction
    (p := fun n => (settledAt g goal text n).Has g (r.keyAt g r.body.length 0)) h ?_
  intro n gap length hhas hmem hpos hlength
  have hsettled := isSettled_settledAt hg goal text n
  obtain ⟨item, hitem, hfits, htodo, hhead, hstart⟩ := hsettled.exists_finished hg hr hhas
  have hkey : item.key g = r.keyAt g r.body.length 0 := by
    rw [hfits.key_eq, hfits.todo_eq_nil_iff.1 htodo, Rule.keyAt_length, Rule.keyAt_length, hhead,
      hstart, hg.head_eq goal r hr]
  rw [← hkey]
  exact has_of_gap hg hmem hpos hlength (Or.inr ⟨hitem, htodo, hhead, hstart⟩)

/-! ## What derivations read is found -/

variable [DecidableEq T] [DecidableEq F]

mutual

/-- An item that expects what a derivation reads has read it where the derivation ends. -/
theorem has_of_extent? (hg : g.IsTabled) : ∀ (d : Derivation T C F) {p q : Nat} {c : C}
    {r : Rule T C F} {k i : Nat}, d.extent? g text p = some q → r ∈ g.rulesOf c →
      (settledAt g goal text p).Has g (r.keyAt g k i) → r.body[k]? = some d.symbol →
        (settledAt g goal text q).Has g (r.keyAt g (k + 1) i)
  | .terminal t a b, p, q, c, r, k, i, h, hr, hhas, hs => by
    obtain ⟨hgap, hlt, hmeasure, rfl⟩ := Derivation.extent?_terminal.1 h
    have hthere := has_of_isGap hg hr hhas hs hgap
    have hend := has_of_terminal hg hr hthere hs (Nat.sub_pos_of_lt hlt) hmeasure
    rwa [Nat.add_sub_cancel' (Nat.le_of_lt hlt)] at hend
  | .node rule ds, p, q, c, r, k, i, h, hr, hhas, hs => by
    obtain ⟨hmem, hsymbols, hrow⟩ := Derivation.extent?_node.1 h
    have hsettled := isSettled_settledAt hg goal text p
    obtain ⟨hk, -⟩ := List.getElem?_eq_some_iff.1 hs
    obtain ⟨item, hitem, hfits, rfl, rfl, rfl⟩ := hsettled.exists_item hg hr hk hhas
    obtain ⟨todo, htodo⟩ := hfits.exists_todo hs
    have hwaits := hsettled.mem_items hitem htodo
    -- the rule is opened where the item waits, and the item moves on where the rule is finished
    have hopened := hsettled.opened item hwaits rule.head todo htodo rule hmem
    have hfinished := has_of_extentOfRow? hg ds hrow hmem hopened (Nat.zero_le _) hsymbols
    have hsettled' := isSettled_settledAt hg goal text q
    obtain ⟨done, hdone, hfits', hnil, hhead, rfl⟩ := hsettled'.exists_finished hg hmem hfinished
    obtain ⟨column, hcolumn, hitems⟩ := columns_settledAt hg goal text hfits'.start_le
    refine hsettled'.advanced done hdone hnil column hcolumn item (hitems ▸ hwaits) ?_
    rw [Item.expects, htodo, hhead]
    exact decide_eq_true rfl

/-- An item that expects what a row of derivations reads is finished where the row ends. -/
theorem has_of_extentOfRow? (hg : g.IsTabled) : ∀ (ds : List (Derivation T C F)) {p q : Nat}
    {c : C} {r : Rule T C F} {k i : Nat}, extentOfRow? g text ds p = some q → r ∈ g.rulesOf c →
      (settledAt g goal text p).Has g (r.keyAt g k i) → k ≤ r.body.length →
        ds.map Derivation.symbol = r.body.drop k →
          (settledAt g goal text q).Has g (r.keyAt g r.body.length i)
  | [], p, q, c, r, k, i, h, hr, hhas, hk, hsymbols => by
    obtain rfl := Option.some.inj h
    have hle := List.drop_eq_nil_iff.1 hsymbols.symm
    rwa [Nat.le_antisymm hk hle] at hhas
  | d :: ds, p, q, c, r, k, i, h, hr, hhas, hk, hsymbols => by
    obtain ⟨m, hd, hds⟩ := extentOfRow?_cons.1 h
    have hs : r.body[k]? = some d.symbol := by
      rw [← List.head?_drop, ← hsymbols]
      rfl
    obtain ⟨hlt, -⟩ := List.getElem?_eq_some_iff.1 hs
    have hnext := has_of_extent? hg d hd hr hhas hs
    refine has_of_extentOfRow? hg ds hds hr hnext hlt ?_
    rw [← List.tail_drop, ← hsymbols]
    rfl

end

/-- Where a derivation reads a whole text, the chart has it at the end. -/
theorem exists_complete (hg : g.IsTabled) (hproper : g.IsProper) {d : Derivation T C F}
    (h : d.covers g goal text = true) :
    ∃ item ∈ (settledAt g goal text text.length).items, item.Fits g text.length ∧
      item.todo = [] ∧ item.rule.head = goal ∧ item.start = 0 := by
  unfold Derivation.covers at h
  split at h
  · rename_i stop hextent
    rw [Bool.and_eq_true, beq_iff_eq] at h
    cases d with
    | terminal t a b => cases h.1
    | node rule ds =>
      obtain ⟨hmem, hsymbols, hrow⟩ := Derivation.extent?_node.1 hextent
      obtain rfl : rule.head = goal := Symbol.category.inj h.1
      have hopened : (settledAt g rule.head text 0).Has g (rule.keyAt g 0 0) :=
        has_settledAt hg ((Chart.isOnWay_start hg rule.head).2 rule hmem)
      have hfinished := has_of_extentOfRow? hg ds hrow hmem hopened (Nat.zero_le _) hsymbols
      obtain ⟨a, -, hreads⟩ := reads_of_extent? hproper _ hextent
      have hend := has_goal_of_isGap hg hmem hfinished ⟨hreads.le_length hproper, h.2⟩
      exact (isSettled_settledAt hg rule.head text text.length).exists_finished hg hmem hend
  · cases h

/-! ## Filling a chart -/

omit [DecidableEq T] [DecidableEq F]

/-- Nothing is left to go on with. -/
structure Chart.IsDead (chart : Chart T C F) : Prop where
  /-- There are no items. -/
  items : chart.items = []
  /-- None that expect a terminal either. -/
  awaiting : chart.awaiting = []
  /-- Nothing is announced. -/
  coming : ∀ distance a, ¬Announced chart.coming distance a

theorem Work.run_of_agenda {w : Work T C F} {columns : Array (Column T C F)} (fuel : Nat)
    (h : w.agenda = []) : w.run g columns here fuel = w := by
  cases fuel with
  | zero => rfl
  | succ fuel => rw [run, h]

/-- A position where nothing is left has nothing when it is worked off. -/
theorem Chart.IsDead.settle (h : chart.IsDead) :
    (chart.settle g here).items = [] ∧ (chart.settle g here).awaiting = [] := by
  rw [settle_eq, Work.run_of_agenda _ h.items]
  exact ⟨h.items, h.awaiting⟩

/-- Where nothing is left, nothing comes any more. -/
theorem isDead_chartAt_succ (h : (chartAt g goal text n).IsDead) :
    (chartAt g goal text (n + 1)).IsDead := by
  obtain ⟨hitems, hawaiting⟩ : (settledAt g goal text n).items = [] ∧
    (settledAt g goal text n).awaiting = [] := h.settle
  have hnothing : ∀ distance a, ¬Announced (leavingAt g goal text n).coming distance a := by
    intro distance a ha
    rcases Chart.announced_scan.1 ha with
      hold | ⟨item, hitem, -⟩ | ⟨gap, -, -, item, hitem | ⟨hitem, -⟩, -⟩
    · exact h.coming distance a hold
    · rw [hawaiting] at hitem
      cases hitem
    · rw [hawaiting] at hitem
      cases hitem
    · rw [hitems] at hitem
      cases hitem
  rw [chartAt_succ]
  revert hnothing
  generalize leavingAt g goal text n = chart
  intro hnothing
  unfold Chart.move
  dsimp only
  split
  · rename_i hnone
    exact ⟨rfl, rfl, hnothing⟩
  · rename_i now later hsome
    rw [hsome] at hnothing
    obtain rfl : now = [] := by
      refine List.eq_nil_iff_forall_not_mem.2 fun a ha => hnothing 0 a ?_
      exact announced_cons_zero.2 ha
    exact ⟨rfl, rfl, fun distance a ha => hnothing (distance + 1) a (announced_cons_succ.2 ha)⟩

theorem isDead_chartAt {m : Nat} (hle : n ≤ m) (h : (chartAt g goal text n).IsDead) :
    (chartAt g goal text m).IsDead := by
  induction hle with
  | refl => exact h
  | step _ ih => exact isDead_chartAt_succ ih

omit [DecidableEq C] in
theorem Chart.isDead_of_isStuck (h : chart.isStuck = true) : chart.IsDead := by
  unfold isStuck at h
  simp only [Bool.and_eq_true, List.isEmpty_iff] at h
  obtain ⟨⟨hitems, hawaiting⟩, hcoming⟩ := h
  refine ⟨hitems, hawaiting, fun distance a => ?_⟩
  rw [hcoming]
  exact not_announced_nil

/-- Filling a chart from a position on ends with the chart at the end of the text, or nothing is left
on the way there. -/
theorem fill_cases (goal : C) (rest : Text) (hrest : text.drop n = rest) (hn : n + rest.length = text.length) :
    (Chart.fill g goal n rest (chartAt g goal text n) =
        .ok (settledAt g goal text text.length)) ∨
      (chartAt g goal text text.length).IsDead := by
  induction rest generalizing n with
  | nil =>
    left
    obtain rfl : n = text.length := hn
    rfl
  | cons c rest ih =>
    rw [Chart.fill, ← hrest]
    change (if (chartAt g goal text (n + 1)).isStuck = true then _
      else Chart.fill g goal (n + 1) rest (chartAt g goal text (n + 1))) = _ ∨ _
    rw [List.length_cons] at hn
    split
    · rename_i hstuck
      right
      exact isDead_chartAt (by omega) (Chart.isDead_of_isStuck hstuck)
    · refine ih ?_ (by omega)
      rw [← List.tail_drop, hrest, List.tail_cons]

variable [DecidableEq T] [DecidableEq F]

/-- Where a derivation reads a whole text, filling the chart succeeds and finds a complete text. -/
theorem exists_fill (hg : g.IsTabled) (hproper : g.IsProper) {d : Derivation T C F}
    (h : d.covers g goal text = true) :
    Chart.fill g goal 0 text (Chart.start g goal) = .ok (settledAt g goal text text.length) ∧
      ∃ item ∈ (settledAt g goal text text.length).items, item.Fits g text.length ∧
        item.todo = [] ∧ item.rule.head = goal ∧ item.start = 0 := by
  obtain ⟨item, hitem, hcomplete⟩ := exists_complete hg hproper h
  refine ⟨?_, item, hitem, hcomplete⟩
  rcases fill_cases goal (n := 0) text rfl (Nat.zero_add _) with hfill | hdead
  · exact hfill
  · have hnone : (settledAt g goal text text.length).items = [] := hdead.settle.1
    rw [hnone] at hitem
    cases hitem

end SkinCompiler.Grammar
