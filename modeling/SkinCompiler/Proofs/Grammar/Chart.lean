import Mathlib.Data.List.Nodup
import Mathlib.Data.List.Perm.Subperm
import SkinCompiler.Proofs.Grammar.Derivation

/-!
# What a chart holds

The items at a position are told apart by their keys.  There are only so many keys at a position,
so that the agenda is worked off; then every item has moved on what waits for it, or has opened the
category that it expects.

* `Item.Fits` -- an item is a rule of the grammar that has been read up to some place;
* `Work.IsTidy` -- what stays true while a position is worked off;
* `Work.agenda_run` -- the agenda is worked off;
* `Work.IsClosed`, `Work.isClosed_run` -- what has been done for the items of a position then.
-/

namespace SkinCompiler.Grammar

variable {T C F : Type} {g : Grammar T C F} {here done start k i j : Nat} {key : Key}
variable {r r' : Rule T C F} {item other : Item T C F} {w w' : Work T C F}

/-! ## Keys -/

/-- A grammar whose tables are in order. -/
structure IsTabled (g : Grammar T C F) : Prop where
  /-- The rules of a category read that category. -/
  head_eq : ∀ c, ∀ r ∈ g.rulesOf c, r.head = c
  /-- Every rule reads something, and no rule is too long for its keys. -/
  body_length : ∀ c, ∀ r ∈ g.rulesOf c, 0 < r.body.length ∧ r.body.length < 64
  /-- Every category has its own place. -/
  index_inj : ∀ c c', g.index c = g.index c' → c = c'
  /-- Every rule has its own number. -/
  number_inj : ∀ c c', ∀ r ∈ g.rulesOf c, ∀ r' ∈ g.rulesOf c', r.number = r'.number → r = r'
  /-- No rule of a category is listed twice. -/
  nodup : ∀ c, (g.rulesOf c).Nodup
  /-- A text of a category can begin with itself. -/
  mem_openings : ∀ c, c ∈ g.openingsOf c

theorem map_number_ofProductions (c : C) (first : Nat) (productions : List (Production T C F)) :
    (Rule.ofProductions c first productions).map (·.number) =
      List.range' first (Rule.ofProductions c first productions).length := by
  rw [Rule.ofProductions, List.map_map, List.length_map, List.length_zipIdx, ← List.zipIdx_map_snd]
  rfl

/-- The rules of a table are numbered in their order. -/
theorem map_number_ruleTable (productions : C → List (Production T C F)) (cs : List C)
    (first : Nat) : (ruleTable productions first cs).flatten.map (·.number) =
      List.range' first (ruleTable productions first cs).flatten.length := by
  induction cs generalizing first with
  | nil => rfl
  | cons c cs ih =>
    rw [ruleTable, List.flatten_cons, List.map_append, List.length_append, ih,
      map_number_ofProductions, List.range'_append_1]

/-- The key of an item that has read the first symbols of a rule. -/
def Rule.keyAt (g : Grammar T C F) (r : Rule T C F) (done start : Nat) : Key :=
  if done = r.body.length then ⟨2 * g.index r.head, start⟩
  else ⟨2 * (64 * r.number + done) + 1, start⟩

theorem Rule.keyAt_of_lt (h : done < r.body.length) :
    r.keyAt g done start = ⟨2 * (64 * r.number + done) + 1, start⟩ := if_neg (Nat.ne_of_lt h)

theorem Rule.keyAt_length (r : Rule T C F) (start : Nat) :
    r.keyAt g r.body.length start = ⟨2 * g.index r.head, start⟩ := if_pos rfl

/-- A key tells the starting position, and the place in the rule or the category that is
finished. -/
theorem IsTabled.of_key_eq (hg : g.IsTabled) {c c' : C} {k' i' : Nat} (hr : r ∈ g.rulesOf c)
    (hr' : r' ∈ g.rulesOf c') (hk : k ≤ r.body.length) (hk' : k' ≤ r'.body.length)
    (h : r.keyAt g k i = r'.keyAt g k' i') :
    i = i' ∧ ((k = r.body.length ∧ k' = r'.body.length ∧ r.head = r'.head) ∨
      (k < r.body.length ∧ r = r' ∧ k = k')) := by
  have hlength := (hg.body_length c r hr).2
  have hlength' := (hg.body_length c' r' hr').2
  unfold Rule.keyAt at h
  split at h <;> split at h <;> rw [Key.mk.injEq] at h
  · rename_i hdone hdone'
    exact ⟨h.2, Or.inl ⟨hdone, hdone', hg.index_inj _ _ (by omega)⟩⟩
  · omega
  · omega
  · rename_i hdone hdone'
    have hnumber : r.number = r'.number := by omega
    exact ⟨h.2, Or.inr ⟨by omega, hg.number_inj c c' r hr r' hr' hnumber, by omega⟩⟩

/-- The item is a rule of the grammar that has been read up to some place, from a position up to
`here` at the latest. -/
structure Item.Fits (g : Grammar T C F) (here : Nat) (item : Item T C F) : Prop where
  /-- The rule is one of the grammar. -/
  rule_mem : item.rule ∈ g.rulesOf item.rule.head
  /-- What is still to be read is the rest of the rule. -/
  todo_eq : item.todo = item.rule.body.drop item.done
  /-- No more has been read than there is. -/
  done_le : item.done ≤ item.rule.body.length
  /-- There are readings if something has been read. -/
  node_isSome : item.node.isSome = decide (0 < item.done)
  /-- It begins here or before. -/
  start_le : item.start ≤ here
  /-- What has been read has covered something. -/
  start_lt : 0 < item.done → item.start < here

namespace Item.Fits

theorem todo_eq_nil_iff (h : item.Fits g here) :
    item.todo = [] ↔ item.done = item.rule.body.length := by
  have hle := h.done_le
  rw [h.todo_eq, List.drop_eq_nil_iff]
  omega

theorem key_eq (h : item.Fits g here) : item.key g = item.rule.keyAt g item.done item.start := by
  have hiff := h.todo_eq_nil_iff
  unfold Item.key Rule.keyAt
  split
  · rename_i htodo
    rw [if_pos (hiff.1 htodo)]
  · rename_i htodo
    rw [if_neg (mt hiff.2 htodo)]

/-- The symbol that an item expects next. -/
theorem getElem?_of_todo (h : item.Fits g here) {s : Symbol T C} {rest : List (Symbol T C)}
    (htodo : item.todo = s :: rest) : item.rule.body[item.done]? = some s := by
  have hdrop := h.todo_eq
  rw [htodo] at hdrop
  have hhead := congrArg List.head? hdrop
  rw [List.head?_drop] at hhead
  exact hhead.symm

theorem done_lt_of_todo (h : item.Fits g here) {s : Symbol T C} {rest : List (Symbol T C)}
    (htodo : item.todo = s :: rest) : item.done < item.rule.body.length := by
  obtain ⟨hlt, -⟩ := List.getElem?_eq_some_iff.1 (h.getElem?_of_todo htodo)
  exact hlt

theorem done_pos (h : item.Fits g here) (hg : g.IsTabled) (htodo : item.todo = []) :
    0 < item.done := by
  rw [h.todo_eq_nil_iff.1 htodo]
  exact (hg.body_length _ _ h.rule_mem).1

/-- The item after one more symbol. -/
theorem next {there : Nat} (h : item.Fits g here) {s : Symbol T C} {rest : List (Symbol T C)}
    (htodo : item.todo = s :: rest) (hlt : here < there) (ref : NodeRef) :
    (item.next ref).Fits g there where
  rule_mem := h.rule_mem
  todo_eq := by
    show item.todo.tail = _
    rw [h.todo_eq, List.tail_drop]
    rfl
  done_le := h.done_lt_of_todo htodo
  node_isSome := by simp [Item.next]
  start_le := by
    have hle := h.start_le
    show item.start ≤ there
    omega
  start_lt _ := by
    have hle := h.start_le
    show item.start < there
    omega

theorem key_next {there : Nat} (h : item.Fits g here) {s : Symbol T C}
    {rest : List (Symbol T C)} (htodo : item.todo = s :: rest) (hlt : here < there)
    (ref : NodeRef) : (item.next ref).key g = item.rule.keyAt g (item.done + 1) item.start :=
  (h.next htodo hlt ref).key_eq

theorem mono {there : Nat} (h : item.Fits g here) (hle : here ≤ there) : item.Fits g there where
  rule_mem := h.rule_mem
  todo_eq := h.todo_eq
  done_le := h.done_le
  node_isSome := h.node_isSome
  start_le := Nat.le_trans h.start_le hle
  start_lt hpos := Nat.lt_of_lt_of_le (h.start_lt hpos) hle

end Item.Fits

/-- The item with which a rule is opened. -/
def Rule.opening (r : Rule T C F) (here : Nat) : Item T C F := ⟨r, 0, r.body, here, none⟩

theorem IsTabled.opening_fits (hg : g.IsTabled) {c : C} (hr : r ∈ g.rulesOf c) (here : Nat) :
    (r.opening here).Fits g here where
  rule_mem := by
    show r ∈ g.rulesOf r.head
    rw [hg.head_eq c r hr]
    exact hr
  todo_eq := rfl
  done_le := Nat.zero_le _
  node_isSome := rfl
  start_le := Nat.le_refl _
  start_lt h := absurd h (Nat.lt_irrefl 0)

/-! ## How many keys there are -/

/-- The places that a rule contributes. -/
def Rule.places (g : Grammar T C F) (r : Rule T C F) : List Nat :=
  2 * g.index r.head :: (List.range r.body.length).map fun k => 2 * (64 * r.number + k) + 1

/-- The keys of the items that can stand at a position. -/
def keysAt (g : Grammar T C F) (here : Nat) : List Key :=
  g.rules.toList.flatten.flatMap fun r => (r.places g).flatMap fun place =>
    (List.range (here + 1)).map fun start => ⟨place, start⟩

theorem extent_eq (g : Grammar T C F) :
    g.extent = g.rules.toList.flatten.foldl (fun n r => n + r.body.length + 1) 0 := by
  unfold extent
  rw [← Array.foldl_toList, List.foldl_flatten]

theorem length_keysAt (g : Grammar T C F) (here : Nat) :
    (keysAt g here).length = g.extent * (here + 1) := by
  have hrules : ∀ (rules : List (Rule T C F)) (n : Nat),
      n * (here + 1) + (rules.flatMap fun r => (r.places g).flatMap fun place =>
        (List.range (here + 1)).map fun start => (⟨place, start⟩ : Key)).length
          = rules.foldl (fun n r => n + r.body.length + 1) n * (here + 1) := by
    intro rules
    induction rules with
    | nil => intro n; rfl
    | cons r rules ih =>
      intro n
      have hrule : ((r.places g).flatMap fun place =>
          (List.range (here + 1)).map fun start => (⟨place, start⟩ : Key)).length
            = (r.body.length + 1) * (here + 1) := by
        simp [Rule.places, List.length_flatMap, Function.comp_def, Nat.add_mul, Nat.add_comm]
      rw [List.flatMap_cons, List.length_append, hrule, List.foldl_cons, ← ih, ← Nat.add_assoc,
        ← Nat.add_mul, Nat.add_assoc n]
  have hall := hrules g.rules.toList.flatten 0
  rw [Nat.zero_mul, Nat.zero_add, ← extent_eq] at hall
  exact hall

/-- The key of an item at a position is one of those. -/
theorem Item.Fits.key_mem_keysAt (h : item.Fits g here) : item.key g ∈ keysAt g here := by
  have hmem : item.rule ∈ g.rules.toList.flatten := by
    have hrule := h.rule_mem
    unfold rulesOf at hrule
    rw [Array.getD_eq_getD_getElem?] at hrule
    cases hrules : g.rules[g.index item.rule.head]? with
    | none =>
      rw [hrules] at hrule
      cases hrule
    | some rules =>
      rw [hrules] at hrule
      exact List.mem_flatten.2 ⟨rules, Array.mem_toList_iff.2 (Array.mem_of_getElem? hrules), hrule⟩
  have hstart : item.start ∈ List.range (here + 1) :=
    List.mem_range.2 (Nat.lt_succ_of_le h.start_le)
  rw [h.key_eq]
  refine List.mem_flatMap.2 ⟨item.rule, hmem, List.mem_flatMap.2 ?_⟩
  by_cases hdone : item.done = item.rule.body.length
  · refine ⟨2 * g.index item.rule.head, List.mem_cons_self, List.mem_map.2 ⟨item.start, hstart, ?_⟩⟩
    rw [hdone, Rule.keyAt_length]
  · have hlt : item.done < item.rule.body.length := Nat.lt_of_le_of_ne h.done_le hdone
    refine ⟨_, List.mem_cons_of_mem _ (List.mem_map_of_mem (List.mem_range.2 hlt)),
      List.mem_map.2 ⟨item.start, hstart, ?_⟩⟩
    rw [Rule.keyAt_of_lt hlt]

/-- There are no more items with keys of their own than there are keys. -/
theorem length_le_of_nodup {items : List (Item T C F)} (hn : (items.map (Item.key g)).Nodup)
    (h : ∀ item ∈ items, item.Fits g here) : items.length ≤ g.extent * (here + 1) := by
  have hsubset : items.map (Item.key g) ⊆ keysAt g here := by
    intro key hkey
    obtain ⟨item, hitem, rfl⟩ := List.mem_map.1 hkey
    exact (h item hitem).key_mem_keysAt
  have hle := (List.subperm_of_subset hn hsubset).length_le
  rwa [List.length_map, length_keysAt] at hle

/-! ## Work that grows -/

/-- An item with the key has come to the position. -/
def Work.Has (g : Grammar T C F) (w : Work T C F) (key : Key) : Prop :=
  ∃ item ∈ w.items ++ w.awaiting, item.key g = key

/-- Nothing has been given up, and what is new is on the agenda unless it expects a terminal. -/
structure Work.Grows (w w' : Work T C F) : Prop where
  /-- New items are on the agenda. -/
  items : ∃ new, w'.items = new ++ w.items ∧ w'.agenda = new ++ w.agenda
  /-- Items that expect a terminal are kept. -/
  awaiting : ∃ new, w'.awaiting = new ++ w.awaiting
  /-- The keys that have arrived are the same. -/
  arrived : w'.arrived = w.arrived

namespace Work.Grows

theorem of_eq (hitems : w'.items = w.items) (hagenda : w'.agenda = w.agenda)
    (hawaiting : w'.awaiting = w.awaiting) (harrived : w'.arrived = w.arrived) : w.Grows w' :=
  ⟨⟨[], hitems, hagenda⟩, ⟨[], hawaiting⟩, harrived⟩

theorem refl (w : Work T C F) : w.Grows w := of_eq rfl rfl rfl rfl

theorem trans {w'' : Work T C F} (h : w.Grows w') (h' : w'.Grows w'') : w.Grows w'' := by
  obtain ⟨new, hitems, hagenda⟩ := h.items
  obtain ⟨new', hitems', hagenda'⟩ := h'.items
  obtain ⟨late, hawaiting⟩ := h.awaiting
  obtain ⟨late', hawaiting'⟩ := h'.awaiting
  refine ⟨⟨new' ++ new, ?_, ?_⟩, ⟨late' ++ late, ?_⟩, h'.arrived.trans h.arrived⟩
  · rw [hitems', hitems, List.append_assoc]
  · rw [hagenda', hagenda, List.append_assoc]
  · rw [hawaiting', hawaiting, List.append_assoc]

theorem has (h : w.Grows w') (hkey : w.Has g key) : w'.Has g key := by
  obtain ⟨item, hitem, rfl⟩ := hkey
  obtain ⟨new, hitems, -⟩ := h.items
  obtain ⟨late, hawaiting⟩ := h.awaiting
  refine ⟨item, ?_, rfl⟩
  rw [hitems, hawaiting]
  rcases List.mem_append.1 hitem with hitem | hitem
  · exact List.mem_append_left _ (List.mem_append_right _ hitem)
  · exact List.mem_append_right _ (List.mem_append_right _ hitem)

theorem foldl {α : Type} {f : Work T C F → α → Work T C F}
    (hf : ∀ (w : Work T C F) (x : α), w.Grows (f w x)) (xs : List α) (w : Work T C F) :
    w.Grows (xs.foldl f w) := by
  induction xs generalizing w with
  | nil => exact refl w
  | cons x xs ih => exact (hf w x).trans (ih _)

end Work.Grows

theorem Work.put_grows (w : Work T C F) (item : Item T C F) : w.Grows (w.put item) := by
  unfold put
  split
  · exact ⟨⟨[], rfl, rfl⟩, ⟨[item], rfl⟩, rfl⟩
  · exact ⟨⟨[item], rfl, rfl⟩, ⟨[], rfl⟩, rfl⟩

theorem Work.has_put (w : Work T C F) (item : Item T C F) : (w.put item).Has g (item.key g) := by
  unfold put
  split
  · exact ⟨item, List.mem_append_right _ List.mem_cons_self, rfl⟩
  · exact ⟨item, List.mem_append_left _ List.mem_cons_self, rfl⟩

theorem Work.advance_grows (g : Grammar T C F) (here : Nat) (last : NodeRef) (w : Work T C F)
    (item : Item T C F) : w.Grows (w.advance g here last item) := by
  unfold advance
  dsimp only
  split
  · exact .of_eq rfl rfl rfl rfl
  · split
    · exact .of_eq rfl rfl rfl rfl
    · refine Grows.trans ?_ (put_grows _ _)
      exact .of_eq rfl rfl rfl rfl

/-! ## Tidy work -/

theorem Nodes.mem_of_slot? {nodes : Nodes T C F} {slot : Nat} (h : nodes.slot? key = some slot) :
    (key, slot) ∈ nodes.slots := by
  obtain ⟨x, hx, rfl⟩ := Option.map_eq_some_iff.1 h
  have hkey : x.1 = key := by simpa using List.find?_some hx
  rw [← hkey]
  exact List.mem_of_find?_eq_some hx

theorem Nodes.not_mem_of_slot? {nodes : Nodes T C F} (h : nodes.slot? key = none) (slot : Nat) :
    (key, slot) ∉ nodes.slots := by
  intro hmem
  have hfind := List.find?_eq_none.1 (Option.map_eq_none_iff.1 h) (key, slot) hmem
  simp at hfind

/-- What stays true while a position is worked off. -/
structure Work.IsTidy (g : Grammar T C F) (here : Nat) (w : Work T C F) : Prop where
  /-- All items fit. -/
  fits : ∀ item ∈ w.items ++ w.awaiting, item.Fits g here
  /-- Items that expect a terminal are kept apart. -/
  items_plain : ∀ item ∈ w.items, item.expectsTerminal = false
  /-- Nothing else is with them. -/
  awaiting_plain : ∀ item ∈ w.awaiting, item.expectsTerminal = true
  /-- No two other items have the same key. -/
  nodup : (w.items.map (Item.key g)).Nodup
  /-- What has arrived is there. -/
  arrived : ∀ key ∈ w.arrived, w.Has g key
  /-- What has readings is there. -/
  slots : ∀ x ∈ w.nodes.slots, w.Has g x.1
  /-- An item that has read something has arrived or has readings. -/
  known : ∀ item ∈ w.items, 0 < item.done →
    item.key g ∈ w.arrived ∨ ∃ slot, (item.key g, slot) ∈ w.nodes.slots
  /-- An item that has read nothing is that of an opened category. -/
  opening : ∀ item ∈ w.items, item.done = 0 → item.rule.head ∈ w.opened ∧ item.start = here
  /-- The rules of opened categories are there. -/
  opened : ∀ c ∈ w.opened, ∀ r ∈ g.rulesOf c, w.Has g (r.keyAt g 0 here)
  /-- The agenda consists of items. -/
  agenda : ∀ item ∈ w.agenda, item ∈ w.items

namespace Work.IsTidy

/-- An item that has read something has a key that nothing has that has neither arrived nor any
readings. -/
theorem key_not_mem (hg : g.IsTabled) (h : w.IsTidy g here) (hfits : item.Fits g here)
    (hpos : 0 < item.done) (hslot : w.nodes.slot? (item.key g) = none)
    (harrived : item.key g ∉ w.arrived) : item.key g ∉ w.items.map (Item.key g) := by
  intro hmem
  obtain ⟨other, hother, hkey⟩ := List.mem_map.1 hmem
  have hfits' := h.fits other (List.mem_append_left _ hother)
  have hpos' : 0 < other.done := by
    have hlength := (hg.body_length _ _ hfits.rule_mem).1
    have hsame := hkey
    rw [hfits'.key_eq, hfits.key_eq] at hsame
    have hlength' := (hg.body_length _ _ hfits'.rule_mem).1
    obtain ⟨-, ⟨hdone, -, -⟩ | ⟨-, -, hdone⟩⟩ := hg.of_key_eq hfits'.rule_mem hfits.rule_mem
      hfits'.done_le hfits.done_le hsame
    · omega
    · omega
  rcases h.known other hother hpos' with hknown | ⟨slot, hknown⟩
  · exact harrived (hkey ▸ hknown)
  · exact Nodes.not_mem_of_slot? hslot slot (hkey ▸ hknown)

/-- With readings for one more key, what has read something has arrived or has readings. -/
theorem known_open (h : w.IsTidy g here) (key : Key) (reading : Reading T C F) :
    ∀ item ∈ w.items, 0 < item.done → item.key g ∈ w.arrived ∨
      ∃ slot, (item.key g, slot) ∈ (w.nodes.open key reading).slots := by
  intro item hitem hpos
  refine (h.known item hitem hpos).imp_right ?_
  rintro ⟨slot, hmem⟩
  exact ⟨slot, List.mem_cons_of_mem _ hmem⟩

/-- An item with a key of its own is put where it belongs, with its first reading. -/
theorem open_put (hg : g.IsTabled) (h : w.IsTidy g here) (hfits : item.Fits g here)
    (hpos : 0 < item.done) (hslot : w.nodes.slot? (item.key g) = none)
    (harrived : item.key g ∉ w.arrived) (reading : Reading T C F) :
    (Work.put { w with nodes := w.nodes.open (item.key g) reading } item).IsTidy g here := by
  have hgrows : w.Grows (Work.put { w with nodes := w.nodes.open (item.key g) reading } item) := by
    refine Grows.trans ?_ (put_grows _ _)
    exact .of_eq rfl rfl rfl rfl
  have hhas : (Work.put { w with nodes := w.nodes.open (item.key g) reading } item).Has g
      (item.key g) := has_put _ _
  have hnew := h.key_not_mem hg hfits hpos hslot harrived
  revert hgrows hhas
  unfold Work.put
  split
  · rename_i hterminal
    intro hgrows hhas
    refine ⟨?_, h.items_plain, ?_, h.nodup, fun key hkey => hgrows.has (h.arrived key hkey), ?_,
      h.known_open _ _, h.opening, fun c hc r hr => hgrows.has (h.opened c hc r hr), h.agenda⟩
    · intro other hother
      rcases List.mem_append.1 hother with hother | hother
      · exact h.fits other (List.mem_append_left _ hother)
      · rcases List.mem_cons.1 hother with rfl | hother
        · exact hfits
        · exact h.fits other (List.mem_append_right _ hother)
    · rintro other (_ | ⟨_, hother⟩)
      · exact hterminal
      · exact h.awaiting_plain other hother
    · rintro x (_ | ⟨_, hx⟩)
      · exact hhas
      · exact hgrows.has (h.slots x hx)
  · rename_i hplain
    intro hgrows hhas
    refine ⟨?_, ?_, h.awaiting_plain, List.nodup_cons.2 ⟨hnew, h.nodup⟩,
      fun key hkey => hgrows.has (h.arrived key hkey), ?_, ?_, ?_,
      fun c hc r hr => hgrows.has (h.opened c hc r hr), ?_⟩
    · rintro other (_ | ⟨_, hother⟩)
      · exact hfits
      · exact h.fits other hother
    · rintro other (_ | ⟨_, hother⟩)
      · simpa using hplain
      · exact h.items_plain other hother
    · rintro x (_ | ⟨_, hx⟩)
      · exact hhas
      · exact hgrows.has (h.slots x hx)
    · rintro other (_ | ⟨_, hother⟩) hpos'
      · exact Or.inr ⟨_, List.mem_cons_self⟩
      · exact h.known_open _ _ other hother hpos'
    · rintro other (_ | ⟨_, hother⟩) hzero
      · omega
      · exact h.opening other hother hzero
    · rintro other (_ | ⟨_, hother⟩)
      · exact List.mem_cons_self
      · exact List.mem_cons_of_mem _ (h.agenda other hother)

/-- An item that goes on from one position is noted at another one. -/
theorem advance (hg : g.IsTabled) (h : w.IsTidy g here) (hitem : item.Fits g j) (hj : j < here)
    {c : C} {rest : List (Symbol T C)} (htodo : item.todo = .category c :: rest)
    (last : NodeRef) : (w.advance g here last item).IsTidy g here ∧
      (w.advance g here last item).Has g (item.rule.keyAt g (item.done + 1) item.start) := by
  unfold Work.advance
  dsimp only
  generalize hnew : item.next ⟨here, .category, w.nodes.readings.size⟩ = new
  have hfits : new.Fits g here := hnew ▸ hitem.next htodo hj _
  have hpos : 0 < new.done := hnew ▸ Nat.succ_pos item.done
  have hkey : new.key g = item.rule.keyAt g (item.done + 1) item.start := by
    rw [← hnew]
    exact hitem.key_next htodo hj _
  rw [← hkey]
  split
  · rename_i slot hslot
    exact ⟨⟨h.fits, h.items_plain, h.awaiting_plain, h.nodup, h.arrived, h.slots, h.known,
      h.opening, h.opened, h.agenda⟩, h.slots _ (Nodes.mem_of_slot? hslot)⟩
  · rename_i hslot
    split
    · rename_i harrived
      have hhas := h.arrived _ (List.contains_iff_mem.1 harrived)
      refine ⟨⟨h.fits, h.items_plain, h.awaiting_plain, h.nodup, h.arrived, ?_, h.known_open _ _,
        h.opening, h.opened, h.agenda⟩, hhas⟩
      rintro x (_ | ⟨_, hx⟩)
      · exact hhas
      · exact h.slots x hx
    · rename_i harrived
      refine ⟨h.open_put hg hfits hpos hslot ?_ _, has_put _ _⟩
      simpa [List.contains_iff_mem] using harrived

/-- Items that are put one after the other. -/
theorem foldl_put (items : List (Item T C F)) (w : Work T C F) :
    items.foldl Work.put w =
      { w with
        items := (items.filter (!·.expectsTerminal)).reverse ++ w.items
        awaiting := (items.filter (·.expectsTerminal)).reverse ++ w.awaiting
        agenda := (items.filter (!·.expectsTerminal)).reverse ++ w.agenda } := by
  induction items generalizing w with
  | nil => rfl
  | cons item items ih =>
    rw [List.foldl_cons, ih]
    unfold Work.put
    cases hterminal : item.expectsTerminal <;> simp [hterminal]

/-- Two rules of a category have openings with different keys. -/
theorem nodup_openings (hg : g.IsTabled) (c : C) (here : Nat) :
    (((g.rulesOf c).map fun r => r.opening here).map (Item.key g)).Nodup := by
  rw [List.map_map]
  refine List.Nodup.map_on ?_ (hg.nodup c)
  intro r hr r' hr' hkey
  simp only [Function.comp_apply, (hg.opening_fits hr here).key_eq,
    (hg.opening_fits hr' here).key_eq] at hkey
  have hlength := (hg.body_length c r hr).1
  obtain ⟨-, ⟨hdone, -, -⟩ | ⟨-, heq, -⟩⟩ :=
    hg.of_key_eq hr hr' (Nat.zero_le _) (Nat.zero_le _) hkey
  · have hzero : 0 = r.body.length := hdone
    omega
  · exact heq

/-- An item with the key of an opening is one, and its category has been opened. -/
theorem opening_key_not_mem (hg : g.IsTabled) (h : w.IsTidy g here) {c : C} (hc : c ∉ w.opened)
    {r : Rule T C F} (hr : r ∈ g.rulesOf c) :
    (r.opening here).key g ∉ w.items.map (Item.key g) := by
  intro hmem
  obtain ⟨other, hother, heq⟩ := List.mem_map.1 hmem
  have hfits := hg.opening_fits hr here
  have hfits' := h.fits other (List.mem_append_left _ hother)
  have hlength := (hg.body_length c r hr).1
  rw [hfits.key_eq, hfits'.key_eq] at heq
  obtain ⟨-, ⟨-, hdone, -⟩ | ⟨-, hrule, hdone⟩⟩ := hg.of_key_eq hfits'.rule_mem hfits.rule_mem
    hfits'.done_le hfits.done_le heq
  · have hzero : 0 = r.body.length := hdone
    omega
  · have hhead := (h.opening other hother hdone).1
    rw [hrule] at hhead
    have hsame : r.head = c := hg.head_eq c r hr
    exact hc (hsame ▸ hhead)

/-- The rules of a category that has not been opened are opened. -/
theorem openOne (hg : g.IsTabled) (h : w.IsTidy g here) {c : C} (hc : c ∉ w.opened) :
    (((g.rulesOf c).map fun r => r.opening here).foldl Work.put
      { w with opened := c :: w.opened }).IsTidy g here := by
  have hgrows : w.Grows (((g.rulesOf c).map fun r => r.opening here).foldl Work.put
      { w with opened := c :: w.opened }) := by
    refine Grows.trans ?_ (.foldl (fun w item => put_grows w item) _ _)
    exact .of_eq rfl rfl rfl rfl
  have hof : ∀ {p : Item T C F → Bool} {item : Item T C F},
      item ∈ (((g.rulesOf c).map fun r => r.opening here).filter p).reverse →
        p item = true ∧ ∃ r ∈ g.rulesOf c, item = r.opening here := by
    intro p item hitem
    obtain ⟨hmem, hp⟩ := List.mem_filter.1 (List.mem_reverse.1 hitem)
    obtain ⟨r, hr, rfl⟩ := List.mem_map.1 hmem
    exact ⟨hp, r, hr, rfl⟩
  revert hgrows
  rw [foldl_put]
  intro hgrows
  refine ⟨?_, ?_, ?_, ?_, fun key hkey => hgrows.has (h.arrived key hkey),
    fun x hx => hgrows.has (h.slots x hx), ?_, ?_, ?_, ?_⟩
  · intro item hitem
    rcases List.mem_append.1 hitem with hitem | hitem <;>
      rcases List.mem_append.1 hitem with hitem | hitem
    · obtain ⟨-, r, hr, rfl⟩ := hof hitem
      exact hg.opening_fits hr here
    · exact h.fits item (List.mem_append_left _ hitem)
    · obtain ⟨-, r, hr, rfl⟩ := hof hitem
      exact hg.opening_fits hr here
    · exact h.fits item (List.mem_append_right _ hitem)
  · intro item hitem
    rcases List.mem_append.1 hitem with hitem | hitem
    · simpa using (hof hitem).1
    · exact h.items_plain item hitem
  · intro item hitem
    rcases List.mem_append.1 hitem with hitem | hitem
    · exact (hof hitem).1
    · exact h.awaiting_plain item hitem
  · rw [List.map_append, List.nodup_append]
    refine ⟨?_, h.nodup, ?_⟩
    · rw [List.map_reverse, List.nodup_reverse]
      exact (nodup_openings hg c here).sublist (List.filter_sublist.map _)
    · rintro key hkey key' hkey' rfl
      obtain ⟨item, hitem, rfl⟩ := List.mem_map.1 hkey
      obtain ⟨-, r, hr, rfl⟩ := hof hitem
      exact h.opening_key_not_mem hg hc hr hkey'
  · intro item hitem hpos
    rcases List.mem_append.1 hitem with hitem | hitem
    · obtain ⟨-, r, -, rfl⟩ := hof hitem
      exact absurd hpos (Nat.lt_irrefl 0)
    · exact h.known item hitem hpos
  · intro item hitem hzero
    rcases List.mem_append.1 hitem with hitem | hitem
    · obtain ⟨-, r, hr, rfl⟩ := hof hitem
      have hsame : r.head = c := hg.head_eq c r hr
      exact ⟨hsame ▸ List.mem_cons_self, rfl⟩
    · obtain ⟨hhead, hstart⟩ := h.opening item hitem hzero
      exact ⟨List.mem_cons_of_mem _ hhead, hstart⟩
  · rintro d (_ | ⟨_, hd⟩) r hr
    · refine ⟨r.opening here, ?_, (hg.opening_fits hr here).key_eq⟩
      have hmem : r.opening here ∈ (g.rulesOf c).map fun r => r.opening here :=
        List.mem_map_of_mem hr
      cases hterminal : (r.opening here).expectsTerminal with
      | false =>
        refine List.mem_append_left _ (List.mem_append_left _ (List.mem_reverse.2 ?_))
        exact List.mem_filter.2 ⟨hmem, by simp [hterminal]⟩
      | true =>
        refine List.mem_append_right _ (List.mem_append_left _ (List.mem_reverse.2 ?_))
        exact List.mem_filter.2 ⟨hmem, hterminal⟩
    · exact hgrows.has (h.opened d hd r hr)
  · intro item hitem
    rcases List.mem_append.1 hitem with hitem | hitem
    · exact List.mem_append_left _ hitem
    · exact List.mem_append_right _ (h.agenda item hitem)

/-- What waits for a category at one position moves on to another one. -/
theorem foldl_advance (hg : g.IsTabled) (hj : j < here) (last : NodeRef)
    {others : List (Item T C F)} (hothers : ∀ other ∈ others, other.Fits g j ∧
      ∃ c rest, other.todo = .category c :: rest) (h : w.IsTidy g here) :
    (others.foldl (Work.advance g here last) w).IsTidy g here ∧ ∀ other ∈ others,
      (others.foldl (Work.advance g here last) w).Has g
        (other.rule.keyAt g (other.done + 1) other.start) := by
  induction others generalizing w with
  | nil => exact ⟨h, fun _ hother => absurd hother List.not_mem_nil⟩
  | cons other others ih =>
    obtain ⟨hfits, c, rest, htodo⟩ := hothers other List.mem_cons_self
    obtain ⟨htidy, hhas⟩ := h.advance hg hfits hj htodo last
    obtain ⟨htidy', hall⟩ := ih (fun x hx => hothers x (List.mem_cons_of_mem _ hx)) htidy
    refine ⟨htidy', ?_⟩
    rintro x (_ | ⟨_, hx⟩)
    · exact (Grows.foldl (fun w x => advance_grows g here last w x) others _).has hhas
    · exact hall x hx

/-- Work without the first item of its agenda. -/
theorem tail {agenda : List (Item T C F)} (h : w.IsTidy g here)
    (hagenda : w.agenda = item :: agenda) : ({ w with agenda } : Work T C F).IsTidy g here :=
  ⟨h.fits, h.items_plain, h.awaiting_plain, h.nodup, h.arrived, h.slots, h.known, h.opening,
    h.opened, fun x hx => h.agenda x (hagenda ▸ List.mem_cons_of_mem _ hx)⟩

end Work.IsTidy

/-! ## Working the agenda off -/

/-- The items of earlier positions fit there and expect no terminal. -/
def ColumnsFit (g : Grammar T C F) (columns : Array (Column T C F)) : Prop :=
  ∀ (j : Nat) (column : Column T C F), columns[j]? = some column → ∀ item ∈ column.items,
    item.Fits g j

variable [DecidableEq C]

theorem Work.openCategory_grows (g : Grammar T C F) (here : Nat) (w : Work T C F) (c : C) :
    w.Grows (w.openCategory g here c) := by
  unfold openCategory
  split
  · exact .refl w
  · refine .foldl (fun w d => ?_) _ w
    split
    · exact .refl w
    · refine Grows.trans ?_ (.foldl (fun w r => put_grows w _) _ _)
      exact .of_eq rfl rfl rfl rfl

theorem Work.step_grows (g : Grammar T C F) (columns : Array (Column T C F)) (here : Nat)
    (w : Work T C F) (item : Item T C F) : w.Grows (w.step g columns here item) := by
  unfold step
  split
  · split
    · exact .foldl (fun w other => advance_grows g here _ w other) _ w
    · exact .refl w
  · exact openCategory_grows g here w _
  · exact .refl w

/-- A category is opened, and so are those it can begin with. -/
theorem Work.IsTidy.openCategory (hg : g.IsTabled) (h : w.IsTidy g here) (c : C) :
    (w.openCategory g here c).IsTidy g here ∧ c ∈ (w.openCategory g here c).opened := by
  unfold Work.openCategory
  split
  · rename_i hopened
    exact ⟨h, List.contains_iff_mem.1 hopened⟩
  · have hall : ∀ (ds : List C) (w : Work T C F), w.IsTidy g here →
        (ds.foldl (fun w d => if w.opened.contains d then w
          else (g.rulesOf d).foldl (fun w r => w.put ⟨r, 0, r.body, here, none⟩)
            { w with opened := d :: w.opened }) w).IsTidy g here ∧
        ∀ d, d ∈ w.opened ∨ d ∈ ds → d ∈ (ds.foldl (fun w d => if w.opened.contains d then w
          else (g.rulesOf d).foldl (fun w r => w.put ⟨r, 0, r.body, here, none⟩)
            { w with opened := d :: w.opened }) w).opened := by
      intro ds
      induction ds with
      | nil =>
        intro w h
        exact ⟨h, fun d hd => hd.resolve_right List.not_mem_nil⟩
      | cons d ds ih =>
        intro w h
        rw [List.foldl_cons]
        split
        · rename_i hopened
          obtain ⟨htidy, hmem⟩ := ih w h
          refine ⟨htidy, fun d' hd' => hmem d' ?_⟩
          rcases hd' with hd' | hd'
          · exact Or.inl hd'
          · rcases List.mem_cons.1 hd' with rfl | hd'
            · exact Or.inl (List.contains_iff_mem.1 hopened)
            · exact Or.inr hd'
        · rename_i hopened
          have hone := h.openOne hg (c := d) (by simpa [List.contains_iff_mem] using hopened)
          have hsame : (((g.rulesOf d).map fun r => r.opening here).foldl Work.put
              { w with opened := d :: w.opened }).opened = d :: w.opened := by
            rw [foldl_put]
          rw [List.foldl_map] at hone hsame
          obtain ⟨htidy, hmem⟩ := ih _ hone
          refine ⟨htidy, fun d' hd' => hmem d' ?_⟩
          have hcases : d' ∈ d :: w.opened ∨ d' ∈ ds := by
            rcases hd' with hd' | hd'
            · exact Or.inl (List.mem_cons_of_mem _ hd')
            · rcases List.mem_cons.1 hd' with rfl | hd'
              · exact Or.inl List.mem_cons_self
              · exact Or.inr hd'
          refine hcases.imp_left fun hd' => ?_
          rw [← hsame] at hd'
          exact hd'
    obtain ⟨htidy, hmem⟩ := hall (g.openingsOf c) w h
    exact ⟨htidy, hmem c (Or.inr (hg.mem_openings c))⟩

/-- What is done for an item: the rules of the category that it expects are there, and what waits
for the category that it has finished has moved on. -/
structure Work.Handles (g : Grammar T C F) (columns : Array (Column T C F)) (here : Nat)
    (w : Work T C F) (item : Item T C F) : Prop where
  /-- The category that it expects has been opened. -/
  opened : ∀ c rest, item.todo = .category c :: rest → ∀ r ∈ g.rulesOf c,
    w.Has g (r.keyAt g 0 here)
  /-- What waits for the category that it has finished has moved on. -/
  advanced : item.todo = [] → ∀ column, columns[item.start]? = some column →
    ∀ other ∈ column.items, other.expects item.rule.head = true →
      w.Has g (other.rule.keyAt g (other.done + 1) other.start)

theorem Item.exists_of_expects {c : C} (h : item.expects c = true) :
    ∃ rest, item.todo = .category c :: rest := by
  unfold expects at h
  split at h
  · rename_i d rest htodo
    obtain rfl := of_decide_eq_true h
    exact ⟨rest, htodo⟩
  · cases h

namespace Work

variable {columns : Array (Column T C F)}

theorem Handles.mono (h : w.Handles g columns here item) (hgrows : w.Grows w') :
    w'.Handles g columns here item where
  opened c rest htodo r hr := hgrows.has (h.opened c rest htodo r hr)
  advanced htodo column hcolumn other hother hexpects :=
    hgrows.has (h.advanced htodo column hcolumn other hother hexpects)

/-- Looking at an item does for it what is to be done. -/
theorem step_handles (hg : g.IsTabled) (hcolumns : ColumnsFit g columns) (h : w.IsTidy g here)
    (hfits : item.Fits g here) : (w.step g columns here item).IsTidy g here ∧
      (w.step g columns here item).Handles g columns here item := by
  unfold step
  split
  · rename_i node htodo hnode
    have hlt := hfits.start_lt (hfits.done_pos hg htodo)
    split
    · rename_i column hcolumn
      have hothers : ∀ other ∈ (column.items.filter (Item.expects item.rule.head)).reverse,
          other.Fits g item.start ∧ ∃ c rest, other.todo = .category c :: rest := by
        intro other hother
        obtain ⟨hmem, hexpects⟩ := List.mem_filter.1 (List.mem_reverse.1 hother)
        exact ⟨hcolumns _ _ hcolumn other hmem, _, Item.exists_of_expects hexpects⟩
      obtain ⟨htidy, hall⟩ := IsTidy.foldl_advance hg hlt node hothers h
      refine ⟨htidy, ⟨fun c rest hexpected => ?_, fun _ column' hcolumn' other hother hexpects => ?_⟩⟩
      · rw [htodo] at hexpected
        cases hexpected
      · obtain rfl := Option.some.inj (hcolumn.symm.trans hcolumn')
        exact hall other (List.mem_reverse.2 (List.mem_filter.2 ⟨hother, hexpects⟩))
    · rename_i hcolumn
      refine ⟨h, ⟨fun c rest hexpected => ?_, fun _ column hcolumn' => ?_⟩⟩
      · rw [htodo] at hexpected
        cases hexpected
      · rw [hcolumn] at hcolumn'
        cases hcolumn'
  · rename_i c rest htodo
    obtain ⟨htidy, hopened⟩ := h.openCategory hg c
    refine ⟨htidy, ⟨fun d rest' hexpected r hr => ?_, fun hnil => ?_⟩⟩
    · rw [htodo] at hexpected
      obtain ⟨hsame, -⟩ := List.cons.inj hexpected
      obtain rfl := Symbol.category.inj hsame
      exact htidy.opened c hopened r hr
    · rw [htodo] at hnil
      cases hnil
  · rename_i hcategory hfinished
    refine ⟨h, ⟨fun c rest htodo => absurd htodo (hcategory c rest), fun htodo => ?_⟩⟩
    have hnode := hfits.node_isSome
    rw [decide_eq_true (hfits.done_pos hg htodo)] at hnode
    obtain ⟨node, hnode⟩ := Option.isSome_iff_exists.1 hnode
    exact absurd hnode (hfinished node htodo)

/-- Every item has been looked at or is on the agenda. -/
def IsClosed (g : Grammar T C F) (columns : Array (Column T C F)) (here : Nat)
    (w : Work T C F) : Prop := ∀ item ∈ w.items, item ∈ w.agenda ∨ w.Handles g columns here item

/-- Looking at the first item of the agenda keeps everything as it should be. -/
theorem isClosed_step {agenda : List (Item T C F)} (hg : g.IsTabled)
    (hcolumns : ColumnsFit g columns) (h : w.IsTidy g here) (hclosed : w.IsClosed g columns here)
    (hagenda : w.agenda = item :: agenda) :
    (step g columns here { w with agenda } item).IsTidy g here ∧
      (step g columns here { w with agenda } item).IsClosed g columns here := by
  have hitem := h.agenda item (hagenda ▸ List.mem_cons_self)
  have hfits := h.fits item (List.mem_append_left _ hitem)
  obtain ⟨htidy, hhandles⟩ := step_handles hg hcolumns (h.tail hagenda) hfits
  have hgrows := step_grows g columns here { w with agenda } item
  refine ⟨htidy, fun other hother => ?_⟩
  obtain ⟨new, hitems, hagenda'⟩ := hgrows.items
  rw [hitems] at hother
  rw [hagenda']
  rcases List.mem_append.1 hother with hnew | hold
  · exact Or.inl (List.mem_append_left _ hnew)
  · rcases hclosed other hold with hwaits | hdone
    · rw [hagenda] at hwaits
      rcases List.mem_cons.1 hwaits with rfl | hwaits
      · exact Or.inr hhandles
      · exact Or.inl (List.mem_append_right _ hwaits)
    · have hsame : ({ w with agenda } : Work T C F).Handles g columns here other :=
        ⟨hdone.opened, hdone.advanced⟩
      exact Or.inr (hsame.mono hgrows)

/-- Working the agenda off keeps everything as it should be. -/
theorem isClosed_run (hg : g.IsTabled) (hcolumns : ColumnsFit g columns) (fuel : Nat)
    (h : w.IsTidy g here) (hclosed : w.IsClosed g columns here) :
    (run g columns here fuel w).IsTidy g here ∧
      (run g columns here fuel w).IsClosed g columns here := by
  induction fuel generalizing w with
  | zero => exact ⟨h, hclosed⟩
  | succ fuel ih =>
    rw [run]
    split
    · exact ⟨h, hclosed⟩
    · rename_i item agenda hagenda
      obtain ⟨htidy, hclosed'⟩ := isClosed_step hg hcolumns h hclosed hagenda
      exact ih htidy hclosed'

theorem run_has (columns : Array (Column T C F)) (here fuel : Nat) (h : w.Has g key) :
    (run g columns here fuel w).Has g key := by
  induction fuel generalizing w with
  | zero => exact h
  | succ fuel ih =>
    rw [run]
    split
    · exact h
    · rename_i item agenda hagenda
      exact ih ((step_grows g columns here { w with agenda } item).has h)

/-- The agenda is worked off: every item is on it once, and there are no more items than keys. -/
theorem agenda_run (hg : g.IsTabled) (hcolumns : ColumnsFit g columns) (fuel : Nat)
    (h : w.IsTidy g here) (hclosed : w.IsClosed g columns here)
    (hfuel : g.extent * (here + 1) + w.agenda.length ≤ w.items.length + fuel) :
    (run g columns here fuel w).agenda = [] := by
  induction fuel generalizing w with
  | zero =>
    have hle := length_le_of_nodup h.nodup fun item hitem =>
      h.fits item (List.mem_append_left _ hitem)
    rw [run]
    exact List.eq_nil_of_length_eq_zero (by omega)
  | succ fuel ih =>
    rw [run]
    split
    · rename_i hagenda
      exact hagenda
    · rename_i item agenda hagenda
      obtain ⟨htidy, hclosed'⟩ := isClosed_step hg hcolumns h hclosed hagenda
      obtain ⟨new, hitems, hagenda'⟩ := (step_grows g columns here { w with agenda } item).items
      refine ih htidy hclosed' ?_
      rw [hitems, hagenda', List.length_append, List.length_append]
      rw [hagenda, List.length_cons] at hfuel
      show _ + (new.length + agenda.length) ≤ new.length + w.items.length + fuel
      omega

end Work

end SkinCompiler.Grammar
