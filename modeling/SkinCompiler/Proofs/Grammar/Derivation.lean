import Mathlib.Data.List.Basic
import SkinCompiler.Grammar.Derivation

/-!
# What derivations read

A derivation that passes the check reads a range of the text: its terminals follow one another,
with nothing but gaps between them, and every node is an instance of a rule of the grammar.

* `Reads`, `ReadsRow` -- the ranges that derivations and rows of them read;
* `reads_of_extent?`, `extent?_of_reads` -- derivations that pass the check read the text, and pass
  it if they do;
* `derive_reads` -- what is derived reads the whole text;
* `Reads.start?`, `Reads.stop?` -- the range is the one that the derivation names;
* `ReadsRow.first`, `ReadsRow.last` -- what stands at the ends of a row stands at the ends of its
  range;
* `IsPart`, `IsPart.exists_reads` -- the parts of a derivation read parts of its range.
-/

namespace SkinCompiler.Grammar

variable {T C F : Type} {g : Grammar T C F} {text : Text} {t : T} {rule : Rule T C F}
variable {d : Derivation T C F} {ds es : List (Derivation T C F)} {a b p q m n : Nat}

/-! ## Ranges -/

/-- A grammar none of whose rules is empty and whose terminals cover no more than there is. -/
structure IsProper (g : Grammar T C F) : Prop where
  /-- Every rule reads something. -/
  body_ne_nil : ∀ c, ∀ r ∈ g.rulesOf c, r.body ≠ []
  /-- A terminal ends where the text ends at the latest. -/
  measure_le : ∀ t text n, g.measure t text = some n → n ≤ text.length

/-- Nothing but gaps lies between two positions. -/
structure IsGap (g : Grammar T C F) (text : Text) (p q : Nat) : Prop where
  /-- The positions are in order. -/
  le : p ≤ q
  /-- Gaps cover what lies between them. -/
  covers : gapCovers g (q - p) (text.drop p) (q - p) = true

mutual

/-- The derivation reads the positions from the first up to the second one. -/
inductive Reads (g : Grammar T C F) (text : Text) : Derivation T C F → Nat → Nat → Prop
  /-- A terminal covers as much as it measures. -/
  | terminal {t : T} {a b : Nat} (lt : a < b) (measure : g.measure t (text.drop a) = some (b - a)) :
    Reads g text (.terminal t a b) a b
  /-- A rule reads what its symbols read. -/
  | node {rule : Rule T C F} {ds : List (Derivation T C F)} {a b : Nat}
    (rule_mem : rule ∈ g.rulesOf rule.head) (symbols : ds.map Derivation.symbol = rule.body)
    (row : ReadsRow g text ds a b) : Reads g text (.node rule ds) a b

/-- The derivations read the positions from the first up to the second one, one after the other. -/
inductive ReadsRow (g : Grammar T C F) (text : Text) : List (Derivation T C F) → Nat → Nat → Prop
  /-- A single derivation. -/
  | one {d : Derivation T C F} {a b : Nat} (first : Reads g text d a b) : ReadsRow g text [d] a b
  /-- Several derivations with gaps between them. -/
  | cons {d : Derivation T C F} {ds : List (Derivation T C F)} {a m n b : Nat}
    (first : Reads g text d a m) (gap : IsGap g text m n) (rest : ReadsRow g text ds n b) :
    ReadsRow g text (d :: ds) a b

end

mutual

theorem Reads.lt : ∀ {d : Derivation T C F} {a b : Nat}, Reads g text d a b → a < b
  | _, _, _, .terminal lt _ => lt
  | _, _, _, .node _ _ row => row.lt

theorem ReadsRow.lt : ∀ {ds : List (Derivation T C F)} {a b : Nat},
    ReadsRow g text ds a b → a < b
  | _, _, _, .one first => first.lt
  | _, _, _, .cons first gap rest => by
    have hfirst := first.lt
    have hgap := gap.le
    have hrest := rest.lt
    omega

end

mutual

theorem Reads.le_length (hg : g.IsProper) :
    ∀ {d : Derivation T C F} {a b : Nat}, Reads g text d a b → b ≤ text.length
  | _, a, b, .terminal lt measure => by
    have hle := hg.measure_le _ _ _ measure
    rw [List.length_drop] at hle
    omega
  | _, _, _, .node _ _ row => row.le_length hg

theorem ReadsRow.le_length (hg : g.IsProper) :
    ∀ {ds : List (Derivation T C F)} {a b : Nat}, ReadsRow g text ds a b → b ≤ text.length
  | _, _, _, .one first => first.le_length hg
  | _, _, _, .cons _ _ rest => rest.le_length hg

end

/-! ## The ranges that derivations name -/

mutual

theorem Reads.start? :
    ∀ {d : Derivation T C F} {a b : Nat}, Reads g text d a b → d.start? = some a
  | _, _, _, .terminal _ _ => rfl
  | _, _, _, .node _ _ row => row.startOfRow?

theorem ReadsRow.startOfRow? : ∀ {ds : List (Derivation T C F)} {a b : Nat},
    ReadsRow g text ds a b → Derivation.startOfRow? ds = some a
  | _, _, _, .one first => by rw [Derivation.startOfRow?, first.start?]
  | _, _, _, .cons first _ _ => by rw [Derivation.startOfRow?, first.start?]

end

mutual

theorem Reads.stop? :
    ∀ {d : Derivation T C F} {a b : Nat}, Reads g text d a b → d.stop? = some b
  | _, _, _, .terminal _ _ => rfl
  | _, _, _, .node _ _ row => row.stopOfRow?

theorem ReadsRow.stopOfRow? : ∀ {ds : List (Derivation T C F)} {a b : Nat},
    ReadsRow g text ds a b → Derivation.stopOfRow? ds = some b
  | _, _, _, .one first => by
    rw [Derivation.stopOfRow?, Derivation.stopOfRow?]
    exact first.stop?
  | _, _, _, .cons _ _ rest => by rw [Derivation.stopOfRow?, rest.stopOfRow?]

end

/-! ## Rows -/

theorem ReadsRow.ne_nil (h : ReadsRow g text ds a b) : ds ≠ [] := by
  cases h <;> simp

/-- A single derivation reads the range of its row. -/
theorem ReadsRow.of_singleton (h : ReadsRow g text [d] a b) : Reads g text d a b := by
  cases h with
  | one first => exact first
  | cons _ _ rest => cases rest

/-- Every derivation of a row reads a part of the range of the row. -/
theorem ReadsRow.exists_reads (h : ReadsRow g text ds a b) (hd : d ∈ ds) :
    ∃ m n, a ≤ m ∧ n ≤ b ∧ Reads g text d m n := by
  induction ds generalizing a with
  | nil => cases hd
  | cons e es ih =>
    cases h with
    | one first =>
      obtain rfl : d = e := by simpa using hd
      exact ⟨a, b, Nat.le_refl a, Nat.le_refl b, first⟩
    | @cons _ _ _ m n _ first gap rest =>
      have hfirst := first.lt
      have hgap := gap.le
      have hrest := rest.lt
      rcases List.mem_cons.1 hd with rfl | hd
      · exact ⟨a, m, Nat.le_refl _, by omega, first⟩
      · obtain ⟨k, l, hk, hl, hread⟩ := ih rest hd
        exact ⟨k, l, by omega, hl, hread⟩

/-- The first derivation of a row begins where the row begins. -/
theorem ReadsRow.first (h : ReadsRow g text ds a b) {s : Symbol T C}
    (hs : (ds.map Derivation.symbol).head? = some s) :
    ∃ d m, d.symbol = s ∧ Reads g text d a m ∧ m ≤ b := by
  cases h with
  | @one d _ _ first => exact ⟨d, b, by simpa using hs, first, Nat.le_refl b⟩
  | @cons d _ _ m _ _ first gap rest =>
    have hgap := gap.le
    have hrest := rest.lt
    exact ⟨d, m, by simpa using hs, first, by omega⟩

/-- The last derivation of a row ends where the row ends. -/
theorem ReadsRow.last (h : ReadsRow g text ds a b) {s : Symbol T C}
    (hs : (ds.map Derivation.symbol).getLast? = some s) :
    ∃ d m, d.symbol = s ∧ a ≤ m ∧ Reads g text d m b := by
  induction ds generalizing a with
  | nil => cases hs
  | cons d es ih =>
    cases h with
    | one first => exact ⟨d, a, by simpa using hs, Nat.le_refl a, first⟩
    | cons first gap rest =>
      have hlast : (es.map Derivation.symbol).getLast? = some s := by
        obtain ⟨e, es, rfl⟩ := List.exists_cons_of_ne_nil rest.ne_nil
        simpa using hs
      obtain ⟨d', m, hd', hm, hread⟩ := ih rest hlast
      have hfirst := first.lt
      have hgap := gap.le
      exact ⟨d', m, hd', by omega, hread⟩

theorem Reads.of_terminal (h : Reads g text d a b) (hs : d.symbol = .terminal t) :
    g.measure t (text.drop a) = some (b - a) := by
  cases h with
  | terminal _ measure =>
    obtain rfl : _ = t := by simpa [Derivation.symbol] using hs
    exact measure
  | node _ _ _ => cases hs

theorem Reads.of_category (h : Reads g text d a b) {c : C} (hs : d.symbol = .category c) :
    ∃ rule ds, d = .node rule ds ∧ rule.head = c ∧ rule ∈ g.rulesOf c ∧
      ds.map Derivation.symbol = rule.body ∧ ReadsRow g text ds a b := by
  cases h with
  | terminal _ _ => cases hs
  | @node rule ds _ _ hmem hsymbols hrow =>
    obtain rfl : rule.head = c := by simpa [Derivation.symbol] using hs
    exact ⟨rule, ds, rfl, rfl, hmem, hsymbols, hrow⟩

/-! ## Parts -/

/-- A derivation is a part of another one, or the same. -/
inductive IsPart (e : Derivation T C F) : Derivation T C F → Prop
  /-- It is the derivation itself. -/
  | self : IsPart e e
  /-- It is a part of what a symbol of the rule reads. -/
  | part {rule : Rule T C F} {ds : List (Derivation T C F)} {d : Derivation T C F} (mem : d ∈ ds)
    (h : IsPart e d) : IsPart e (.node rule ds)

theorem isPart_node_iff {e : Derivation T C F} :
    IsPart e (.node rule ds) ↔ e = .node rule ds ∨ ∃ d ∈ ds, IsPart e d := by
  constructor
  · intro h
    cases h with
    | self => exact Or.inl rfl
    | part mem h => exact Or.inr ⟨_, mem, h⟩
  · rintro (rfl | ⟨d, hd, h⟩)
    · exact .self
    · exact .part hd h

theorem isPart_terminal_iff {e : Derivation T C F} :
    IsPart e (.terminal t a b) ↔ e = .terminal t a b := by
  constructor
  · intro h
    cases h
    rfl
  · rintro rfl
    exact .self

theorem IsPart.trans {e f : Derivation T C F} (h : IsPart e f) (h' : IsPart f d) : IsPart e d := by
  induction h' with
  | self => exact h
  | part mem _ ih => exact .part mem ih

/-- A part reads a part of the range. -/
theorem IsPart.exists_reads {e : Derivation T C F} (h : IsPart e d) (hd : Reads g text d a b) :
    ∃ m n, a ≤ m ∧ n ≤ b ∧ Reads g text e m n := by
  induction h generalizing a b with
  | self => exact ⟨a, b, Nat.le_refl a, Nat.le_refl b, hd⟩
  | part mem _ ih =>
    cases hd with
    | node _ _ row =>
      obtain ⟨k, l, hk, hl, hread⟩ := row.exists_reads mem
      obtain ⟨m, n, hm, hn, hreads⟩ := ih hread
      exact ⟨m, n, Nat.le_trans hk hm, Nat.le_trans hn hl, hreads⟩

/-! ## Derivations that pass the check -/

variable [DecidableEq T] [DecidableEq C] [DecidableEq F]

theorem Derivation.extent?_terminal :
    (Derivation.terminal t a b : Derivation T C F).extent? g text p = some q ↔
      IsGap g text p a ∧ a < b ∧ g.measure t (text.drop a) = some (b - a) ∧ b = q := by
  unfold Derivation.extent?
  constructor
  · intro h
    split at h
    · rename_i hif
      simp only [Bool.and_eq_true, decide_eq_true_eq, beq_iff_eq] at hif
      obtain ⟨⟨⟨hle, hlt⟩, hgap⟩, hmeasure⟩ := hif
      exact ⟨⟨hle, hgap⟩, hlt, hmeasure, by simpa using h⟩
    · cases h
  · rintro ⟨⟨hle, hgap⟩, hlt, hmeasure, rfl⟩
    rw [if_pos]
    simp [hle, hlt, hgap, hmeasure]

theorem Derivation.extent?_node :
    (Derivation.node rule ds).extent? g text p = some q ↔
      rule ∈ g.rulesOf rule.head ∧ ds.map Derivation.symbol = rule.body ∧
        extentOfRow? g text ds p = some q := by
  unfold Derivation.extent?
  constructor
  · intro h
    split at h
    · rename_i hif
      simp only [Bool.and_eq_true, List.contains_iff_mem, beq_iff_eq] at hif
      exact ⟨hif.1, hif.2, h⟩
    · cases h
  · rintro ⟨hmem, hsymbols, hrow⟩
    rw [if_pos, hrow]
    simp [hmem, hsymbols]

theorem extentOfRow?_cons :
    extentOfRow? g text (d :: ds) p = some q ↔
      ∃ m, d.extent? g text p = some m ∧ extentOfRow? g text ds m = some q := by
  rw [extentOfRow?]
  cases d.extent? g text p <;> simp

mutual

/-- A derivation that passes the check reads a range of the text, after a gap. -/
theorem reads_of_extent? (hg : g.IsProper) :
    ∀ (d : Derivation T C F) {p q : Nat}, d.extent? g text p = some q →
      ∃ a, IsGap g text p a ∧ Reads g text d a q
  | .terminal t a b, p, q, h => by
    obtain ⟨hgap, hlt, hmeasure, rfl⟩ := Derivation.extent?_terminal.1 h
    exact ⟨a, hgap, .terminal hlt hmeasure⟩
  | .node rule ds, p, q, h => by
    obtain ⟨hmem, hsymbols, hrow⟩ := Derivation.extent?_node.1 h
    have hne : ds ≠ [] := by
      rintro rfl
      exact hg.body_ne_nil _ rule hmem hsymbols.symm
    obtain ⟨a, hgap, hrow⟩ := readsRow_of_extentOfRow? hg ds hne hrow
    exact ⟨a, hgap, .node hmem hsymbols hrow⟩

/-- A row that passes the check reads a range of the text, after a gap. -/
theorem readsRow_of_extentOfRow? (hg : g.IsProper) :
    ∀ (ds : List (Derivation T C F)) {p q : Nat}, ds ≠ [] →
      extentOfRow? g text ds p = some q → ∃ a, IsGap g text p a ∧ ReadsRow g text ds a q
  | [], _, _, hne, _ => absurd rfl hne
  | d :: ds, p, q, _, h => by
    obtain ⟨m, hd, hds⟩ := extentOfRow?_cons.1 h
    obtain ⟨a, hgap, hread⟩ := reads_of_extent? hg d hd
    by_cases hnil : ds = []
    · subst hnil
      obtain rfl : m = q := by simpa [extentOfRow?] using hds
      exact ⟨a, hgap, .one hread⟩
    · obtain ⟨n, hbetween, hrow⟩ := readsRow_of_extentOfRow? hg ds hnil hds
      exact ⟨a, hgap, .cons hread hbetween hrow⟩

end

mutual

/-- A derivation that reads a range of the text passes the check, from any gap before it. -/
theorem extent?_of_reads : ∀ {d : Derivation T C F} {p a b : Nat}, IsGap g text p a →
    Reads g text d a b → d.extent? g text p = some b
  | .terminal _ _ _, _, _, _, gap, .terminal lt measure =>
    Derivation.extent?_terminal.2 ⟨gap, lt, measure, rfl⟩
  | .node _ _, _, _, _, gap, .node rule_mem symbols row =>
    Derivation.extent?_node.2 ⟨rule_mem, symbols, extentOfRow?_of_readsRow gap row⟩

/-- A row that reads a range of the text passes the check, from any gap before it. -/
theorem extentOfRow?_of_readsRow : ∀ {ds : List (Derivation T C F)} {p a b : Nat},
    IsGap g text p a → ReadsRow g text ds a b → extentOfRow? g text ds p = some b
  | _, _, _, _, gap, .one first => extentOfRow?_cons.2 ⟨_, extent?_of_reads gap first, rfl⟩
  | _, _, _, _, gap, .cons first gap' rest =>
    extentOfRow?_cons.2 ⟨_, extent?_of_reads gap first, extentOfRow?_of_readsRow gap' rest⟩

end

/-- What reads a text as the goal, up to gaps at both ends, covers it. -/
theorem covers_of_reads {goal : C} (hfirst : IsGap g text 0 a) (hreads : Reads g text d a b)
    (hlast : IsGap g text b text.length) (hgoal : d.symbol = .category goal) :
    d.covers g goal text = true := by
  rw [Derivation.covers, extent?_of_reads hfirst hreads, hgoal]
  simpa using hlast.covers

/-- What is derived has passed the check. -/
theorem covers_of_derive {goal : C} (h : g.derive goal text = .ok d) :
    d.covers g goal text = true := by
  unfold Grammar.derive at h
  split at h
  · cases h
  · dsimp only at h
    split at h
    · cases h
    · split at h
      · cases h
      · split at h
        · rename_i hc
          obtain rfl := Except.ok.inj h
          exact hc
        · cases h

/-- What covers a text reads it as the goal, up to gaps at both ends. -/
theorem reads_of_covers (hg : g.IsProper) {goal : C} (h : d.covers g goal text = true) :
    ∃ a b, IsGap g text 0 a ∧ Reads g text d a b ∧ IsGap g text b text.length ∧
      d.symbol = .category goal := by
  unfold Derivation.covers at h
  split at h
  · rename_i b hb
    simp only [Bool.and_eq_true, beq_iff_eq] at h
    obtain ⟨a, hgap, hread⟩ := reads_of_extent? hg d hb
    exact ⟨a, b, hgap, hread, ⟨hread.le_length hg, h.2⟩, h.1⟩
  · cases h

/-- What is derived reads the text as the goal, up to gaps at both ends. -/
theorem derive_reads (hg : g.IsProper) {goal : C} (h : g.derive goal text = .ok d) :
    ∃ a b, IsGap g text 0 a ∧ Reads g text d a b ∧ IsGap g text b text.length ∧
      d.symbol = .category goal :=
  reads_of_covers hg (covers_of_derive h)

end SkinCompiler.Grammar
