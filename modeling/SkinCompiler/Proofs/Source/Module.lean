import SkinCompiler.Proofs.Source.Derivable
import SkinCompiler.Proofs.Source.Gap
import SkinCompiler.Proofs.Source.Item

/-!
# What a module binds and exports

A text can have several readings as a module; the one that counts is the preferred one.  If all of
them bind and export the same, any of them tells what the module binds and exports.

* `bindings?` -- what a source binds and exports;
* `IsReading`, `HasOneReading` -- the readings of a text, and when they agree;
* `bindings?_eq` -- then any of them will do;
* `hasOneReading_of_item` -- they do if the text is a single item by all of them;
* `IsModule` -- a text of items, one after the other;
* `IsModule.isReading` -- it has a reading.
-/

namespace SkinCompiler.Source

open Grammar Text

variable {text t g u : Text} {d : Derivation Terminal Category Form}
  {ds : List (Derivation Terminal Category Form)} {bs es : List Text} {a b : Nat}
  {o o' : Option Bindings}

/-! ## Readings -/

/-- What a module binds and exports by a derivation; none if a part of it has no meaning. -/
def outcome (text : Text) (d : Derivation Terminal Category Form) : Option Bindings :=
  match (Reader.whole text).phrases d with
  | .error _ => none
  | .ok _ => some (bindings text d)

/-- What a source binds and exports; none if it is no module. -/
def bindings? (source : Text) : Option Bindings :=
  if gapCovers grammar source.length source source.length then some ⟨[], []⟩
  else match grammar.derive .module source with
    | .error _ => none
    | .ok d => outcome source d

/-- What a text binds and exports by a reading as a module. -/
inductive IsReading (text : Text) : Option Bindings → Prop
  /-- There is nothing to read. -/
  | nothing (covers : gapCovers grammar text.length text text.length = true) :
    IsReading text (some ⟨[], []⟩)
  /-- It is read by a derivation. -/
  | module {d : Derivation Terminal Category Form} (covers : d.covers grammar .module text = true) :
    IsReading text (outcome text d)

/-- All readings of a text bind and export the same. -/
def HasOneReading (text : Text) : Prop :=
  ∀ o o', IsReading text o → IsReading text o' → o = o'

theorem outcome_eq_some {qs : List Phrase} (h : (Reader.whole text).phrases d = .ok qs) :
    outcome text d = some (bindings text d) := by
  rw [outcome, h]

/-- A source binds and exports something just if it can be read. -/
theorem exists_bindings?_iff (source : Text) :
    (∃ x, bindings? source = some x) ↔ ∃ items, readModule source = .ok items := by
  unfold bindings? readModule
  by_cases hgap : gapCovers grammar source.length source source.length = true
  · rw [if_pos hgap, if_pos hgap]
    exact ⟨fun _ => ⟨_, rfl⟩, fun _ => ⟨_, rfl⟩⟩
  · rw [if_neg hgap, if_neg hgap]
    cases hd : grammar.derive .module source with
    | error e => simp
    | ok d =>
      dsimp only
      unfold outcome Reader.whole
      split <;> simp_all

/-- What a source binds and exports is so by a reading, if there is any. -/
theorem isReading_bindings? (h : IsReading text o) : IsReading text (bindings? text) := by
  unfold bindings?
  by_cases hgap : gapCovers grammar text.length text text.length = true
  · rw [if_pos hgap]
    exact .nothing hgap
  · rw [if_neg hgap]
    cases h with
    | nothing covers => exact absurd covers hgap
    | module covers =>
      obtain ⟨d, hd⟩ := exists_derive covers
      rw [hd]
      exact .module (covers_of_derive hd)

/-- If all readings agree, any of them tells what a source binds and exports. -/
theorem bindings?_eq (hone : HasOneReading text) (h : IsReading text o) : bindings? text = o :=
  hone _ _ (isReading_bindings? h) h

/-- A text that is a single item whichever way it is read has one reading, if the item always binds
and exports the same. -/
theorem hasOneReading_of_item (hgap : gapCovers grammar text.length text text.length = false)
    (hmeaning : ∀ d a b, Reads grammar text d a b → ∃ qs, (Reader.whole text).phrases d = .ok qs)
    (hitem : ∀ d a b, IsGap grammar text 0 a → d.symbol = .category .item →
      Reads grammar text d a b → b = text.length ∧ bound text d = bs ∧ exported text d = es) :
    HasOneReading text := by
  suffices hall : ∀ o, IsReading text o → o = some ⟨bs, es⟩ from
    fun o o' h h' => (hall o h).trans (hall o' h').symm
  intro o h
  cases h with
  | nothing covers => cases hgap.symm.trans covers
  | @module d covers =>
    obtain ⟨a, b, hfirst, hreads, -, hsymbol⟩ := reads_of_covers grammar_isProper covers
    obtain ⟨qs, hqs⟩ := hmeaning d a b hreads
    obtain ⟨ds, hmodule, hrow⟩ := exists_items_of_module hreads hsymbol
    rw [outcome_eq_some hqs, bindings, hmodule.bound_eq, hmodule.exported_eq]
    have hsymbols := hmodule.symbol
    cases hrow with
    | one first =>
      obtain ⟨-, hbound, hexported⟩ := hitem _ a b hfirst (hsymbols _ List.mem_cons_self) first
      simp [hbound, hexported]
    | cons first gap rest =>
      -- no other item has a place behind it
      obtain ⟨hlength, -⟩ := hitem _ a _ hfirst (hsymbols _ List.mem_cons_self) first
      have hle := gap.le
      have hlt := rest.lt
      have hend := rest.le_length grammar_isProper
      omega

/-! ## Texts of items -/

/-- A text of items with gaps between them; what they bind and what they export. -/
inductive IsModule : Text → List Text → List Text → Prop
  /-- There are no more items. -/
  | tail {t : Text} (tail : IsTailText t) : IsModule t [] []
  /-- An item, and those that follow on it. -/
  | item {g u t : Text} {d : Derivation Terminal Category Form} {bs es : List Text}
    (gap : IsGapText g) (reads : Reads grammar (u ++ t) d 0 u.length)
    (symbol : d.symbol = .category .item) (meaning : ∃ qs, (Reader.whole (u ++ t)).phrases d = .ok qs)
    (rest : IsModule t bs es) :
    IsModule (g ++ (u ++ t)) (bound (u ++ t) d ++ bs) (exported (u ++ t) d ++ es)

/-- A gap in front changes nothing. -/
theorem IsModule.append_left (hg : IsGapText g) (h : IsModule t bs es) :
    IsModule (g ++ t) bs es := by
  cases h with
  | tail tail => exact .tail (hg.append_tail tail)
  | item gap reads symbol meaning rest =>
    rw [← List.append_assoc]
    exact .item (hg.append gap) reads symbol meaning rest

/-- A row of items that have a meaning, and what they bind and export. -/
structure IsItemRow (text : Text) (ds : List (Derivation Terminal Category Form)) (a b : Nat)
    (bs es : List Text) : Prop where
  /-- The row reads a range of the text. -/
  reads : ReadsRow grammar text ds a b
  /-- It is one of items. -/
  symbol : ∀ d ∈ ds, d.symbol = .category .item
  /-- What the items bind. -/
  bound_eq : boundOfRow text ds = bs
  /-- What they export. -/
  exported_eq : exportedOfRow text ds = es
  /-- They have a meaning. -/
  meaning : ∃ qs, (Reader.whole text).phrasesOfRow ds = .ok qs

theorem IsItemRow.isReading (h : IsItemRow text ds a b bs es) (hfirst : IsGap grammar text 0 a)
    (hlast : IsGap grammar text b text.length) : IsReading text (some ⟨bs, es⟩) := by
  obtain ⟨d, hd, hreads, hmodule⟩ := exists_module h.reads h.symbol
  obtain ⟨qs, hqs⟩ := h.meaning
  have houtcome : outcome text d = some ⟨bs, es⟩ := by
    rw [outcome_eq_some ((hmodule.phrases_iff _ _).2 hqs), bindings, hmodule.bound_eq,
      hmodule.exported_eq, ← boundOfRow_eq, ← exportedOfRow_eq, h.bound_eq, h.exported_eq]
  rw [← houtcome]
  exact .module (covers_of_reads hfirst hreads hlast hd)

/-- A row of a single item. -/
theorem isItemRow_one (hd : Reads grammar text d a b) (hsymbol : d.symbol = .category .item)
    (hmeaning : ∃ qs, (Reader.whole text).phrases d = .ok qs) :
    IsItemRow text [d] a b (bound text d) (exported text d) := by
  obtain ⟨qs, hqs⟩ := hmeaning
  refine ⟨.one hd, ?_, ?_, ?_, qs, phrasesOfRow_singleton_iff.2 hqs⟩
  · intro x hx
    rw [List.mem_singleton.1 hx, hsymbol]
  · rw [boundOfRow, boundOfRow, List.append_nil]
  · rw [exportedOfRow, exportedOfRow, List.append_nil]

/-- An item in front of a row. -/
theorem IsItemRow.cons {m n : Nat} (h : IsItemRow text ds n b bs es)
    (hd : Reads grammar text d a m) (hgap : IsGap grammar text m n)
    (hsymbol : d.symbol = .category .item)
    (hmeaning : ∃ qs, (Reader.whole text).phrases d = .ok qs) :
    IsItemRow text (d :: ds) a b (bound text d ++ bs) (exported text d ++ es) := by
  obtain ⟨ps, hps⟩ := hmeaning
  obtain ⟨qs, hqs⟩ := h.meaning
  refine ⟨.cons hd hgap h.reads, ?_, ?_, ?_, _, phrasesOfRow_cons_iff.2 ⟨ps, qs, hps, hqs, rfl⟩⟩
  · intro x hx
    rcases List.mem_cons.1 hx with rfl | hx
    · exact hsymbol
    · exact h.symbol x hx
  · rw [boundOfRow, h.bound_eq]
  · rw [exportedOfRow, h.exported_eq]

/-- Text in front of a row changes nothing. -/
theorem IsItemRow.shift (lead : Text) (h : IsItemRow t ds a b bs es) :
    IsItemRow (lead ++ t) (shiftRow lead.length ds) (lead.length + a) (lead.length + b) bs es := by
  have halike := (AlikeRow.refl t ds).shift lead
  obtain ⟨qs, hqs⟩ := h.meaning
  obtain ⟨qs', hqs', -⟩ := halike.exists_phrasesOfRow h.reads hqs
  refine ⟨h.reads.shift lead, ?_, halike.boundOfRow_eq.trans h.bound_eq,
    halike.exportedOfRow_eq.trans h.exported_eq, qs', hqs'⟩
  intro d hd
  have hmem : d.symbol ∈ (shiftRow lead.length ds).map Derivation.symbol := List.mem_map_of_mem hd
  rw [halike.map_symbol] at hmem
  obtain ⟨d', hd', heq⟩ := List.mem_map.1 hmem
  rw [← heq, h.symbol d' hd']

/-- A row in a text begins behind its gap. -/
theorem IsItemRow.isGap (h : IsItemRow t ds 0 b bs es) (hg : IsGapText g) :
    IsGap grammar (g ++ t) 0 g.length := by
  have hregular : ∀ s ∈ ds.map Derivation.symbol, isRegularSymbol s = true := by
    intro s hs
    obtain ⟨d, hd, rfl⟩ := List.mem_map.1 hs
    rw [h.symbol d hd]
    rfl
  obtain ⟨c, hc, hblank⟩ := head_of_readsRow hregular h.reads
  refine hg.isGap fun c' hc' => ?_
  rw [List.head?_eq_getElem?, hc] at hc'
  rwa [← Option.some.inj hc']

/-- A text of items is a row of them, unless there are none. -/
theorem IsModule.exists_row (h : IsModule t bs es) : (IsTailText t ∧ bs = [] ∧ es = []) ∨
    ∃ ds a b, IsGap grammar t 0 a ∧ IsItemRow t ds a b bs es ∧ IsGap grammar t b t.length := by
  induction h with
  | tail tail => exact Or.inl ⟨tail, rfl, rfl⟩
  | @item g u t d bs es gap reads symbol meaning rest ih =>
    right
    rcases ih with ⟨htail, rfl, rfl⟩ | ⟨ds, a, b, hfirst, hrow, hlast⟩
    · have hrow := isItemRow_one reads symbol meaning
      rw [List.append_nil, List.append_nil]
      refine ⟨_, _, _, hrow.isGap gap, hrow.shift g, ?_⟩
      have hend := (htail.isGap.shift u).shift g
      simpa [Nat.add_assoc] using hend
    · have hgap := hfirst.shift u
      rw [Nat.add_zero] at hgap
      have hwhole := (hrow.shift u).cons reads hgap symbol meaning
      refine ⟨_, _, _, hwhole.isGap gap, hwhole.shift g, ?_⟩
      have hend := (hlast.shift u).shift g
      simpa [Nat.add_assoc] using hend

/-- A text of items has a reading. -/
theorem IsModule.isReading (h : IsModule t bs es) : IsReading t (some ⟨bs, es⟩) := by
  rcases h.exists_row with ⟨htail, rfl, rfl⟩ | ⟨ds, a, b, hfirst, hrow, hlast⟩
  · refine .nothing ?_
    simpa using htail.isGap.covers
  · exact hrow.isReading hfirst hlast

end SkinCompiler.Source
