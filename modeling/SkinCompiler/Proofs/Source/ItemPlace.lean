import SkinCompiler.Proofs.Source.Module
import SkinCompiler.Proofs.Text.Between

/-!
# Places between the items of a module

The items of a source follow one another with nothing but gaps between them.  A place between items
is one up to which the gap is a gap of its own.

* `IsItems`, `exists_isItems` -- the items of a source from a position on;
* `IsPlace` -- the places between them;
* `isPlace_behind`, `isPlace_before` -- places near to the end or the beginning of an item.
-/

namespace SkinCompiler.Source

open Grammar Text

variable {source : Text} {d : Derivation Terminal Category Form}
  {ds : List (Derivation Terminal Category Form)} {a b m n p : Nat}

/-! ## Items -/

/-- The items of a source from a position on. -/
inductive IsItems (source : Text) : Nat → List (Derivation Terminal Category Form) → Prop
  /-- There are no more items. -/
  | tail {p : Nat} (le : p ≤ source.length) (tail : IsTailText (source.drop p)) :
    IsItems source p []
  /-- An item, and those that follow on it. -/
  | item {p a b : Nat} {d : Derivation Terminal Category Form}
    {ds : List (Derivation Terminal Category Form)} (le : p ≤ a) (gap : IsGapText (slice source p a))
    (reads : Reads grammar source d a b) (symbol : d.symbol = .category .item)
    (meaning : ∃ qs, (Reader.whole source).phrases d = .ok qs) (rest : IsItems source b ds) :
    IsItems source p (d :: ds)

/-- A place between the items of a source from a position on. -/
inductive IsPlace (source : Text) (m : Nat) : Nat → List (Derivation Terminal Category Form) → Prop
  /-- The place is before all of them. -/
  | here {p : Nat} {ds : List (Derivation Terminal Category Form)} (le : p ≤ m)
    (gap : IsGapText (slice source p m)) (rest : IsItems source m ds) : IsPlace source m p ds
  /-- It is behind the first one. -/
  | item {p a b : Nat} {d : Derivation Terminal Category Form}
    {ds : List (Derivation Terminal Category Form)} (le : p ≤ a) (reads : Reads grammar source d a b)
    (rest : IsPlace source m b ds) : IsPlace source m p (d :: ds)

theorem IsItems.le_start (h : IsItems source p ds) (hd : d ∈ ds) (hreads : Reads grammar source d a b) :
    p ≤ a := by
  induction h with
  | tail _ _ => cases hd
  | item le _ reads _ _ _ ih =>
    rcases List.mem_cons.1 hd with rfl | hd
    · rwa [Option.some.inj (hreads.start?.symm.trans reads.start?)]
    · have hlt := reads.lt
      have hle := ih hd
      omega

theorem IsItems.start_le {d' : Derivation Terminal Category Form} (h : IsItems source p (d :: ds))
    (hreads : Reads grammar source d a b) (hd' : d' ∈ d :: ds)
    (hreads' : Reads grammar source d' m n) : a ≤ m := by
  cases h with
  | item _ _ reads _ _ rest =>
    rcases List.mem_cons.1 hd' with rfl | hd'
    · exact Nat.le_of_eq (Option.some.inj (hreads.start?.symm.trans hreads'.start?))
    · have hlt := hreads.lt
      have hle := rest.le_start hd' hreads'
      rw [Option.some.inj (reads.stop?.symm.trans hreads.stop?)] at hle
      omega

theorem IsItems.exists_reads (h : IsItems source p ds) (hd : d ∈ ds) :
    ∃ a b, Reads grammar source d a b := by
  induction h with
  | tail _ _ => cases hd
  | item _ _ reads _ _ _ ih =>
    rcases List.mem_cons.1 hd with rfl | hd
    · exact ⟨_, _, reads⟩
    · exact ih hd

theorem IsPlace.le (h : IsPlace source m p ds) : p ≤ m := by
  induction h with
  | here le _ _ => exact le
  | item le reads _ ih =>
    have hlt := reads.lt
    omega

theorem IsPlace.isGapText (h : IsPlace source m p ds) (hitems : IsItems source m ds) :
    IsGapText (slice source p m) := by
  cases h with
  | here _ gap _ => exact gap
  | item _ reads rest =>
    have hle := hitems.le_start List.mem_cons_self reads
    have hlt := reads.lt
    have hbm := rest.le
    omega

theorem IsPlace.of_cons (h : IsPlace source m p (d :: ds)) (hreads : Reads grammar source d a b)
    (hbm : b ≤ m) : IsPlace source m b ds := by
  cases h with
  | here _ _ rest =>
    have hle := rest.le_start List.mem_cons_self hreads
    have hlt := hreads.lt
    omega
  | item _ reads rest => rwa [Option.some.inj (hreads.stop?.symm.trans reads.stop?)]

/-- The items are divided by a place: some come before it, the others follow on it, and places
behind it are between the latter. -/
theorem IsPlace.exists_append (h : IsPlace source m p ds) : ∃ first last, ds = first ++ last ∧
    (∀ d ∈ first, ∀ a b, Reads grammar source d a b → b ≤ m) ∧ IsItems source m last ∧
      ∀ n, m ≤ n → IsPlace source n p ds → IsPlace source n m last := by
  induction h with
  | @here p ds le gap rest =>
    refine ⟨[], ds, rfl, by simp, rest, fun n hmn hn => ?_⟩
    cases hn with
    | here le' gap' rest' =>
      rw [← slice_append_slice le hmn] at gap'
      exact .here hmn (gap.of_append gap') rest'
    | item _ reads rest' => exact .item (rest.le_start List.mem_cons_self reads) reads rest'
  | @item p a b d ds le reads rest ih =>
    obtain ⟨first, last, rfl, hfirst, hitems, hplace⟩ := ih
    refine ⟨d :: first, last, rfl, ?_, hitems, fun n hmn hn => hplace n hmn ?_⟩
    · intro d' hd' a' b' hreads
      rcases List.mem_cons.1 hd' with rfl | hd'
      · rw [Option.some.inj (hreads.stop?.symm.trans reads.stop?)]
        exact rest.le
      · exact hfirst d' hd' a' b' hreads
    · have hbm := rest.le
      have hlt := reads.lt
      cases hn with
      | here _ _ rest' =>
        have hle := rest'.le_start List.mem_cons_self reads
        omega
      | item _ reads' rest' =>
        rwa [Option.some.inj (reads.stop?.symm.trans reads'.stop?)]

/-! ## The items of a source -/

theorem isItems_of_row {qs : List Phrase} (h : ReadsRow grammar source ds a b)
    (hitem : ∀ d ∈ ds, d.symbol = .category .item)
    (hqs : (Reader.whole source).phrasesOfRow ds = .ok qs) (hpa : p ≤ a)
    (hgap : IsGapText (slice source p a)) (hend : IsGap grammar source b source.length) :
    IsItems source p ds := by
  induction ds generalizing p a qs with
  | nil => exact absurd rfl h.ne_nil
  | cons d ds ih =>
    obtain ⟨ps, rest, hps, hrest, -⟩ := phrasesOfRow_cons_iff.1 hqs
    have hd := hitem d List.mem_cons_self
    have hitem' := fun d' hd' => hitem d' (List.mem_cons_of_mem _ hd')
    cases h with
    | one first =>
      exact .item hpa hgap first hd ⟨ps, hps⟩ (.tail hend.le (isTailText_of_isGap hend))
    | cons first gap others =>
      have hregular : ∀ s ∈ ds.map Derivation.symbol, isRegularSymbol s = true := by
        intro s hs
        obtain ⟨d', hd', rfl⟩ := List.mem_map.1 hs
        rw [hitem' d' hd']
        rfl
      obtain ⟨c, hc, hblank⟩ := head_of_readsRow hregular others
      exact .item hpa hgap first hd ⟨ps, hps⟩
        (ih others hitem' hrest gap.le (isGapText_of_isGap gap hc hblank))

/-- The items of a source with a derivation that has a meaning. -/
theorem exists_isItems {qs : List Phrase} (hd : grammar.derive .module source = .ok d)
    (hqs : (Reader.whole source).phrases d = .ok qs) : ∃ ds a b, IsModuleOf source d ds ∧
      ReadsRow grammar source ds a b ∧ IsItems source 0 ds := by
  obtain ⟨a, b, hfirst, hreads, hlast, hsymbol⟩ := derive_reads grammar_isProper hd
  obtain ⟨ds, hmodule, hrow⟩ := exists_items_of_module hreads hsymbol
  have hregular : isRegularSymbol d.symbol = true := by
    rw [hsymbol]
    rfl
  obtain ⟨c, hc, hblank⟩ := head_of_reads hregular hreads
  exact ⟨ds, a, b, hmodule, hrow, isItems_of_row hrow hmodule.symbol
    ((hmodule.phrases_iff _ _).1 hqs) (Nat.zero_le a) (isGapText_of_isGap hfirst hc hblank) hlast⟩

/-! ## Places near to an item -/

/-- A position is in none of the items. -/
def IsOff (source : Text) (ds : List (Derivation Terminal Category Form)) (m : Nat) : Prop :=
  ∀ d ∈ ds, ∀ a b, Reads grammar source d a b → b ≤ m ∨ m ≤ a

/-- The beginning of the source, or a position behind an item that no comment stands before, is a
place between items. -/
theorem isPlace_behind (h : IsItems source p ds) (hpm : p ≤ m) (hm : m ≤ source.length)
    (hoff : IsOff source ds m)
    (hbehind : '/' ∉ slice source p m ∨
      ∃ d ∈ ds, ∃ a b, Reads grammar source d a b ∧ b ≤ m ∧ '/' ∉ slice source b m) :
    IsPlace source m p ds := by
  induction h with
  | @tail p le tail =>
    have hslash := hbehind.resolve_right (by simp)
    have hsplit := List.take_append_drop (m - p) (source.drop p)
    rw [List.drop_drop, Nat.add_sub_cancel' hpm] at hsplit
    rw [← hsplit] at tail
    obtain ⟨hblank, htail⟩ := tail.of_append_right hslash
    exact .here hpm (.of_blanks hblank) (.tail hm htail)
  | @item p a b d ds le gap reads symbol meaning rest ih =>
    have hlt := reads.lt
    rcases hoff d List.mem_cons_self a b reads with hbm | hma
    · -- the place is behind the first item
      refine .item le reads (ih hbm (fun d' hd' => hoff d' (List.mem_cons_of_mem _ hd')) ?_)
      rcases hbehind with hslash | ⟨d', hd', a', b', hreads, hle, hslash⟩
      · rw [← slice_append_slice (Nat.le_trans le (Nat.le_of_lt hlt)) hbm, List.mem_append,
          not_or] at hslash
        exact Or.inl hslash.2
      · rcases List.mem_cons.1 hd' with rfl | hd'
        · rw [Option.some.inj (reads.stop?.symm.trans hreads.stop?)]
          exact Or.inl hslash
        · exact Or.inr ⟨d', hd', a', b', hreads, hle, hslash⟩
    · have hslash : '/' ∉ slice source p m := by
        refine hbehind.resolve_right ?_
        rintro ⟨d', hd', a', b', hreads, hle, -⟩
        have hstart := (IsItems.item le gap reads symbol meaning rest).start_le reads hd' hreads
        have hlt' := hreads.lt
        omega
      rw [← slice_append_slice hpm hma] at gap
      obtain ⟨hblank, hgap⟩ := gap.of_append_right hslash
      exact .here hpm (.of_blanks hblank) (.item hma hgap reads symbol meaning rest)

/-- A position in front of an item on its line, with no comment between them, is a place between
items. -/
theorem isPlace_before (h : IsItems source p ds) (hpm : p ≤ m) (hoff : IsOff source ds m)
    (hd : d ∈ ds) (hreads : Reads grammar source d a b) (hma : m ≤ a)
    (hslash : '/' ∉ slice source m a) (hline : '\n' ∉ slice source m a) :
    IsPlace source m p ds := by
  induction h with
  | tail _ _ => cases hd
  | @item p a' b' d' ds le gap reads symbol meaning rest ih =>
    have hlt := reads.lt
    have hlt' := hreads.lt
    rcases hoff d' List.mem_cons_self a' b' reads with hbm | hma'
    · refine .item le reads (ih hbm (fun d' hd' => hoff d' (List.mem_cons_of_mem _ hd')) ?_)
      refine (List.mem_cons.1 hd).resolve_left ?_
      rintro rfl
      obtain rfl := Option.some.inj (reads.stop?.symm.trans hreads.stop?)
      obtain rfl := Option.some.inj (reads.start?.symm.trans hreads.start?)
      omega
    · have haa := (IsItems.item le gap reads symbol meaning rest).start_le reads hd hreads
      rw [← slice_append_slice hma' haa, List.mem_append, not_or] at hslash hline
      rw [← slice_append_slice hpm hma'] at gap
      have hfirst := gap.of_append_left hslash.1 hline.1
      exact .here hpm hfirst (.item hma' (hfirst.of_append gap) reads symbol meaning rest)

end SkinCompiler.Source
