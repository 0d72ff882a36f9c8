import SkinCompiler.Proofs.Source.Graft
import SkinCompiler.Proofs.Source.ItemPlace

/-!
# Edits of the items of a module

Edits of a module that take out whole items, which bind nothing but one name, or put a line that
binds that name between items, and edits that replace parts of items leave a module that binds and
exports the same, but for that name.

* `IsItemEdit`, `IsEditedModule` -- edits of items;
* `IsEditedModule.leavesModule` -- what the edited text binds and exports.
-/

namespace SkinCompiler.Source

open Grammar Text

variable {source x : Text} {d : Derivation Terminal Category Form}
  {ds : List (Derivation Terminal Category Form)} {es : List Edit} {e : Edit} {a b m n p : Nat}

/-! ## Names -/

/-- Two lists have the same names in them, but for one. -/
def AgreeBut (x : Text) (l l' : List Text) : Prop := ∀ y, y ≠ x → (y ∈ l ↔ y ∈ l')

theorem AgreeBut.append {l l' k k' : List Text} (h : AgreeBut x l l') (h' : AgreeBut x k k') :
    AgreeBut x (l ++ k) (l' ++ k') := by
  intro y hy
  rw [List.mem_append, List.mem_append, h y hy, h' y hy]

theorem agreeBut_nil {l : List Text} (h : ∀ y ∈ l, y = x) : AgreeBut x [] l := by
  intro y hy
  exact ⟨fun hmem => absurd hmem List.not_mem_nil, fun hmem => absurd (h y hmem) hy⟩

/-- A derivation binds and exports nothing but one name. -/
def BindsOnly (source x : Text) (d : Derivation Terminal Category Form) : Prop :=
  (∀ y ∈ bound source d, y = x) ∧ ∀ y ∈ exported source d, y = x

/-- What binds nothing but one name does not matter otherwise. -/
theorem agreeBut_append {first last : List (Derivation Terminal Category Form)} {bs xs : List Text}
    (h : ∀ d ∈ first, BindsOnly source x d) (hbound : AgreeBut x bs (boundOfRow source last))
    (hexported : AgreeBut x xs (exportedOfRow source last)) :
    AgreeBut x bs (boundOfRow source (first ++ last)) ∧
      AgreeBut x xs (exportedOfRow source (first ++ last)) := by
  rw [boundOfRow_eq, exportedOfRow_eq, List.flatMap_append, List.flatMap_append, ← boundOfRow_eq,
    ← boundOfRow_eq, ← exportedOfRow_eq, ← exportedOfRow_eq] at *
  refine ⟨(agreeBut_nil ?_).append hbound, (agreeBut_nil ?_).append hexported⟩
  · intro y hy
    rw [boundOfRow_eq] at hy
    obtain ⟨d, hd, hy⟩ := List.mem_flatMap.1 hy
    exact (h d hd).1 y hy
  · intro y hy
    rw [exportedOfRow_eq] at hy
    obtain ⟨d, hd, hy⟩ := List.mem_flatMap.1 hy
    exact (h d hd).2 y hy

/-! ## Edits -/

/-- A text is read as an item that binds a name and exports nothing, whatever follows on it. -/
def IsLine (x line : Text) : Prop :=
  ∀ rest, ∃ d, Reads grammar (line ++ rest) d 0 line.length ∧ d.symbol = .category .item ∧
    (∃ qs, (Reader.whole (line ++ rest)).phrases d = .ok qs) ∧
      bound (line ++ rest) d = [x] ∧ exported (line ++ rest) d = []

/-- An edit takes out the items between two places, which bind nothing but a name, and can put a
line that binds that name there. -/
structure IsItemEdit (source x : Text) (p : Nat) (ds : List (Derivation Terminal Category Form))
    (e : Edit) (m n : Nat) : Prop where
  /-- It begins at the first place. -/
  start_eq : e.start = m
  /-- It ends at the other one. -/
  stop_eq : e.stop = n
  /-- It leaves nothing, or a line. -/
  text : e.text = [] ∨ ∃ line, e.text = line ++ ['\n'] ∧ IsLine x line
  /-- It begins between items. -/
  start : IsPlace source m p ds
  /-- It ends between items. -/
  stop : IsPlace source n p ds
  /-- What it takes out binds nothing else. -/
  only : ∀ d ∈ ds, ∀ a b, Reads grammar source d a b → m ≤ a → b ≤ n → BindsOnly source x d
  /-- No terminal goes on where it begins. -/
  seam : m = 0 ∨ ∃ c ∈ seams, source[m - 1]? = some c

/-- The edits of the items of a source from a position on. -/
structure IsEditedModule (source x : Text) (p : Nat)
    (ds : List (Derivation Terminal Category Form)) (es : List Edit) : Prop where
  /-- There are no other items. -/
  items : IsItems source p ds
  /-- The edits are in order. -/
  between : AreBetween p es source.length
  /-- Each replaces a part of an item, or takes items out. -/
  edits : ∀ e ∈ es, (∃ d ∈ ds, IsSpot source d e) ∨ ∃ m n, IsItemEdit source x p ds e m n
  /-- Template literals stay such. -/
  templates : ∀ d ∈ ds, KeepsTemplates source es d

/-- Behind the first edit, if that takes out items before all others, the edits are such, too. -/
theorem IsEditedModule.behind_edit (h : IsEditedModule source x p ds (e :: es))
    (he : IsItemEdit source x p ds e m n) (hitems : IsItems source m ds) :
    ∃ first last, ds = first ++ last ∧ (∀ d ∈ first, BindsOnly source x d) ∧
      IsEditedModule source x n last es := by
  obtain ⟨first, last, rfl, hfirst, hlast, hplace⟩ := he.stop.exists_append
  obtain ⟨-, -, hes⟩ := h.between
  rw [he.stop_eq, Int.toNat_natCast] at hes
  refine ⟨first, last, rfl, ?_, hlast, hes, ?_, ?_⟩
  · intro d hd
    obtain ⟨a, b, hreads⟩ := hitems.exists_reads (List.mem_append_left _ hd)
    exact he.only d (List.mem_append_left _ hd) a b hreads
      (hitems.le_start (List.mem_append_left _ hd) hreads) (hfirst d hd a b hreads)
  · intro e' he'
    obtain ⟨hstart, hle, -⟩ := hes.bounds he'
    rcases h.edits e' (List.mem_cons_of_mem _ he') with ⟨d, hd, hspot⟩ | ⟨m', n', hedit⟩
    · left
      refine ⟨d, (List.mem_append.1 hd).resolve_left fun hd => ?_, hspot⟩
      obtain ⟨a, b, hreads⟩ := hitems.exists_reads (List.mem_append_left _ hd)
      have hbounds := hspot.bounds hreads
      have hstop := hfirst d hd a b hreads
      omega
    · right
      have hm' := hedit.start_eq
      have hn' := hedit.stop_eq
      refine ⟨m', n', hm', hn', hedit.text, hplace m' (by omega) hedit.start,
        hplace n' (by omega) hedit.stop, ?_, hedit.seam⟩
      exact fun d hd => hedit.only d (List.mem_append_right _ hd)
  · intro d hd
    obtain ⟨a, b, hreads⟩ := hitems.exists_reads (List.mem_append_right _ hd)
    have hkeeps : KeepsTemplates source ([e] ++ es) d := h.templates d (List.mem_append_right _ hd)
    refine (hkeeps.of_append hreads).2 fun e' he' => ?_
    obtain rfl := List.mem_singleton.1 he'
    have hle := hlast.le_start hd hreads
    have hstop := he.stop_eq
    exact ⟨by omega, h.between.2.1⟩

/-- Each edit replaces a part of the first item, or begins behind it, unless the first edit takes out
something before it. -/
theorem IsEditedModule.isSpot_or (h : IsEditedModule source x p (d :: ds) es)
    (hreads : Reads grammar source d a b)
    (hfirst : ∀ e ∈ es.head?, ∀ m n, IsItemEdit source x p (d :: ds) e m n → b ≤ m) (he : e ∈ es) :
    IsSpot source d e ∨ (b : Int) ≤ e.start := by
  have hlt := hreads.lt
  have hstart {d' : Derivation Terminal Category Form} {a' b' : Nat} (hd' : d' ∈ ds)
      (hreads' : Reads grammar source d' a' b') : b ≤ a' := by
    cases h.items with
    | item _ _ reads _ _ rest =>
      rw [Option.some.inj (hreads.stop?.symm.trans reads.stop?)]
      exact rest.le_start hd' hreads'
  -- an edit does not end before the first item
  have hbehind {e' : Edit} (he' : e' ∈ es.head?) : (a : Int) < e'.stop := by
    have hmem := List.mem_of_mem_head? he'
    obtain ⟨-, hle, -⟩ := h.between.bounds hmem
    rcases h.edits e' hmem with ⟨d', hd', hspot⟩ | ⟨m, n, hedit⟩
    · obtain ⟨a', b', hreads'⟩ := h.items.exists_reads hd'
      have hbounds := hspot.bounds hreads'
      rcases List.mem_cons.1 hd' with rfl | hd'
      · obtain rfl := Option.some.inj (hreads.start?.symm.trans hreads'.start?)
        omega
      · have hle' := hstart hd' hreads'
        omega
    · have hm := hfirst e' he' m n hedit
      have hstart' := hedit.start_eq
      omega
  rcases h.edits e he with ⟨d', hd', hspot⟩ | ⟨m, n, hedit⟩
  · rcases List.mem_cons.1 hd' with rfl | hd'
    · exact Or.inl hspot
    · obtain ⟨a', b', hreads'⟩ := h.items.exists_reads (List.mem_cons_of_mem _ hd')
      have hle := hstart hd' hreads'
      have hbounds := hspot.bounds hreads'
      right
      omega
  · right
    have hm := hedit.start_eq
    cases hedit.start with
    | item _ reads rest =>
      have hle := rest.le
      obtain rfl := Option.some.inj (hreads.stop?.symm.trans reads.stop?)
      omega
    | here _ _ rest =>
      have hma := rest.le_start List.mem_cons_self hreads
      cases es with
      | nil => cases he
      | cons e₀ es =>
        rcases List.mem_cons.1 he with rfl | he
        · have hbm := hfirst e rfl m n hedit
          omega
        · have hlt₀ := hbehind (List.head?_cons : (e₀ :: es).head? = some e₀)
          have horder := (List.pairwise_cons.1 h.between.pairwise).1 e he
          omega

/-- Behind the first item, if the first edit takes out nothing before it, the edits are such, too. -/
theorem IsEditedModule.behind_item (h : IsEditedModule source x p (d :: ds) es)
    (hreads : Reads grammar source d a b)
    (hfirst : ∀ e ∈ es.head?, ∀ m n, IsItemEdit source x p (d :: ds) e m n → b ≤ m) :
    ∃ first last, es = first ++ last ∧ IsEdited source d a b first ∧
      IsEditedModule source x b ds last := by
  have hor := fun e (he : e ∈ es) => h.isSpot_or hreads hfirst he
  obtain ⟨first, last, rfl, hspots, hlast⟩ := h.between.exists_append hor
  have hpa := h.items.le_start List.mem_cons_self hreads
  have hlt := hreads.lt
  have hlength := hreads.le_length grammar_isProper
  have hle {e : Edit} (he : e ∈ first ++ last) : e.start ≤ e.stop := (h.between.bounds he).2.1
  have hstop : ∀ e ∈ first, e.stop ≤ (b : Int) := fun e he => ((hspots e he).bounds hreads).2.1
  obtain ⟨hbetween, hbetween'⟩ :=
    (areBetween_append_iff (by omega) hlength hstop hlast).1 h.between
  cases h.items with
  | item _ _ reads _ meaning rest =>
    obtain rfl := Option.some.inj (hreads.stop?.symm.trans reads.stop?)
    refine ⟨first, last, rfl, ⟨?_, hspots, ?_, meaning⟩, rest, hbetween', ?_, ?_⟩
    · exact hbetween.of_le_start (Nat.le_of_lt hlt) fun e he => ((hspots e he).bounds hreads).1
    · refine ((h.templates d List.mem_cons_self).of_append hreads).1 fun e he => ?_
      exact ⟨hlast e he, hle (List.mem_append_right _ he)⟩
    · intro e he
      have hbehind := hlast e he
      have horder := hle (List.mem_append_right _ he)
      rcases h.edits e (List.mem_append_right _ he) with ⟨d', hd', hspot⟩ | ⟨m, n, hedit⟩
      · left
        refine ⟨d', (List.mem_cons.1 hd').resolve_left ?_, hspot⟩
        rintro rfl
        have hbounds := hspot.bounds hreads
        omega
      · right
        have hm := hedit.start_eq
        have hn := hedit.stop_eq
        refine ⟨m, n, hm, hn, hedit.text, hedit.start.of_cons hreads (by omega),
          hedit.stop.of_cons hreads (by omega), ?_, hedit.seam⟩
        exact fun d' hd' => hedit.only d' (List.mem_cons_of_mem _ hd')
    · intro d' hd'
      obtain ⟨a', b', hreads'⟩ := rest.exists_reads hd'
      have hle' := rest.le_start hd' hreads'
      refine ((h.templates d' (List.mem_cons_of_mem _ hd')).of_append hreads').2 fun e he => ?_
      have hbefore := hstop e he
      exact ⟨by omega, hle (List.mem_append_left _ he)⟩

/-- What stands before the edits stays what it was. -/
theorem IsEditedModule.exists_isSequel (h : IsEditedModule source x b ds es) (hb : 0 < b) :
    ∃ k, IsSequel source b k (spliceBetween source b es source.length) := by
  have hlength := h.between.le
  cases es with
  | nil =>
    refine ⟨source.length, ?_⟩
    rw [spliceBetween, slice, ← List.length_drop, List.take_length]
    exact isSequel_drop hlength
  | cons e es =>
    rcases h.edits e List.mem_cons_self with ⟨d, hd, hspot⟩ | ⟨m, n, hedit⟩
    · obtain ⟨a', b', hreads⟩ := h.items.exists_reads hd
      obtain ⟨-, k, -, -, -, -, hsequel⟩ :=
        hspot.exists_isSequel hreads h.between (Nat.le_refl b) (h.items.le_start hd hreads) []
      rw [slice, Nat.sub_self, List.take_zero, List.nil_append, List.append_nil] at hsequel
      exact ⟨k, hsequel⟩
    · have hbm := hedit.start.le
      obtain ⟨-, hle, hstop⟩ := h.between.bounds List.mem_cons_self
      have hm := hedit.start_eq
      have hmlength : m ≤ source.length := by omega
      obtain ⟨c, hc, hlast⟩ := hedit.seam.resolve_left (by omega)
      rw [spliceBetween, hm, Int.toNat_natCast, List.append_assoc]
      refine ⟨m, hbm, hmlength, _, rfl, Or.inr (Or.inr ⟨c, hc, ?_⟩)⟩
      rw [List.getLast?_eq_getElem?, List.length_take, Nat.min_eq_left hmlength,
        List.getElem?_take_of_lt (by omega), hlast]

/-! ## What the edited module binds -/

/-- What an edit leaves in the place of items, and a module behind it, are a module. -/
theorem IsItemEdit.exists_isModule {t : Text} {bs xs : List Text}
    (he : IsItemEdit source x p ds e m n) (h : IsModule t bs xs) :
    ∃ bs' xs', IsModule (e.text ++ t) bs' xs' ∧ AgreeBut x bs' bs ∧ AgreeBut x xs' xs := by
  rcases he.text with htext | ⟨line, htext, hline⟩
  · rw [htext]
    exact ⟨bs, xs, h, fun _ _ => Iff.rfl, fun _ _ => Iff.rfl⟩
  · obtain ⟨d, hreads, hsymbol, hmeaning, hbound, hexported⟩ := hline (['\n'] ++ t)
    have hmodule := IsModule.item .nil hreads hsymbol hmeaning
      (h.append_left (.blank (c := '\n') (by decide) .nil))
    rw [hbound, hexported, List.nil_append, ← List.append_assoc, ← htext] at hmodule
    refine ⟨_, _, hmodule, fun y hy => ?_, fun _ _ => Iff.rfl⟩
    rw [List.mem_append, List.mem_singleton, or_iff_right hy]

/-- The source from a position on, with edits, is a module that binds and exports what its items do,
but for one name. -/
def LeavesModule (source x : Text) (p : Nat) (ds : List (Derivation Terminal Category Form))
    (es : List Edit) : Prop :=
  ∃ bs xs, IsModule (spliceBetween source p es source.length) bs xs ∧
    AgreeBut x bs (boundOfRow source ds) ∧ AgreeBut x xs (exportedOfRow source ds)

/-- An edit that takes out items before all others. -/
theorem IsEditedModule.leavesModule_edit (h : IsEditedModule source x p ds (e :: es))
    (he : IsItemEdit source x p ds e m n) (hitems : IsItems source m ds) :
    ∃ last, last.length ≤ ds.length ∧ IsEditedModule source x n last es ∧
      (LeavesModule source x n last es → LeavesModule source x p ds (e :: es)) := by
  obtain ⟨first, last, rfl, honly, hbehind⟩ := h.behind_edit he hitems
  refine ⟨last, by simp, hbehind, ?_⟩
  rintro ⟨bs, xs, hmodule, hbound, hexported⟩
  obtain ⟨bs', xs', hmodule', hbound', hexported'⟩ := he.exists_isModule hmodule
  obtain ⟨hagree, hagree'⟩ := agreeBut_append honly hbound hexported
  refine ⟨bs', xs', ?_, fun y hy => (hbound' y hy).trans (hagree y hy),
    fun y hy => (hexported' y hy).trans (hagree' y hy)⟩
  rw [spliceBetween, he.start_eq, he.stop_eq, Int.toNat_natCast, Int.toNat_natCast,
    List.append_assoc]
  exact hmodule'.append_left (he.start.isGapText hitems)

/-- An item before all that is taken out. -/
theorem IsEditedModule.leavesModule_item (h : IsEditedModule source x p (d :: ds) es)
    (hfirst : ∀ e ∈ es.head?, ∀ m n, IsItemEdit source x p (d :: ds) e m n →
      ¬IsItems source m (d :: ds)) :
    ∃ b last, last.length ≤ es.length ∧ IsEditedModule source x b ds last ∧
      (LeavesModule source x b ds last → LeavesModule source x p (d :: ds) es) := by
  cases h.items with
  | @item _ a b _ _ le gap reads symbol meaning rest =>
    have hplace : ∀ e ∈ es.head?, ∀ m n, IsItemEdit source x p (d :: ds) e m n → b ≤ m := by
      intro e he m n hedit
      cases hedit.start with
      | here _ _ rest' => exact absurd rest' (hfirst e he m n hedit)
      | item _ reads' rest' =>
        rw [Option.some.inj (reads.stop?.symm.trans reads'.stop?)]
        exact rest'.le
    obtain ⟨first, last, rfl, hedited, hbehind⟩ := h.behind_item reads hplace
    refine ⟨b, last, by simp, hbehind, ?_⟩
    rintro ⟨bs, xs, hmodule, hbound, hexported⟩
    obtain ⟨k, hsequel⟩ := hbehind.exists_isSequel (Nat.lt_of_le_of_lt (Nat.zero_le a) reads.lt)
    have hsymbol : isRegularSymbol d.symbol = true ∧ needsClose d.symbol = false ∧
        d.symbol ≠ .terminal .template := by
      rw [symbol]
      decide
    obtain ⟨d', hreads', halike⟩ := exists_graft reads hsymbol.1 hedited
      (fun hterminal => absurd hterminal hsymbol.2.2) hsequel
      (fun hneeds => absurd hneeds (by rw [hsymbol.2.1]; decide))
    obtain ⟨qs, hqs⟩ := meaning
    obtain ⟨qs', hqs', -⟩ := halike.exists_phrases reads hqs
    have hbetween : AreBetween a (first ++ last) source.length := by
      refine (areBetween_append_iff (Nat.le_of_lt reads.lt) hbehind.between.le ?_ ?_).2
        ⟨hedited.between, hbehind.between⟩
      · exact fun e he => (hedited.between.bounds he).2.2
      · exact fun e he => (hbehind.between.bounds he).1
    have htext : spliceBetween source p (first ++ last) source.length = slice source p a ++
        (spliceBetween source a first b ++ spliceBetween source b last source.length) := by
      rw [spliceBetween_append hedited.between hbehind.between,
        slice_append_spliceBetween le hbetween]
    have hwhole := IsModule.item gap hreads' (halike.symbol_eq.trans symbol) ⟨qs', hqs'⟩ hmodule
    rw [← htext] at hwhole
    refine ⟨_, _, hwhole, ?_, ?_⟩
    · rw [boundOfRow, halike.bound_eq]
      exact AgreeBut.append (fun _ _ => Iff.rfl) hbound
    · rw [exportedOfRow, halike.exported_eq]
      exact AgreeBut.append (fun _ _ => Iff.rfl) hexported

/-- A source with edits of its items is a module that binds and exports the same, but for one
name. -/
theorem IsEditedModule.leavesModule (h : IsEditedModule source x p ds es) :
    LeavesModule source x p ds es := by
  obtain ⟨k, hk⟩ : ∃ k, ds.length + es.length = k := ⟨_, rfl⟩
  induction k using Nat.strong_induction_on generalizing p ds es with
  | _ k ih =>
    by_cases hcut : ∃ e ∈ es.head?, ∃ m n, IsItemEdit source x p ds e m n ∧ IsItems source m ds
    · obtain ⟨e, he, m, n, hedit, hitems⟩ := hcut
      obtain ⟨es, rfl⟩ := List.head?_eq_some_iff.1 he
      obtain ⟨last, hlength, hbehind, hleaves⟩ := h.leavesModule_edit hedit hitems
      rw [List.length_cons] at hk
      exact hleaves (ih _ (by omega) hbehind rfl)
    · have hfirst : ∀ e ∈ es.head?, ∀ m n, IsItemEdit source x p ds e m n →
          ¬IsItems source m ds :=
        fun e he m n hedit hitems => hcut ⟨e, he, m, n, hedit, hitems⟩
      cases ds with
      | cons d ds =>
        obtain ⟨b, last, hlength, hbehind, hleaves⟩ := h.leavesModule_item hfirst
        rw [List.length_cons] at hk
        exact hleaves (ih _ (by omega) hbehind rfl)
      | nil =>
        cases es with
        | nil =>
          refine ⟨[], [], ?_, fun _ _ => Iff.rfl, fun _ _ => Iff.rfl⟩
          cases h.items with
          | tail le tail =>
            rw [spliceBetween, slice, ← List.length_drop, List.take_length]
            exact .tail tail
        | cons e es =>
          rcases h.edits e List.mem_cons_self with ⟨d, hd, -⟩ | ⟨m, n, hedit⟩
          · cases hd
          · cases hedit.start with
            | here _ _ rest => exact absurd rest (hfirst e rfl m n hedit)

end SkinCompiler.Source
