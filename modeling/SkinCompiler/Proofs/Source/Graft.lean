import SkinCompiler.Proofs.Source.Gap
import SkinCompiler.Proofs.Source.Sequel
import SkinCompiler.Proofs.Source.StandIn

/-!
# Edits inside of a derivation

Edits that replace parts of a derivation leave a text that is read by the same rules.

* `IsReplaced`, `IsSpot` -- what an edit may replace;
* `IsTemplate`, `KeepsTemplates` -- template literals in which something is replaced;
* `IsEdited`, `IsEditedRow` -- edits of a derivation, and of a row;
* `exists_graft` -- the edited text has a derivation like that of the source.
-/

namespace SkinCompiler.Source

open Grammar Text

variable {source rest t : Text} {d d₀ : Derivation Terminal Category Form}
  {ds : List (Derivation Terminal Category Form)} {a b k m n : Nat} {es es' : List Edit} {e : Edit}
  {rule : Grammar.Rule Terminal Category Form}

/-! ## Spots -/

/-- A text can take the place of a part, whatever stands around it. -/
structure IsReplaced (source : Text) (d : Derivation Terminal Category Form) (t : Text) : Prop where
  /-- It begins as no terminal goes on. -/
  head : ∃ c ∈ heads, t.head? = some c
  /-- It is read as what takes the place of the part. -/
  standIn : ∃ d', ∀ rest, Reads grammar (t ++ rest) d' 0 t.length ∧ StandIn source d (t ++ rest) d'

/-- An edit replaces a part of a derivation, or something inside of a template literal. -/
inductive IsSpot (source : Text) (d : Derivation Terminal Category Form) (e : Edit) : Prop
  /-- It replaces a part. -/
  | part {d₀ : Derivation Terminal Category Form} {a b : Nat} (part : IsPart d₀ d)
    (reads : Reads grammar source d₀ a b) (start_eq : e.start = a) (stop_eq : e.stop = b)
    (replaced : IsReplaced source d₀ e.text)
  /-- It replaces something inside of a template literal. -/
  | template {a b : Nat} (part : IsPart (.terminal .template a b) d) (lt_start : (a : Int) < e.start)
    (stop_lt : e.stop < (b : Int))

theorem IsReplaced.exists_node (h : IsReplaced source d t) : ∃ rule ds, d = .node rule ds ∧
    rule.head ∈ [Category.chain, .primary, .attributeValue] := by
  obtain ⟨d', hd'⟩ := h.standIn
  obtain ⟨rule, ds, -, -, rfl, -, -, hmem⟩ := (hd' []).2.exists_node
  exact ⟨rule, ds, rfl, hmem⟩

/-- In a terminal, only what is inside of a template literal is replaced. -/
theorem IsSpot.of_terminal {terminal : Terminal} (h : IsSpot source (.terminal terminal a b) e) :
    terminal = .template ∧ (a : Int) < e.start ∧ e.stop < (b : Int) := by
  cases h with
  | part part _ _ _ replaced =>
    obtain ⟨_, _, rfl, -⟩ := replaced.exists_node
    cases part
  | template part lt_start stop_lt =>
    cases part
    exact ⟨rfl, lt_start, stop_lt⟩

/-- What is replaced in a construct is the construct or in a part of it. -/
theorem IsSpot.of_node (h : IsSpot source (.node rule ds) e)
    (hreads : Reads grammar source (.node rule ds) a b) :
    (e.start = a ∧ e.stop = b ∧ IsReplaced source (.node rule ds) e.text) ∨
      ∃ d ∈ ds, IsSpot source d e := by
  cases h with
  | @part d₀ m n part reads start_eq stop_eq replaced =>
    rcases isPart_node_iff.1 part with rfl | ⟨d, hd, hpart⟩
    · obtain rfl := Option.some.inj (reads.start?.symm.trans hreads.start?)
      obtain rfl := Option.some.inj (reads.stop?.symm.trans hreads.stop?)
      exact Or.inl ⟨start_eq, stop_eq, replaced⟩
    · exact Or.inr ⟨d, hd, .part hpart reads start_eq stop_eq replaced⟩
  | template part lt_start stop_lt =>
    obtain ⟨d, hd, hpart⟩ := (isPart_node_iff.1 part).resolve_left (by simp)
    exact Or.inr ⟨d, hd, .template hpart lt_start stop_lt⟩

/-- An edit of a spot lies in the range that the derivation reads. -/
theorem IsSpot.bounds (h : IsSpot source d e) (hd : Reads grammar source d a b) :
    (a : Int) ≤ e.start ∧ e.stop ≤ (b : Int) ∧
      (e.start < e.stop ∨ (a : Int) < e.start ∧ e.stop < (b : Int)) := by
  cases h with
  | part part reads start_eq stop_eq _ =>
    obtain ⟨m, n, hm, hn, hreads⟩ := part.exists_reads hd
    obtain rfl := Option.some.inj (reads.start?.symm.trans hreads.start?)
    obtain rfl := Option.some.inj (reads.stop?.symm.trans hreads.stop?)
    have hlt := hreads.lt
    omega
  | template part lt_start stop_lt =>
    obtain ⟨m, n, hm, hn, hreads⟩ := part.exists_reads hd
    obtain ⟨rfl, rfl⟩ : _ = m ∧ _ = n := ⟨Option.some.inj hreads.start?, Option.some.inj hreads.stop?⟩
    omega

theorem not_startsChild : ∀ c ∈ [Category.chain, .primary, .attributeValue],
    startsChild (.category c) = false := by
  decide

/-- What is replaced begins as no terminal goes on, with its new text or with the template literal
that it is in. -/
theorem IsSpot.exists_part (h : IsSpot source d e) (hd : Reads grammar source d a b) :
    ∃ d₀ p q, IsPart d₀ d ∧ Reads grammar source d₀ p q ∧ startsChild d₀.symbol = false ∧
      (e.start = (p : Int) ∧ (∃ c ∈ heads, e.text.head? = some c) ∨
        (p : Int) < e.start ∧ source[p]? = some '\x60') := by
  cases h with
  | @part d₀ p q part reads start_eq _ replaced =>
    obtain ⟨rule, ds, rfl, hhead⟩ := replaced.exists_node
    exact ⟨_, p, q, part, reads, not_startsChild _ hhead, Or.inl ⟨start_eq, replaced.head⟩⟩
  | @template p q part lt_start _ =>
    obtain ⟨m, n, -, -, hreads⟩ := part.exists_reads hd
    obtain rfl : p = m := Option.some.inj hreads.start?
    obtain rfl : q = n := Option.some.inj hreads.stop?
    have hmeasure : Terminal.template? (source.drop p) = some (q - p) := hreads.of_terminal rfl
    refine ⟨_, p, q, part, hreads, rfl, Or.inr ⟨lt_start, ?_⟩⟩
    rw [← List.head?_drop]
    unfold Terminal.template? at hmeasure
    split at hmeasure
    · rename_i heq
      rw [heq, List.head?_cons]
    · cases hmeasure

/-! ## Template literals -/

/-- The edit lies inside of a range, off its ends. -/
def isInside (a b : Nat) (e : Edit) : Bool := (a : Int) < e.start && e.stop < (b : Int)

/-- The text is a template literal whose placeholders can be read. -/
structure IsTemplate (literal : Text) : Prop where
  /-- It is a template literal. -/
  measure : Terminal.template? literal = some literal.length
  /-- The codes of its placeholders can be read. -/
  readable : ∀ code ∈ placeholderCodes literal, IsReadable code

/-- The template literals in which something is replaced stay such. -/
def KeepsTemplates (source : Text) (es : List Edit) (d : Derivation Terminal Category Form) :
    Prop :=
  ∀ a b, IsPart (.terminal .template a b) d → es.filter (isInside a b) ≠ [] →
    IsTemplate (spliceBetween source a (es.filter (isInside a b)) b)

/-- A template literal with its placeholders replaced takes the place of a template literal. -/
theorem standIn_template {qs : List Phrase} (hmem : rule ∈ grammar.rulesOf rule.head)
    (hform : rule.form = .template)
    (hok : (Reader.whole source).phrases (.node rule [.terminal .template m n]) = .ok qs)
    (ht : IsTemplate t) (rest : Text) :
    Reads grammar (t ++ rest) (.node rule [.terminal .template 0 t.length]) 0 t.length ∧
      StandIn source (.node rule [.terminal .template m n]) (t ++ rest)
        (.node rule [.terminal .template 0 t.length]) := by
  have hbody := (isolatesTerminals hmem).1 hform
  obtain ⟨-, -, -, hhead, -⟩ := closesRuns hmem
  have hne : 0 < t.length := by
    refine List.length_pos_iff.2 ?_
    rintro rfl
    cases ht.measure
  constructor
  · refine .node hmem hbody.symm (.one (.terminal hne ?_))
    have hmeasure : Terminal.template? (t ++ []) = some t.length := by
      rw [List.append_nil, ht.measure]
    exact Terminal.template?_cut hmeasure (Nat.le_refl _) rest
  · obtain ⟨hnode, -⟩ := of_phrases_template hform hok
    obtain ⟨node, rfl⟩ := hnode
    refine ⟨rfl, ⟨.primary, by decide, congrArg _ (hhead hform)⟩, ⟨node, hok⟩, ?_, rfl, ?_⟩
    · intro lead
      refine exists_phrases_template hform ?_
      have hslice : slice (lead ++ (t ++ rest)) (lead.length + 0) (lead.length + t.length) = t := by
        rw [slice_append_add, slice, List.drop_zero, Nat.sub_zero, List.take_left]
      rw [hslice]
      exact ht.readable
    · intro k text
      rfl

/-! ## Edits of a derivation -/

/-- What the edits of a derivation are like: they are in order and replace parts of it, template
literals stay such, and the derivation has a meaning. -/
structure IsEdited (source : Text) (d : Derivation Terminal Category Form) (a b : Nat)
    (es : List Edit) : Prop where
  /-- The edits are in order. -/
  between : AreBetween a es b
  /-- They replace parts. -/
  spots : ∀ e ∈ es, IsSpot source d e
  /-- Template literals stay such. -/
  templates : KeepsTemplates source es d
  /-- The derivation has a meaning. -/
  meaning : ∃ qs, (Reader.whole source).phrases d = .ok qs

/-- What the edits of a row are like. -/
structure IsEditedRow (source : Text) (ds : List (Derivation Terminal Category Form)) (a b : Nat)
    (es : List Edit) : Prop where
  /-- The edits are in order. -/
  between : AreBetween a es b
  /-- They replace parts. -/
  spots : ∀ e ∈ es, ∃ d ∈ ds, IsSpot source d e
  /-- Template literals stay such. -/
  templates : ∀ d ∈ ds, KeepsTemplates source es d
  /-- The derivations have a meaning. -/
  meaning : ∃ qs, (Reader.whole source).phrasesOfRow ds = .ok qs

/-- An edit of a whole derivation is the only one in it. -/
theorem IsEdited.eq_singleton (h : IsEdited source d a b es) (hd : Reads grammar source d a b)
    (he : e ∈ es) (hstart : e.start = a) (hstop : e.stop = b) : es = [e] := by
  have hbounds {f : Edit} (hf : f ∈ es) := And.intro ((h.spots f hf).bounds hd) (h.between.bounds hf)
  have hpairwise := h.between.pairwise
  obtain ⟨first, last, rfl⟩ := List.append_of_mem he
  obtain ⟨-, hlast, hfirst⟩ := List.pairwise_append.1 hpairwise
  have hfirst' : first = [] := by
    refine List.eq_nil_iff_forall_not_mem.2 fun f hf => ?_
    have hle := hfirst f hf e List.mem_cons_self
    have hf' := hbounds (List.mem_append_left _ hf)
    omega
  have hlast' : last = [] := by
    refine List.eq_nil_iff_forall_not_mem.2 fun f hf => ?_
    have hle := (List.pairwise_cons.1 hlast).1 f hf
    have hf' := hbounds (List.mem_append_right _ (List.mem_cons_of_mem _ hf))
    omega
  rw [hfirst', hlast', List.nil_append]

theorem filter_isInside_eq_nil (h : ∀ e ∈ es, e.stop ≤ (a : Int) ∧ e.start ≤ e.stop ∨
    (b : Int) ≤ e.start ∧ e.start ≤ e.stop) : es.filter (isInside a b) = [] := by
  refine List.filter_eq_nil_iff.2 fun e he => ?_
  have hclear := h e he
  rw [isInside, Bool.and_eq_true, decide_eq_true_eq, decide_eq_true_eq]
  omega

/-- Template literals stay such if they do with edits elsewhere. -/
theorem KeepsTemplates.of_append (hd : Reads grammar source d m n)
    (h : KeepsTemplates source (es ++ es') d) :
    ((∀ e ∈ es', (n : Int) ≤ e.start ∧ e.start ≤ e.stop) → KeepsTemplates source es d) ∧
      ((∀ e ∈ es, e.stop ≤ (m : Int) ∧ e.start ≤ e.stop) → KeepsTemplates source es' d) := by
  constructor
  · intro hbehind p q hpart hne
    obtain ⟨p', q', hp, hq, hreads⟩ := hpart.exists_reads hd
    obtain rfl : p = p' := Option.some.inj hreads.start?
    obtain rfl : q = q' := Option.some.inj hreads.stop?
    have hnil : es'.filter (isInside p q) = [] := by
      refine filter_isInside_eq_nil fun e he => ?_
      have hclear := hbehind e he
      omega
    have hfilter : (es ++ es').filter (isInside p q) = es.filter (isInside p q) := by
      rw [List.filter_append, hnil, List.append_nil]
    have htemplate := h p q hpart
    rw [hfilter] at htemplate
    exact htemplate hne
  · intro hbefore p q hpart hne
    obtain ⟨p', q', hp, hq, hreads⟩ := hpart.exists_reads hd
    obtain rfl : p = p' := Option.some.inj hreads.start?
    obtain rfl : q = q' := Option.some.inj hreads.stop?
    have hnil : es.filter (isInside p q) = [] := by
      refine filter_isInside_eq_nil fun e he => ?_
      have hclear := hbefore e he
      omega
    have hfilter : (es ++ es').filter (isInside p q) = es'.filter (isInside p q) := by
      rw [List.filter_append, hnil, List.nil_append]
    have htemplate := h p q hpart
    rw [hfilter] at htemplate
    exact htemplate hne

/-- The edits of a construct that is not replaced itself are those of its parts. -/
theorem IsEdited.row (h : IsEdited source (.node rule ds) a b es)
    (hd : Reads grammar source (.node rule ds) a b)
    (hnot : ∀ e ∈ es, ¬(e.start = a ∧ e.stop = b ∧ IsReplaced source (.node rule ds) e.text)) :
    IsEditedRow source ds a b es where
  between := h.between
  spots e he := ((h.spots e he).of_node hd).resolve_left (hnot e he)
  templates d hd' p q hpart := h.templates p q (.part hd' hpart)
  meaning := by
    obtain ⟨qs, hqs⟩ := h.meaning
    obtain ⟨ps, hps, -⟩ := phrases_node_iff.1 hqs
    exact ⟨ps, hps⟩

/-- The edits of a row are those of its first derivation and those of the others. -/
theorem IsEditedRow.exists_append (h : IsEditedRow source (d :: ds) a b es)
    (hfirst : Reads grammar source d a m) (hmn : m ≤ n) (hrest : ReadsRow grammar source ds n b) :
    ∃ first last, es = first ++ last ∧ IsEdited source d a m first ∧
      IsEditedRow source ds n b last := by
  have hlt := hfirst.lt
  have hlt' := hrest.lt
  obtain ⟨first, last, rfl, hspots, hstart⟩ := h.between.exists_append (P := IsSpot source d)
    (n := n) fun e he => by
      obtain ⟨d', hd', hspot⟩ := h.spots e he
      rcases List.mem_cons.1 hd' with rfl | hd'
      · exact Or.inl hspot
      · obtain ⟨p, q, hp, -, hreads⟩ := hrest.exists_reads hd'
        have hbounds := hspot.bounds hreads
        exact Or.inr (by omega)
  have hstop {e : Edit} (he : e ∈ first) : e.stop ≤ (m : Int) := ((hspots e he).bounds hfirst).2.1
  have hle {e : Edit} (he : e ∈ first ++ last) := (h.between.bounds he).2.1
  have hmem {e : Edit} (he : e ∈ first) : e ∈ first ++ last := List.mem_append_left _ he
  have hmem' {e : Edit} (he : e ∈ last) : e ∈ first ++ last := List.mem_append_right _ he
  obtain ⟨hbetween, hbetween'⟩ := (areBetween_append_iff (by omega) (by omega)
    (fun e he => hstop he) fun e he => Int.le_trans (Int.ofNat_le.2 hmn) (hstart e he)).1 h.between
  obtain ⟨qs, hqs⟩ := h.meaning
  obtain ⟨ps, rest, hps, hrest', -⟩ := phrasesOfRow_cons_iff.1 hqs
  refine ⟨first, last, rfl, ⟨hbetween, hspots, ?_, ps, hps⟩,
    ⟨hbetween'.of_le_start (by omega) hstart, ?_, ?_, rest, hrest'⟩⟩
  · refine ((h.templates d List.mem_cons_self).of_append hfirst).1 fun e he => ?_
    have hbehind := hstart e he
    exact ⟨by omega, hle (hmem' he)⟩
  · intro e he
    obtain ⟨d', hd', hspot⟩ := h.spots e (hmem' he)
    rcases List.mem_cons.1 hd' with rfl | hd'
    · have hbounds := hspot.bounds hfirst
      have hbehind := hstart e he
      have horder := hle (hmem' he)
      omega
    · exact ⟨d', hd', hspot⟩
  · intro d' hd'
    obtain ⟨p, q, hp, -, hreads⟩ := hrest.exists_reads hd'
    refine ((h.templates d' (List.mem_cons_of_mem _ hd')).of_append hreads).2 fun e he => ?_
    have hbefore := hstop he
    exact ⟨by omega, hle (hmem he)⟩

/-! ## Grafts -/

/-- A text has a derivation like a derivation of the source, with other text behind it. -/
def IsGraft (source : Text) (d : Derivation Terminal Category Form) (t rest : Text) : Prop :=
  ∃ d', Reads grammar (t ++ rest) d' 0 t.length ∧ Alike source (t ++ rest) d d'

/-- A text has derivations like a row of derivations of the source, with other text behind it. -/
def IsGraftRow (source : Text) (ds : List (Derivation Terminal Category Form)) (t rest : Text) :
    Prop :=
  ∃ ds', ReadsRow grammar (t ++ rest) ds' 0 t.length ∧ AlikeRow source (t ++ rest) ds ds'

theorem graft_terminal {terminal : Terminal} (hregular : terminal.isRegular = true) (hlt : a < b)
    (hmeasure : terminal.measure (source.drop a) = some (b - a))
    (hsequel : IsSequel source b k rest) (hcloses : terminal = .run → Closes source b k) :
    IsGraft source (.terminal terminal a b) (spliceBetween source a [] b) rest := by
  have hlength : (slice source a b).length = b - a := by
    have hle := Terminal.measure_le terminal hmeasure
    rw [slice, List.length_take, Nat.min_eq_left hle]
  refine ⟨.terminal terminal 0 (slice source a b).length, .terminal ?_ ?_, .terminal ?_⟩
  · omega
  · rw [List.drop_zero, spliceBetween, hlength, Nat.sub_zero]
    exact Terminal.measure_sequel hregular hlt hmeasure hsequel hcloses
  · rw [spliceBetween, slice, List.drop_zero, Nat.sub_zero, List.take_left]

/-- A replaced part. -/
theorem graft_replaced (h : IsReplaced source d t) (rest : Text) : IsGraft source d t rest := by
  obtain ⟨d', hd'⟩ := h.standIn
  obtain ⟨hreads, hstandIn⟩ := hd' rest
  exact ⟨d', hreads, .standIn hstandIn⟩

/-- A template literal with something replaced in it. -/
theorem graft_template (hmem : rule ∈ grammar.rulesOf rule.head) (hform : rule.form = .template)
    (hd : Reads grammar source (.node rule ds) a b) (h : IsEdited source (.node rule ds) a b es)
    (hrow : IsEditedRow source ds a b es) (hne : es ≠ []) (rest : Text) :
    IsGraft source (.node rule ds) (spliceBetween source a es b) rest := by
  cases hd with
  | node _ hsymbols hreads =>
    obtain ⟨m, n, rfl⟩ := exists_template hmem hsymbols hform
    have hliteral := hreads.of_singleton
    obtain rfl : a = m := Option.some.inj hliteral.start?.symm
    obtain rfl : b = n := Option.some.inj hliteral.stop?.symm
    have hinside : es.filter (isInside a b) = es := by
      refine List.filter_eq_self.2 fun e he => ?_
      obtain ⟨d, hd, hspot⟩ := hrow.spots e he
      obtain rfl := List.mem_singleton.1 hd
      obtain ⟨-, hstart, hstop⟩ := hspot.of_terminal
      rw [isInside, Bool.and_eq_true, decide_eq_true_eq, decide_eq_true_eq]
      exact ⟨hstart, hstop⟩
    have htemplate := h.templates a b (.part List.mem_cons_self .self)
    rw [hinside] at htemplate
    obtain ⟨qs, hqs⟩ := h.meaning
    obtain ⟨hreads', hstandIn⟩ := standIn_template hmem hform hqs (htemplate hne) rest
    exact ⟨_, hreads', .standIn hstandIn⟩

/-- A row is read from the texts that its parts are read from. -/
theorem readsRow_cons {gap t' : Text} {d' : Derivation Terminal Category Form}
    {ds' : List (Derivation Terminal Category Form)} (hgap : IsGapText gap)
    (hfirst : Reads grammar (t ++ (gap ++ (t' ++ rest))) d' 0 t.length)
    (hrest : ReadsRow grammar (t' ++ rest) ds' 0 t'.length)
    (hregular : ∀ s ∈ ds'.map Derivation.symbol, isRegularSymbol s = true) :
    ReadsRow grammar (t ++ (gap ++ t') ++ rest) (d' :: shiftRow (t.length + gap.length) ds') 0
      (t ++ (gap ++ t')).length := by
  have hhead : ∀ c, (t' ++ rest).head? = some c → isGapChar c = false := by
    obtain ⟨c, hc, hblank⟩ := head_of_readsRow hregular hrest
    intro c' hc'
    rw [List.head?_eq_getElem?, hc] at hc'
    rwa [← Option.some.inj hc']
  have hgap' := (hgap.isGap hhead).shift t
  have hreads := hrest.shift (t ++ gap)
  have hwhole : t ++ (gap ++ (t' ++ rest)) = t ++ (gap ++ t') ++ rest := by
    rw [List.append_assoc, List.append_assoc]
  have hwhole' : (t ++ gap) ++ (t' ++ rest) = t ++ (gap ++ t') ++ rest := by
    rw [List.append_assoc, hwhole]
  have hlength : (t ++ gap).length + t'.length = (t ++ (gap ++ t')).length := by
    rw [← List.length_append, List.append_assoc]
  rw [hwhole, Nat.add_zero] at hgap'
  rw [hwhole', Nat.add_zero, hlength, List.length_append] at hreads
  rw [hwhole] at hfirst
  exact .cons hfirst hgap' hreads

/-- Rows put together. -/
theorem graft_cons {t' : Text} (hgap : IsGapText (slice source m n))
    (hfirst : IsGraft source d t (slice source m n ++ (t' ++ rest)))
    (hrest : IsGraftRow source ds t' rest)
    (hregular : ∀ s ∈ ds.map Derivation.symbol, isRegularSymbol s = true) :
    IsGraftRow source (d :: ds) (t ++ (slice source m n ++ t')) rest := by
  obtain ⟨d', hd', halike⟩ := hfirst
  obtain ⟨ds', hds', halikes⟩ := hrest
  have halikes' := halikes.shift (t ++ slice source m n)
  have hwhole : t ++ (slice source m n ++ (t' ++ rest)) =
      t ++ (slice source m n ++ t') ++ rest := by
    rw [List.append_assoc, List.append_assoc]
  rw [List.append_assoc, hwhole, List.length_append] at halikes'
  refine ⟨_, readsRow_cons hgap hd' hds' (halikes.map_symbol ▸ hregular), .cons ?_ halikes'⟩
  rwa [hwhole] at halike

/-- What stands before a derivation stays before its edits what it was, up to what the first one
replaces. -/
theorem IsSpot.exists_isSequel {q : Nat} (h : IsSpot source d e) (hd : Reads grammar source d a b)
    (hbetween : AreBetween n (e :: es) q) (hmn : m ≤ n) (hn : n ≤ a) (rest : Text) :
    ∃ d₀ k l, IsPart d₀ d ∧ Reads grammar source d₀ k l ∧ startsChild d₀.symbol = false ∧
      IsSequel source m k (slice source m n ++ (spliceBetween source n (e :: es) q ++ rest)) := by
  obtain ⟨d₀, k, l, hpart, h₀, hnot, hor⟩ := h.exists_part hd
  obtain ⟨k', l', hk', hl', hreads⟩ := hpart.exists_reads hd
  obtain rfl := Option.some.inj (h₀.start?.symm.trans hreads.start?)
  have hlt := h₀.lt
  have hlength := h₀.le_length grammar_isProper
  refine ⟨d₀, k, l, hpart, h₀, hnot, ?_⟩
  have hnk : n ≤ k := by omega
  have hstart : (k : Int) ≤ e.start := by
    rcases hor with ⟨hstart, -⟩ | ⟨hstart, -⟩ <;> omega
  have hbetween' : AreBetween k (e :: es) q := ⟨hstart, hbetween.2⟩
  rw [← List.append_assoc, ← slice_append_spliceBetween hnk hbetween', ← List.append_assoc,
    slice_append_slice hmn hnk]
  refine isSequel_of_head (by omega) (by omega) ?_ rest
  rcases hor with ⟨hstart, c, hc, hhead⟩ | ⟨hstart, hc⟩
  · refine ⟨c, hc, ?_⟩
    obtain ⟨u, hu⟩ := List.head?_eq_some_iff.1 hhead
    rw [spliceBetween, hstart, Int.toNat_natCast, slice, Nat.sub_self, List.take_zero, hu]
    rfl
  · refine ⟨'\x60', by decide, ?_⟩
    rw [spliceBetween, List.append_assoc, List.head?_append, slice, List.head?_take,
      if_neg (by omega), List.head?_drop, hc]
    rfl

/-- What stands before a row stays before its edits what it was, up to what the first one replaces,
or to where it did if there is none. -/
theorem IsEditedRow.exists_isSequel (h : IsEditedRow source ds n b es)
    (hrow : ReadsRow grammar source ds n b) (hmn : m ≤ n) (hsequel : IsSequel source b k rest) :
    ∃ k', IsSequel source m k' (slice source m n ++ (spliceBetween source n es b ++ rest)) ∧
      ((ds.map Derivation.symbol).head?.any startsChild = true → n < k') := by
  have hlt := hrow.lt
  cases es with
  | nil =>
    refine ⟨k, ?_, fun _ => Nat.lt_of_lt_of_le hlt hsequel.le⟩
    rw [spliceBetween, ← List.append_assoc, slice_append_slice hmn (Nat.le_of_lt hlt)]
    exact hsequel.back (Nat.le_trans hmn (Nat.le_of_lt hlt))
  | cons e es =>
    obtain ⟨d, hd, hspot⟩ := h.spots e List.mem_cons_self
    obtain ⟨a', b', ha', -, hreads⟩ := hrow.exists_reads hd
    obtain ⟨d₀, k', l, hpart, h₀, hnot, hback⟩ :=
      hspot.exists_isSequel hreads h.between hmn ha' rest
    exact ⟨k', hback, fun hstarts => lt_of_row_startsChild hnot h₀ hstarts hrow hd hpart⟩

mutual

/-- The edited text has a derivation like that of the source. -/
theorem exists_graft : ∀ {d : Derivation Terminal Category Form} {a b k : Nat} {es : List Edit}
    {rest : Text}, Reads grammar source d a b → isRegularSymbol d.symbol = true →
      IsEdited source d a b es → (d.symbol = .terminal .template → es = []) →
        IsSequel source b k rest → (needsClose d.symbol = true → Closes source b k) →
          IsGraft source d (spliceBetween source a es b) rest
  | .terminal terminal _ _, a, b, k, es, rest, .terminal hlt hmeasure, hregular, h,
      htemplate, hsequel, hcloses => by
    obtain rfl : es = [] := by
      cases es with
      | nil => rfl
      | cons e es =>
        obtain ⟨rfl, -⟩ := (h.spots e List.mem_cons_self).of_terminal
        exact htemplate rfl
    exact graft_terminal hregular hlt hmeasure hsequel fun hrun =>
      hcloses (decide_eq_true hrun)
  | .node rule ds, a, b, k, es, rest, .node hmem hsymbols hrow, _, h, _, hsequel, hcloses => by
    have hd : Reads grammar source (.node rule ds) a b := .node hmem hsymbols hrow
    by_cases hwhole : ∃ e ∈ es, e.start = a ∧ e.stop = b ∧
        IsReplaced source (.node rule ds) e.text
    · obtain ⟨e, he, hstart, hstop, hreplaced⟩ := hwhole
      obtain rfl := h.eq_singleton hd he hstart hstop
      have htext : spliceBetween source a [e] b = e.text := by
        rw [spliceBetween, spliceBetween, hstart, hstop, Int.toNat_natCast, Int.toNat_natCast,
          slice, slice, Nat.sub_self, Nat.sub_self, List.take_zero, List.take_zero,
          List.nil_append, List.append_nil]
      rw [htext]
      exact graft_replaced hreplaced rest
    · have hedited := h.row hd fun e he hall => hwhole ⟨e, he, hall⟩
      obtain ⟨hclosed, hlast, -, -, hform⟩ := closesRuns hmem
      by_cases htemplate : rule.form = .template ∧ es ≠ []
      · exact graft_template hmem htemplate.1 hd h hedited htemplate.2 rest
      · rw [← hsymbols] at hclosed hlast hform
        obtain ⟨ds', hreads, halike⟩ := exists_graftRow hrow
          (fun s hs => isRegularSymbol_of_mem hmem (hsymbols ▸ hs)) hclosed hedited
          (fun hmem' => by_contra fun hne => htemplate ⟨hform hmem', hne⟩) hsequel
          (fun hneeds => hcloses (hlast hneeds))
        exact ⟨.node rule ds', .node hmem (halike.map_symbol.trans hsymbols) hreads, .node halike⟩

/-- So does a row. -/
theorem exists_graftRow : ∀ {ds : List (Derivation Terminal Category Form)} {a b k : Nat}
    {es : List Edit} {rest : Text}, ReadsRow grammar source ds a b →
      (∀ s ∈ ds.map Derivation.symbol, isRegularSymbol s = true) →
        closes (ds.map Derivation.symbol) = true → IsEditedRow source ds a b es →
          (.terminal .template ∈ ds.map Derivation.symbol → es = []) →
            IsSequel source b k rest →
              ((ds.map Derivation.symbol).getLast?.any needsClose = true → Closes source b k) →
                IsGraftRow source ds (spliceBetween source a es b) rest
  | [d], a, b, k, es, rest, .one first, hregular, _, h, htemplate, hsequel, hcloses => by
    obtain ⟨qs, hqs⟩ := h.meaning
    obtain ⟨ps, _, hps, -⟩ := phrasesOfRow_cons_iff.1 hqs
    have hedited : IsEdited source d a b es := by
      refine ⟨h.between, fun e he => ?_, h.templates d List.mem_cons_self, ps, hps⟩
      obtain ⟨d', hd', hspot⟩ := h.spots e he
      exact List.mem_singleton.1 hd' ▸ hspot
    obtain ⟨d', hreads, halike⟩ := exists_graft first (hregular _ List.mem_cons_self) hedited
      (fun hsymbol => htemplate (by simp [hsymbol])) hsequel (fun hneeds => hcloses (by simpa))
    exact ⟨[d'], .one hreads, .cons halike .nil⟩
  | d :: ds, a, b, k, es, rest, @ReadsRow.cons _ _ _ _ _ _ _ _ m n _ first gap others, hregular,
      hclosed, h, htemplate, hsequel, hcloses => by
    have hmn := gap.le
    obtain ⟨es, es', rfl, hedited, hedited'⟩ := h.exists_append first hmn others
    have hregular' : ∀ s ∈ ds.map Derivation.symbol, isRegularSymbol s = true :=
      fun s hs => hregular s (List.mem_cons_of_mem _ hs)
    obtain ⟨s, ss, hss⟩ := List.exists_cons_of_ne_nil (l := ds.map Derivation.symbol)
      (by simpa using others.ne_nil)
    have hclosed' : (needsClose d.symbol = true → startsChild s = true) ∧
        closes (ds.map Derivation.symbol) = true := by
      rw [List.map_cons, hss, closes, Bool.and_eq_true, ← hss] at hclosed
      refine ⟨fun hneeds => ?_, hclosed.2⟩
      simpa [hneeds] using hclosed.1
    have hstarts : needsClose d.symbol = true →
        (ds.map Derivation.symbol).head?.any startsChild = true := fun hneeds => by
      rw [hss, List.head?_cons, Option.any_some, hclosed'.1 hneeds]
    have hrest := exists_graftRow others hregular' hclosed'.2 hedited'
      (fun hmem => (List.append_eq_nil_iff.1 (htemplate (List.mem_cons_of_mem _ hmem))).2) hsequel
      (fun hlast => hcloses (by rwa [List.map_cons, hss, List.getLast?_cons_cons, ← hss]))
    have hfirst : IsGraft source d (spliceBetween source a es m)
        (slice source m n ++ (spliceBetween source n es' b ++ rest)) := by
      obtain ⟨k', hback, hk'⟩ := hedited'.exists_isSequel others hmn hsequel
      refine exists_graft first (hregular _ List.mem_cons_self) hedited (fun hsymbol => ?_) hback
        fun hneeds => ?_
      · exact (List.append_eq_nil_iff.1 (htemplate (by simp [hsymbol]))).1
      · obtain ⟨c, hc, hends⟩ := head_of_row_startsChild (hstarts hneeds) others
        exact ⟨n, c, hmn, hk' (hstarts hneeds), hc, hends⟩
    have hgap : IsGapText (slice source m n) := by
      obtain ⟨c, hc, hblank⟩ := head_of_readsRow hregular' others
      exact isGapText_of_isGap gap hc hblank
    have htext : spliceBetween source a (es ++ es') b =
        spliceBetween source a es m ++ (slice source m n ++ spliceBetween source n es' b) := by
      rw [slice_append_spliceBetween hmn hedited'.between, spliceBetween_append hedited.between]
      exact hedited'.between.mono hmn (Nat.le_refl b)
    rw [htext]
    exact graft_cons hgap hfirst hrest hregular'

end

end SkinCompiler.Source
