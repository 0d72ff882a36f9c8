import Mathlib.Data.List.Infix
import SkinCompiler.Proofs.Except
import SkinCompiler.Proofs.Source.Ending
import SkinCompiler.Proofs.Source.Node
import SkinCompiler.Proofs.Source.Phrase
import SkinCompiler.Proofs.Source.Placeholder

/-!
# Where the nodes of a source stand

The nodes that are read from a source have ranges that fit together, also where they are read from
the placeholders of a template literal.

* `ArePlaced` -- phrases follow one another between two positions, and their nodes are placed;
* `isInvariant_arePlaced` -- the phrases of a derivation fit in the range that it reads;
* `readExpressionAt_isPlaced` -- an expression stands where its text does;
* `readModule_placed` -- the items of a module follow one another in its source.
-/

namespace SkinCompiler.Source

open Grammar

variable {source : Text} {r : Reader} {ps qs : List Phrase} {n m : Node} {a b c d : Nat}

/-! ## Phrases -/

/-- The ranges of what a phrase holds; `offset` is the position of the text that it is read
from. -/
def Phrase.ranges (offset : Nat) : Phrase → List Span
  | .token _ text start => [⟨offset + start, offset + start + text.length⟩]
  | .item (.imported i) => i.span.toList
  | p => p.held.map Node.span

/-- An import begins with its keyword and ends with a quote or a semicolon. -/
def Import.HasEnds (source : Text) (i : Import) : Prop :=
  ∃ s, i.span = some s ∧ s.start < s.stop ∧ s.stop ≤ source.length ∧
    source[s.start]? = some 'i' ∧ ∃ c ∈ ['\'', '"', ';'], source[s.stop - 1]? = some c

/-- The phrases stand in the range from position `a` up to position `b` of the text that is read,
one after the other. -/
structure ArePlaced (r : Reader) (a b : Nat) (ps : List Phrase) : Prop where
  /-- Ranges follow one another. -/
  ordered : (ps.flatMap (Phrase.ranges r.offset)).Pairwise Span.Before
  /-- Ranges lie inside. -/
  inside : ∀ s ∈ ps.flatMap (Phrase.ranges r.offset), s.Within ⟨r.offset + a, r.offset + b⟩
  /-- Nodes are placed. -/
  placed : ∀ n ∈ ps.flatMap Phrase.held, n.IsPlaced r.source
  /-- Terminals have the text that stands there. -/
  tokens : ∀ t text start, .token t text start ∈ ps → text <+: r.text.drop start
  /-- Imports have their range. -/
  imports : ∀ i, .item (.imported i) ∈ ps → i.HasEnds r.source

theorem map_span_held_sublist (offset : Nat) (ps : List Phrase) :
    ((ps.flatMap Phrase.held).map Node.span).Sublist (ps.flatMap (Phrase.ranges offset)) := by
  induction ps with
  | nil => exact List.Sublist.slnil
  | cons p ps ih =>
    rw [List.flatMap_cons, List.flatMap_cons, List.map_append]
    refine List.Sublist.append ?_ ih
    cases p with
    | item i => cases i <;> simp [Phrase.held, Phrase.ranges, ModuleItem.nodes]
    | _ => simp [Phrase.held, Phrase.ranges]

/-- Phrases without terminals and imports have the ranges of the nodes that they hold. -/
theorem ranges_eq_map_span (offset : Nat) (htokens : Phrase.tokens qs = [])
    (hitem : ∀ i, .item (.imported i) ∉ qs) :
    qs.flatMap (Phrase.ranges offset) = (qs.flatMap Phrase.held).map Node.span := by
  induction qs with
  | nil => rfl
  | cons q qs ih =>
    have hq : Phrase.tokens [q] = [] ∧ Phrase.tokens qs = [] := by
      rw [← List.append_eq_nil_iff]
      simpa [Phrase.tokens, ← List.filterMap_append] using htokens
    have hrest := ih hq.2 fun i hi => hitem i (List.mem_cons_of_mem _ hi)
    rw [List.flatMap_cons, List.flatMap_cons, List.map_append, hrest]
    congr 1
    cases q with
    | token t text start => simp [Phrase.tokens, Phrase.token?] at hq
    | item i =>
      cases i with
      | imported i => exact absurd List.mem_cons_self (hitem i)
      | _ => rfl
    | _ => rfl

namespace ArePlaced

theorem nil : ArePlaced r a b [] := by
  constructor <;> simp

/-- Phrases that follow one another. -/
theorem append (h : ArePlaced r a b ps) (hbc : b ≤ c) (h' : ArePlaced r c d qs) (hab : a ≤ b)
    (hcd : c ≤ d) : ArePlaced r a d (ps ++ qs) := by
  constructor
  · rw [List.flatMap_append, List.pairwise_append]
    refine ⟨h.ordered, h'.ordered, ?_⟩
    intro s hs t ht
    have hstop := (h.inside s hs).le_stop
    have hstart := (h'.inside t ht).start_le
    dsimp only at hstop hstart
    unfold Span.Before
    omega
  · intro s hs
    rw [List.flatMap_append, List.mem_append] at hs
    rcases hs with hs | hs
    · obtain ⟨hstart, hstop⟩ := h.inside s hs
      dsimp only at hstart hstop
      exact ⟨hstart, by dsimp only; omega⟩
    · obtain ⟨hstart, hstop⟩ := h'.inside s hs
      dsimp only at hstart hstop
      exact ⟨by dsimp only; omega, hstop⟩
  · intro n hn
    rw [List.flatMap_append, List.mem_append] at hn
    rcases hn with hn | hn
    · exact h.placed n hn
    · exact h'.placed n hn
  · intro t text start ht
    rcases List.mem_append.1 ht with ht | ht
    · exact h.tokens t text start ht
    · exact h'.tokens t text start ht
  · intro i hi
    rcases List.mem_append.1 hi with hi | hi
    · exact h.imports i hi
    · exact h'.imports i hi

/-- A single node that stands there. -/
theorem node (hspan : n.span = ⟨r.offset + a, r.offset + b⟩) (hn : n.IsPlaced r.source) :
    ArePlaced r a b [.node n] := by
  constructor <;>
    simp [Phrase.ranges, Phrase.held, hspan, hn, Span.Within.refl]

/-- A single terminal that stands there. -/
theorem token {t : Terminal} {text : Text} (htext : text <+: r.text.drop a)
    (hlength : a + text.length = b) : ArePlaced r a b [.token t text a] := by
  constructor
  · simp [Phrase.ranges]
  · intro s hs
    obtain rfl : s = ⟨r.offset + a, r.offset + a + text.length⟩ := by
      simpa [Phrase.ranges] using hs
    exact ⟨Nat.le_refl _, by dsimp only; omega⟩
  · simp [Phrase.held]
  · intro t' text' start h
    obtain ⟨-, rfl, rfl⟩ : t' = t ∧ text' = text ∧ start = a := by simpa using h
    exact htext
  · simp

/-- Phrases that hold some of the nodes of placed ones. -/
theorem held (h : ArePlaced r a b ps)
    (hheld : (qs.flatMap Phrase.held).Sublist (ps.flatMap Phrase.held))
    (htokens : Phrase.tokens qs = []) (hitem : ∀ i, .item (.imported i) ∉ qs) :
    ArePlaced r a b qs := by
  have hranges : (qs.flatMap (Phrase.ranges r.offset)).Sublist
      (ps.flatMap (Phrase.ranges r.offset)) := by
    rw [ranges_eq_map_span r.offset htokens hitem]
    exact (hheld.map _).trans (map_span_held_sublist r.offset ps)
  refine ⟨h.ordered.sublist hranges, fun s hs => h.inside s (hranges.subset hs),
    fun n hn => h.placed n (hheld.subset hn), ?_, fun i hi => absurd hi (hitem i)⟩
  intro t text start ht
  have hmem : text ∈ Phrase.tokens qs := List.mem_filterMap.2 ⟨_, ht, rfl⟩
  rw [htokens] at hmem
  cases hmem

/-- A new node over some of the nodes of placed phrases. -/
theorem isPlaced_over (h : ArePlaced r a b ps) (hab : a < b)
    (hlength : r.offset + b ≤ r.source.length)
    (hspan : n.span = ⟨r.offset + a, r.offset + b⟩)
    (hchildren : n.children.Sublist (ps.flatMap Phrase.held)) (hends : n.HasEnds r.source) :
    n.IsPlaced r.source := by
  have hranges : (n.children.map Node.span).Sublist (ps.flatMap (Phrase.ranges r.offset)) :=
    (hchildren.map _).trans (map_span_held_sublist r.offset ps)
  rw [Node.isPlaced_iff]
  refine ⟨⟨?_, ?_, ?_, ?_, hends⟩, fun m hm => h.placed m (hchildren.subset hm)⟩
  · rw [hspan]
    dsimp only
    omega
  · rw [hspan]
    exact hlength
  · exact List.pairwise_map.1 (h.ordered.sublist hranges)
  · intro m hm
    rw [hspan]
    exact h.inside _ (hranges.subset (List.mem_map_of_mem hm))

end ArePlaced

/-! ## Constructs -/

/-- What is read from a piece of a source: the piece stands at its position, and placeholders are
read where they stand. -/
structure Reader.IsFaithful (r : Reader) : Prop where
  /-- The piece stands at its position. -/
  text_isPrefix : r.text <+: r.source.drop r.offset
  /-- Placeholders are placed where they stand. -/
  placeholder : ∀ code position n, code <+: r.source.drop position →
    r.placeholder code position = .ok n →
      n.IsPlaced r.source ∧ n.span.Within ⟨position, position + code.length⟩

theorem getElem?_of_isPrefix {t u : Text} {k i : Nat} {x : Char} (h : t <+: u.drop k)
    (hx : t[i]? = some x) : u[k + i]? = some x := by
  obtain ⟨rest, hrest⟩ := h
  obtain ⟨hlt, -⟩ := List.getElem?_eq_some_iff.1 hx
  rw [← List.getElem?_drop, ← hrest, List.getElem?_append_left hlt, hx]

theorem getElem?_of_drop {t u rest : Text} {k i : Nat} {x : Char} (h : t.drop k = u ++ rest)
    (hx : u[i]? = some x) : t[k + i]? = some x :=
  getElem?_of_isPrefix ⟨rest, h.symm⟩ hx

theorem Reader.IsFaithful.le_length (hr : r.IsFaithful) (hab : a < b) (hb : b ≤ r.text.length) :
    r.offset + b ≤ r.source.length := by
  have hle := hr.text_isPrefix.length_le
  rw [List.length_drop] at hle
  omega

/-- What terminals show at the ends of a construct is there in the source. -/
theorem hasEnds_of_rule {rule : Grammar.Rule Terminal Category Form} {c : Category}
    {ds : List (Derivation Terminal Category Form)} (hr : r.IsFaithful)
    (hmem : rule ∈ grammar.rulesOf c) (hsymbols : ds.map Derivation.symbol = rule.body)
    (hrow : ReadsRow grammar r.text ds a b) (hspan : n.span = ⟨r.offset + a, r.offset + b⟩)
    (hcontainer : ∀ s e, n = .container s e → rule.form = .container)
    (hdeclaration : ∀ s w ds, n = .declaration s w ds → rule.form = .declaration) :
    n.HasEnds r.source := by
  cases n with
  | container s e =>
    obtain ⟨hbraces, -⟩ := showsEnds hmem
    obtain ⟨hhead, hlast⟩ := hbraces (hcontainer s e rfl)
    obtain rfl : s = ⟨r.offset + a, r.offset + b⟩ := hspan
    obtain ⟨d, m, hd, hfirst, -⟩ := hrow.first (by rw [hsymbols, hhead])
    obtain ⟨d', m', hd', -, hend⟩ := hrow.last (by rw [hsymbols, hlast])
    obtain ⟨-, rest, hrest⟩ := Terminal.spelling?_eq_some_iff.1 (hfirst.of_terminal hd)
    obtain ⟨hlength, rest', hrest'⟩ := Terminal.spelling?_eq_some_iff.1 (hend.of_terminal hd')
    have hopen : r.text[a]? = some '\x7b' := getElem?_of_drop (i := 0) hrest rfl
    have hclose : r.text[b - 1]? = some '\x7d' := by
      have hb : b - 1 = m' + 0 := by
        have hlt := hend.lt
        simp only [List.length_cons, List.length_nil] at hlength
        omega
      rw [hb]
      exact getElem?_of_drop hrest' rfl
    refine ⟨getElem?_of_isPrefix hr.text_isPrefix hopen, ?_⟩
    have hb : r.offset + b - 1 = r.offset + (b - 1) := by
      have := hrow.lt
      omega
    dsimp only
    rw [hb]
    exact getElem?_of_isPrefix hr.text_isPrefix hclose
  | declaration s w es =>
    obtain ⟨-, hkeyword, -⟩ := showsEnds hmem
    have hhead := hkeyword (hdeclaration s w es rfl)
    obtain rfl : s = ⟨r.offset + a, r.offset + b⟩ := hspan
    obtain ⟨d, m, hd, hfirst, -⟩ := hrow.first (by rw [hsymbols, hhead])
    obtain ⟨x, hx, hletter⟩ := Terminal.getElem?_bindingWord (hfirst.of_terminal hd)
    rw [List.getElem?_drop] at hx
    refine ⟨⟨x, getElem?_of_isPrefix hr.text_isPrefix hx, hletter⟩, ?_⟩
    obtain ⟨y, hy, hblank⟩ := readsRow_isSolidAt hmem hsymbols hrow
    have hlt := hrow.lt
    have hb : r.offset + b - 1 = r.offset + (b - 1) := by omega
    refine ⟨y, ?_, hblank⟩
    rw [hb]
    exact getElem?_of_isPrefix hr.text_isPrefix hy
  | _ => trivial

/-- An import shows its keyword and a quote or a semicolon. -/
theorem import_hasEnds {rule : Grammar.Rule Terminal Category Form} {c : Category} {i : Import}
    {ds : List (Derivation Terminal Category Form)} (hr : r.IsFaithful)
    (hmem : rule ∈ grammar.rulesOf c) (hsymbols : ds.map Derivation.symbol = rule.body)
    (hrow : ReadsRow grammar r.text ds a b)
    (hspan : i.span = some ⟨r.offset + a, r.offset + b⟩)
    (hform : rule.form = .importNames ∨ rule.form = .importEffects) : i.HasEnds r.source := by
  obtain ⟨-, -, himport, -⟩ := showsEnds hmem
  obtain ⟨hhead, hlast⟩ := himport hform
  have hlt := hrow.lt
  have hb : r.offset + b - 1 = r.offset + (b - 1) := by omega
  refine ⟨_, hspan, by dsimp only; omega, hr.le_length hlt (hrow.le_length grammar_isProper),
    ?_, ?_⟩
  · obtain ⟨d, m, hd, hfirst, -⟩ := hrow.first (by rw [hsymbols, hhead])
    obtain ⟨-, rest, hrest⟩ := Terminal.word?_eq_some (hfirst.of_terminal hd)
    exact getElem?_of_isPrefix hr.text_isPrefix (getElem?_of_drop (i := 0) hrest rfl)
  · dsimp only
    rw [hb]
    rcases hlast with hlast | hlast
    · obtain ⟨d, m, hd, -, hend⟩ := hrow.last (by rw [hsymbols, hlast])
      obtain ⟨k, hk, hquote⟩ := Terminal.getElem?_string? (hend.of_terminal hd)
      have hbk : b - 1 = m + k := by omega
      rw [List.getElem?_drop, ← hbk] at hquote
      rcases hquote with hquote | hquote
      · exact ⟨'"', by simp, getElem?_of_isPrefix hr.text_isPrefix hquote⟩
      · exact ⟨'\'', by simp, getElem?_of_isPrefix hr.text_isPrefix hquote⟩
    · obtain ⟨d, m, hd, -, hend⟩ := hrow.last (by rw [hsymbols, hlast])
      obtain ⟨rule', ds', rfl, hhead', hmem', hsymbols', hrow'⟩ := hend.of_category hd
      obtain ⟨-, -, -, hsemicolon⟩ := showsEnds hmem'
      rw [hsemicolon hhead'] at hsymbols'
      obtain ⟨d', m', hd', -, hend'⟩ := hrow'.last (by rw [hsymbols']; rfl)
      obtain ⟨hlength, rest, hrest⟩ := Terminal.spelling?_eq_some_iff.1 (hend'.of_terminal hd')
      have hlt' := hend'.lt
      have hbm : b - 1 = m' + 0 := by
        have hone : (";".toList : Text).length = 1 := rfl
        omega
      rw [hbm]
      exact ⟨';', by simp, getElem?_of_isPrefix hr.text_isPrefix (getElem?_of_drop hrest rfl)⟩

/-- A node that is put over a node with the same range. -/
theorem isPlaced_of_same (hm : m.IsPlaced source) (hspan : n.span = m.span)
    (hchildren : n.children = [m]) (hends : n.HasEnds source) : n.IsPlaced source := by
  have hseated := hm m m.mem_all_self
  rw [Node.isPlaced_iff]
  refine ⟨⟨?_, ?_, ?_, ?_, hends⟩, ?_⟩
  · rw [hspan]
    exact hseated.lt
  · rw [hspan]
    exact hseated.le_length
  · rw [hchildren]
    exact List.pairwise_singleton _ _
  · intro k hk
    rw [hchildren, List.mem_singleton] at hk
    rw [hk, hspan]
    exact Span.Within.refl _
  · intro k hk
    rw [hchildren, List.mem_singleton] at hk
    rwa [hk]

/-- Nodes that are read from codes stand where these do, in the same order. -/
theorem placeholders_isPlaced {codes : List (Text × Nat)} {ns : List Node} (hr : r.IsFaithful)
    (hcodes : ∀ x ∈ codes, x.1 <+: r.source.drop x.2)
    (hordered : codes.Pairwise fun x y => x.2 + x.1.length ≤ y.2)
    (hread : List.Forall₂ (fun x n => r.placeholder x.1 x.2 = .ok n) codes ns) :
    (ns.Pairwise fun m n => m.span.Before n.span) ∧
      ∀ n ∈ ns, n.IsPlaced r.source ∧
        ∃ x ∈ codes, n.span.Within ⟨x.2, x.2 + x.1.length⟩ := by
  induction hread with
  | nil => simp
  | @cons x n codes ns hn _ ih =>
    obtain ⟨hfirst, hrest⟩ := List.pairwise_cons.1 hordered
    obtain ⟨hpairwise, hplaced⟩ := ih (fun y hy => hcodes y (List.mem_cons_of_mem _ hy)) hrest
    have hx := hr.placeholder x.1 x.2 n (hcodes x List.mem_cons_self) hn
    constructor
    · refine List.pairwise_cons.2 ⟨?_, hpairwise⟩
      intro m hm
      obtain ⟨-, y, hy, hwithin⟩ := hplaced m hm
      have hbefore : Span.Before ⟨x.2, x.2 + x.1.length⟩ ⟨y.2, y.2 + y.1.length⟩ := hfirst y hy
      exact hbefore.mono hx.2 hwithin
    · intro m hm
      rcases List.mem_cons.1 hm with rfl | hm
      · exact ⟨hx.1, x, List.mem_cons_self, hx.2⟩
      · obtain ⟨hm', y, hy, hwithin⟩ := hplaced m hm
        exact ⟨hm', y, List.mem_cons_of_mem _ hy, hwithin⟩

/-- A placeholder stands in its literal, the literal in the piece, and the piece in the source. -/
theorem code_isPrefix {piece text : Text} {offset start : Nat} {x : Text × Nat}
    (hpiece : piece <+: source.drop offset) (htext : text <+: piece.drop start)
    (hx : x ∈ templateCodes (templatePieces 0 (offset + start + 1) (text.drop 1))) :
    x.1 <+: source.drop x.2 := by
  obtain ⟨hle, -, hprefix⟩ := isPlaceholder_of_mem hx
  have hsource := htext.trans (List.IsPrefix.drop hpiece start)
  rw [List.drop_drop] at hsource
  have hdrop := List.IsPrefix.drop hsource (1 + (x.2 - (offset + start + 1)))
  have hposition : offset + start + (1 + (x.2 - (offset + start + 1))) = x.2 := by omega
  rw [List.drop_drop, hposition, ← List.drop_drop] at hdrop
  exact hprefix.trans hdrop

/-- The nodes read from the placeholders of a template literal stand in it one after the other. -/
theorem template_isPlaced {text : Text} {start : Nat} {placeholders : List Node}
    {texts : List Text} (hr : r.IsFaithful) (hab : a < b)
    (hlength : r.offset + b ≤ r.source.length) (htext : text <+: r.text.drop start)
    (hinside : Span.Within ⟨r.offset + start, r.offset + start + text.length⟩
      ⟨r.offset + a, r.offset + b⟩)
    (hread : (templateCodes (templatePieces 0 (r.offset + start + 1) (text.drop 1))).mapM
      (fun (code, position) => r.placeholder code position) = .ok placeholders) :
    (Node.template ⟨r.offset + a, r.offset + b⟩ texts placeholders).IsPlaced r.source := by
  obtain ⟨hstart, hstop⟩ := hinside
  dsimp only at hstart hstop
  obtain ⟨hordered, hplaced⟩ := placeholders_isPlaced hr
    (fun _ => code_isPrefix hr.text_isPrefix htext) templateCodes_pairwise (mapM_eq_ok_iff.1 hread)
  rw [Node.isPlaced_iff]
  refine ⟨⟨by simp only [Node.span]; omega, hlength, hordered, ?_, trivial⟩,
    fun n hn => (hplaced n hn).1⟩
  intro n hn
  obtain ⟨-, x, hx, hwithin⟩ := hplaced n hn
  obtain ⟨hle, hend, -⟩ := isPlaceholder_of_mem hx
  have hne : 0 < text.length := by
    refine List.length_pos_iff.2 ?_
    rintro rfl
    simp [templatePieces, templateCodes] at hx
  rw [List.length_drop] at hend
  refine hwithin.trans ⟨?_, ?_⟩ <;> simp only [Node.span] <;> omega

/-- The range of a construct is what its row reads. -/
theorem spanOf_eq {ds : List (Derivation Terminal Category Form)}
    (hrow : ReadsRow grammar r.text ds a b) : r.spanOf ds = ⟨r.offset + a, r.offset + b⟩ := by
  unfold Reader.spanOf
  rw [hrow.startOfRow?, hrow.stopOfRow?]
  rfl

/-- The meaning of a construct is placed if those of its parts are. -/
theorem arePlaced_of_build {rule : Grammar.Rule Terminal Category Form} {c : Category}
    {ds : List (Derivation Terminal Category Form)} (hr : r.IsFaithful)
    (hmem : rule ∈ grammar.rulesOf c) (hsymbols : ds.map Derivation.symbol = rule.body)
    (hrow : ReadsRow grammar r.text ds a b) (hparts : r.phrasesOfRow ds = .ok ps)
    (h : ArePlaced r a b ps)
    (hbuild : r.build rule.form (r.spanOf ds) ps = .ok qs) : ArePlaced r a b qs := by
  have hab := hrow.lt
  have hlength := hr.le_length hab (hrow.le_length grammar_isProper)
  rw [spanOf_eq hrow] at hbuild
  cases built_of_build hbuild with
  | parts _ => exact h
  | held held _ tokens item => exact h.held held tokens item
  | imported i range form_eq =>
    have hends := import_hasEnds hr hmem hsymbols hrow range form_eq
    constructor <;> simp [Phrase.ranges, Phrase.held, ModuleItem.nodes, range, hends,
      Span.Within.refl]
  | node n range children _ container declaration =>
    have hends := hasEnds_of_rule hr hmem hsymbols hrow range container declaration
    exact .node range (h.isPlaced_over hab hlength range children hends)
  | element tag selfClosing form_eq =>
    have hsuits := (isInvariant_suits r).of_readsRow hrow hparts
    rw [hsymbols] at hsuits
    obtain ⟨-, -, hfirst, -⟩ := placesAttributes hmem
    have hfilter := filter_append_filter (hsuits.pairwise (hfirst form_eq))
    refine .node rfl (h.isPlaced_over hab hlength rfl ?_ trivial)
    rw [Node.children, hfilter]
    exact nodes_sublist_held ps
  | shorthand name _ =>
    have hvalue : (Node.identifier ⟨r.offset + a, r.offset + b⟩ name).IsPlaced r.source :=
      h.isPlaced_over hab hlength rfl (List.nil_sublist _) trivial
    exact .node rfl (isPlaced_of_same hvalue rfl rfl trivial)
  | method key body _ mem =>
    have hbody : [body].Sublist (ps.flatMap Phrase.held) :=
      List.singleton_sublist.2 ((nodes_sublist_held ps).subset mem)
    have hfunction := h.isPlaced_over (n := .function ⟨r.offset + a, r.offset + b⟩ key body false)
      hab hlength rfl hbody trivial
    exact .node rfl (isPlaced_of_same hfunction rfl rfl trivial)
  | template t text start placeholders _ parts read =>
    subst parts
    have htext := h.tokens t text start List.mem_cons_self
    have hinside := h.inside ⟨r.offset + start, r.offset + start + text.length⟩ (by
      simp [Phrase.ranges])
    exact .node rfl (template_isPlaced hr hab hlength htext hinside read)

/-- The phrases of a derivation stand in the range that it reads, and so do those of a row. -/
theorem isInvariant_arePlaced (hr : r.IsFaithful) :
    IsInvariant r (fun _ a b qs => ArePlaced r a b qs) (fun _ a b qs => ArePlaced r a b qs) where
  terminal {t a b} hlt hmeasure := by
    have hle := Terminal.measure_le t hmeasure
    split
    · refine .token (List.take_prefix _ _) ?_
      rw [Text.slice, List.length_take, Nat.min_eq_left hle]
      omega
    · exact .nil
  node hmem hsymbols hrow hps h hbuild := arePlaced_of_build hr hmem hsymbols hrow hps h hbuild
  one h := h
  cons hfirst h hgap hothers h' := h.append hgap h' (Nat.le_of_lt hfirst) (Nat.le_of_lt hothers)

/-! ## Whole texts -/

/-- An expression is held by the phrases of a derivation of its text. -/
theorem exists_of_readExpressionAt {depth : Nat} {text : Text} {offset : Nat}
    (h : readExpressionAt source (depth + 1) text offset = .ok n) :
    ∃ d ps a b, grammar.derive .whole text = .ok d ∧ Reads grammar text d a b ∧
      (⟨source, text, offset, readExpressionAt source depth⟩ : Reader).phrases d = .ok ps ∧
        n ∈ ps.flatMap Phrase.held := by
  rw [readExpressionAt] at h
  split at h
  · cases h
  · rename_i d hd
    dsimp only at h
    split at h
    · cases h
    · rename_i ps hps
      split at h
      · rename_i m rest hm
        obtain rfl := Except.ok.inj h
        obtain ⟨a, b, -, hreads, -, -⟩ := derive_reads grammar_isProper hd
        refine ⟨d, ps, a, b, hd, hreads, hps, (nodes_sublist_held ps).subset ?_⟩
        rw [hm]
        exact List.mem_cons_self
      · cases h

/-- The items of a module that has any are those of the phrases of a derivation of its source. -/
theorem exists_of_readModule {items : List ModuleItem} (h : readModule source = .ok items) :
    items = [] ∨ ∃ d ps a b, grammar.derive .module source = .ok d ∧
      Reads grammar source d a b ∧
      (⟨source, source, 0, readExpressionAt source (source.length + 1)⟩ : Reader).phrases d =
        .ok ps ∧ items = ps.filterMap Phrase.toItem := by
  unfold readModule at h
  split at h
  · exact .inl (Except.ok.inj h).symm
  · split at h
    · cases h
    · rename_i d hd
      dsimp only at h
      split at h
      · cases h
      · rename_i ps hps
        obtain ⟨a, b, -, hreads, -, -⟩ := derive_reads grammar_isProper hd
        exact .inr ⟨d, ps, a, b, hd, hreads, hps, (Except.ok.inj h).symm⟩

/-- An expression stands where its text does, and so does all that is read from it. -/
theorem readExpressionAt_isPlaced (depth : Nat) {text : Text} {offset : Nat}
    (htext : text <+: source.drop offset) (h : readExpressionAt source depth text offset = .ok n) :
    n.IsPlaced source ∧ n.span.Within ⟨offset, offset + text.length⟩ := by
  induction depth generalizing text offset n with
  | zero => cases h
  | succ depth ih =>
    obtain ⟨d, ps, a, b, -, hreads, hps, hheld⟩ := exists_of_readExpressionAt h
    have hr : (⟨source, text, offset, readExpressionAt source depth⟩ : Reader).IsFaithful :=
      ⟨htext, fun _ _ _ hcode hn => ih hcode hn⟩
    have hplaced := (isInvariant_arePlaced hr).of_reads hreads hps
    have hb := hreads.le_length grammar_isProper
    have hrange := (map_span_held_sublist offset ps).subset (List.mem_map_of_mem hheld)
    refine ⟨hplaced.placed n hheld, (hplaced.inside _ hrange).trans ⟨?_, ?_⟩⟩
    · exact Nat.le_add_right _ _
    · exact Nat.add_le_add_left hb _

theorem isFaithful_readExpressionAt (depth : Nat) {text : Text} {offset : Nat}
    (htext : text <+: source.drop offset) :
    (⟨source, text, offset, readExpressionAt source depth⟩ : Reader).IsFaithful :=
  ⟨htext, fun _ _ _ hcode hn => readExpressionAt_isPlaced depth hcode hn⟩

/-- The ranges of an item: that of an import, or those of its nodes. -/
def ModuleItem.ranges : ModuleItem → List Span
  | .imported i => i.span.toList
  | i => i.nodes.map Node.span

/-- Items stand in a source one after the other. -/
structure ModuleItem.ArePlaced (source : Text) (items : List ModuleItem) : Prop where
  /-- Ranges follow one another. -/
  ordered : (items.flatMap ModuleItem.ranges).Pairwise Span.Before
  /-- Nodes are placed. -/
  placed : ∀ n ∈ items.flatMap ModuleItem.nodes, n.IsPlaced source
  /-- Imports have their range. -/
  imports : ∀ i, .imported i ∈ items → i.HasEnds source

/-- Different items keep clear of one another. -/
theorem ModuleItem.ArePlaced.apart {items : List ModuleItem}
    (h : ModuleItem.ArePlaced source items) {i j : ModuleItem} (hi : i ∈ items) (hj : j ∈ items)
    (hij : i ≠ j) {s t : Span} (hs : s ∈ i.ranges) (ht : t ∈ j.ranges) :
    s.Before t ∨ t.Before s := by
  have hpairwise := (List.pairwise_flatMap.1 h.ordered).2
  rcases rel_or_of_pairwise hpairwise hi hj hij with hbefore | hbefore
  · exact Or.inl (hbefore s hs t ht)
  · exact Or.inr (hbefore t ht s hs)

theorem ranges_toItem_sublist (ps : List Phrase) :
    ((ps.filterMap Phrase.toItem).flatMap ModuleItem.ranges).Sublist
      (ps.flatMap (Phrase.ranges 0)) := by
  induction ps with
  | nil => exact List.Sublist.slnil
  | cons p ps ih =>
    cases p with
    | node n => exact List.Sublist.append (List.Sublist.refl [n.span]) ih
    | item i =>
      refine List.Sublist.append ?_ ih
      cases i <;> exact List.Sublist.refl _
    | _ => exact ih.trans (List.sublist_append_right _ _)

theorem nodes_toItem_sublist (ps : List Phrase) :
    ((ps.filterMap Phrase.toItem).flatMap ModuleItem.nodes).Sublist
      (ps.flatMap Phrase.held) := by
  induction ps with
  | nil => exact List.Sublist.slnil
  | cons p ps ih =>
    cases p with
    | node n => exact List.Sublist.append (List.Sublist.refl [n]) ih
    | item i => exact List.Sublist.append (List.Sublist.refl i.nodes) ih
    | _ => exact ih.trans (List.sublist_append_right _ _)

theorem mem_of_toItem {i : Import} (h : .imported i ∈ ps.filterMap Phrase.toItem) :
    .item (.imported i) ∈ ps := by
  obtain ⟨p, hp, hitem⟩ := List.mem_filterMap.1 h
  cases p with
  | item j =>
    obtain rfl : j = .imported i := by simpa [Phrase.toItem] using hitem
    exact hp
  | _ => simp [Phrase.toItem] at hitem

/-- The items of a module stand in its source one after the other. -/
theorem readModule_placed {items : List ModuleItem} (h : readModule source = .ok items) :
    ModuleItem.ArePlaced source items := by
  obtain rfl | ⟨d, ps, a, b, -, hreads, hps, rfl⟩ := exists_of_readModule h
  · constructor <;> simp
  · have hsource : source <+: source.drop 0 := List.prefix_rfl
    have hplaced := (isInvariant_arePlaced
      (isFaithful_readExpressionAt _ hsource)).of_reads hreads hps
    exact ⟨hplaced.ordered.sublist (ranges_toItem_sublist ps),
      fun n hn => hplaced.placed n ((nodes_toItem_sublist ps).subset hn),
      fun i hi => hplaced.imports i (mem_of_toItem hi)⟩

end SkinCompiler.Source
