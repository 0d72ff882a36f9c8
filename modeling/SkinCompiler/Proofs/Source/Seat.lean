import SkinCompiler.Proofs.Source.Binding
import SkinCompiler.Proofs.Source.Placement
import SkinCompiler.Proofs.Source.Readable

/-!
# How nodes are written

A member of something, and braces that are the value of an attribute, are written as a construct of
their own, unless they stand in a placeholder of a template literal.

* `Node.spot?` -- the nodes in question;
* `IsWritten` -- how they are written;
* `isWritten_of_phrases` -- all of them are written like that.
-/

namespace SkinCompiler.Source

open Grammar

variable {source text : Text} {d : Derivation Terminal Category Form}
  {ds : List (Derivation Terminal Category Form)} {ps qs : List Phrase} {n m k : Node}
  {a b : Nat} {c : Category} {x : Text × Nat}

/-! ## Spots -/

/-- What can be replaced at a node, and the category that it is written as: a member of something,
or the braces of an attribute. -/
def Node.spot? : Node → Option (Node × Category)
  | .member s owner name computed => some (.member s owner name computed, .chain)
  | .attribute _ _ (some (.container s (some e))) => some (.container s (some e), .attributeValue)
  | _ => none

theorem Node.mem_all_of_spot? (h : k.spot? = some (m, c)) : m ∈ k.all := by
  unfold Node.spot? at h
  split at h
  · obtain ⟨rfl, -⟩ := Prod.mk.inj (Option.some.inj h)
    exact Node.mem_all_self _
  · obtain ⟨rfl, -⟩ := Prod.mk.inj (Option.some.inj h)
    exact Node.mem_all_of_mem_children (List.mem_singleton.2 rfl) (Node.mem_all_self _)
  · cases h

/-- How a node is written in what a derivation reads: as a construct of the category that is more
than a part of its own, or inside of a template literal. -/
inductive IsWritten (source : Text) (c : Category) (d : Derivation Terminal Category Form)
    (m : Node) : Prop
  /-- A part of the derivation is read as the node. -/
  | part {rule : Grammar.Rule Terminal Category Form}
    {ds : List (Derivation Terminal Category Form)} {a b : Nat}
    (part : IsPart (.node rule ds) d) (head : rule.head = c)
    (reads : Reads grammar source (.node rule ds) a b) (span : m.span = ⟨a, b⟩)
    (phrases : (Reader.whole source).phrases (.node rule ds) = .ok [.node m])
    (lone : loneName source (.node rule ds) = [])
  /-- The node stands inside of a template literal. -/
  | template {a b : Nat} (part : IsPart (.terminal .template a b) d) (lt_start : a < m.span.start)
    (stop_lt : m.span.stop < b)

theorem IsWritten.of_mem {rule : Grammar.Rule Terminal Category Form} (hd : d ∈ ds)
    (h : IsWritten source c d m) : IsWritten source c (.node rule ds) m := by
  cases h with
  | part part head reads span phrases lone =>
    exact .part (.part hd part) head reads span phrases lone
  | template part lt_start stop_lt => exact .template (.part hd part) lt_start stop_lt

/-! ## Rules -/

/-- What is known of the rules for members and attributes: a member has its owner before it, an
attribute has nothing but its name and its value, and a value is a string, braces or an element. -/
def WritesSpots (r : Grammar.Rule Terminal Category Form) : Prop :=
  (r.form = .member ∨ r.form = .index → r.head = .chain ∧ r.body.length ≠ 1) ∧
  (r.form = .attribute → r.body = [.terminal .attribute] ∨
    r.body = [.terminal .attribute, .terminal (.mark "="), .category .attributeValue]) ∧
  (r.head = .attributeValue → r.form = .string ∨ r.form = .container ∧ r.body.length ≠ 1 ∨
    r.form = .contents ∧ r.body = [.category .element]) ∧
  (r.head = .element → r.form.isElement = true)

instance (r : Grammar.Rule Terminal Category Form) : Decidable (WritesSpots r) :=
  inferInstanceAs (Decidable (_ ∧ _ ∧ _ ∧ _))

theorem forall_writesSpots : ∀ rules ∈ grammar.rules.toList, ∀ r ∈ rules, WritesSpots r := by
  decide +kernel

theorem writesSpots {r : Grammar.Rule Terminal Category Form} (hr : r ∈ grammar.rulesOf c) :
    WritesSpots r := by
  obtain ⟨rules, hrules, hmem⟩ := exists_rules hr
  exact forall_writesSpots rules hrules r hmem

theorem loneName_eq_nil {rule : Grammar.Rule Terminal Category Form} (h : ds.length ≠ 1) :
    loneName source (.node rule ds) = [] := by
  match ds, h with
  | [], _ => rfl
  | [_], h => exact absurd rfl h
  | _ :: _ :: _, _ => rfl

/-- Braces that are the value of an attribute are a construct of their own. -/
theorem exists_of_attributeValue {s : Span} {e : Option Node}
    (hd : Reads grammar source d a b) (hsymbol : d.symbol = .category .attributeValue)
    (hqs : (Reader.whole source).phrases d = .ok qs) (h : .container s e ∈ Phrase.nodes qs) :
    ∃ rule ds, d = .node rule ds ∧ rule.head = .attributeValue ∧ qs = [.node (.container s e)] ∧
      s = ⟨a, b⟩ ∧ ds.length ≠ 1 := by
  obtain ⟨rule, ds, rfl, hhead, hmem, hsymbols, hrow⟩ := hd.of_category hsymbol
  obtain ⟨ps, hps, hbuild⟩ := phrases_node_iff.1 hqs
  obtain ⟨-, -, hvalue, -⟩ := writesSpots hmem
  rcases hvalue hhead with hform | ⟨hform, hlength⟩ | ⟨hform, hbody⟩
  · rw [hform] at hbuild
    obtain rfl := Except.ok.inj hbuild
    simp [Reader.buildExpression, Phrase.nodes, Phrase.node?] at h
  · rw [hform] at hbuild
    obtain rfl := Except.ok.inj hbuild
    obtain ⟨rfl, rfl⟩ : s = (Reader.whole source).spanOf ds ∧ e = (Phrase.nodes ps).head? := by
      simpa [Phrase.nodes, Phrase.node?] using h
    refine ⟨rule, ds, rfl, hhead, rfl, ?_, ?_⟩
    · rw [spanOf_eq hrow]
      simp [Reader.whole]
    · rwa [← List.length_map Derivation.symbol, hsymbols]
  · -- the value is an element
    rw [hbody] at hsymbols
    obtain ⟨d', rfl, hd'⟩ := List.map_eq_singleton_iff.1 hsymbols
    rw [hform] at hbuild
    obtain rfl := Except.ok.inj hbuild
    obtain ⟨ps', rest, hps', hrest, rfl⟩ := phrasesOfRow_cons_iff.1 hps
    obtain rfl := Except.ok.inj hrest
    obtain ⟨m, n, -, -, hreads⟩ := hrow.exists_reads List.mem_cons_self
    obtain ⟨rule', ds', rfl, hhead', hmem', -, -⟩ := hreads.of_category hd'
    obtain ⟨-, -, -, helement⟩ := writesSpots hmem'
    obtain ⟨ps, -, hbuild'⟩ := phrases_node_iff.1 hps'
    have hform' := helement hhead'
    rw [build_of_isTree _ _ _ (Form.isTree_of_isElement hform'),
      buildElement_of_isElement _ _ _ hform'] at hbuild'
    split at hbuild'
    · cases hbuild'
    · obtain rfl := Except.ok.inj hbuild'
      simp [Phrase.nodes, Phrase.node?] at h

/-! ## Placeholders -/

theorem placeholderLength_lt : ∀ (depth : Nat) (quote : Option Char) {text : Text}, text ≠ [] →
    placeholderLength depth quote text < text.length
  | _, _, [], hne => absurd rfl hne
  | _, _, [_], _ => Nat.zero_lt_one
  | depth, quote, c :: d :: t, _ => by
    have hnext (depth : Nat) (quote : Option Char) := placeholderLength_lt depth quote
      (List.cons_ne_nil d t)
    have hrest (hne : ¬t.isEmpty = true) : placeholderLength depth quote t < t.length :=
      placeholderLength_lt depth quote fun hnil => hne (List.isEmpty_iff.2 hnil)
    simp only [List.length_cons] at hnext ⊢
    cases quote with
    | some q =>
      rw [placeholderLength]
      have hq := hnext depth (some q)
      have hnone := hnext depth none
      split
      · split
        · omega
        · have hlt := hrest (by assumption)
          omega
      · split <;> omega
    | none =>
      rw [placeholderLength]
      have hquote := hnext depth (some c)
      have hopen := hnext (depth + 1) none
      have hclose := hnext (depth - 1) none
      have hnone := hnext depth none
      split
      · omega
      · split
        · omega
        · split
          · split <;> omega
          · omega

/-- A placeholder that is not empty ends before the end of its literal. -/
theorem stop_lt_of_mem {k position : Nat}
    (h : x ∈ templateCodes (templatePieces k position text)) (hne : x.1 ≠ []) :
    x.2 + x.1.length < position + text.length := by
  induction k, position, text using templatePieces.induct with
  | case1 | case2 => simp [templatePieces, templateCodes] at h
  | case3 k position c t hne ih =>
    rw [templatePieces] at h
    case x_3 => exact hne
    have hlt := ih h
    rw [List.length_cons]
    omega
  | case4 position c d t hescape ih =>
    rw [templatePieces, if_pos hescape, templateCodes_character] at h
    have hlt := ih h
    rw [List.length_cons]
    omega
  | case5 position c d t hescape hopen length ih =>
    rw [templatePieces, if_neg hescape, if_pos hopen] at h
    dsimp only at h
    rw [templateCodes_placeholder, List.mem_cons] at h
    rcases h with rfl | h
    · have hne' : t ≠ [] := by
        rintro rfl
        exact hne List.take_nil
      have hlt := placeholderLength_lt 0 none hne'
      have htake := List.length_take_le (placeholderLength 0 none t) t
      simp only [List.length_cons]
      omega
    · have hlt := ih h
      rw [List.length_cons]
      omega
  | case6 position c d t hescape hopen ih =>
    rw [templatePieces, if_neg hescape, if_neg hopen, templateCodes_character] at h
    have hlt := ih h
    rw [List.length_cons]
    omega

/-- A node in a placeholder stands inside of the template literal. -/
theorem isWritten_of_placeholder {rule : Grammar.Rule Terminal Category Form}
    (hx : x ∈ templateCodes (templatePieces 0 (a + 1) ((Text.slice source a b).drop 1)))
    (hn : (Reader.whole source).placeholder x.1 x.2 = .ok n) (hm : m ∈ n.all) :
    IsWritten source c (.node rule [.terminal .template a b]) m := by
  have hsource : source <+: source.drop 0 := List.prefix_rfl
  have hprefix : x.1 <+: source.drop x.2 := by
    have hx' : x ∈ templateCodes
        (templatePieces 0 (0 + a + 1) ((Text.slice source a b).drop 1)) := by
      rwa [Nat.zero_add]
    exact code_isPrefix hsource (List.take_prefix (b - a) (source.drop a)) hx'
  obtain ⟨hplaced, hwithin⟩ := (isFaithful_readExpressionAt (source.length + 1)
    hsource).placeholder x.1 x.2 n hprefix hn
  have hm' := hplaced.within hm
  have hlt := (hplaced m hm).lt
  obtain ⟨hstart, hstop⟩ := hm'.trans hwithin
  dsimp only at hstart hstop
  have hne : x.1 ≠ [] := by
    intro hnil
    rw [hnil, List.length_nil] at hstop
    omega
  obtain ⟨hle, -, -⟩ := isPlaceholder_of_mem hx
  have hend := stop_lt_of_mem hx hne
  have hlength : (Text.slice source a b).length ≤ b - a := List.length_take_le _ _
  have hne' : 0 < (Text.slice source a b).length := by
    refine List.length_pos_iff.2 fun hnil => ?_
    rw [hnil] at hx
    simp [templatePieces, templateCodes] at hx
  rw [List.length_drop] at hend
  exact .template (.part List.mem_cons_self .self) (by omega) (by omega)

/-! ## All nodes -/

/-- All nodes of phrases are written in what a derivation reads. -/
def AreWritten (source : Text) (d : Derivation Terminal Category Form) (qs : List Phrase) : Prop :=
  ∀ n ∈ qs.flatMap Phrase.held, ∀ k ∈ n.all, ∀ m c, k.spot? = some (m, c) →
    IsWritten source c d m

theorem AreWritten.of_subset (h : ∀ n ∈ qs.flatMap Phrase.held, n ∈ ps.flatMap Phrase.held)
    (hps : AreWritten source d ps) : AreWritten source d qs :=
  fun n hn => hps n (h n hn)

/-- A node that is built over nodes of the parts. -/
theorem areWritten_node (hchildren : ∀ k ∈ n.children, k ∈ ps.flatMap Phrase.held)
    (hps : AreWritten source d ps) (hspot : ∀ m c, n.spot? = some (m, c) → IsWritten source c d m) :
    AreWritten source d [.node n] := by
  intro n' hn' k hk m c hm
  obtain rfl : n' = n := by simpa [Phrase.held] using hn'
  rcases Node.mem_all_iff.1 hk with rfl | ⟨l, hl, hkl⟩
  · exact hspot m c hm
  · exact hps l (hchildren l hl) k hkl m c hm

theorem nodes_of_terminal {t : Terminal} (hd : d.symbol = .terminal t)
    (hqs : (Reader.whole source).phrases d = .ok qs) : Phrase.nodes qs = [] := by
  cases d with
  | terminal _ _ _ =>
    obtain rfl := Except.ok.inj hqs
    split <;> rfl
  | node _ _ => cases hd

/-- The braces of an attribute are what its last part is read as. -/
theorem isWritten_of_attribute {rule : Grammar.Rule Terminal Category Form} {s : Span}
    (hmem : rule ∈ grammar.rulesOf rule.head) (hsymbols : ds.map Derivation.symbol = rule.body)
    (hrow : ReadsRow grammar source ds a b)
    (hps : (Reader.whole source).phrasesOfRow ds = .ok ps) (hform : rule.form = .attribute)
    (hvalue : .container s (some n) ∈ Phrase.nodes ps) :
    IsWritten source .attributeValue (.node rule ds) (.container s (some n)) := by
  obtain ⟨-, hattributes, -, -⟩ := writesSpots hmem
  rcases hattributes hform with hbody | hbody
  · rw [hbody] at hsymbols
    obtain ⟨d, rfl, hd⟩ := List.map_eq_singleton_iff.1 hsymbols
    obtain ⟨ps₁, rest, hps₁, hrest, rfl⟩ := phrasesOfRow_cons_iff.1 hps
    obtain rfl := Except.ok.inj hrest
    rw [List.append_nil, nodes_of_terminal hd hps₁] at hvalue
    cases hvalue
  · rw [hbody] at hsymbols
    obtain ⟨d₁, ds, rfl, hd₁, hsymbols⟩ := List.map_eq_cons_iff.1 hsymbols
    obtain ⟨d₂, ds, rfl, hd₂, hsymbols⟩ := List.map_eq_cons_iff.1 hsymbols
    obtain ⟨d₃, rfl, hd₃⟩ := List.map_eq_singleton_iff.1 hsymbols
    obtain ⟨ps₁, rest₁, hps₁, hrest₁, rfl⟩ := phrasesOfRow_cons_iff.1 hps
    obtain ⟨ps₂, rest₂, hps₂, hrest₂, rfl⟩ := phrasesOfRow_cons_iff.1 hrest₁
    obtain ⟨ps₃, rest₃, hps₃, hrest₃, rfl⟩ := phrasesOfRow_cons_iff.1 hrest₂
    obtain rfl := Except.ok.inj hrest₃
    rw [nodes_append, nodes_append, nodes_of_terminal hd₁ hps₁, nodes_of_terminal hd₂ hps₂,
      List.nil_append, List.nil_append, List.append_nil] at hvalue
    obtain ⟨p, q, -, -, hreads⟩ := hrow.exists_reads (d := d₃) (by simp)
    obtain ⟨rule', ds', rfl, hhead, rfl, rfl, hlength⟩ :=
      exists_of_attributeValue hreads hd₃ hps₃ hvalue
    exact .part (.part (by simp) .self) hhead hreads rfl hps₃ (loneName_eq_nil hlength)

/-- The spot of a node that is built is a construct of its own. -/
theorem isWritten_of_build {rule : Grammar.Rule Terminal Category Form}
    (hmem : rule ∈ grammar.rulesOf rule.head) (hsymbols : ds.map Derivation.symbol = rule.body)
    (hrow : ReadsRow grammar source ds a b)
    (hps : (Reader.whole source).phrasesOfRow ds = .ok ps)
    (hbuild : (Reader.whole source).build rule.form ((Reader.whole source).spanOf ds) ps =
      .ok [.node n])
    (hrange : n.span = (Reader.whole source).spanOf ds)
    (hattribute : Reader.isAttribute n = rule.form.isAttribute)
    (hmember : ∀ s o k c, n = .member s o k c → rule.form = .member ∨ rule.form = .index)
    (h : n.spot? = some (m, c)) : IsWritten source c (.node rule ds) m := by
  have hspan : (Reader.whole source).spanOf ds = ⟨a, b⟩ := by
    rw [spanOf_eq hrow]
    simp [Reader.whole]
  obtain ⟨hmembers, -, -, -⟩ := writesSpots hmem
  unfold Node.spot? at h
  split at h
  · obtain ⟨rfl, rfl⟩ := Prod.mk.inj (Option.some.inj h)
    obtain ⟨hhead, hlength⟩ := hmembers (hmember _ _ _ _ rfl)
    refine .part .self hhead (.node hmem hsymbols hrow) (hrange.trans hspan)
      (phrases_node_iff.2 ⟨ps, hps, hbuild⟩) (loneName_eq_nil ?_)
    rwa [← List.length_map Derivation.symbol, hsymbols]
  · rename_i s name s' e
    obtain ⟨rfl, rfl⟩ := Prod.mk.inj (Option.some.inj h)
    have hform : rule.form = .attribute := by
      have hor : rule.form = .attribute ∨ rule.form = .spreadAttribute := by
        simpa [Reader.isAttribute, Form.isAttribute] using hattribute
      refine hor.resolve_right fun hspread => ?_
      rw [hspread] at hbuild
      have hone := Except.ok.inj hbuild
      unfold Reader.one at hone
      split at hone <;> simp at hone
    rw [hform] at hbuild
    have hvalue : .container s' (some e) ∈ Phrase.nodes ps := by
      have hnode := Except.ok.inj hbuild
      simp only [List.cons.injEq, Phrase.node.injEq, Node.attribute.injEq, and_true] at hnode
      exact List.mem_of_head? hnode.2.2
    exact isWritten_of_attribute hmem hsymbols hrow hps hform hvalue
  · cases h

/-- A construct writes its nodes if its parts write theirs. -/
theorem areWritten_of_build {rule : Grammar.Rule Terminal Category Form}
    (hmem : rule ∈ grammar.rulesOf rule.head) (hsymbols : ds.map Derivation.symbol = rule.body)
    (hrow : ReadsRow grammar source ds a b)
    (hps : (Reader.whole source).phrasesOfRow ds = .ok ps)
    (h : AreWritten source (.node rule ds) ps)
    (hbuild : (Reader.whole source).build rule.form ((Reader.whole source).spanOf ds) ps = .ok qs) :
    AreWritten source (.node rule ds) qs := by
  cases built_of_build hbuild with
  | parts _ => exact h
  | held held _ _ _ => exact h.of_subset fun n hn => held.subset hn
  | imported i _ _ => intro n hn; simp [Phrase.held, ModuleItem.nodes] at hn
  | node n range children attributed _ _ member =>
    exact areWritten_node (fun k hk => children.subset hk) h fun m c hm =>
      isWritten_of_build hmem hsymbols hrow hps hbuild range attributed member hm
  | element tag selfClosing _ =>
    refine areWritten_node (fun k hk => (nodes_sublist_held ps).subset ?_) h fun m c hm => by cases hm
    rcases List.mem_append.1 hk with hk | hk
    · exact List.mem_of_mem_filter hk
    · exact List.mem_of_mem_filter hk
  | shorthand name _ =>
    intro n hn k hk m c hm
    obtain rfl := List.mem_singleton.1 (by simpa [Phrase.held] using hn)
    rcases Node.mem_all_iff.1 hk with rfl | ⟨l, hl, hkl⟩
    · cases hm
    · obtain rfl := List.mem_singleton.1 hl
      rcases Node.mem_all_iff.1 hkl with rfl | ⟨l, hl, -⟩
      · cases hm
      · cases hl
  | method key body _ mem =>
    intro n hn k hk m c hm
    obtain rfl := List.mem_singleton.1 (by simpa [Phrase.held] using hn)
    rcases Node.mem_all_iff.1 hk with rfl | ⟨l, hl, hkl⟩
    · cases hm
    · obtain rfl := List.mem_singleton.1 hl
      rcases Node.mem_all_iff.1 hkl with rfl | ⟨l, hl, hkl'⟩
      · cases hm
      · obtain rfl := List.mem_singleton.1 hl
        exact h _ ((nodes_sublist_held ps).subset mem) k hkl' m c hm
  | template t text start placeholders form_eq parts read =>
    obtain ⟨a', b', rfl⟩ := exists_template hmem hsymbols form_eq
    intro n hn k hk m c hm
    obtain rfl := List.mem_singleton.1 (by simpa [Phrase.held] using hn)
    rcases Node.mem_all_iff.1 hk with rfl | ⟨l, hl, hkl⟩
    · cases hm
    · obtain ⟨htext, hstart⟩ : text = Text.slice source a' b' ∧ start = a' := by
        obtain ⟨ps', rest, hps', hrest, heq⟩ := phrasesOfRow_cons_iff.1 hps
        obtain rfl := Except.ok.inj hrest
        obtain rfl := Except.ok.inj hps'
        rw [parts, List.append_nil] at heq
        obtain ⟨-, htext, hstart⟩ := Phrase.token.inj (List.singleton_injective heq)
        exact ⟨htext, hstart⟩
      subst htext hstart
      obtain ⟨x, hx, hread⟩ := exists_of_mapM_eq_ok read hl
      have hcodes : x ∈ templateCodes (templatePieces 0 (start + 1)
          ((Text.slice source start b').drop 1)) := by
        simpa [Reader.whole] using hx
      exact isWritten_of_placeholder hcodes hread
        (Node.mem_all_trans (Node.mem_all_of_spot? hm) hkl)

/-- All nodes are written in what is read as them. -/
theorem isInvariant_areWritten (source : Text) : IsInvariant (Reader.whole source)
    (fun d _ _ qs => AreWritten source d qs)
    (fun ds _ _ qs => ∀ n ∈ qs.flatMap Phrase.held, ∀ k ∈ n.all, ∀ m c, k.spot? = some (m, c) →
      ∃ d ∈ ds, IsWritten source c d m) where
  terminal {t a b} _ _ := by
    intro n hn
    split at hn <;> simp [Phrase.held] at hn
  node hmem hsymbols hrow hps h hbuild := by
    refine areWritten_of_build hmem hsymbols hrow hps ?_ hbuild
    intro n hn k hk m c hm
    obtain ⟨d, hd, hwritten⟩ := h n hn k hk m c hm
    exact hwritten.of_mem hd
  one h := fun n hn k hk m c hm => ⟨_, List.mem_cons_self, h n hn k hk m c hm⟩
  cons _ h _ _ h' := by
    intro n hn k hk m c hm
    rw [List.flatMap_append] at hn
    rcases List.mem_append.1 hn with hn | hn
    · exact ⟨_, List.mem_cons_self, h n hn k hk m c hm⟩
    · obtain ⟨d, hd, hwritten⟩ := h' n hn k hk m c hm
      exact ⟨d, List.mem_cons_of_mem _ hd, hwritten⟩

/-- The spots of all nodes that a derivation is read as are written in it. -/
theorem isWritten_of_phrases (hd : Reads grammar source d a b)
    (hqs : (Reader.whole source).phrases d = .ok qs) (hn : n ∈ qs.flatMap Phrase.held)
    (hk : k ∈ n.all) (h : k.spot? = some (m, c)) : IsWritten source c d m :=
  (isInvariant_areWritten source).of_reads hd hqs n hn k hk m c h

end SkinCompiler.Source
