import SkinCompiler.Proofs.Source.Placement
import SkinCompiler.Proofs.Text.Blank

/-!
# How tags, attributes and texts are spelled

The names of elements and attributes and the texts between elements are what their terminals cover,
also where they are read from the placeholders of a template literal.

* `Node.IsSpelled` -- what is known of these names and texts;
* `isInvariant_areSpelled` -- the phrases of a derivation are spelled;
* `readExpressionAt_isSpelled`, `readModule_isSpelled` -- so are all nodes that are read.
-/

namespace SkinCompiler.Source

open Grammar

variable {source : Text} {r : Reader} {form : Form} {span : Span} {ps qs : List Phrase} {n m : Node}

/-! ## Spelling -/

/-- Characters of the names of elements and attributes. -/
def isTagChar (c : Char) : Bool :=
  Terminal.isNameStart c || Terminal.isNamePart c || c == '-' || c == '.' || c == ':'

/-- Names of elements and attributes have their characters, and no element begins in a text. -/
def Node.IsSpelled : Node → Prop
  | .element _ tag _ _ _ => ∀ c ∈ tag, isTagChar c = true
  | .attribute _ name _ => name ≠ [] ∧ ∀ c ∈ name, isTagChar c = true
  | .text _ t => '<' ∉ t
  | _ => True

/-- Tags, attribute names and texts are spelled as those of nodes. -/
def Terminal.Spells : Terminal → Text → Prop
  | .tag, t => ∀ c ∈ t, isTagChar c = true
  | .attribute, t => t ≠ [] ∧ ∀ c ∈ t, isTagChar c = true
  | .run, t => '<' ∉ t
  | _, _ => True

namespace Terminal

variable {part : Char → Bool} {t : Text} {k : Nat}

theorem of_name? (h : name? part t = some k) :
    t.take k ≠ [] ∧ ∀ c ∈ t.take k, isNameStart c = true ∨ part c = true := by
  unfold name? at h
  split at h
  · rename_i c rest
    split at h
    · rename_i hstart
      obtain rfl := Option.some.inj h
      have htake : rest.take (rest.takeWhile part).length = rest.takeWhile part :=
        (List.prefix_iff_eq_take.1 (List.takeWhile_prefix part)).symm
      rw [Nat.add_comm, List.take_succ_cons, htake]
      refine ⟨List.cons_ne_nil _ _, fun x hx => ?_⟩
      rcases List.mem_cons.1 hx with rfl | hx
      · exact Or.inl hstart
      · exact Or.inr (List.mem_takeWhile_imp hx)
    · cases h
  · cases h

theorem not_mem_of_run? (h : run? t = some k) : '<' ∉ t.take k := by
  unfold run? at h
  split at h
  · rename_i c rest
    split at h
    · cases h
    · obtain rfl := Option.some.inj h
      -- the margin that is taken off stands at the end
      obtain ⟨gap, -, hgap, -⟩ :=
        Text.exists_trimRight ((c :: rest).takeWhile fun c => !endsRun c)
      have hprefix : Text.trimRight Text.isBlank ((c :: rest).takeWhile fun c => !endsRun c) <+:
          c :: rest := List.IsPrefix.trans ⟨gap, hgap.symm⟩ (List.takeWhile_prefix _)
      rw [← List.prefix_iff_eq_take.1 hprefix]
      intro hmem
      have hrun : '<' ∈ (c :: rest).takeWhile fun c => !endsRun c := by
        rw [hgap]
        exact List.mem_append_left _ hmem
      have hends := List.mem_takeWhile_imp hrun
      simp [endsRun] at hends
  · cases h

/-- What a terminal covers is spelled as it should be. -/
theorem spells_of_measure : ∀ {terminal : Terminal}, terminal.measure t = some k →
    terminal.Spells (t.take k)
  | .tag, h => by
    intro c hc
    rcases (of_name? h).2 c hc with hc | hc
    · simp [isTagChar, hc]
    · rcases Bool.or_eq_true_iff.1 hc with hc | hc <;> simp [isTagChar, hc]
  | .attribute, h => by
    refine ⟨(of_name? h).1, fun c hc => ?_⟩
    rcases (of_name? h).2 c hc with hc | hc
    · simp [isTagChar, hc]
    · rcases Bool.or_eq_true_iff.1 hc with hc | hc
      · rcases Bool.or_eq_true_iff.1 hc with hc | hc <;> simp [isTagChar, hc]
      · simp [isTagChar, hc]
  | .run, h => not_mem_of_run? h
  | .mark _, _ => trivial
  | .keyword _, _ => trivial
  | .bindingWord, _ => trivial
  | .name, _ => trivial
  | .property, _ => trivial
  | .string, _ => trivial
  | .template, _ => trivial
  | .number, _ => trivial
  | .operator _, _ => trivial

end Terminal

/-! ## Rules -/

/-- What a tag is read from. -/
def isTagPart (s : Grammar.Symbol Terminal Category) : Bool :=
  s = .terminal (.mark ".") || s = .terminal .tag || s = .category .moreTags

/-- Tags are read from parts of tags, attributes begin with their name, and a text is a run. -/
def SpellsTags (rule : Grammar.Rule Terminal Category Form) : Prop :=
  (rule.form = .tag ∨ rule.head = .moreTags → ∀ s ∈ rule.body, isTagPart s = true) ∧
  (rule.head = .moreTags → rule.form = .contents) ∧
  (rule.form = .attribute → rule.body.head? = some (.terminal .attribute)) ∧
  (rule.form = .text → rule.body.head? = some (.terminal .run))

instance (rule : Grammar.Rule Terminal Category Form) : Decidable (SpellsTags rule) :=
  inferInstanceAs (Decidable (_ ∧ _ ∧ _ ∧ _))

theorem forall_rules_spellsTags : ∀ rules ∈ grammar.rules.toList, ∀ rule ∈ rules,
    SpellsTags rule := by
  decide +kernel

theorem spellsTags {rule : Grammar.Rule Terminal Category Form} {c : Category}
    (h : rule ∈ grammar.rulesOf c) : SpellsTags rule := by
  obtain ⟨rules, hrules, hmem⟩ := exists_rules h
  exact forall_rules_spellsTags rules hrules rule hmem

/-! ## Constructs -/

/-- Elements, attributes and texts. -/
def Node.isMarkup : Node → Bool
  | .element _ _ _ _ _ | .attribute _ _ _ | .text _ _ => true
  | _ => false

theorem Node.isSpelled_of_not_isMarkup (h : n.isMarkup = false) : n.IsSpelled := by
  unfold Node.IsSpelled
  split
  case h_4 => trivial
  all_goals cases h

/-- The forms of elements, attributes and texts. -/
def Form.isMarkup : Form → Bool
  | .attribute | .text | .selfClosing | .element => true
  | _ => false

/-- Phrases that hold no new elements, attributes or texts and no new tags. -/
def IsPlainOver (ps qs : List Phrase) : Prop :=
  (∀ n, .node n ∈ qs → n ∈ ps.flatMap Phrase.held ∨ n.isMarkup = false) ∧
    ∀ name, .tag name ∈ qs → .tag name ∈ ps

theorem isPlainOver_self (ps : List Phrase) : IsPlainOver ps ps :=
  ⟨fun n hn => .inl (List.mem_flatMap.2 ⟨_, hn, List.mem_singleton_self n⟩), fun _ h => h⟩

theorem isPlainOver_node (h : n.isMarkup = false) : IsPlainOver ps [.node n] := by
  constructor
  · intro m hm
    obtain rfl : m = n := by simpa using hm
    exact .inr h
  · intro name hname
    simp at hname

theorem isPlainOver_one {make : Node → Node} (h : ∀ n, (make n).isMarkup = false) :
    IsPlainOver ps (Reader.one make ps) := by
  unfold Reader.one
  split
  · exact isPlainOver_node (h _)
  · constructor <;> simp

theorem isPlainOver_nothing (hnode : ∀ n, .node n ∉ qs) (htag : ∀ name, .tag name ∉ qs) :
    IsPlainOver ps qs :=
  ⟨fun n hn => absurd hn (hnode n), fun name hname => absurd hname (htag name)⟩

theorem isPlainOver_buildStatement : IsPlainOver ps (Reader.buildStatement form span ps) := by
  unfold Reader.buildStatement
  split
  case h_3 => exact isPlainOver_one fun _ => rfl
  case h_4 => exact isPlainOver_one fun _ => rfl
  case h_5 => exact isPlainOver_one fun _ => rfl
  case h_9 => exact isPlainOver_self ps
  all_goals exact isPlainOver_node rfl

theorem isPlainOver_wrapped : IsPlainOver ps (Reader.one id ps) := by
  unfold Reader.one
  split
  · rename_i n rest hn
    constructor
    · intro m hm
      obtain rfl : m = n := by simpa using hm
      refine .inl ((nodes_sublist_held ps).subset ?_)
      rw [hn]
      exact List.mem_cons_self
    · intro name hname
      simp at hname
  · exact isPlainOver_nothing (by simp) (by simp)

theorem isPlainOver_buildExpression :
    IsPlainOver ps (Reader.buildExpression r form span ps) := by
  unfold Reader.buildExpression
  split
  case h_6 => exact isPlainOver_wrapped
  case h_14 => exact isPlainOver_one fun _ => rfl
  case h_16 => exact isPlainOver_one fun _ => rfl
  case h_17 => exact isPlainOver_one fun _ => rfl
  case h_20 => exact isPlainOver_self _
  all_goals exact isPlainOver_node rfl

theorem isPlainOver_buildOutline (h : form ≠ .tag) :
    IsPlainOver ps (Reader.buildOutline form span ps) := by
  unfold Reader.buildOutline
  split
  case h_18 => exact isPlainOver_self ps
  case h_15 => exact absurd rfl h
  case h_8 => split <;> exact isPlainOver_nothing (by simp) (by simp)
  all_goals exact isPlainOver_nothing (by simp) (by simp)

theorem isPlainOver_buildTemplate (h : Reader.buildTemplate r span ps = .ok qs) :
    IsPlainOver ps qs := by
  unfold Reader.buildTemplate at h
  split at h
  · dsimp only at h
    split at h
    · obtain rfl := Except.ok.inj h
      exact isPlainOver_node rfl
    · cases h
  · obtain rfl := Except.ok.inj h
    exact isPlainOver_self ps

theorem isPlainOver_buildElement (h : Reader.buildElement r form span ps = .ok qs)
    (hform : form.isMarkup = false) : IsPlainOver ps qs := by
  unfold Reader.buildElement at h
  split at h
  case h_2 =>
    obtain rfl := Except.ok.inj h
    exact isPlainOver_one fun _ => rfl
  case h_3 =>
    obtain rfl := Except.ok.inj h
    exact isPlainOver_node rfl
  case h_5 =>
    obtain rfl := Except.ok.inj h
    exact isPlainOver_node rfl
  case h_8 =>
    obtain rfl := Except.ok.inj h
    exact isPlainOver_self ps
  all_goals cases hform

/-- Constructs other than tags, elements, attributes and texts make none of these. -/
theorem isPlainOver_build (h : r.build form span ps = .ok qs) (hform : form.isMarkup = false)
    (htag : form ≠ .tag) : IsPlainOver ps qs := by
  rcases build_cases h with ⟨-, rfl⟩ | ⟨-, h⟩ | ⟨-, h⟩ | ⟨-, rfl | rfl | rfl⟩
  · exact isPlainOver_self _
  · exact isPlainOver_buildTemplate h
  · exact isPlainOver_buildElement h hform
  · exact isPlainOver_buildStatement
  · exact isPlainOver_buildExpression
  · exact isPlainOver_buildOutline htag

/-! ## Phrases -/

/-- What phrases hold is spelled as it should be. -/
structure AreSpelled (ps : List Phrase) : Prop where
  /-- Nodes are, with all that is below them. -/
  nodes : ∀ n ∈ ps.flatMap Phrase.held, ∀ m ∈ n.all, m.IsSpelled
  /-- Tags are. -/
  tags : ∀ name, .tag name ∈ ps → ∀ c ∈ name, isTagChar c = true
  /-- Terminals are. -/
  tokens : ∀ t text start, .token t text start ∈ ps → t.Spells text

theorem AreSpelled.nil : AreSpelled [] := by
  constructor <;> simp

theorem AreSpelled.append (h : AreSpelled ps) (h' : AreSpelled qs) : AreSpelled (ps ++ qs) := by
  constructor
  · intro n hn
    rw [List.flatMap_append, List.mem_append] at hn
    exact hn.elim (h.nodes n) (h'.nodes n)
  · intro name hname
    exact (List.mem_append.1 hname).elim (h.tags name) (h'.tags name)
  · intro t text start ht
    exact (List.mem_append.1 ht).elim (h.tokens t text start) (h'.tokens t text start)

/-- The first terminal of a construct comes first among its phrases. -/
theorem exists_head_token {t : Terminal} {ds : List (Derivation Terminal Category Form)}
    (ht : t.isTelling = true) (hhead : (ds.map Derivation.symbol).head? = some (.terminal t))
    (hps : r.phrasesOfRow ds = .ok ps) :
    ∃ text start rest, ps = .token t text start :: rest := by
  cases ds with
  | nil => cases hhead
  | cons d ds =>
    obtain ⟨first, rest, hfirst, -, rfl⟩ := phrasesOfRow_cons_iff.1 hps
    cases d with
    | node rule ds => cases hhead
    | terminal t' start stop =>
      obtain rfl : t' = t := by simpa [Derivation.symbol] using hhead
      rw [Reader.phrases, if_pos ht] at hfirst
      obtain rfl := Except.ok.inj hfirst
      exact ⟨_, _, rest, rfl⟩

/-- The first of the names of tags, if there is one, is spelled as a tag. -/
theorem isTagChar_of_mem_headD {name? : Phrase → Option Text}
    (hname : ∀ p name, name? p = some name → p = .tag name)
    (htags : ∀ name, .tag name ∈ ps → ∀ c ∈ name, isTagChar c = true) :
    ∀ c ∈ (ps.filterMap name?).headD [], isTagChar c = true := by
  intro c hc
  rw [List.headD_eq_head?_getD] at hc
  cases hhead : (ps.filterMap name?).head? with
  | none =>
    rw [hhead] at hc
    cases hc
  | some name =>
    rw [hhead] at hc
    obtain ⟨p, hp, hp'⟩ := List.mem_filterMap.1 (List.mem_of_head? hhead)
    obtain rfl := hname p name hp'
    exact htags name hp c hc

/-- A new element, attribute or text is spelled as its tag, its name or its run is. -/
theorem exists_of_buildElement (h : Reader.buildElement r form span ps = .ok qs)
    (hform : form.isMarkup = true)
    (hattribute : form = .attribute → Terminal.attribute.Spells ((Phrase.tokens ps).headD []))
    (htext : form = .text → Terminal.run.Spells ((Phrase.tokens ps).headD []))
    (htags : ∀ name, .tag name ∈ ps → ∀ c ∈ name, isTagChar c = true) :
    ∃ n, qs = [.node n] ∧ n.IsSpelled := by
  unfold Reader.buildElement at h
  split at h
  case h_1 => exact ⟨_, (Except.ok.inj h).symm, hattribute rfl⟩
  case h_4 => exact ⟨_, (Except.ok.inj h).symm, htext rfl⟩
  case h_6 | h_7 =>
    dsimp only at h
    split at h
    · cases h
    · refine ⟨_, (Except.ok.inj h).symm, isTagChar_of_mem_headD (fun p name hname => ?_) htags⟩
      split at hname
      · obtain rfl := Option.some.inj hname
        rfl
      · cases hname
  all_goals simp_all [Form.isMarkup]

/-- Phrases that are the parts of a tag. -/
def AreTagParts (ps : List Phrase) : Prop := ∀ p ∈ ps, ∃ text start, p = .token .tag text start

/-- The phrases of a tag are its parts. -/
theorem isInvariant_areTagParts (r : Reader) :
    IsInvariant r (fun d _ _ qs => isTagPart d.symbol = true → AreTagParts qs)
      (fun ds _ _ qs => (∀ s ∈ ds.map Derivation.symbol, isTagPart s = true) → AreTagParts qs) where
  terminal {t a b} _ _ hpart := by
    intro p hp
    split at hp
    · rename_i htelling
      have ht : t = .tag := by
        rcases t <;> simp_all [isTagPart, Derivation.symbol, Terminal.isTelling]
      subst ht
      exact ⟨_, _, List.mem_singleton.1 hp⟩
    · cases hp
  node {rule ds a b ps qs} hmem hsymbols _ _ hrow hbuild hpart := by
    have hhead : rule.head = .moreTags := by simpa [isTagPart, Derivation.symbol] using hpart
    obtain ⟨hbody, hcontents, -, -⟩ := spellsTags hmem
    rw [hcontents hhead] at hbuild
    rw [eq_of_build_contents hbuild]
    refine hrow ?_
    rw [hsymbols]
    exact hbody (.inr hhead)
  one h hparts := h (hparts _ List.mem_cons_self)
  cons _ first _ _ others hparts := by
    intro p hp
    rcases List.mem_append.1 hp with hp | hp
    · exact first (hparts _ List.mem_cons_self) p hp
    · exact others (fun s hs => hparts s (List.mem_cons_of_mem _ hs)) p hp

/-- The name of a tag is its parts with points between them. -/
theorem isTagChar_of_build_tag {name : Text} (h : AreSpelled ps)
    (hparts : AreTagParts ps)
    (hbuild : r.build .tag span ps = .ok qs) (hname : .tag name ∈ qs) :
    ∀ c ∈ name, isTagChar c = true := by
  unfold Reader.build at hbuild
  obtain rfl := Except.ok.inj hbuild
  obtain rfl : name = Text.join "." (Phrase.tokens ps) := by
    simpa [Reader.buildOutline] using hname
  intro c hc
  rcases Text.mem_of_mem_join hc with hc | ⟨text, htext, hc⟩
  · obtain rfl : c = '.' := by simpa using hc
    decide
  · obtain ⟨p, hp, htoken⟩ := List.mem_filterMap.1 htext
    obtain ⟨text', start, rfl⟩ := hparts p hp
    obtain rfl := Option.some.inj htoken
    exact h.tokens _ _ _ hp c hc

/-- A construct gives a single spelled node, or nothing that has to be spelled. -/
theorem spelled_or_isPlainOver {rule : Grammar.Rule Terminal Category Form} {c : Category}
    {ds : List (Derivation Terminal Category Form)} (hmem : rule ∈ grammar.rulesOf c)
    (hsymbols : ds.map Derivation.symbol = rule.body) (hps : r.phrasesOfRow ds = .ok ps)
    (h : AreSpelled ps) (hbuild : r.build rule.form span ps = .ok qs) (htag : rule.form ≠ .tag) :
    (∃ n, qs = [.node n] ∧ n.IsSpelled) ∨ IsPlainOver ps qs := by
  by_cases hform : rule.form.isMarkup = true
  · left
    obtain ⟨-, -, hattribute, htext⟩ := spellsTags hmem
    have helement : Reader.buildElement r rule.form span ps = .ok qs := by
      unfold Reader.build at hbuild
      split at hbuild
      all_goals simp_all [Form.isMarkup]
    -- the name of an attribute and a run come first
    refine exists_of_buildElement helement hform ?_ ?_ h.tags
    · intro hrule
      obtain ⟨text, start, rest, rfl⟩ := exists_head_token rfl (hsymbols ▸ hattribute hrule) hps
      exact h.tokens _ _ _ List.mem_cons_self
    · intro hrule
      obtain ⟨text, start, rest, rfl⟩ := exists_head_token rfl (hsymbols ▸ htext hrule) hps
      exact h.tokens _ _ _ List.mem_cons_self
  · exact .inr (isPlainOver_build hbuild (by simpa using hform) htag)

/-- Placeholders are read as spelled nodes. -/
def Reader.IsSpelling (r : Reader) : Prop :=
  ∀ code position n, r.placeholder code position = .ok n → ∀ m ∈ n.all, m.IsSpelled

/-- What is below a new node is spelled if the nodes of its parts are. -/
theorem isSpelled_below (hr : r.IsSpelling) (h : AreSpelled ps)
    (hbuilt : Built r form span ps qs) (hn : n ∈ qs.flatMap Phrase.held)
    (hnode : .node n ∈ qs → n ∈ ps.flatMap Phrase.held ∨ n.IsSpelled) :
    ∀ m ∈ n.all, m.IsSpelled := by
  -- a new node is spelled, and what is below it comes from its parts
  have hover : (.node n ∈ qs) → (∀ k ∈ n.children, ∀ m ∈ k.all, m.IsSpelled) →
      ∀ m ∈ n.all, m.IsSpelled := by
    intro hmem hbelow m hm
    rcases hnode hmem with hheld | hspelled
    · exact h.nodes n hheld m hm
    · rw [Node.all_eq, List.mem_cons] at hm
      rcases hm with rfl | hm
      · exact hspelled
      · obtain ⟨k, hk, hmk⟩ := List.mem_flatMap.1 hm
        exact hbelow k hk m hmk
  cases hbuilt with
  | parts _ => exact h.nodes n hn
  | held held _ _ _ => exact h.nodes n (held.subset hn)
  | imported _ _ _ => cases hn
  | node k _ children _ _ _ =>
    obtain rfl : n = k := List.mem_singleton.1 hn
    exact hover List.mem_cons_self fun k hk => h.nodes k (children.subset hk)
  | element tag selfClosing _ =>
    obtain rfl : n = _ := List.mem_singleton.1 hn
    refine hover List.mem_cons_self fun k hk => h.nodes k ?_
    refine (nodes_sublist_held ps).subset ?_
    rcases List.mem_append.1 hk with hk | hk
    · exact (List.mem_filter.1 hk).1
    · exact (List.mem_filter.1 hk).1
  | shorthand name _ =>
    obtain rfl : n = _ := List.mem_singleton.1 hn
    refine hover List.mem_cons_self fun k hk m hm => ?_
    obtain rfl := List.mem_singleton.1 hk
    obtain rfl := List.mem_singleton.1 hm
    trivial
  | method key body _ mem =>
    obtain rfl : n = _ := List.mem_singleton.1 hn
    refine hover List.mem_cons_self fun k hk m hm => ?_
    obtain rfl := List.mem_singleton.1 hk
    rw [Node.all_eq, List.mem_cons] at hm
    rcases hm with rfl | hm
    · trivial
    · obtain ⟨l, hl, hml⟩ := List.mem_flatMap.1 hm
      obtain rfl := List.mem_singleton.1 hl
      exact h.nodes _ ((nodes_sublist_held ps).subset mem) m hml
  | template t text start placeholders _ _ read =>
    obtain rfl : n = _ := List.mem_singleton.1 hn
    refine hover List.mem_cons_self fun k hk => ?_
    obtain ⟨x, hx, hread⟩ := exists_of_mapM_eq_ok read hk
    exact hr _ _ k hread

/-- The meaning of a construct is spelled as it should be if those of its parts are. -/
theorem areSpelled_of_build {rule : Grammar.Rule Terminal Category Form} {c : Category}
    {ds : List (Derivation Terminal Category Form)} {a b : Nat} (hr : r.IsSpelling)
    (hmem : rule ∈ grammar.rulesOf c) (hsymbols : ds.map Derivation.symbol = rule.body)
    (hrow : ReadsRow grammar r.text ds a b) (hps : r.phrasesOfRow ds = .ok ps)
    (h : AreSpelled ps) (hbuild : r.build rule.form span ps = .ok qs) : AreSpelled qs := by
  have hbuilt := built_of_build hbuild
  have hnew (htag : rule.form ≠ .tag) := spelled_or_isPlainOver hmem hsymbols hps h hbuild htag
  refine ⟨?_, ?_, ?_⟩
  · intro n hn
    refine isSpelled_below hr h hbuilt hn fun hnode => ?_
    by_cases htag : rule.form = .tag
    · rw [htag] at hbuild
      have hmem : n ∈ Phrase.nodes qs := List.mem_filterMap.2 ⟨_, hnode, rfl⟩
      rw [nodes_of_build_tag hbuild] at hmem
      cases hmem
    · rcases hnew htag with ⟨m, rfl, hm⟩ | hplain
      · obtain rfl := Phrase.node.inj (List.mem_singleton.1 hnode)
        exact .inr hm
      · exact (hplain.1 n hnode).imp_right Node.isSpelled_of_not_isMarkup
  · intro name hname
    by_cases htag : rule.form = .tag
    · have hparts := (isInvariant_areTagParts r).of_readsRow hrow hps
        (hsymbols ▸ (spellsTags hmem).1 (.inl htag))
      rw [htag] at hbuild
      exact isTagChar_of_build_tag h hparts hbuild hname
    · rcases hnew htag with ⟨m, rfl, -⟩ | hplain
      · simp at hname
      · exact h.tags name (hplain.2 name hname)
  · intro t text start ht
    cases hbuilt with
    | parts _ => exact h.tokens t text start ht
    | held _ _ tokens _ =>
      have htoken : text ∈ Phrase.tokens qs := List.mem_filterMap.2 ⟨_, ht, rfl⟩
      rw [tokens] at htoken
      cases htoken
    | _ => simp at ht

/-- The phrases of derivations and rows are spelled. -/
theorem isInvariant_areSpelled (hr : r.IsSpelling) :
    IsInvariant r (fun _ _ _ qs => AreSpelled qs) (fun _ _ _ qs => AreSpelled qs) where
  terminal {t a b} _ hmeasure := by
    split
    · constructor
      · simp [Phrase.held]
      · simp
      · intro t' text start ht
        obtain ⟨rfl, rfl, -⟩ := Phrase.token.inj (List.mem_singleton.1 ht)
        exact Terminal.spells_of_measure hmeasure
    · exact .nil
  node hmem hsymbols hrow hps h hbuild := areSpelled_of_build hr hmem hsymbols hrow hps h hbuild
  one h := h
  cons _ h _ _ h' := h.append h'

/-! ## Whole texts -/

theorem readExpressionAt_isSpelled (depth : Nat) {text : Text} {offset : Nat}
    (h : readExpressionAt source depth text offset = .ok n) : ∀ m ∈ n.all, m.IsSpelled := by
  induction depth generalizing text offset n with
  | zero => cases h
  | succ depth ih =>
    obtain ⟨d, ps, a, b, -, hreads, hps, hheld⟩ := exists_of_readExpressionAt h
    have hr : (⟨source, text, offset, readExpressionAt source depth⟩ : Reader).IsSpelling :=
      fun _ _ _ hn => ih hn
    exact ((isInvariant_areSpelled hr).of_reads hreads hps).nodes n hheld

theorem readModule_isSpelled {items : List ModuleItem} (h : readModule source = .ok items) :
    ∀ n ∈ items.flatMap ModuleItem.nodes, ∀ m ∈ n.all, m.IsSpelled := by
  obtain rfl | ⟨d, ps, a, b, -, hreads, hps, rfl⟩ := exists_of_readModule h
  · simp
  · have hr : (⟨source, source, 0, readExpressionAt source (source.length + 1)⟩ :
        Reader).IsSpelling := fun _ _ _ hn => readExpressionAt_isSpelled _ hn
    have hspelled := (isInvariant_areSpelled hr).of_reads hreads hps
    exact fun n hn => hspelled.nodes n ((nodes_toItem_sublist ps).subset hn)

end SkinCompiler.Source
