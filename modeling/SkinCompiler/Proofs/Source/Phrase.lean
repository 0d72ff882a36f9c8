import Mathlib.Data.List.Flatten
import SkinCompiler.Proofs.Source.Grammar
import SkinCompiler.Source.Phrase

/-!
# What constructs are built from

The meaning of a construct is a new node over the nodes of its parts, or it hands these on.

* `Built`, `built_of_build` -- the ways in which the meaning of a construct comes from its parts;
* `phrases_node_iff`, `phrasesOfRow_cons_iff` -- the meanings of derivations and of rows of them;
* `IsInvariant` -- what holds of all phrases because every construct keeps it.
-/

namespace SkinCompiler.Source

open Grammar

variable {r : Reader} {form : Form} {span : Span} {ps qs : List Phrase}

/-! ## The nodes of phrases -/

/-- The nodes that an item holds. -/
def ModuleItem.nodes : ModuleItem → List Node
  | .exportDefault n => [n]
  | .exported n => [n]
  | .statement n => [n]
  | .imported _ => []
  | .aside => []

/-- The nodes that a phrase holds. -/
def Phrase.held : Phrase → List Node
  | .node n => [n]
  | .arguments ns => ns
  | .item i => i.nodes
  | _ => []

theorem nodes_cons (p : Phrase) (ps : List Phrase) :
    Phrase.nodes (p :: ps) = p.node?.toList ++ Phrase.nodes ps := by
  cases p <;> rfl

theorem nodes_append (ps qs : List Phrase) :
    Phrase.nodes (ps ++ qs) = Phrase.nodes ps ++ Phrase.nodes qs := by
  simp [Phrase.nodes]

/-- The nodes among phrases are held by them. -/
theorem nodes_sublist_held (ps : List Phrase) :
    (Phrase.nodes ps).Sublist (ps.flatMap Phrase.held) := by
  induction ps with
  | nil => exact List.Sublist.slnil
  | cons p ps ih =>
    rw [nodes_cons, List.flatMap_cons]
    refine List.Sublist.append ?_ ih
    cases p <;> simp [Phrase.node?, Phrase.held]

/-! ## Constructs -/

/-- How the meaning of a construct comes from those of its parts. -/
inductive Built (r : Reader) (form : Form) (span : Span) (ps : List Phrase) :
    List Phrase → Prop
  /-- It stands for its parts. -/
  | parts (plain : form.isAttribute = false ∧ form.isElement = false) : Built r form span ps ps
  /-- It holds some of the nodes of its parts, and no new one. -/
  | held {qs : List Phrase} (held : (qs.flatMap Phrase.held).Sublist (ps.flatMap Phrase.held))
    (nodes : ∀ n ∈ Phrase.nodes qs,
      n ∈ Phrase.nodes ps ∧ form.isAttribute = false ∧ form.isElement = false)
    (tokens : Phrase.tokens qs = []) (item : ∀ i, .item (.imported i) ∉ qs) :
    Built r form span ps qs
  /-- It is an import. -/
  | imported (i : Import) (range : i.span = some span)
    (form_eq : form = .importNames ∨ form = .importEffects) :
    Built r form span ps [.item (.imported i)]
  /-- It is a new node over nodes of its parts. -/
  | node (n : Node) (range : n.span = span)
    (children : n.children.Sublist (ps.flatMap Phrase.held))
    (attributed : Reader.isAttribute n = form.isAttribute)
    (container : ∀ s e, n = .container s e → form = .container)
    (declaration : ∀ s w ds, n = .declaration s w ds → form = .declaration)
    (member : ∀ s o k c, n = .member s o k c → form = .member ∨ form = .index) :
    Built r form span ps [.node n]
  /-- It is an element: the attributes come before the children. -/
  | element (tag : Text) (selfClosing : Bool) (form_eq : form.isElement = true) :
    Built r form span ps [.node (.element span tag ((Phrase.nodes ps).filter Reader.isAttribute)
      ((Phrase.nodes ps).filter (!Reader.isAttribute ·)) selfClosing)]
  /-- It is a property that is named like its value. -/
  | shorthand (name : Text) (form_eq : form = .shorthand) :
    Built r form span ps [.node (.property span (some name) (.identifier span name) true false)]
  /-- It is a method. -/
  | method (key : Option Text) (body : Node) (form_eq : form = .method)
    (mem : body ∈ Phrase.nodes ps) :
    Built r form span ps
      [.node (.property span key (.function span key body false) false false)]
  /-- It is a template literal with the nodes read from its placeholders. -/
  | template (t : Terminal) (text : Text) (start : Nat) (placeholders : List Node)
    (form_eq : form = .template) (parts : ps = [.token t text start])
    (read : (templateCodes (templatePieces 0 (r.offset + start + 1) (text.drop 1))).mapM
      (fun (code, position) => r.placeholder code position) = .ok placeholders) :
    Built r form span ps [.node (.template span
      (templateTexts (templatePieces 0 (r.offset + start + 1) (text.drop 1))) placeholders)]

/-- A construct made of the first node among its parts. -/
theorem built_one {make : Node → Node} (hspan : ∀ n, (make n).span = span)
    (hchildren : ∀ n, (make n).children = [n])
    (hattribute : ∀ n, Reader.isAttribute (make n) = form.isAttribute)
    (hcontainer : ∀ n s e, make n ≠ .container s e)
    (hdeclaration : ∀ n s w ds, make n ≠ .declaration s w ds)
    (hmember : ∀ n s o k c, make n ≠ .member s o k c) :
    Built r form span ps (Reader.one make ps) := by
  unfold Reader.one
  split
  · rename_i n rest hn
    refine .node _ (hspan n) ?_ (hattribute n) (fun s e h => absurd h (hcontainer n s e))
      (fun s w ds h => absurd h (hdeclaration n s w ds))
      (fun s o k c h => absurd h (hmember n s o k c))
    rw [hchildren]
    refine List.Sublist.trans ?_ (nodes_sublist_held ps)
    rw [hn]
    simp
  · exact .held (by simp) (by simp [Phrase.nodes]) rfl (by simp)

theorem head?_sublist_held (ps : List Phrase) :
    (Phrase.nodes ps).head?.toList.Sublist (ps.flatMap Phrase.held) := by
  refine List.Sublist.trans ?_ (nodes_sublist_held ps)
  cases Phrase.nodes ps <;> simp

theorem built_buildStatement (h : form.isAttribute = false ∧ form.isElement = false) :
    Built r form span ps (Reader.buildStatement form span ps) := by
  unfold Reader.buildStatement
  split
  · exact .node _ rfl (head?_sublist_held ps) h.1.symm (by simp) (by simp) (by simp)
  · exact .node _ rfl (nodes_sublist_held ps) h.1.symm (by simp) (by simp) (by simp)
  · exact built_one (fun _ => rfl) (fun _ => rfl) (fun _ => h.1.symm) (by simp) (by simp) (by simp)
  · exact built_one (fun _ => rfl) (fun _ => rfl) (fun _ => h.1.symm) (by simp) (by simp) (by simp)
  · exact built_one (fun _ => rfl) (fun _ => rfl) (fun _ => h.1.symm) (by simp) (by simp) (by simp)
  · exact .node _ rfl (nodes_sublist_held ps) h.1.symm (by simp) (by simp) (by simp)
  · exact .node _ rfl (head?_sublist_held ps) h.1.symm (by simp) (by simp) (by simp)
  · exact .node _ rfl (by simp [Node.children]) h.1.symm (by simp) (by simp) (by simp)
  · exact .parts h

/-- An expression hands on the first node among its parts. -/
theorem built_wrapped (h : form.isAttribute = false ∧ form.isElement = false) :
    Built r form span ps (Reader.one id ps) := by
  unfold Reader.one
  split
  · rename_i n rest hn
    refine .held ?_ ?_ rfl (by simp)
    · refine List.Sublist.trans ?_ (nodes_sublist_held ps)
      rw [hn]
      simp [Phrase.held]
    · intro m hm
      obtain rfl : m = n := by simpa [Phrase.nodes, Phrase.node?] using hm
      exact ⟨by rw [hn]; exact List.mem_cons_self, h⟩
  · exact .held (by simp) (by simp [Phrase.nodes]) rfl (by simp)

theorem built_buildExpression (h : form.isAttribute = false ∧ form.isElement = false) :
    Built r form span ps (Reader.buildExpression r form span ps) := by
  unfold Reader.buildExpression
  split
  case h_6 => exact built_wrapped h
  case h_14 => exact built_one (fun _ => rfl) (fun _ => rfl) (fun _ => h.1.symm) (by simp) (by simp) (by simp)
  case h_15 => exact .shorthand _ rfl
  case h_16 => exact built_one (fun _ => rfl) (fun _ => rfl) (fun _ => h.1.symm) (by simp) (by simp) (by simp)
  case h_17 =>
    unfold Reader.one
    split
    · rename_i n rest hn
      exact .method _ n rfl (by rw [hn]; exact List.mem_cons_self)
    · exact .held (by simp) (by simp [Phrase.nodes]) rfl (by simp)
  case h_20 => exact .parts h
  all_goals
    refine .node _ rfl ?_ h.1.symm (by simp) (by simp) (by simp)
    simp [Node.children, Phrase.held, nodes_sublist_held]

/-- A construct that holds no node. -/
theorem built_nothing (hheld : qs.flatMap Phrase.held = []) (htokens : Phrase.tokens qs = [])
    (hitem : ∀ i, .item (.imported i) ∉ qs) : Built r form span ps qs := by
  refine .held (by simp [hheld]) ?_ htokens hitem
  intro n hn
  have hmem := (nodes_sublist_held qs).subset hn
  rw [hheld] at hmem
  cases hmem

/-- An item of a module holds the first node among its parts. -/
theorem built_item {make : Node → ModuleItem} (hnodes : ∀ n, (make n).nodes = [n])
    (himported : ∀ n i, make n ≠ .imported i) :
    Built r form span ps ((Phrase.nodes ps).head?.toList.map fun n => .item (make n)) := by
  cases hn : Phrase.nodes ps with
  | nil => exact built_nothing rfl rfl (by simp)
  | cons n rest =>
    have himported' : ∀ i, Phrase.item (.imported i) ∉ [Phrase.item (make n)] := by
      intro i hi
      exact himported n i (by simpa using (List.mem_singleton.1 hi).symm)
    refine .held ?_ (by simp [Phrase.nodes, Phrase.node?]) rfl himported'
    refine List.Sublist.trans ?_ (nodes_sublist_held ps)
    simp [hn, Phrase.held, hnodes]

theorem built_buildOutline (h : form.isAttribute = false ∧ form.isElement = false) :
    Built r form span ps (Reader.buildOutline form span ps) := by
  unfold Reader.buildOutline
  split
  case h_1 => exact .imported _ rfl (.inl rfl)
  case h_2 => exact .imported _ rfl (.inr rfl)
  case h_9 => exact built_item (fun _ => rfl) (fun _ _ => by simp)
  case h_10 => exact built_item (fun _ => rfl) (fun _ _ => by simp)
  case h_17 =>
    refine .held ?_ (by simp [Phrase.nodes, Phrase.node?]) rfl (by simp)
    simp [Phrase.held, nodes_sublist_held]
  case h_18 => exact .parts h
  case h_8 => split <;> exact built_nothing rfl rfl (by simp)
  all_goals exact built_nothing rfl rfl (by simp)

theorem built_buildElement (h : Reader.buildElement r form span ps = .ok qs)
    (hform : form.isAttribute = true ∨ form.isElement = true ∨
      form ∈ [.container, .text, .fragment]) : Built r form span ps qs := by
  unfold Reader.buildElement at h
  split at h
  case h_1 =>
    obtain rfl := Except.ok.inj h
    exact .node _ rfl (head?_sublist_held ps) rfl (by simp) (by simp) (by simp)
  case h_2 =>
    obtain rfl := Except.ok.inj h
    exact built_one (fun _ => rfl) (fun _ => rfl) (fun _ => rfl) (by simp) (by simp) (by simp)
  case h_3 =>
    obtain rfl := Except.ok.inj h
    exact .node _ rfl (head?_sublist_held ps) rfl (by simp) (by simp) (by simp)
  case h_4 =>
    obtain rfl := Except.ok.inj h
    exact .node _ rfl (by simp [Node.children]) rfl (by simp) (by simp) (by simp)
  case h_5 =>
    obtain rfl := Except.ok.inj h
    exact .node _ rfl (nodes_sublist_held ps) rfl (by simp) (by simp) (by simp)
  case h_8 => simp_all [Form.isAttribute, Form.isElement]
  all_goals
    dsimp only at h
    split at h
    · cases h
    · obtain rfl := Except.ok.inj h
      exact .element _ _ rfl

theorem built_buildTemplate (h : Reader.buildTemplate r span ps = .ok qs) :
    Built r .template span ps qs := by
  unfold Reader.buildTemplate at h
  split at h
  · rename_i t text start
    dsimp only at h
    split at h
    · rename_i placeholders hread
      obtain rfl := Except.ok.inj h
      exact .template t text start placeholders rfl rfl hread
    · cases h
  · obtain rfl := Except.ok.inj h
    exact .parts ⟨rfl, rfl⟩

/-- The ways to build the meaning of a construct, with the forms that they are for. -/
theorem build_cases (h : r.build form span ps = .ok qs) :
    (form = .contents ∧ qs = ps) ∨
      (form = .template ∧ Reader.buildTemplate r span ps = .ok qs) ∨
      ((form.isAttribute = true ∨ form.isElement = true ∨
        form ∈ [.container, .text, .fragment]) ∧ Reader.buildElement r form span ps = .ok qs) ∨
      ((form.isAttribute = false ∧ form.isElement = false) ∧
        (qs = Reader.buildStatement form span ps ∨ qs = Reader.buildExpression r form span ps ∨
          qs = Reader.buildOutline form span ps)) := by
  cases form <;> simp_all [Reader.build, Form.isAttribute, Form.isElement]

/-- The meaning of a construct comes from its parts. -/
theorem built_of_build (h : r.build form span ps = .ok qs) : Built r form span ps qs := by
  rcases build_cases h with ⟨rfl, rfl⟩ | ⟨rfl, h⟩ | ⟨hform, h⟩ | ⟨hplain, rfl | rfl | rfl⟩
  · exact .parts ⟨rfl, rfl⟩
  · exact built_buildTemplate h
  · exact built_buildElement h hform
  · exact built_buildStatement hplain
  · exact built_buildExpression hplain
  · exact built_buildOutline hplain

/-! ## Derivations -/

theorem phrases_node_iff {rule : Grammar.Rule Terminal Category Form}
    {ds : List (Derivation Terminal Category Form)} :
    r.phrases (.node rule ds) = .ok qs ↔
      ∃ ps, r.phrasesOfRow ds = .ok ps ∧ r.build rule.form (r.spanOf ds) ps = .ok qs := by
  rw [Reader.phrases]
  cases r.phrasesOfRow ds <;> simp

theorem phrasesOfRow_cons_iff {d : Derivation Terminal Category Form}
    {ds : List (Derivation Terminal Category Form)} :
    r.phrasesOfRow (d :: ds) = .ok qs ↔
      ∃ ps rest, r.phrases d = .ok ps ∧ r.phrasesOfRow ds = .ok rest ∧ qs = ps ++ rest := by
  rw [Reader.phrasesOfRow]
  cases r.phrases d with
  | error e => simp
  | ok ps =>
    cases r.phrasesOfRow ds with
    | error e => simp
    | ok rest =>
      simp only [Except.ok.injEq, exists_and_left, exists_eq_left']
      exact eq_comm

/-! ## Invariants -/

/-- A property of the phrases of derivations and one of those of rows, so that terminals have the
first one and a construct has it if the row of its parts has the second one. -/
structure IsInvariant (r : Reader)
    (P : Derivation Terminal Category Form → Nat → Nat → List Phrase → Prop)
    (Q : List (Derivation Terminal Category Form) → Nat → Nat → List Phrase → Prop) : Prop where
  /-- A terminal shows its text or nothing. -/
  terminal : ∀ {t : Terminal} {a b : Nat}, a < b → t.measure (r.text.drop a) = some (b - a) →
    P (.terminal t a b) a b (if t.isTelling then [.token t (Text.slice r.text a b) a] else [])
  /-- A construct is built of the phrases of its parts. -/
  node : ∀ {rule : Grammar.Rule Terminal Category Form}
    {ds : List (Derivation Terminal Category Form)} {a b : Nat} {ps qs : List Phrase},
    rule ∈ grammar.rulesOf rule.head → ds.map Derivation.symbol = rule.body →
      ReadsRow grammar r.text ds a b → r.phrasesOfRow ds = .ok ps → Q ds a b ps →
        r.build rule.form (r.spanOf ds) ps = .ok qs → P (.node rule ds) a b qs
  /-- A single derivation is a row. -/
  one : ∀ {d : Derivation Terminal Category Form} {a b : Nat} {ps : List Phrase},
    P d a b ps → Q [d] a b ps
  /-- So is a derivation in front of a row. -/
  cons : ∀ {d : Derivation Terminal Category Form} {ds : List (Derivation Terminal Category Form)}
    {a m n b : Nat} {ps qs : List Phrase}, a < m → P d a m ps → m ≤ n → n < b → Q ds n b qs →
      Q (d :: ds) a b (ps ++ qs)

namespace IsInvariant

variable {P : Derivation Terminal Category Form → Nat → Nat → List Phrase → Prop}
  {Q : List (Derivation Terminal Category Form) → Nat → Nat → List Phrase → Prop}

mutual

/-- The phrases of every derivation have the property. -/
theorem of_reads (h : IsInvariant r P Q) :
    ∀ {d : Derivation Terminal Category Form} {a b : Nat} {qs : List Phrase},
      Reads grammar r.text d a b → r.phrases d = .ok qs → P d a b qs
  | .terminal t a b, _, _, _, .terminal hlt hmeasure, hqs => by
    rw [Reader.phrases] at hqs
    obtain rfl := Except.ok.inj hqs
    exact h.terminal hlt hmeasure
  | .node rule ds, _, _, _, .node hmem hsymbols hrow, hqs => by
    obtain ⟨ps, hps, hbuild⟩ := phrases_node_iff.1 hqs
    exact h.node hmem hsymbols hrow hps (h.of_readsRow hrow hps) hbuild

/-- The phrases of every row have the property. -/
theorem of_readsRow (h : IsInvariant r P Q) :
    ∀ {ds : List (Derivation Terminal Category Form)} {a b : Nat} {qs : List Phrase},
      ReadsRow grammar r.text ds a b → r.phrasesOfRow ds = .ok qs → Q ds a b qs
  | _, _, _, _, .one first, hqs => by
    obtain ⟨ps, rest, hps, hrest, rfl⟩ := phrasesOfRow_cons_iff.1 hqs
    obtain rfl := Except.ok.inj hrest
    rw [List.append_nil]
    exact h.one (h.of_reads first hps)
  | _, _, _, _, .cons first gap others, hqs => by
    obtain ⟨ps, rest, hps, hrest, rfl⟩ := phrasesOfRow_cons_iff.1 hqs
    exact h.cons first.lt (h.of_reads first hps) gap.le others.lt (h.of_readsRow others hrest)

end

end IsInvariant

/-! ## Attributes -/

/-- Phrases hold attributes just where a symbol reads some, and no node where it reads none. -/
structure Suits (s : Grammar.Symbol Terminal Category) (ps : List Phrase) : Prop where
  /-- Silent symbols give no nodes. -/
  silent : isSilent s = true → Phrase.nodes ps = []
  /-- The nodes are attributes if the symbol reads attributes, else none is. -/
  attributed : ∀ n ∈ Phrase.nodes ps, Reader.isAttribute n = isAttributed s

/-- Phrases in a row, those of one symbol after those of another. -/
inductive SuitRow : List (Grammar.Symbol Terminal Category) → List Phrase → Prop
  /-- No symbols give no phrases. -/
  | nil : SuitRow [] []
  /-- The phrases of the first symbol come first. -/
  | cons {s : Grammar.Symbol Terminal Category} {ss : List (Grammar.Symbol Terminal Category)}
    {ps rest : List Phrase} (first : Suits s ps) (others : SuitRow ss rest) :
    SuitRow (s :: ss) (ps ++ rest)

variable {ss : List (Grammar.Symbol Terminal Category)} {value : Bool}

theorem SuitRow.attributed (h : SuitRow ss ps)
    (hs : ∀ s ∈ ss, isSilent s = true ∨ isAttributed s = value) :
    ∀ n ∈ Phrase.nodes ps, Reader.isAttribute n = value := by
  induction h with
  | nil => simp [Phrase.nodes]
  | @cons s ss ps rest first others ih =>
    intro n hn
    rw [nodes_append, List.mem_append] at hn
    rcases hn with hn | hn
    · rcases hs s List.mem_cons_self with hsilent | hvalue
      · rw [first.silent hsilent] at hn
        cases hn
      · rw [first.attributed n hn, hvalue]
    · exact ih (fun s hs' => hs s (List.mem_cons_of_mem _ hs')) n hn

/-- If no symbol that reads attributes comes after one that reads other nodes, attributes come
first. -/
theorem SuitRow.pairwise (h : SuitRow ss ps)
    (hs : ss.Pairwise fun s t =>
      isSilent s = true ∨ (isAttributed t = true → isAttributed s = true)) :
    (Phrase.nodes ps).Pairwise fun m n =>
      Reader.isAttribute n = true → Reader.isAttribute m = true := by
  induction h with
  | nil => exact List.Pairwise.nil
  | @cons s ss ps rest first others ih =>
    obtain ⟨hfirst, hothers⟩ := List.pairwise_cons.1 hs
    rw [nodes_append, List.pairwise_append]
    refine ⟨?_, ih hothers, ?_⟩
    · refine List.Pairwise.imp_of_mem ?_ (List.pairwise_of_forall fun _ _ => trivial)
      intro m n hm hn _ hattribute
      rw [first.attributed m hm, ← first.attributed n hn, hattribute]
    · intro m hm n hn hattribute
      by_contra hother
      rw [first.attributed m hm] at hother
      -- then no symbol of the rest reads attributes
      have hnone : ∀ t ∈ ss, isSilent t = true ∨ isAttributed t = false := by
        intro t ht
        rcases hfirst t ht with hsilent | hst
        · rw [first.silent hsilent] at hm
          cases hm
        · exact Or.inr (by simpa using mt hst hother)
      rw [others.attributed hnone n hn] at hattribute
      cases hattribute

theorem filter_append_filter {ns : List Node}
    (h : ns.Pairwise fun m n => Reader.isAttribute n = true → Reader.isAttribute m = true) :
    ns.filter Reader.isAttribute ++ ns.filter (!Reader.isAttribute ·) = ns := by
  induction ns with
  | nil => rfl
  | cons n ns ih =>
    obtain ⟨hfirst, hrest⟩ := List.pairwise_cons.1 h
    by_cases hn : Reader.isAttribute n = true
    · simp [hn, ih hrest]
    · have hnone : ∀ m ∈ ns, Reader.isAttribute m = false := fun m hm => by
        simpa using mt (hfirst m hm) hn
      rw [List.filter_cons_of_neg hn, List.filter_cons_of_pos (by simpa using hn),
        List.filter_eq_nil_iff.2 (by simpa using hnone), List.nil_append,
        List.filter_eq_self.2 (by simpa using hnone)]

theorem nodes_of_build_tag (h : r.build .tag span ps = .ok qs) : Phrase.nodes qs = [] := by
  unfold Reader.build at h
  obtain rfl := Except.ok.inj h
  rfl

theorem eq_of_build_contents (h : r.build .contents span ps = .ok qs) : qs = ps := by
  unfold Reader.build at h
  exact (Except.ok.inj h).symm

/-- The meaning of a construct suits its category if the meanings of its parts suit theirs. -/
theorem suits_of_build {rule : Grammar.Rule Terminal Category Form} {c : Category}
    (hmem : rule ∈ grammar.rulesOf c) (hhead : rule.head = c) (hsuits : SuitRow rule.body ps)
    (hbuild : r.build rule.form span ps = .ok qs) : Suits (.category c) qs := by
  subst hhead
  obtain ⟨hattributed, hbody, -, htag⟩ := placesAttributes hmem
  have hparts (h : rule.form.isAttribute = false ∧ rule.form.isElement = false) :
      ∀ n ∈ Phrase.nodes ps, Reader.isAttribute n = rule.head.isAttributed :=
    hsuits.attributed (hbody h.1 h.2)
  constructor
  · intro hsilent
    have hhead : rule.head = .tagName := by simpa [isSilent] using hsilent
    rw [htag hhead] at hbuild
    exact nodes_of_build_tag hbuild
  · intro n hn
    rw [isAttributed]
    by_cases hform : rule.form = .contents
    · rw [hform] at hbuild hparts
      rw [eq_of_build_contents hbuild] at hn
      exact hparts ⟨rfl, rfl⟩ n hn
    · have hhead := hattributed hform
      have hnode {m : Node} (hm : n ∈ Phrase.nodes [.node m]) : n = m := by
        simpa [Phrase.nodes, Phrase.node?] using hm
      cases built_of_build hbuild with
      | parts plain => exact hparts plain n hn
      | held _ nodes _ _ => exact hparts (nodes n hn).2 n (nodes n hn).1
      | imported _ _ _ => cases hn
      | node m _ _ attributed _ _ => rw [hnode hn, attributed, hhead]
      | element _ _ form_eq =>
        rw [hnode hn, hhead, Form.isAttribute_of_isElement form_eq]
        rfl
      | shorthand _ form_eq => rw [hnode hn, hhead, form_eq]; rfl
      | method _ _ form_eq _ => rw [hnode hn, hhead, form_eq]; rfl
      | template _ _ _ _ form_eq _ _ => rw [hnode hn, hhead, form_eq]; rfl

/-- What is read as a symbol suits it, and what is read as a row of symbols suits them. -/
theorem isInvariant_suits (r : Reader) : IsInvariant r (fun d _ _ qs => Suits d.symbol qs)
    (fun ds _ _ qs => SuitRow (ds.map Derivation.symbol) qs) where
  terminal _ _ := by
    refine ⟨fun _ => ?_, ?_⟩ <;> split <;> simp [Phrase.nodes, Phrase.node?]
  node hmem hsymbols _ _ hsuits hbuild := by
    rw [hsymbols] at hsuits
    exact suits_of_build hmem rfl hsuits hbuild
  one {d a b ps} h := by
    rw [← List.append_nil ps]
    exact .cons h .nil
  cons _ first _ _ others := .cons first others

end SkinCompiler.Source
