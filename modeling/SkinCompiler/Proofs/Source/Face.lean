import SkinCompiler.Proofs.Source.Phrase

/-!
# What building depends on

Whether a construct can be built depends on little of the meanings of its parts: on the texts of
terminals and tags, and on which parts are nodes.

* `Phrase.face` -- that little;
* `exists_build` -- constructs that can be built of phrases can be built of any with the same faces.
-/

namespace SkinCompiler.Source

open Grammar

variable {r r' : Reader} {form : Form} {span span' : Span} {ps ps' qs : List Phrase}

/-! ## Faces -/

/-- What a phrase shows. -/
inductive Face where
  /-- The text of a terminal. -/
  | token (text : Text)
  /-- There is a node. -/
  | node
  /-- There are arguments. -/
  | arguments
  /-- The name of a tag. -/
  | tag (name : Text)
  /-- Anything else. -/
  | other
  deriving DecidableEq

/-- The face of a phrase. -/
def Phrase.face : Phrase → Face
  | .token _ text _ => .token text
  | .node _ => .node
  | .arguments _ => .arguments
  | .tag name => .tag name
  | _ => .other

/-- The faces of phrases. -/
def faces (ps : List Phrase) : List Face := ps.map Phrase.face

theorem faces_append (ps qs : List Phrase) : faces (ps ++ qs) = faces ps ++ faces qs :=
  List.map_append

theorem face_eq_node_iff {p : Phrase} : p.face = .node ↔ ∃ n, p = .node n := by
  cases p <;> simp [Phrase.face]

theorem face_eq_token_iff {p : Phrase} {text : Text} :
    p.face = .token text ↔ ∃ t start, p = .token t text start := by
  cases p <;> simp [Phrase.face]

theorem face_eq_arguments_iff {p : Phrase} : p.face = .arguments ↔ ∃ ns, p = .arguments ns := by
  cases p <;> simp [Phrase.face]

theorem length_nodes (ps : List Phrase) :
    (Phrase.nodes ps).length = (faces ps).count .node := by
  induction ps with
  | nil => rfl
  | cons p ps ih =>
    have hcons : faces (p :: ps) = p.face :: faces ps := rfl
    rw [nodes_cons, List.length_append, ih, hcons, List.count_cons, Nat.add_comm]
    cases p <;> rfl

theorem nodes_eq_nil_iff (h : faces ps' = faces ps) :
    Phrase.nodes ps' = [] ↔ Phrase.nodes ps = [] := by
  rw [← List.length_eq_zero_iff, ← List.length_eq_zero_iff, length_nodes, length_nodes, h]

theorem tokens_eq (h : faces ps' = faces ps) : Phrase.tokens ps' = Phrase.tokens ps := by
  have htokens : ∀ ps : List Phrase, Phrase.tokens ps = (faces ps).filterMap fun
      | .token text => some text
      | _ => none := by
    intro ps
    rw [faces, List.filterMap_map]
    refine List.filterMap_congr fun p _ => ?_
    cases p <;> rfl
  rw [htokens, htokens, h]

/-! ## Building -/

theorem faces_one (make make' : Node → Node) (h : faces ps' = faces ps) :
    faces (Reader.one make' ps') = faces (Reader.one make ps) := by
  have hnil := nodes_eq_nil_iff h
  unfold Reader.one
  cases hn : Phrase.nodes ps with
  | nil => rw [hnil.2 hn]
  | cons n rest =>
    cases hn' : Phrase.nodes ps' with
    | nil =>
      rw [hnil.1 hn'] at hn
      cases hn
    | cons n' rest' => rfl

theorem faces_head? (make make' : Node → ModuleItem) (h : faces ps' = faces ps) :
    faces ((Phrase.nodes ps').head?.toList.map fun n => .item (make' n)) =
      faces ((Phrase.nodes ps).head?.toList.map fun n => .item (make n)) := by
  have hnil := nodes_eq_nil_iff h
  cases hn : Phrase.nodes ps with
  | nil => rw [hnil.2 hn]; rfl
  | cons n rest =>
    cases hn' : Phrase.nodes ps' with
    | nil =>
      rw [hnil.1 hn'] at hn
      cases hn
    | cons n' rest' => rfl

theorem faces_buildOutline (h : faces ps' = faces ps) :
    faces (Reader.buildOutline form span' ps') = faces (Reader.buildOutline form span ps) := by
  have htokens := tokens_eq h
  cases form
  case importSpecifier =>
    simp only [Reader.buildOutline]
    split <;> split <;> rfl
  case exportDefault => exact faces_head? _ _ h
  case exportDeclaration => exact faces_head? _ _ h
  case tag => simp only [Reader.buildOutline, htokens]
  all_goals first | rfl | exact h

theorem faces_buildStatement (h : faces ps' = faces ps) :
    faces (Reader.buildStatement form span' ps') = faces (Reader.buildStatement form span ps) := by
  cases form
  case functionDeclaration => exact faces_one _ _ h
  case functionExpression => exact faces_one _ _ h
  case arrowFunction => exact faces_one _ _ h
  all_goals first | rfl | exact h

/-- The faces of an expression that is built of its parts if these are the ones that it needs. -/
def Face.joined : Form → List Face → List Face
  | .member, [.node, .token _] => [.node]
  | .index, _ => [.node]
  | .call, [.node, .arguments] => [.node]
  | .conditional, [.node, .node, .node] => [.node]
  | .logical, [.node, .token _, .node] => [.node]
  | _, fs => fs

theorem faces_eq_cons_iff {f : Face} {fs : List Face} :
    faces ps = f :: fs ↔ ∃ p qs, ps = p :: qs ∧ p.face = f ∧ faces qs = fs :=
  List.map_eq_cons_iff

theorem faces_eq_nil_iff : faces ps = [] ↔ ps = [] := List.map_eq_nil_iff

theorem faces_joined (r : Reader) (span : Span) (ps : List Phrase)
    (hform : form ∈ [.member, .index, .call, .conditional, .logical]) :
    faces (r.buildExpression form span ps) = Face.joined form (faces ps) := by
  unfold Reader.buildExpression
  split
  case h_7 => rfl
  case h_8 => rfl
  case h_9 => rfl
  case h_10 => rfl
  case h_11 => rfl
  case h_12 => rfl
  case h_20 =>
    -- the parts are not those that the form needs
    unfold Face.joined
    split <;> simp_all [faces_eq_cons_iff, faces_eq_nil_iff, face_eq_node_iff, face_eq_token_iff,
      face_eq_arguments_iff]
  all_goals simp at hform

theorem faces_buildExpression (h : faces ps' = faces ps) :
    faces (Reader.buildExpression r' form span' ps') =
      faces (Reader.buildExpression r form span ps) := by
  by_cases hform : form ∈ [.member, .index, .call, .conditional, .logical]
  · rw [faces_joined r' span' ps' hform, faces_joined r span ps hform, h]
  · cases form
    case wrapped => exact faces_one _ _ h
    case property => exact faces_one _ _ h
    case spreadProperty => exact faces_one _ _ h
    case method => exact faces_one _ _ h
    all_goals first | rfl | exact h | exact absurd (by decide) hform

/-- The name of a tag. -/
def Phrase.tag? : Phrase → Option Text
  | .tag name => some name
  | _ => none

theorem tags_eq (h : faces ps' = faces ps) :
    ps'.filterMap Phrase.tag? = ps.filterMap Phrase.tag? := by
  have htags : ∀ ps : List Phrase, ps.filterMap Phrase.tag? = (faces ps).filterMap fun
      | .tag name => some name
      | _ => none := by
    intro ps
    rw [faces, List.filterMap_map]
    refine List.filterMap_congr fun p _ => ?_
    cases p <;> rfl
  rw [htags, htags, h]

/-- An element can be built if the first and the last tag are the same. -/
theorem buildElement_of_isElement (r : Reader) (span : Span) (ps : List Phrase)
    (hform : form.isElement = true) : r.buildElement form span ps =
      if (ps.filterMap Phrase.tag?).headD [] !=
          (ps.filterMap Phrase.tag?).getLast?.getD ((ps.filterMap Phrase.tag?).headD []) then
        .error ⟨.closingTag ((ps.filterMap Phrase.tag?).headD [])
          ((ps.filterMap Phrase.tag?).getLast?.getD ((ps.filterMap Phrase.tag?).headD [])),
            Place.of r.source span.stop⟩
      else .ok [.node (.element span ((ps.filterMap Phrase.tag?).headD [])
        ((Phrase.nodes ps).filter Reader.isAttribute)
        ((Phrase.nodes ps).filter (!Reader.isAttribute ·)) (form == .selfClosing))] := by
  have hcases : form = .selfClosing ∨ form = .element := by simpa [Form.isElement] using hform
  rcases hcases with rfl | rfl <;> rfl

theorem exists_buildElement (h : r.buildElement form span ps = .ok qs)
    (hps : faces ps' = faces ps) :
    ∃ qs', r'.buildElement form span' ps' = .ok qs' ∧ faces qs' = faces qs := by
  by_cases hform : form.isElement = true
  · rw [buildElement_of_isElement r span ps hform] at h
    rw [buildElement_of_isElement r' span' ps' hform, tags_eq hps]
    split at h
    · cases h
    · rename_i htag
      obtain rfl := Except.ok.inj h
      rw [if_neg htag]
      exact ⟨_, rfl, rfl⟩
  · cases form
    case spreadAttribute =>
      obtain rfl := Except.ok.inj h
      exact ⟨_, rfl, faces_one _ _ hps⟩
    case selfClosing => exact absurd rfl hform
    case element => exact absurd rfl hform
    all_goals
      obtain rfl := Except.ok.inj h
      first | exact ⟨_, rfl, rfl⟩ | exact ⟨_, rfl, hps⟩

/-- The forms of element trees. -/
def Form.isTree (form : Form) : Bool :=
  [.attribute, .spreadAttribute, .container, .text, .fragment, .selfClosing, .element].contains form

theorem build_of_isTree (r : Reader) (span : Span) (ps : List Phrase)
    (hform : form.isTree = true) : r.build form span ps = r.buildElement form span ps := by
  cases form <;> first | rfl | exact absurd hform (by simp [Form.isTree])

theorem Form.isTree_of_isElement (hform : form.isElement = true) : form.isTree = true := by
  have hcases : form = .selfClosing ∨ form = .element := by simpa [Form.isElement] using hform
  rcases hcases with rfl | rfl <;> rfl

/-- Constructs other than template literals that can be built of phrases can be built of any with
the same faces. -/
theorem exists_build (r' : Reader) (span' : Span) (hform : form ≠ .template)
    (h : r.build form span ps = .ok qs) (hps : faces ps' = faces ps) :
    ∃ qs', r'.build form span' ps' = .ok qs' ∧ faces qs' = faces qs := by
  by_cases htree : form.isTree = true
  · rw [build_of_isTree r span ps htree] at h
    rw [build_of_isTree r' span' ps' htree]
    exact exists_buildElement h hps
  · cases form
    case contents =>
      obtain rfl := Except.ok.inj h
      exact ⟨ps', rfl, hps⟩
    case template => exact absurd rfl hform
    all_goals first
      | exact absurd (by decide) htree
      | (obtain rfl := Except.ok.inj h
         first
           | exact ⟨_, rfl, faces_buildStatement hps⟩
           | exact ⟨_, rfl, faces_buildExpression hps⟩
           | exact ⟨_, rfl, faces_buildOutline hps⟩)

end SkinCompiler.Source
