import SkinCompiler.Proofs.Markup.StyleReference
import SkinCompiler.Proofs.Markup.TagName
import SkinCompiler.Proofs.Source.SourceOrder

/-!
# What a template shows and what it leaves out

The markup of an element reads back as the element, in three steps: fragments give way to their
children, every node that is left becomes its piece of markup or none, and texts next to each other
are joined.  The reports are those of the parts of the element that have no place in markup, one
for each of them and in the order of the source.

* `unwrapped`, `pieces` -- the tree without fragments, and its pieces of markup;
* `parts`, `loss?` -- what stands in an element, and the report of what is left out;
* `isLegible_of_mem_trees` -- the markup of what is read from a source can be read;
* `template_reads_back` -- what the markup of an element reads as, and all that is reported.
-/

namespace SkinCompiler.Markup

open Source

variable {o : TemplateOptions} {n : Node}

/-! ## What is shown -/

mutual

/-- What a node gives way to: a fragment to its children, and any other node to itself.  No fragment
is left among the children of elements. -/
def unwrapped : Node → List Node
  | .element s tag attributes children c => [.element s tag attributes (unwrappedAll children) c]
  | .fragment _ children => unwrappedAll children
  | n => [n]

/-- What a row of nodes gives way to. -/
def unwrappedAll : List Node → List Node
  | [] => []
  | n :: ns => unwrapped n ++ unwrappedAll ns

end

mutual

/-- The piece of markup for a node other than a fragment. -/
def piece? (o : TemplateOptions) : Node → Option Tree
  | .element _ tag attributes children _ =>
    some (.element (elementName tag) (attributes.filterMap (attribute? o)) (pieces o children))
  | .text _ t => if Text.isBlankText t then none else some (.text (Text.collapse t))
  | .container _ (some expression) => if isChildren expression then some mediaSlot else none
  | _ => none

/-- The pieces of markup for a row of nodes. -/
def pieces (o : TemplateOptions) : List Node → List Tree
  | [] => []
  | n :: ns => (piece? o n).toList ++ pieces o ns

end

theorem pieces_append (o : TemplateOptions) (ns ms : List Node) :
    pieces o (ns ++ ms) = pieces o ns ++ pieces o ms := by
  induction ns with
  | nil => rfl
  | cons n ns ih => rw [List.cons_append, pieces, ih, pieces, List.append_assoc]

theorem pieces_singleton (o : TemplateOptions) (n : Node) : pieces o [n] = (piece? o n).toList := by
  rw [pieces, pieces, List.append_nil]

mutual

/-- The markup of a node is that of what it gives way to. -/
theorem trees_eq (o : TemplateOptions) (n : Node) : trees o n = pieces o (unwrapped n) := by
  cases n with
  | element s tag attributes children c =>
    rw [trees, unwrapped, pieces_singleton, piece?, treesOfAll_eq o children]
    rfl
  | fragment s children => rw [trees, unwrapped, treesOfAll_eq o children]
  | text s t =>
    simp only [trees, unwrapped, pieces_singleton, piece?]
    split <;> rfl
  | container s expression =>
    cases expression with
    | none => rfl
    | some expression =>
      simp only [trees, unwrapped, pieces_singleton, piece?]
      split <;> rfl
  | _ => rfl

theorem treesOfAll_eq (o : TemplateOptions) (ns : List Node) :
    treesOfAll o ns = pieces o (unwrappedAll ns) := by
  cases ns with
  | nil => rfl
  | cons n ns =>
    rw [treesOfAll, unwrappedAll, pieces_append, trees_eq o n, treesOfAll_eq o ns]

end

/-! ## What is left out -/

/-- A part of an element, with the tag of the element. -/
inductive Part where
  /-- One of its attributes. -/
  | attribute (tag : Text) (n : Node)
  /-- One of its children, or of those of a fragment in it. -/
  | child (tag : Text) (n : Node)

/-- The node of a part. -/
def Part.node : Part → Node
  | .attribute _ n => n
  | .child _ n => n

mutual

/-- The parts of the elements of a tree that stands in the element `parent`, in the order of the
source. -/
def parts (parent : Text) : Node → List Part
  | .element _ tag attributes children _ =>
    attributes.map (.attribute tag) ++ partsOfAll tag children
  | .fragment _ children => partsOfAll parent children
  | _ => []

/-- The children `ns` of the element `parent`, each with the parts below it. -/
def partsOfAll (parent : Text) : List Node → List Part
  | [] => []
  | n :: ns => .child parent n :: parts parent n ++ partsOfAll parent ns

end

/-- The report of a part that has no place in markup: a spread attribute, or an expression other
than the children of the component. -/
def loss? (o : TemplateOptions) : Part → Option Diagnostic
  | .attribute tag (.spreadAttribute s argument) =>
    some (spreadAttribute tag (code o (.spreadAttribute s argument)))
  | .child tag (.container s (some expression)) =>
    if isChildren expression then none
    else some (droppedExpression tag (code o (.container s (some expression))))
  | _ => none

theorem loss?_attribute (o : TemplateOptions) (tag : Text) (n : Node) :
    loss? o (.attribute tag n) = attributeFinding? o tag n := by
  cases n <;> rfl

mutual

theorem findings_eq (o : TemplateOptions) (parent : Text) (n : Node) :
    findings o parent n = (.child parent n :: parts parent n).filterMap (loss? o) := by
  cases n with
  | element s tag attributes children c =>
    have hattributes : (attributes.map (Part.attribute tag)).filterMap (loss? o) =
        attributes.filterMap (attributeFinding? o tag) := by
      rw [List.filterMap_map]
      exact List.filterMap_congr fun n _ => loss?_attribute o tag n
    rw [findings, parts, List.filterMap_cons_none rfl, List.filterMap_append, hattributes,
      findingsInAll_eq o tag children]
  | fragment s children =>
    rw [findings, parts, List.filterMap_cons_none rfl, findingsInAll_eq o parent children]
  | container s expression =>
    cases expression with
    | none => rfl
    | some expression =>
      simp only [findings, parts, loss?, List.filterMap_cons]
      split <;> rfl
  | _ => rfl

theorem findingsInAll_eq (o : TemplateOptions) (parent : Text) (ns : List Node) :
    findingsInAll o parent ns = (partsOfAll parent ns).filterMap (loss? o) := by
  cases ns with
  | nil => rfl
  | cons n ns =>
    rw [findingsInAll, partsOfAll, List.filterMap_append, findings_eq o parent n,
      findingsInAll_eq o parent ns]

end

theorem sublist_allOfRow (ns : List Node) : ns.Sublist (Node.allOfRow ns) := by
  induction ns with
  | nil => exact .slnil
  | cons n ns ih =>
    rw [Node.allOfRow, Node.all_eq]
    exact .cons_cons n (ih.trans (List.sublist_append_right _ _))

mutual

/-- The parts of a tree come one after the other in the order of the source. -/
theorem parts_sublist (parent : Text) (n : Node) :
    (n :: (parts parent n).map Part.node).Sublist n.all := by
  cases n with
  | element s tag attributes children c =>
    have hnode : (Part.node ∘ Part.attribute tag) = id := rfl
    rw [parts, Node.all, List.map_append, List.map_map, hnode, List.map_id]
    exact .cons_cons _ ((sublist_allOfRow attributes).append (partsOfAll_sublist tag children))
  | fragment s children =>
    rw [parts, Node.all]
    exact .cons_cons _ (partsOfAll_sublist parent children)
  | _ =>
    rw [Node.all_eq]
    exact .cons_cons _ (List.nil_sublist _)

theorem partsOfAll_sublist (parent : Text) (ns : List Node) :
    ((partsOfAll parent ns).map Part.node).Sublist (Node.allOfRow ns) := by
  cases ns with
  | nil => exact .slnil
  | cons n ns =>
    rw [partsOfAll, Node.allOfRow, List.map_append]
    exact (parts_sublist parent n).append (partsOfAll_sublist parent ns)

end

/-! ## The markup can be read -/

/-- The default rules keep the name of an attribute, but for classes. -/
theorem name_of_result {c : AttributeContext} {a : Attribute}
    (h : AttributeRules.result {} c = some a) :
    a.name = "class" ∨ a.name = attributeName c.name := by
  unfold AttributeRules.result at h
  split at h
  · rename_i rule hrule
    have hmem : rule = componentOnly ∨ rule = classNames := by
      simpa using List.mem_of_find?_eq_some hrule
    rcases hmem with rfl | rfl
    · cases h
    · rw [classNames_result] at h
      split at h
      · cases h
      · obtain rfl := Option.some.inj h
        exact .inl rfl
  · refine .inr ?_
    replace h : defaultAttribute c = some a := h
    unfold defaultAttribute at h
    dsimp only at h
    split at h
    case h_3 => split at h <;> cases h <;> rfl
    all_goals cases h <;> rfl

/-- The name of an attribute of the markup is read as a whole. -/
theorem isName_of_attribute? {a : Attribute} (hr : o.rules = {}) (hn : n.IsSpelled)
    (h : attribute? o n = some a) : IsName a.name := by
  unfold attribute? at h
  split at h
  · rename_i name value
    rw [hr] at h
    rcases name_of_result h with hname | hname <;> rw [hname]
    · decide
    · exact isName_attributeName hn.1 hn.2
  · cases h

theorem isLegible_collapse {t : Text} (hblank : Text.isBlankText t ≠ true) (htag : '<' ∉ t) :
    (Tree.text (Text.collapse t)).IsLegible := by
  refine .text ?_ fun hmem => htag ?_
  · rw [runTrees_eq, Text.words_collapse, if_neg fun h => hblank (Text.words_eq_nil_iff.1 h)]
    rfl
  · have hink : '<' ∈ Text.ink (Text.collapse t) := Text.mem_ink_iff.2 ⟨hmem, by decide⟩
    rw [Text.ink_collapse] at hink
    exact (Text.mem_ink_iff.1 hink).1

theorem isLegible_mediaSlot : mediaSlot.IsLegible :=
  .element (by decide) (List.forall_iff_forall_mem.1 (by decide)) (by simp)

mutual

/-- The markup of a tree whose names and texts are spelled as in a source can be read. -/
theorem isLegible_of_mem_trees (hr : o.rules = {}) (n : Node) (h : ∀ m ∈ n.all, m.IsSpelled) :
    ∀ t ∈ trees o n, t.IsLegible := by
  intro t ht
  have hn := h n (Node.mem_all_self n)
  cases n with
  | element s tag attributes children c =>
    rw [trees] at ht
    obtain rfl := List.mem_singleton.1 ht
    refine .element (isName_elementName hn) ?_ ?_
    · intro a ha
      obtain ⟨m, hm, ha⟩ := List.mem_filterMap.1 ha
      have hbelow : m ∈ (Node.element s tag attributes children c).all :=
        Node.mem_all_of_mem_children (List.mem_append_left _ hm) (Node.mem_all_self m)
      exact isName_of_attribute? hr (h m hbelow) ha
    · refine isLegible_of_mem_treesOfAll hr children fun m hm => h m ?_
      rw [Node.all]
      exact List.mem_cons_of_mem _ (List.mem_append_right _ hm)
  | fragment s children =>
    rw [trees] at ht
    refine isLegible_of_mem_treesOfAll hr children (fun m hm => h m ?_) t ht
    rw [Node.all]
    exact List.mem_cons_of_mem _ hm
  | text s t' =>
    rw [trees] at ht
    split at ht
    · cases ht
    · rename_i hblank
      obtain rfl := List.mem_singleton.1 ht
      exact isLegible_collapse hblank hn
  | container s expression =>
    cases expression with
    | none => cases ht
    | some expression =>
      rw [trees] at ht
      split at ht
      · obtain rfl := List.mem_singleton.1 ht
        exact isLegible_mediaSlot
      · cases ht
  | _ => cases ht

theorem isLegible_of_mem_treesOfAll (hr : o.rules = {}) (ns : List Node)
    (h : ∀ m ∈ Node.allOfRow ns, m.IsSpelled) : ∀ t ∈ treesOfAll o ns, t.IsLegible := by
  intro t ht
  cases ns with
  | nil => cases ht
  | cons n ns =>
    rw [Node.allOfRow] at h
    rw [treesOfAll, List.mem_append] at ht
    rcases ht with ht | ht
    · exact isLegible_of_mem_trees hr n (fun m hm => h m (List.mem_append_left _ hm)) t ht
    · exact isLegible_of_mem_treesOfAll hr ns (fun m hm => h m (List.mem_append_right _ hm)) t ht

end

/-! ## Element trees that are read from a source -/

/-- The node stands in an expression that is read from the source, or in the element tree of the
component that the source declares. -/
def IsParsed (source : Text) (n : Node) : Prop :=
  (∃ expression, readExpression source = .ok expression ∧ n ∈ expression.all) ∨
    ∃ parts outlined root, outline source parts = .ok outlined ∧ outlined.root = some root ∧
      n ∈ root.all

theorem IsParsed.isSpelled {source : Text} (h : IsParsed source n) : ∀ m ∈ n.all, m.IsSpelled := by
  rcases h with ⟨expression, hread, hn⟩ | ⟨parts, outlined, root, hread, hroot, hn⟩
  · exact fun m hm => readExpressionAt_isSpelled _ hread m (Node.mem_all_trans hm hn)
  · unfold outline at hread
    split at hread
    · rename_i items hitems
      obtain rfl := Except.ok.inj hread
      obtain ⟨item, hitem, hmem⟩ := Outline.mem_of_root_parts hroot
      exact fun m hm => readModule_isSpelled hitems item hitem m
        (Node.mem_all_trans (Node.mem_all_trans hm hn) hmem)
    · cases hread

/-- The markup of an element of a source reads as the element: its name that of a custom element,
its attributes those that the default rules keep, its children without fragments as their pieces of
markup, and texts next to each other joined.  What is reported is what has no place in markup, once
for each part of the element and in the order of the source. -/
theorem template_reads_back (source : Text) (components : Table Text) (stylesName : Option Text)
    (step margin : Nat) {s : Span} {tag : Text} {attributes children : List Node} {closed : Bool}
    (h : IsParsed source (.element s tag attributes children closed)) :
    let e : Node := .element s tag attributes children closed
    let o : TemplateOptions := { source, components, stylesName }
    read (template o step margin e) =
        some [.element (elementName tag) (attributes.filterMap (attribute? o))
          (Tree.mergedAll (pieces o (unwrappedAll children)))] ∧
      templateFindings o e = (parts [] e).filterMap (loss? o) ∧
      ((parts [] e).map Part.node).Sublist e.all := by
  intro e o
  refine ⟨?_, ?_, ?_⟩
  · have htrees : trees o e = [.element (elementName tag) (attributes.filterMap (attribute? o))
        (pieces o (unwrappedAll children))] := by
      rw [trees, treesOfAll_eq]
    have hlegible := isLegible_of_mem_trees (o := o) rfl e h.isSpelled
    rw [htrees, List.forall_mem_singleton] at hlegible
    have hlines : template o step margin e = Tree.write step margin
        (.element (elementName tag) (attributes.filterMap (attribute? o))
          (pieces o (unwrappedAll children))) := by
      rw [template, htrees]
      rfl
    rw [hlines, read_element hlegible rfl, Tree.merged]
  · rw [templateFindings, findings_eq]
    rfl
  · exact (List.sublist_cons_self e _).trans (parts_sublist [] e)

/-- An element with an attribute to escape, a spread attribute, texts that only a fragment parts, an
expression without place in markup, and the children of the component. -/
def cardSource : Text := "<A t='&' \x7b...p\x7d>a<>b \x7bx\x7d</>\x7bchildren\x7d</A>"

/-- The markup of the card. -/
def cardMarkup : Text :=
  "<media-a t=\"&amp;\">\n  a\n  b\n  <slot name=\"media\" slot=\"media\"></slot>\n</media-a>"

/-- What the markup of the card reads as. -/
def cardTree : Tree :=
  .element "media-a" [⟨"t", some "&"⟩] [.text "a b", mediaSlot]

/-- What is left out of the card. -/
def cardReports : List Diagnostic := [
  spreadAttribute "A" (some "\x7b...p\x7d".toList), droppedExpression "A" (some "\x7bx\x7d".toList)]

/-- The markup of an element and what is reported, if the node is an element. -/
def shown? (o : TemplateOptions) : Node → Option (Text × List Diagnostic)
  | .element s tag attributes children c =>
    let e := .element s tag attributes children c
    some (template o 2 0 e, templateFindings o e)
  | _ => none

/-- The card is written with its texts on lines of their own, and read with one text. -/
theorem template_reads_back_card : ∃ s tag attributes children closed,
    let e : Node := .element s tag attributes children closed
    let o : TemplateOptions := { source := cardSource }
    readExpression cardSource = .ok e ∧ template o 2 0 e = cardMarkup ∧
      read (template o 2 0 e) = some [cardTree] ∧
      cardTree = .element (elementName tag) (attributes.filterMap (attribute? o))
        (Tree.mergedAll (pieces o (unwrappedAll children))) ∧
      templateFindings o e = cardReports ∧ (parts [] e).filterMap (loss? o) = cardReports := by
  have hread : (readExpression cardSource).toOption.map (shown? { source := cardSource }) =
      some (some (cardMarkup, cardReports)) := by decide +kernel
  have htree : read cardMarkup = some [cardTree] := by rfl
  obtain ⟨n, hn, hshown⟩ := exists_eq_ok hread
  cases n with
  | element s tag attributes children closed =>
    obtain ⟨htext, hreports⟩ := Prod.mk.inj (Option.some.inj hshown)
    obtain ⟨hreads, hlosses, -⟩ := template_reads_back cardSource [] none 2 0
      (.inl ⟨_, hn, Node.mem_all_self _⟩)
    rw [htext, htree] at hreads
    exact ⟨s, tag, attributes, children, closed, hn, htext, htext ▸ htree,
      List.singleton_injective (Option.some.inj hreads), hreports, hlosses ▸ hreports⟩
  | _ => cases hshown

end SkinCompiler.Markup
