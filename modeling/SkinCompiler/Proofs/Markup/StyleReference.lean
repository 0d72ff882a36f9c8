import SkinCompiler.Markup.Component
import SkinCompiler.Markup.Template
import SkinCompiler.Proofs.Markup.Name
import SkinCompiler.Proofs.Table
import SkinCompiler.Stylesheet.ClassSelector

/-!
# Style references

Whether the selector that takes the place of a style key selects the elements that refer to the key.

* `get?_componentMap` -- a key selects the element of the first component that owns it;
* `replace_class` -- what becomes of the selector of a style key;
* `mem_elementsOfAll_trees` -- every element of the source is written;
* `selects_iff` -- an element that refers to a key is selected exactly when no component owns the
  key or the first one that does is written as the same element.
-/

namespace SkinCompiler.Markup

open Source Text

variable {stylesName : Option Text} {key tag : Text} {o : TemplateOptions} {e tree : Node}
  {w : ClassReplacement}

/-! ## Elements of the source -/

mutual

/-- The elements that are reached through elements and fragments, in the order of the source. -/
def elements : Node → List Node
  | .element s tag attributes children c =>
    .element s tag attributes children c :: elementsOfAll children
  | .fragment _ children => elementsOfAll children
  | _ => []

/-- The elements of a row of nodes. -/
def elementsOfAll : List Node → List Node
  | [] => []
  | n :: ns => elements n ++ elementsOfAll ns

end

/-- The tag of an element, if it is a component that owns the style key. -/
def ownerTag? (stylesName : Option Text) (key : Text) : Node → Option Text
  | .element _ tag attributes _ _ =>
    if isBuiltIn tag = false ∧ key ∈ classKeys stylesName attributes ∧ plainKey key = plainTag tag
    then some tag else none
  | _ => none

/-- The tag of the first component that owns a style key. -/
def owner? (stylesName : Option Text) (key : Text) (tree : Node) : Option Text :=
  (elements tree).findSome? (ownerTag? stylesName key)

/-- The keys of an element that name it. -/
def ownKeysOf (stylesName : Option Text) : Node → List (Text × Text)
  | .element _ tag attributes _ _ => ownKeys stylesName tag attributes
  | _ => []

mutual

theorem componentKeys_eq (stylesName : Option Text) (n : Node) :
    componentKeys stylesName n = (elements n).flatMap (ownKeysOf stylesName) := by
  cases n with
  | element s tag attributes children c =>
    rw [componentKeys, elements, List.flatMap_cons, componentKeysOfAll_eq stylesName children]
    rfl
  | fragment s children => rw [componentKeys, elements, componentKeysOfAll_eq stylesName children]
  | _ => rfl

theorem componentKeysOfAll_eq (stylesName : Option Text) (ns : List Node) :
    componentKeysOfAll stylesName ns = (elementsOfAll ns).flatMap (ownKeysOf stylesName) := by
  cases ns with
  | nil => rfl
  | cons n ns =>
    rw [componentKeysOfAll, elementsOfAll, List.flatMap_append, componentKeys_eq stylesName n,
      componentKeysOfAll_eq stylesName ns]

end

theorem find?_filter_eq (p : Text → Bool) (key : Text) (l : List Text) :
    (l.filter p).find? (fun k => decide (k = key))
      = if key ∈ l ∧ p key = true then some key else none := by
  induction l with
  | nil => rfl
  | cons k l ih =>
    by_cases hk : k = key
    · subst hk
      by_cases hp : p k = true
      · simp [hp]
      · rw [List.filter_cons_of_neg hp, ih, if_neg fun h => hp h.2, if_neg fun h => hp h.2]
    · by_cases hp : p k = true <;> simp [hp, hk, Ne.symm hk] at ih ⊢ <;> exact ih

theorem find?_ownKeysOf (stylesName : Option Text) (key : Text) (e : Node) :
    (ownKeysOf stylesName e).find? (·.1 = key)
      = (ownerTag? stylesName key e).map fun tag => (key, elementName tag) := by
  cases e with
  | element s tag attributes children c =>
    rw [ownKeysOf, ownKeys, ownerTag?]
    by_cases hb : isBuiltIn tag = true
    · simp [hb]
    · have hb' : isBuiltIn tag = false := by simpa using hb
      have hcomp : ((fun p : Text × Text => decide (p.1 = key)) ∘ fun k => (k, elementName tag))
          = fun k => decide (k = key) := rfl
      rw [if_neg hb, List.find?_map, hcomp, find?_filter_eq]
      by_cases hk : key ∈ classKeys stylesName attributes ∧ plainKey key = plainTag tag
      · rw [if_pos (by simpa using hk), if_pos ⟨hb', hk⟩]
        rfl
      · rw [if_neg (by simpa using hk), if_neg fun h => hk h.2]
        rfl
  | _ => rfl

/-- A style key selects the element of the first component that owns it. -/
theorem get?_componentMap (stylesName : Option Text) (key : Text) (tree : Node) :
    Table.get? key (componentMap stylesName tree)
      = (owner? stylesName key tree).map elementName := by
  have hfold : componentMap stylesName tree
      = (componentKeys stylesName tree).foldl Table.setDefault [] := rfl
  rw [hfold, Table.get?_foldl_setDefault, componentKeys_eq, List.find?_flatMap, owner?]
  simp only [find?_ownKeysOf, Table.get?, Option.none_or]
  rw [List.map_findSome?, List.map_findSome?]
  simp [Function.comp_def]

/-! ## Elements of the markup -/

mutual

/-- The elements of a piece of markup with their attributes, in order. -/
def Tree.elements : Tree → List (Text × List Attribute)
  | .element tag attributes children => (tag, attributes) :: elementsOfAll children
  | .text _ => []

/-- The elements of pieces of markup. -/
def Tree.elementsOfAll : List Tree → List (Text × List Attribute)
  | [] => []
  | t :: ts => elements t ++ elementsOfAll ts

end

theorem Tree.elementsOfAll_append (ts us : List Tree) :
    elementsOfAll (ts ++ us) = elementsOfAll ts ++ elementsOfAll us := by
  induction ts with
  | nil => rfl
  | cons t ts ih => rw [List.cons_append, elementsOfAll, ih, elementsOfAll, List.append_assoc]

/-- The element that an element of the source is written as. -/
def writtenAs (o : TemplateOptions) : Node → Option (Text × List Attribute)
  | .element _ tag attributes _ _ => some (elementName tag, attributes.filterMap (attribute? o))
  | _ => none

mutual

theorem mem_elementsOfAll_trees {p : Text × List Attribute} (n : Node) (he : e ∈ elements n)
    (hp : writtenAs o e = some p) : p ∈ Tree.elementsOfAll (trees o n) := by
  cases n with
  | element s tag attributes children c =>
    rw [trees, Tree.elementsOfAll, Tree.elements, Tree.elementsOfAll, List.append_nil]
    rw [elements] at he
    rcases List.mem_cons.1 he with rfl | he
    · cases hp
      exact List.mem_cons_self
    · exact List.mem_cons_of_mem _ (mem_elementsOfAll_treesOfAll children he hp)
  | fragment s children =>
    rw [elements] at he
    rw [trees]
    exact mem_elementsOfAll_treesOfAll children he hp
  | _ => cases he

theorem mem_elementsOfAll_treesOfAll {p : Text × List Attribute} (ns : List Node)
    (he : e ∈ elementsOfAll ns) (hp : writtenAs o e = some p) :
    p ∈ Tree.elementsOfAll (treesOfAll o ns) := by
  cases ns with
  | nil => cases he
  | cons n ns =>
    rw [elementsOfAll, List.mem_append] at he
    rw [treesOfAll, Tree.elementsOfAll_append, List.mem_append]
    exact he.imp (fun h => mem_elementsOfAll_trees n h hp)
      fun h => mem_elementsOfAll_treesOfAll ns h hp

end

/-! ## The selector of a style key -/

theorem replaceFrom_key (w : ClassReplacement) (before key : Text)
    (h : ∀ c ∈ key, isKeyPart c = true) :
    w.replaceFrom (some before) key = w.selector (before.reverse ++ key) := by
  induction key generalizing before with
  | nil => rw [ClassReplacement.replaceFrom, List.append_nil]
  | cons c key ih =>
    have hc := h c List.mem_cons_self
    have hword : (isWord c || c == '-') = true := by
      simpa using isWord_of_isKeyPart hc
    have hne : c ≠ '\\' := by
      rintro rfl
      cases hc
    rw [ClassReplacement.replaceFrom, if_pos hword, ih _ fun x hx => h x (List.mem_cons_of_mem _ hx)]
    · simp
    · intro x t hx
      exact absurd hx hne

theorem not_mem_of_isKeyPart {c : Char} {t : Text} (h : ∀ c ∈ t, isKeyPart c = true)
    (hc : isKeyPart c = false) : c ∉ t := fun hm => by
  rw [h c hm] at hc
  cases hc

/-- The selector of a style key becomes that of its element or of its class. -/
theorem replace_class (h : IsStyleKey key) :
    w.replace ('.' :: key) = match Table.get? key w.components with
      | some element => if w.byAttribute then "[data-" ++ kebabCase key ++ "]" else element
      | none => '.' :: kebabCase key := by
  have hne : key.isEmpty = false := by
    cases key with
    | nil => cases h.1
    | cons => rfl
  have hslash : key.contains '\\' = false := by
    simpa using not_mem_of_isKeyPart h.isKeyPart (c := '\\') (by decide)
  have hstart : w.replace ('.' :: key) = w.replaceFrom (some []) key := rfl
  rw [hstart, replaceFrom_key w [] key h.isKeyPart, List.reverse_nil, List.nil_append,
    ClassReplacement.selector, hne, hslash]
  rfl

/-! ## The class of an element -/

/-- The classes that the attributes of an element give it. -/
def classList (attributes : List Attribute) : List Text :=
  attributes.flatMap fun a => if a.name = "class".toList then words (a.value.getD []) else []

/-- The selector of an element or of a class selects what has the tag or one of the classes. -/
def Selects (selector tag : Text) (classes : List Text) : Prop :=
  selector = tag ∨ ∃ c ∈ classes, selector = '.' :: c

instance decidableSelects (selector tag : Text) (classes : List Text) :
    Decidable (Selects selector tag classes) :=
  inferInstanceAs (Decidable (_ ∨ _))

theorem mem_of_attributeValue? {name : Text} {value : Node} {attributes : List Node}
    (h : attributeValue? name attributes = some value) :
    ∃ s, .attribute s name (some value) ∈ attributes := by
  fun_induction attributeValue? name attributes with
  | case1 => cases h
  | case2 s value' rest =>
    subst h
    exact ⟨s, List.mem_cons_self⟩
  | case3 s name' value' rest hn ih =>
    obtain ⟨s', hs⟩ := ih h
    exact ⟨s', List.mem_cons_of_mem _ hs⟩
  | case4 n rest hn ih =>
    obtain ⟨s', hs⟩ := ih h
    exact ⟨s', List.mem_cons_of_mem _ hs⟩

theorem componentOnly_claims (c : AttributeContext) :
    componentOnly.claims c = (componentAttributes.contains c.name || isHandler c.name) := rfl

theorem classNames_claims (c : AttributeContext) :
    classNames.claims c = (["className", "class"] : List Text).contains c.name := rfl

theorem classNames_result (c : AttributeContext) : classNames.result c =
    match distinct (match givenExpression c.value with
      | some n => classesOf c.components c.stylesName n
      | none => []) with
    | [] => none
    | classes => some { name := "class", value := some (join " " classes) } := rfl

/-- The default rules take an attribute `className` for classes. -/
theorem result_className {c : AttributeContext} (h : c.name = "className".toList) :
    AttributeRules.result {} c = classNames.result c := by
  have hattribute : componentAttributes.contains "className".toList = false := by decide
  have hhandler : isHandler "className".toList = false := by decide
  have hclass : (["className", "class"] : List Text).contains "className".toList = true := by
    decide
  have hother : componentOnly.claims c = false := by
    rw [componentOnly_claims, h, hattribute, hhandler, Bool.or_false]
  have hclaims : classNames.claims c = true := by rw [classNames_claims, h, hclass]
  have hfind : [componentOnly, classNames].find? (·.claims c) = some classNames := by
    rw [List.find?_cons_of_neg (by rw [hother]; simp),
      List.find?_cons_of_pos (p := fun r : AttributeRule => r.claims c) hclaims]
  rw [AttributeRules.result, hfind]

/-- A key that selects no element gives its class. -/
theorem attribute?_className {name : Text} {s s₁ s₂ s₃ : Span} {computed : Bool}
    (hr : o.rules = {}) (hn : o.stylesName = some name) (hk : o.components.has key = false) :
    attribute? o (.attribute s "className" (some (.container s₁
        (some (.member s₂ (.identifier s₃ name) key computed)))))
      = some { name := "class", value := some (kebabCase key) } := by
  have hclasses : classesOf o.components (some name) (.member s₂ (.identifier s₃ name) key computed)
      = [kebabCase key] := by
    simp [classesOf, styleKey?, keyClasses, hk]
  have hresult : ∀ (c : AttributeContext) (n : Node), givenExpression c.value = some n →
      classesOf c.components c.stylesName n = [kebabCase key] →
      classNames.result c = some { name := "class", value := some (kebabCase key) } := by
    intro c n hn hc
    have hdistinct : distinct [kebabCase key] = [kebabCase key] := rfl
    rw [classNames_result, hn]
    simp only [hc, hdistinct]
    rfl
  rw [attribute?, hr, result_className rfl]
  exact hresult _ _ rfl (hn ▸ hclasses)

theorem kebabCase_mem_classList {name : Text} {s₁ s₂ s₃ : Span} {computed : Bool}
    {attributes : List Node} (hr : o.rules = {}) (hn : o.stylesName = some name)
    (hk : o.components.has key = false) (hkey : IsStyleKey key)
    (hc : attributeValue? "className" attributes = some (.container s₁
      (some (.member s₂ (.identifier s₃ name) key computed)))) :
    kebabCase key ∈ classList (attributes.filterMap (attribute? o)) := by
  obtain ⟨s, hs⟩ := mem_of_attributeValue? hc
  refine List.mem_flatMap.2 ⟨_, List.mem_filterMap.2 ⟨_, hs, attribute?_className hr hn hk⟩, ?_⟩
  rw [if_pos rfl, Option.getD_some, words_kebabCase hkey]
  exact List.mem_singleton_self _

theorem not_mem_hyphen_plainKey (h : ∀ c ∈ key, isKeyPart c = true) : '-' ∉ plainKey key := by
  have hpart : ∀ c ∈ key.filter (fun c => c != '-' && c != '_'), isKeyPart c = true := fun c hc =>
    h c (List.mem_filter.1 hc).1
  rw [plainKey, toLower_of_ascii fun c hc => toNat_lt_of_isKeyPart (hpart c hc)]
  intro hm
  obtain ⟨c, hc, heq⟩ := List.mem_map.1 hm
  have hlower := of_ascii (p := fun c => c == '-' || !isKeyPart c ||
    LetterCase.shift LetterCase.lowerRuns c != '-') (by decide)
    (toNat_lt_of_isKeyPart (hpart c hc))
  have hne := (List.mem_filter.1 hc).2
  simp_all

/-- What owns a style key is written with the lead of custom elements. -/
theorem elementName_of_ownerTag? (hk : IsStyleKey key) (h : ownerTag? stylesName key e = some tag) :
    ∃ rest, elementName tag = elementLead ++ rest := by
  have howner : isBuiltIn tag = false ∧ plainKey key = plainTag tag := by
    unfold ownerTag? at h
    split at h
    · split_ifs at h with howner
      cases h
      exact ⟨howner.1, howner.2.2⟩
    · cases h
  have hhyphen : '-' ∉ tag := by
    intro hm
    refine not_mem_hyphen_plainKey hk.isKeyPart ?_
    rw [howner.2]
    exact hyphen_mem_toLower (List.mem_filter.2 ⟨hm, by decide⟩)
  rw [elementName, if_neg (by simp [howner.1, hhyphen])]
  exact exists_withLead _

/-! ## Selected elements -/

/-- An element that refers to a style key is selected by what takes the place of the key exactly
when no component owns the key or the first one that does is written as the same element. -/
theorem selects_iff {name : Text} {s s₁ s₂ s₃ : Span} {attributes children : List Node}
    {closing computed : Bool} (source : Text)
    (he : .element s tag attributes children closing ∈ elements tree)
    (hc : attributeValue? "className" attributes = some (.container s₁
      (some (.member s₂ (.identifier s₃ name) key computed)))) (hk : IsStyleKey key) :
    let components := componentMap (some name) tree
    let o : TemplateOptions := { source, components, stylesName := some name }
    let written := attributes.filterMap (attribute? o)
    (elementName tag, written) ∈ Tree.elementsOfAll (trees o tree) ∧
      (Selects (({ components } : ClassReplacement).replace ('.' :: key)) (elementName tag)
          (classList written) ↔
        ∀ owner ∈ owner? (some name) key tree, elementName owner = elementName tag) := by
  intro components o written
  refine ⟨mem_elementsOfAll_trees tree he rfl, ?_⟩
  have hget := get?_componentMap (some name) key tree
  rw [replace_class hk]
  cases howner : owner? (some name) key tree with
  | none =>
    rw [howner, Option.map_none] at hget
    have hmem : kebabCase key ∈ classList written :=
      kebabCase_mem_classList rfl rfl (by rw [Table.has, hget]; rfl) hk hc
    simp only [components, hget]
    exact iff_of_true (Or.inr ⟨_, hmem, rfl⟩) fun owner h => by cases h
  | some owner =>
    rw [howner, Option.map_some] at hget
    obtain ⟨e, he', hown⟩ := List.exists_of_findSome?_eq_some howner
    obtain ⟨rest, hlead⟩ := elementName_of_ownerTag? hk hown
    simp only [components, hget, Option.mem_def, Option.some.injEq, forall_eq']
    refine ⟨?_, Or.inl⟩
    rintro (h | ⟨c, -, h⟩)
    · exact h
    · rw [hlead] at h
      cases h

/-- An element that refers to the style key `PlayButton`. -/
def playButtonReference (tag : Text) : Node :=
  .element ⟨0, 0⟩ tag [.attribute ⟨0, 0⟩ "className" (some (.container ⟨0, 0⟩ (some
    (.member ⟨0, 0⟩ (.identifier ⟨0, 0⟩ "styles") "PlayButton" false))))] [] true

/-- A component that owns a style key, and beside it an element that refers to the same key. -/
def sharedKeyTree : Node :=
  .element ⟨0, 0⟩ "section" [] [playButtonReference "PlayButton", playButtonReference "div"] false

/-- The component that owns the key is selected. -/
theorem selects_owner :
    let components := componentMap (some "styles".toList) sharedKeyTree
    let o : TemplateOptions := { source := [], components, stylesName := some "styles".toList }
    Selects (({ components } : ClassReplacement).replace ('.' :: "PlayButton".toList))
      (elementName "PlayButton")
      (classList ([.attribute ⟨0, 0⟩ "className" (some (.container ⟨0, 0⟩ (some
        (.member ⟨0, 0⟩ (.identifier ⟨0, 0⟩ "styles") "PlayButton" false))))].filterMap
          (attribute? o))) := by
  have he : playButtonReference "PlayButton" ∈ elements sharedKeyTree := by
    simp [sharedKeyTree, playButtonReference, elements, elementsOfAll]
  exact (selects_iff [] he rfl (by decide)).2.2 (by decide)

/-- The element beside it has neither the tag nor the class. -/
theorem not_selects_beside_owner :
    let components := componentMap (some "styles".toList) sharedKeyTree
    let o : TemplateOptions := { source := [], components, stylesName := some "styles".toList }
    ∃ written ∈ writtenAs o (playButtonReference "div"),
      ¬Selects (({ components } : ClassReplacement).replace ".PlayButton".toList) written.1
        (classList written.2) := by
  refine ⟨("div".toList, []), ?_, ?_⟩
  · decide
  · decide

end SkinCompiler.Markup
