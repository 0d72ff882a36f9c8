import SkinCompiler.Proofs.Skin.AttributeValue
import SkinCompiler.Proofs.Skin.Frame

/-!
# Classes in place

What stands in the place of an attribute whose value is a member of the styles, once the classes of a
component are put in place.

* `Node.IsHeld` -- a node is in the braces of an attribute further out;
* `braces_of_reference` -- the braces go with the member unless the attribute itself is held;
* `LoadedSkin.IsOf.spares_braces` -- no other edit touches the braces;
* `Pipeline.inline_attribute` -- what the value reads as afterwards.
-/

namespace SkinCompiler.Skin

open Source Text

variable {stylesName : Option Text} {source : Text} {root n m : Node} {r : Reference}
  {rs seen : List Reference} {key : Text} {b : Span}

/-! ## The first reference of a range -/

/-- Where a range has been seen, nothing else with it is. -/
theorem mem_seen_of_span {w : Reference} (h : r ∈ seeAll seen rs) (hw : w ∈ seen)
    (hspan : w.span = r.span) : r ∈ seen := by
  induction rs generalizing seen with
  | nil => exact h
  | cons s rs ih =>
    rw [seeAll_cons] at h
    split at h
    · exact ih h hw
    · rename_i hnew
      rcases List.mem_append.1 (ih h (List.mem_append_left _ hw)) with hr | hr
      · exact hr
      · obtain rfl := List.mem_singleton.1 hr
        exact absurd (List.any_eq_true.2 ⟨w, hw, by simpa using hspan⟩) hnew

/-- What is seen of references is the first one of its range. -/
theorem find?_of_mem_seeAll (h : r ∈ seeAll seen rs) :
    r ∈ seen ∨ rs.find? (fun s => s.span = r.span) = some r := by
  induction rs generalizing seen with
  | nil => exact Or.inl h
  | cons s rs ih =>
    rw [seeAll_cons] at h
    rw [List.find?_cons]
    by_cases hspan : s.span = r.span
    · rw [decide_eq_true hspan]
      split at h
      · rename_i hseen
        obtain ⟨w, hw, heq⟩ := List.any_eq_true.1 hseen
        exact Or.inl (mem_seen_of_span h hw ((of_decide_eq_true heq).trans hspan))
      · have hlast : s ∈ seen ++ [s] := List.mem_append_right _ (List.mem_singleton_self s)
        rcases List.mem_append.1 (mem_seen_of_span h hlast hspan) with hr | hr
        · exact Or.inl hr
        · rw [List.mem_singleton.1 hr]
          exact Or.inr rfl
    · rw [decide_eq_false hspan]
      rcases ih h with hr | hr
      · left
        split at hr
        · exact hr
        · rcases List.mem_append.1 hr with hr | hr
          · exact hr
          · rw [List.mem_singleton.1 hr] at hspan
            exact absurd rfl hspan
      · exact Or.inr hr

/-! ## Attributes that hold a member -/

/-- The node is in the braces of an attribute of the tree. -/
def IsHeld (root n : Node) : Prop :=
  ∃ s name braces e, .attribute s name (some (.container braces (some e))) ∈ root.all ∧ n ∈ e.all

/-- The references in the braces of a node, if it is an attribute with braces. -/
def heldReferences (stylesName : Option Text) : Node → List Reference
  | .attribute _ _ (some (.container braces (some e))) => referencesIn stylesName braces e
  | _ => []

theorem references_eq (stylesName : Option Text) (root : Node) : references stylesName root =
    seeAll [] (root.all.flatMap (heldReferences stylesName)) := rfl

/-- A reference in braces is all that they hold, or further down. -/
theorem of_mem_referencesIn {e : Node} (h : r ∈ referencesIn stylesName b e) :
    ∃ m ∈ e.all, Markup.styleKey? stylesName m = some r.key ∧ m.span = r.span ∧
      (m = e ∧ r.braces = some b ∨ m ≠ e ∧ r.braces = none) := by
  have hall : e.all = e :: e.children.flatMap Node.all := Node.all_eq e
  unfold referencesIn at h
  rw [hall] at h ⊢
  dsimp only at h
  rcases List.mem_append.1 h with h | h
  · obtain ⟨key, hkey, rfl⟩ := Option.map_eq_some_iff.1 (Option.mem_toList.1 h)
    exact ⟨e, List.mem_cons_self, hkey, rfl, Or.inl ⟨rfl, rfl⟩⟩
  · obtain ⟨m, hm, h⟩ := List.mem_filterMap.1 h
    obtain ⟨key, hkey, rfl⟩ := Option.map_eq_some_iff.1 h
    refine ⟨m, List.mem_cons_of_mem _ hm, hkey, rfl, Or.inr ⟨?_, rfl⟩⟩
    rintro rfl
    obtain ⟨k, hk, hmk⟩ := List.mem_flatMap.1 hm
    exact Node.not_mem_all_of_mem_children hk hmk

/-- The attribute whose braces hold nothing but the node `m`. -/
abbrev bracedAttribute (a : Span) (name : Text) (b : Span) (m : Node) : Node :=
  .attribute a name (some (.container b (some m)))

/-- An attribute in one with braces is that one or is in its braces. -/
theorem eq_or_mem_of_mem_bracedAttribute {a s : Span} {name name' : Text} {value : Option Node}
    (h : .attribute s name' value ∈ (bracedAttribute a name b m).all) :
    Node.attribute s name' value = bracedAttribute a name b m ∨ .attribute s name' value ∈ m.all := by
  rcases Node.mem_all_iff.1 h with heq | ⟨k, hk, hmem⟩
  · exact Or.inl heq
  · obtain rfl := List.mem_singleton.1 hk
    rcases Node.mem_all_iff.1 hmem with heq | ⟨l, hl, hmem'⟩
    · cases heq
    · obtain rfl := List.mem_singleton.1 hl
      exact Or.inr hmem'

/-- Nothing else in an attribute whose braces hold a reference is an attribute. -/
theorem eq_of_mem_bracedAttribute {a s : Span} {name name' : Text} {value : Option Node}
    (hkey : Markup.styleKey? stylesName m = some key)
    (h : .attribute s name' value ∈ (bracedAttribute a name b m).all) :
    Node.attribute s name' value = bracedAttribute a name b m := by
  rcases eq_or_mem_of_mem_bracedAttribute h with heq | hmem
  · exact heq
  · obtain ⟨t, t', name'', c, hm, -⟩ := eq_of_styleKey? hkey
    rcases IsAt.mem_all_member hkey hmem with heq | ⟨t, name'', heq⟩
    · rw [← heq] at hm
      cases hm
    · cases heq

theorem mem_all_bracedAttribute (a : Span) (name : Text) (b : Span) (m : Node) :
    m ∈ (bracedAttribute a name b m).all :=
  Node.mem_all_of_mem_children (List.mem_singleton.2 rfl)
    (Node.mem_all_of_mem_children (List.mem_singleton.2 rfl) (Node.mem_all_self m))

/-- Two nodes of a tree with a node below both of them are one below the other. -/
theorem mem_all_or (hroot : root.IsPlaced source) {k : Node} (hn : n ∈ root.all) (hm : m ∈ root.all)
    (hkn : k ∈ n.all) (hkm : k ∈ m.all) : n ∈ m.all ∨ m ∈ n.all := by
  have hplaced : ∀ {n}, n ∈ root.all → n.IsPlaced source := fun hn l hl =>
    hroot l (Node.mem_all_trans hl hn)
  have hlt := (hroot k (Node.mem_all_trans hkn hn)).lt
  have hn' := (hplaced hn).within hkn
  have hm' := (hplaced hm).within hkm
  rcases hroot.nested_or_apart hn hm with hbefore | hbefore | hmem | hmem
  · have hle := Span.Before.mono hbefore hn' hm'
    unfold Span.Before at hle
    omega
  · have hle := Span.Before.mono hbefore hm' hn'
    unfold Span.Before at hle
    omega
  · exact Or.inl hmem
  · exact Or.inr hmem

/-- The first attribute of the tree in whose braces a reference stands. -/
theorem exists_first (hr : r ∈ references stylesName root) : ∃ before s name braces e after,
    root.all = before ++ .attribute s name (some (.container braces (some e))) :: after ∧
      r ∈ referencesIn stylesName braces e ∧
      ∀ n ∈ before, ∀ r' ∈ heldReferences stylesName n, r'.span ≠ r.span := by
  rw [references_eq] at hr
  rcases find?_of_mem_seeAll hr with hr | hr
  · cases hr
  rw [List.find?_flatMap, List.findSome?_eq_some_iff] at hr
  obtain ⟨before, n, after, hall, hfound, hnone⟩ := hr
  have hmem := List.mem_of_find?_eq_some hfound
  have hbefore : ∀ n ∈ before, ∀ r' ∈ heldReferences stylesName n, r'.span ≠ r.span := by
    intro n hn r' hr' hspan
    have hall := List.find?_eq_none.1 (hnone n hn) r' hr'
    exact hall (decide_eq_true hspan)
  unfold heldReferences at hmem
  split at hmem
  · exact ⟨before, _, _, _, _, after, hall, hmem, hbefore⟩
  · cases hmem

theorem mem_all_of_held {s braces : Span} {name : Text} {e k : Node} (hk : k ∈ e.all) :
    k ∈ (Node.attribute s name (some (.container braces (some e)))).all :=
  Node.mem_all_of_mem_children (List.mem_singleton.2 rfl)
    (Node.mem_all_of_mem_children (List.mem_singleton.2 rfl) hk)

/-- No attribute is in its own braces. -/
theorem not_mem_held {s braces : Span} {name : Text} {e : Node} :
    .attribute s name (some (.container braces (some e))) ∉ e.all := by
  have hchild : .container braces (some e) ∈
      (Node.attribute s name (some (.container braces (some e)))).children :=
    List.mem_singleton.2 rfl
  intro h
  exact Node.not_mem_all_of_mem_children hchild
    (Node.mem_all_of_mem_children (List.mem_singleton.2 rfl) h)

/-- Whether the braces go with a member that is all they hold: they do unless the attribute is in the
braces of another one, where the member has been seen before. -/
theorem braces_of_reference (hroot : root.IsPlaced source) {a : Span} {name : Text}
    (hattr : bracedAttribute a name b m ∈ root.all) (hkey : Markup.styleKey? stylesName m = some key)
    (hr : r ∈ references stylesName root) (hspan : r.span = m.span) :
    IsHeld root (bracedAttribute a name b m) ∧ r.braces = none ∨
      ¬IsHeld root (bracedAttribute a name b m) ∧ r.braces = some b := by
  obtain ⟨before, s, name', braces, e, after, hall, hrefs, hbefore⟩ := exists_first hr
  obtain ⟨k, hk, hkey', hspan', hwhole⟩ := of_mem_referencesIn hrefs
  have hmem : .attribute s name' (some (.container braces (some e))) ∈ root.all := by
    rw [hall]
    exact List.mem_append_right _ List.mem_cons_self
  have hmroot : m ∈ root.all := Node.mem_all_trans (mem_all_bracedAttribute a name b m) hattr
  obtain rfl : k = m := eq_of_span_eq hroot hmroot (Node.mem_all_trans (mem_all_of_held hk) hmem)
    hkey hkey' (hspan'.trans hspan)
  have hnested := mem_all_or hroot hattr hmem (mem_all_bracedAttribute a name b k) (mem_all_of_held hk)
  rcases hwhole with ⟨rfl, hbraces⟩ | ⟨hne, hbraces⟩
  · right
    -- the first attribute in which the member stands is the attribute itself
    have hsame : bracedAttribute s name' braces k = bracedAttribute a name b k := by
      rcases hnested with h | h
      · exact (eq_of_mem_bracedAttribute hkey h).symm
      · exact eq_of_mem_bracedAttribute hkey h
    obtain ⟨-, -, hvalue⟩ := Node.attribute.inj hsame
    obtain ⟨rfl, -⟩ := Node.container.inj (Option.some.inj hvalue)
    refine ⟨?_, hbraces⟩
    rintro ⟨t, name'', braces', e', houter, hheld⟩
    have hplace := houter
    rw [hall, List.mem_append, List.mem_cons] at hplace
    rcases hplace with hplace | hplace | hplace
    · have hbelow := Node.mem_all_trans (mem_all_bracedAttribute a name braces k) hheld
      obtain ⟨r', hr', hspan''⟩ := mem_referencesIn braces' hbelow hkey
      exact hbefore _ hplace r' hr' (hspan''.trans hspan.symm)
    · have hself : bracedAttribute a name braces k =
          .attribute t name'' (some (.container braces' (some e'))) := hsame.symm.trans hplace.symm
      rw [hself] at hheld
      exact not_mem_held hheld
    · have hpairwise := hroot.all_pairwise
      rw [hall, List.pairwise_append, List.pairwise_cons] at hpairwise
      refine hpairwise.2.1.1 _ hplace ?_
      have hin : bracedAttribute a name braces k ∈
          (Node.attribute t name'' (some (.container braces' (some e')))).all := mem_all_of_held hheld
      rwa [← hsame] at hin
  · left
    refine ⟨⟨s, name', braces, e, hmem, ?_⟩, hbraces⟩
    have hdiff : ∀ {t u : Span} {x y : Text}, bracedAttribute t x u k ≠
        .attribute s y (some (.container braces (some e))) := by
      intro t u x y heq
      obtain ⟨-, -, hvalue⟩ := Node.attribute.inj heq
      obtain ⟨-, hexpression⟩ := Node.container.inj (Option.some.inj hvalue)
      exact hne (Option.some.inj hexpression)
    rcases hnested with h | h
    · exact (eq_or_mem_of_mem_bracedAttribute h).resolve_left hdiff
    · exact absurd (eq_of_mem_bracedAttribute hkey h).symm hdiff

/-- The attribute whose braces go with a reference: they hold nothing else, and it is in the braces
of no other attribute. -/
theorem exists_bracedAttribute (hroot : root.IsPlaced source) (hr : r ∈ references stylesName root)
    (hb : r.braces = some b) : ∃ a name m, bracedAttribute a name b m ∈ root.all ∧
      Markup.styleKey? stylesName m = some r.key ∧ m.span = r.span ∧
        ¬IsHeld root (bracedAttribute a name b m) := by
  obtain ⟨before, s, name, braces, e, after, hall, hrefs, -⟩ := exists_first hr
  obtain ⟨m, -, hkey, hspan, ⟨rfl, hbraces⟩ | ⟨-, hnone⟩⟩ := of_mem_referencesIn hrefs
  · obtain rfl : braces = b := Option.some.inj (hbraces.symm.trans hb)
    have hattr : bracedAttribute s name braces m ∈ root.all := by
      rw [hall]
      exact List.mem_append_right _ List.mem_cons_self
    refine ⟨s, name, m, hattr, hkey, hspan, ?_⟩
    rcases braces_of_reference hroot hattr hkey hr hspan.symm with ⟨-, hnone⟩ | ⟨hnot, -⟩
    · rw [hnone] at hb
      cases hb
    · exact hnot
  · rw [hnone] at hb
    cases hb

/-! ## Around a member -/

variable {e : Entry} {c : Config} {s : LoadedSkin} {o : Output} {items : List ModuleItem}

/-- References of a tree that have the same range are the same. -/
theorem eq_of_span (hr : r ∈ references stylesName root) {r' : Reference}
    (hr' : r' ∈ references stylesName root) (hspan : r'.span = r.span) : r' = r := by
  by_contra hne
  rcases rel_or_of_pairwise references_pairwise hr hr' (Ne.symm hne) with h | h
  · exact h hspan.symm
  · exact h hspan

/-- Where braces hold nothing but a member of the styles, no edit but that of the member touches
them. -/
theorem LoadedSkin.IsOf.spares_braces (h : s.IsOf items) (hdetach : s.IsDetachable)
    (hb : .container b (some m) ∈ s.root.all)
    (hkey : Markup.styleKey? s.outline.stylesName m = some key) (hr : r ∈ s.references)
    (hspan : r.span = m.span) {edit : Edit} (hedit : edit ∈ s.inlineEdits)
    (hne : edit ≠ referenceEdit s.styles r) {pos : Nat} (hpos : b.Holds pos) : edit.Spares pos := by
  obtain ⟨hstart, hstop⟩ := hpos
  have hseated := h.root_isPlaced _ hb
  have hwithin : m.span.Within b := hseated.inside m (List.mem_singleton.2 rfl)
  have hremoval : ∀ d : Span, (d.Before b ∨ b.Before d) → (removal s.source d).Spares pos := by
    intro d hapart
    have hclear := removal_clear hseated ⟨b, m, rfl⟩ hapart
    simp only [Node.span] at hclear
    unfold Edit.Spares removal
    dsimp only
    omega
  rw [inlineEdits_eq_statements] at hedit
  rcases List.mem_append.1 hedit with hedit | hedit
  · obtain ⟨d, hd, rfl⟩ := List.mem_map.1 hedit
    rcases mem_statements.1 hd with hd | hd
    · exact hremoval d (h.import_apart (h.isImported hd) hb)
    · refine hremoval d ((h.declaration_apart hd hb).resolve_right ?_)
      intro hinside
      refine hdetach.outside d hd r hr ?_
      rw [hspan]
      exact hwithin.trans hinside
  · obtain ⟨r', hr', rfl⟩ := List.mem_map.1 hedit
    have hspan' : m.span ≠ r'.span := by
      intro heq
      rw [eq_of_span hr hr' (heq.symm.trans hspan.symm)] at hne
      exact hne rfl
    -- the braces are what would be replaced for the member on its own
    have hat : IsAt s.outline.stylesName s.root ⟨key, m.span, some b⟩ (.container b (some m))
        (.container b (some m)) m :=
      ⟨hb, ⟨b, m, rfl⟩, Node.mem_all_self _, rfl, hkey, Or.inr ⟨rfl, rfl, rfl⟩⟩
    obtain ⟨b', n', m', hat'⟩ := of_mem_references hr'
    have hrange : n'.span = r'.range := hat'.span_eq
    have hapart := hat.apart h.root_isPlaced hat' hspan'
    rw [hrange] at hapart
    unfold Reference.range Span.Before at hapart
    simp only [Node.span] at hapart
    unfold Edit.Spares referenceEdit
    dsimp only
    omega

/-- The text is a string that denotes the value. -/
def IsString (literal value : Text) : Prop :=
  ∃ t, literal = '"' :: t ∧ AttributeValue.readString none t = some (value, [])

theorem isString_textLiteral (classes : Text) : IsString (Json.textLiteral classes) classes :=
  ⟨_, rfl, AttributeValue.readString_textLiteral classes []⟩

/-- Where a member of the styles was all that the braces of an attribute held, its classes stand in
place.  In the braces of another attribute these braces stay, with a string of the classes in the
place of the member.  Otherwise the whole value is replaced, and it reads as the classes just if a
backslash or a quote in them brings braces with it, or if they stand in quotes as they are. -/
theorem Pipeline.inline_attribute (reference : Text → Option Text) (hload : load e = .ok s)
    (hok : (Pipeline.reactInline.compileSkin c s).result = .ok o) {a : Span} {name classes : Text}
    (hattr : .attribute a name (some (.container b (some m))) ∈ s.root.all)
    (hkey : Markup.styleKey? s.outline.stylesName m = some key)
    (hget : Table.get? key s.styles = some classes) :
    ∃ t rest k, o.files =
        { path := Path.stem s.path ++ ".tsx", type := .component, content := t } :: rest ∧
      (k : Nat) = Edit.place s.inlineEdits b.start ∧
      (IsHeld s.root (.attribute a name (some (.container b (some m)))) → ∃ literal,
        slice s.source b.start m.span.start ++ literal ++ slice s.source m.span.stop b.stop <+:
          t.drop k ∧ IsString literal classes) ∧
      (¬IsHeld s.root (.attribute a name (some (.container b (some m)))) → ∃ value after,
        AttributeValue.read reference (t.drop k) = some (value, after) ∧
          (value = classes ↔
            '\\' ∈ classes ∨ '"' ∈ classes ∨ AttributeValue.IsPlain reference classes)) := by
  obtain ⟨t, rest, ht, hfiles⟩ := Pipeline.exists_splice (p := .reactInline) rfl hok
  obtain ⟨items, hitems⟩ := load_items hload
  have hroot := hitems.root_isPlaced
  have hrefers : Refers s.outline.stylesName s.root m key :=
    ⟨⟨a, name, b, m, hattr, Node.mem_all_self m⟩, hkey⟩
  obtain ⟨r, hr, rfl, hspan⟩ := hrefers.exists_reference hroot
  have hclasses : (Table.get? r.key s.styles).getD [] = classes := by rw [hget, Option.getD_some]
  have hmem : referenceEdit s.styles r ∈ s.inlineEdits :=
    List.mem_append_right _ (List.mem_map_of_mem hr)
  have hedits : ∀ edit ∈ s.inlineEdits, edit.start < edit.stop := hitems.inlineEdits_lt
  have hbraces : .container b (some m) ∈ s.root.all :=
    Node.mem_all_trans (Node.mem_all_of_mem_children (List.mem_singleton.2 rfl)
      (Node.mem_all_self _)) hattr
  rcases braces_of_reference hroot hattr hkey hr hspan with ⟨hheld, hnone⟩ | ⟨hnot, hsome⟩
  · have hedit : referenceEdit s.styles r =
        ⟨m.span.start, m.span.stop, Json.textLiteral classes⟩ := by
      unfold referenceEdit
      rw [hnone, hclasses, Option.getD_none, hspan]
      rfl
    have hseated := hroot _ hbraces
    have hwithin : m.span.Within b := hseated.inside m (List.mem_singleton.2 rfl)
    have hdetach := (inline_isOk_iff hitems).1 ⟨t, ht⟩
    obtain ⟨k, hk, htext⟩ := splice_around ht hedits hmem (by rw [hedit]) (by rw [hedit])
      hwithin.start_le hwithin.le_stop hseated.le_length
      fun edit hedit hne pos hstart hstop =>
        hitems.spares_braces hdetach hbraces hkey hr hspan hedit hne ⟨hstart, hstop⟩
    rw [hedit] at htext
    exact ⟨t, rest, k, hfiles, hk, fun _ => ⟨_, htext, isString_textLiteral classes⟩,
      fun hnot => absurd hheld hnot⟩
  · have hedit : referenceEdit s.styles r = ⟨b.start, b.stop, referenceText classes true⟩ := by
      unfold referenceEdit
      rw [hsome, hclasses]
      rfl
    obtain ⟨k, hk, htext⟩ := splice_text ht hmem (hedits _ hmem) (p := b.start) (by rw [hedit])
    rw [hedit] at htext
    obtain ⟨after, hafter⟩ := htext
    obtain ⟨value, hread, hiff⟩ := AttributeValue.read_referenceText reference classes after
    refine ⟨t, rest, k, hfiles, hk, fun hheld => absurd hheld hnot, fun _ => ⟨value, after, ?_, hiff⟩⟩
    rw [← hafter]
    exact hread

/-! ## A letter that is no letter of ASCII -/

deriving instance DecidableEq for Reference

/-- A component whose only class is a letter with an accent. -/
def accentedClass : Entry where
  path := "App.tsx"
  source := "const styles=\x7bk:'\u00e9'\x7d;export default()=><a className=\x7bstyles.k\x7d/>"

theorem load_accentedClass : ((load accentedClass).toOption.map fun s =>
      (s.statements, s.references, Table.get? "k" s.styles)) =
    some ([⟨0, 21⟩], [⟨"k", ⟨53, 61⟩, some ⟨52, 62⟩⟩], some "\u00e9".toList) := by
  decide +kernel

theorem exists_accentedClass : ∃ s, load accentedClass = .ok s ∧
    s.references = [⟨"k", ⟨53, 61⟩, some ⟨52, 62⟩⟩] ∧
    Table.get? "k" s.styles = some "\u00e9".toList ∧
    splice s.source (Pipeline.reactInline.edits s) =
      .ok "export default()=><a className=\"\\u00e9\"/>" := by
  obtain ⟨s, hload, hparts⟩ := exists_eq_ok load_accentedClass
  obtain ⟨hstatements, hrest⟩ := Prod.mk.inj hparts
  obtain ⟨hreferences, hget⟩ := Prod.mk.inj hrest
  obtain ⟨-, -, hsource⟩ := of_load hload
  refine ⟨s, hload, hreferences, hget, ?_⟩
  have hedits : Pipeline.reactInline.edits s =
      [removal s.source ⟨0, 21⟩, ⟨52, 62, "\"\\u00e9\""⟩] := by
    have hedit : referenceEdit s.styles ⟨"k", ⟨53, 61⟩, some ⟨52, 62⟩⟩ = ⟨52, 62, "\"\\u00e9\""⟩ := by
      unfold referenceEdit
      rw [hget]
      decide +kernel
    unfold Pipeline.edits
    rw [inlineEdits_eq_statements, hstatements, hreferences]
    exact congrArg (fun e => [removal s.source ⟨0, 21⟩, e]) hedit
  rw [hedits, hsource, splice_of_pairwise (by decide +kernel)]
  decide +kernel

/-- In quotes the escape of that letter is no escape, so the value reads as something else. -/
theorem inline_attribute_accentedClass : ∃ s o t rest k value after,
    load accentedClass = .ok s ∧
    (Pipeline.reactInline.compileSkin { outputFormat := .react } s).result = .ok o ∧ o.files =
      { path := Path.stem s.path ++ ".tsx", type := .component, content := t } :: rest ∧
    AttributeValue.read (fun _ => none) (t.drop k) = some (value, after) ∧
    Table.get? "k" s.styles = some "\u00e9".toList ∧ value ≠ "\u00e9" := by
  obtain ⟨s, hload, hreferences, hget, hsplice⟩ := exists_accentedClass
  obtain ⟨items, hitems⟩ := load_items hload
  obtain ⟨o, -, hok, -⟩ := Pipeline.exists_output { outputFormat := .react } rfl hsplice
  have hmem : ⟨"k", ⟨53, 61⟩, some ⟨52, 62⟩⟩ ∈ s.references :=
    hreferences ▸ List.mem_singleton_self _
  obtain ⟨a, name, m, hattr, hkey, -, hnot⟩ := exists_bracedAttribute hitems.root_isPlaced hmem rfl
  obtain ⟨t, rest, k, hfiles, -, -, hread⟩ :=
    Pipeline.inline_attribute (fun _ => none) hload hok hattr hkey hget
  obtain ⟨value, after, hvalue, hiff⟩ := hread hnot
  refine ⟨s, o, t, rest, k, value, after, hload, hok, hfiles, hvalue, hget, ?_⟩
  rw [ne_eq, hiff]
  rintro (hmem | hmem | hplain)
  · exact absurd hmem (by decide)
  · exact absurd hmem (by decide)
  · exact absurd (hplain.1 _ (List.mem_singleton_self _)) (by decide)

/-- The component with that class: the value of its attribute does not read as the class. -/
theorem compile_accentedClass : ∃ s o t, load accentedClass = .ok s ∧
    (Registry.builtIn.compile { outputFormat := .react } accentedClass).result = .ok o ∧
    o.files.head?.map File.content = some t ∧
    t = "export default()=><a className=\"\\u00e9\"/>" ∧
    (∀ reference, AttributeValue.read reference (t.drop 31) =
      some ("\\u00e9".toList, "/>".toList)) ∧
    Table.get? "k" s.styles = some "\u00e9".toList ∧ "\\u00e9".toList ≠ "\u00e9".toList := by
  obtain ⟨s, hload, -, hget, hsplice⟩ := exists_accentedClass
  obtain ⟨o, rest, hok, hfiles⟩ := Pipeline.exists_output { outputFormat := .react } rfl hsplice
  refine ⟨s, o, _, hload, (Registry.result_compile rfl hload).trans hok, ?_, rfl, ?_, hget,
    by decide⟩
  · rw [hfiles]
    rfl
  · intro reference
    have hread := AttributeValue.read_quoted reference (a := "\\u00e9") (by decide) "/>"
    rw [AttributeValue.decode_eq_self reference (by decide)] at hread
    exact hread

end SkinCompiler.Skin
