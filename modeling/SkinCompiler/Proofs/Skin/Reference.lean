import SkinCompiler.Proofs.Source.Node
import SkinCompiler.Skin.StylesEdit

/-!
# References to styles

Where the references to styles stand in an element tree, and what is replaced for them.

* `of_mem_references` -- a reference is a member of the styles below the braces of an attribute;
* `references_pairwise` -- references have ranges of their own;
* `IsAt.apart` -- what is replaced for two references does not overlap;
* `Refers.exists_reference` -- members of the styles in the braces of an attribute are references.
-/

namespace SkinCompiler.Skin

open Source

variable {stylesName : Option Text} {source : Text} {root n m : Node} {r r' : Reference}
  {rs seen : List Reference}

/-! ## References of their own -/

/-- What is seen of references when some have been seen before. -/
def seeAll (seen rs : List Reference) : List Reference :=
  rs.foldl (fun seen r => if seen.any fun s => s.span = r.span then seen else seen ++ [r]) seen

theorem seeAll_cons (r : Reference) (rs seen : List Reference) : seeAll seen (r :: rs) =
    seeAll (if seen.any fun s => s.span = r.span then seen else seen ++ [r]) rs := rfl

theorem mem_of_mem_seeAll (h : r ∈ seeAll seen rs) : r ∈ seen ∨ r ∈ rs := by
  induction rs generalizing seen with
  | nil => exact Or.inl h
  | cons s rs ih =>
    rcases ih h with hr | hr
    · dsimp only at hr
      split at hr
      · exact Or.inl hr
      · rcases List.mem_append.1 hr with hr | hr
        · exact Or.inl hr
        · exact Or.inr (List.mem_cons.2 (Or.inl (List.mem_singleton.1 hr)))
    · exact Or.inr (List.mem_cons_of_mem _ hr)

theorem mem_seeAll_of_mem (h : r ∈ seen) : r ∈ seeAll seen rs := by
  induction rs generalizing seen with
  | nil => exact h
  | cons s rs ih =>
    refine ih ?_
    dsimp only
    split
    · exact h
    · exact List.mem_append_left _ h

/-- What is there is seen, or something else with its range is. -/
theorem exists_mem_seeAll (seen : List Reference) (h : r ∈ rs) :
    ∃ r' ∈ seeAll seen rs, r'.span = r.span := by
  induction rs generalizing seen with
  | nil => cases h
  | cons s rs ih =>
    rcases List.mem_cons.1 h with rfl | h
    · rw [seeAll_cons]
      split
      · rename_i hseen
        obtain ⟨r', hr', hspan⟩ := List.any_eq_true.1 hseen
        exact ⟨r', mem_seeAll_of_mem hr', by simpa using hspan⟩
      · have hnew : r ∈ seen ++ [r] := List.mem_append_right _ (List.mem_singleton_self _)
        exact ⟨r, mem_seeAll_of_mem hnew, rfl⟩
    · exact ih _ h

theorem seeAll_pairwise (h : seen.Pairwise fun r s => r.span ≠ s.span) :
    (seeAll seen rs).Pairwise fun r s => r.span ≠ s.span := by
  induction rs generalizing seen with
  | nil => exact h
  | cons s rs ih =>
    refine ih ?_
    dsimp only
    split
    · exact h
    · rename_i hnew
      rw [List.pairwise_append]
      refine ⟨h, List.pairwise_singleton _ _, ?_⟩
      intro r hr t ht heq
      obtain rfl := List.mem_singleton.1 ht
      exact hnew (List.any_eq_true.2 ⟨r, hr, by simpa using heq⟩)

/-- No two references have the same range. -/
theorem references_pairwise :
    (references stylesName root).Pairwise fun r s => r.span ≠ s.span :=
  seeAll_pairwise List.Pairwise.nil

/-! ## Where a reference stands -/

theorem eq_of_styleKey? {key : Text} (h : Markup.styleKey? stylesName n = some key) :
    ∃ s s' name c, n = .member s (.identifier s' name) key c ∧ some name = stylesName := by
  unfold Markup.styleKey? at h
  split at h
  · rename_i s s' name key' c
    split at h
    · rename_i hname
      obtain rfl := Option.some.inj h
      exact ⟨s, s', name, c, rfl, hname⟩
    · cases h
  · cases h

/-- A reference is the member `m` of the styles, below the braces `b` of an attribute, and `n` is
what is replaced for it: that member, or the braces if it is all they hold. -/
structure IsAt (stylesName : Option Text) (root : Node) (r : Reference) (b n m : Node) : Prop where
  /-- The braces are in the tree. -/
  braces_mem : b ∈ root.all
  /-- They are braces. -/
  braces : ∃ s e, b = .container s (some e)
  /-- What is replaced is in the braces. -/
  node_mem : n ∈ b.all
  /-- The member has the range of the reference. -/
  member_span : m.span = r.span
  /-- The member is one of the styles. -/
  member_key : Markup.styleKey? stylesName m = some r.key
  /-- What is replaced is the member, or braces that hold it. -/
  node : n = m ∧ r.braces = none ∨ n = b ∧ b = .container b.span (some m) ∧ r.braces = some b.span

/-- Every reference stands somewhere in the tree. -/
theorem of_mem_references (h : r ∈ references stylesName root) :
    ∃ b n m, IsAt stylesName root r b n m := by
  rcases mem_of_mem_seeAll h with h | h
  · cases h
  obtain ⟨k, hk, hr⟩ := List.mem_flatMap.1 h
  split at hr
  · rename_i s name braces expression
    have hcontainer : Node.container braces (some expression) ∈ root.all :=
      Node.mem_all_trans (Node.mem_all_of_mem_children (List.mem_singleton.2 rfl)
        (Node.mem_all_self _)) hk
    have hall : expression.all = expression :: expression.children.flatMap Node.all :=
      Node.all_eq expression
    unfold referencesIn at hr
    rw [hall] at hr
    dsimp only at hr
    rcases List.mem_append.1 hr with hr | hr
    · -- the reference is all that the braces hold
      obtain ⟨key, hkey, rfl⟩ := Option.map_eq_some_iff.1 (Option.mem_toList.1 hr)
      exact ⟨_, _, expression, hcontainer, ⟨_, _, rfl⟩, Node.mem_all_self _, rfl, hkey,
        Or.inr ⟨rfl, rfl, rfl⟩⟩
    · obtain ⟨m, hm, hr⟩ := List.mem_filterMap.1 hr
      obtain ⟨key, hkey, rfl⟩ := Option.map_eq_some_iff.1 hr
      have hmall : m ∈ expression.all := by
        rw [hall]
        exact List.mem_cons_of_mem _ hm
      exact ⟨_, m, m, hcontainer, ⟨_, _, rfl⟩,
        Node.mem_all_of_mem_children (List.mem_singleton.2 rfl) hmall, rfl, hkey,
        Or.inl ⟨rfl, rfl⟩⟩
  · cases hr

namespace IsAt

variable {b b' n' m' : Node}

/-- What is replaced for a reference has the range of its edit. -/
theorem span_eq (h : IsAt stylesName root r b n m) : n.span = r.braces.getD r.span := by
  rcases h.node with ⟨rfl, hnone⟩ | ⟨rfl, -, hsome⟩
  · rw [hnone, Option.getD_none, h.member_span]
  · rw [hsome, Option.getD_some]

theorem node_mem_root (h : IsAt stylesName root r b n m) : n ∈ root.all :=
  Node.mem_all_trans h.node_mem h.braces_mem

/-- The member is below what is replaced for it. -/
theorem member_mem (h : IsAt stylesName root r b n m) : m ∈ n.all := by
  rcases h.node with ⟨rfl, -⟩ | ⟨rfl, hcontainer, -⟩
  · exact Node.mem_all_self _
  · rw [hcontainer]
    exact Node.mem_all_of_mem_children (List.mem_singleton.2 rfl) (Node.mem_all_self _)

theorem member_mem_root (h : IsAt stylesName root r b n m) : m ∈ root.all :=
  Node.mem_all_trans h.member_mem h.node_mem_root

/-- What is below a member of the styles. -/
theorem mem_all_member {key : Text} (hkey : Markup.styleKey? stylesName m = some key)
    {k : Node} (hk : k ∈ m.all) : k = m ∨ ∃ s name, k = .identifier s name := by
  obtain ⟨s, s', name, c, rfl, -⟩ := eq_of_styleKey? hkey
  rcases Node.mem_all_iff.1 hk with rfl | ⟨l, hl, hkl⟩
  · exact Or.inl rfl
  · obtain rfl := List.mem_singleton.1 hl
    rcases Node.mem_all_iff.1 hkl with rfl | ⟨l, hl, -⟩
    · exact Or.inr ⟨s', name, rfl⟩
    · cases hl

/-- Below what is replaced for a reference there is nothing else to replace. -/
theorem member_eq (h : IsAt stylesName root r b n m) (h' : IsAt stylesName root r' b' n' m')
    (hn : n' ∈ n.all) : m' = m := by
  have hmember : ∀ {k : Node}, k ∈ m.all → k = n' → m' = m := by
    rintro k hk rfl
    obtain ⟨s, s', name, c, hm, -⟩ := eq_of_styleKey? h.member_key
    obtain ⟨t, t', name', c', hm', -⟩ := eq_of_styleKey? h'.member_key
    rcases mem_all_member h.member_key hk with rfl | ⟨u, name'', rfl⟩
    · rcases h'.node with ⟨rfl, -⟩ | ⟨rfl, hb, -⟩
      · rfl
      · rw [hm] at hb
        cases hb
    · rcases h'.node with ⟨rfl, -⟩ | ⟨rfl, hb, -⟩
      · cases hm'
      · cases hb
  rcases h.node with ⟨rfl, -⟩ | ⟨rfl, hb, -⟩
  · exact hmember hn rfl
  · rcases Node.mem_all_iff.1 hn with rfl | ⟨l, hl, hnl⟩
    · rcases h'.node with ⟨rfl, -⟩ | ⟨rfl, hb', -⟩
      · obtain ⟨t, t', name', c', hm', -⟩ := eq_of_styleKey? h'.member_key
        rw [hm'] at hb
        cases hb
      · exact (Option.some.inj (Node.container.inj (hb.symm.trans hb')).2).symm
    · rw [hb] at hl
      obtain rfl := List.mem_singleton.1 hl
      exact hmember hnl rfl

/-- What is replaced for two references of different ranges does not overlap. -/
theorem apart (hroot : root.IsPlaced source) (h : IsAt stylesName root r b n m)
    (h' : IsAt stylesName root r' b' n' m') (hspan : r.span ≠ r'.span) :
    n.span.Before n'.span ∨ n'.span.Before n.span := by
  have hne : m' ≠ m := by
    rintro rfl
    exact hspan (h.member_span.symm.trans h'.member_span)
  rcases hroot.nested_or_apart h.node_mem_root h'.node_mem_root with hbefore | hbefore | hn | hn
  · exact Or.inl hbefore
  · exact Or.inr hbefore
  · exact absurd (h'.member_eq h hn).symm hne
  · exact absurd (h.member_eq h' hn) hne

end IsAt

/-! ## What is referred to -/

/-- The node refers to a style key: it is a member of the styles, in the braces of an attribute. -/
structure Refers (stylesName : Option Text) (root m : Node) (key : Text) : Prop where
  /-- It is in the braces of an attribute of the tree. -/
  held : ∃ s name braces e, .attribute s name (some (.container braces (some e))) ∈ root.all ∧
    m ∈ e.all
  /-- It is a member of the styles. -/
  key : Markup.styleKey? stylesName m = some key

theorem mem_referencesIn (braces : Span) {e : Node} {key : Text} (hm : m ∈ e.all)
    (hkey : Markup.styleKey? stylesName m = some key) :
    ∃ r ∈ referencesIn stylesName braces e, r.span = m.span := by
  have hall : e.all = e :: e.children.flatMap Node.all := Node.all_eq e
  unfold referencesIn
  rw [hall] at hm ⊢
  dsimp only
  rcases List.mem_cons.1 hm with rfl | hm
  · refine ⟨⟨key, m.span, some braces⟩, List.mem_append_left _ (Option.mem_toList.2 ?_), rfl⟩
    exact Option.mem_map_of_mem _ hkey
  · refine ⟨⟨key, m.span, none⟩,
      List.mem_append_right _ (List.mem_filterMap.2 ⟨m, hm, ?_⟩), rfl⟩
    exact Option.mem_map_of_mem _ hkey

/-- Two members of the styles in one tree have different ranges. -/
theorem eq_of_span_eq {m' : Node} {key key' : Text} (hroot : root.IsPlaced source)
    (hm : m ∈ root.all) (hm' : m' ∈ root.all) (hkey : Markup.styleKey? stylesName m = some key)
    (hkey' : Markup.styleKey? stylesName m' = some key') (hspan : m'.span = m.span) : m' = m := by
  have hlt := (hroot m hm).lt
  rcases hroot.nested_or_apart hm hm' with hbefore | hbefore | hmem | hmem
  · unfold Span.Before at hbefore
    rw [hspan] at hbefore
    omega
  · unfold Span.Before at hbefore
    rw [hspan] at hbefore
    omega
  · rcases IsAt.mem_all_member hkey' hmem with rfl | ⟨s, name, rfl⟩
    · rfl
    · cases hkey
  · rcases IsAt.mem_all_member hkey hmem with rfl | ⟨s, name, rfl⟩
    · rfl
    · cases hkey'

/-- Whatever refers to a style key is a reference. -/
theorem Refers.exists_reference {key : Text} (h : Refers stylesName root m key)
    (hroot : root.IsPlaced source) :
    ∃ r ∈ references stylesName root, r.key = key ∧ r.span = m.span := by
  obtain ⟨s, name, braces, e, hat, hm⟩ := h.held
  obtain ⟨r₀, hr₀, hspan₀⟩ := mem_referencesIn braces hm h.key
  have hseen : ∃ r ∈ references stylesName root, r.span = r₀.span :=
    exists_mem_seeAll [] (List.mem_flatMap.2 ⟨_, hat, hr₀⟩)
  obtain ⟨r, hr, hspan⟩ := hseen
  refine ⟨r, hr, ?_, hspan.trans hspan₀⟩
  obtain ⟨b, n, m', hr'⟩ := of_mem_references hr
  have hmroot : m ∈ root.all := by
    have hbelow : m ∈ (Node.attribute s name (some (.container braces (some e)))).all := by
      refine Node.mem_all_of_mem_children (List.mem_singleton.2 rfl) ?_
      exact Node.mem_all_of_mem_children (List.mem_singleton.2 rfl) hm
    exact Node.mem_all_trans hbelow hat
  have hspan' : m'.span = m.span := hr'.member_span.trans (hspan.trans hspan₀)
  obtain rfl := eq_of_span_eq hroot hmroot hr'.member_mem_root h.key hr'.member_key hspan'
  exact Option.some.inj (hr'.member_key.symm.trans h.key)

end SkinCompiler.Skin
