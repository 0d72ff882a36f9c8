import Mathlib.Data.List.Basic
import SkinCompiler.Proofs.Text.Blank
import SkinCompiler.Source.Node

/-!
# Where nodes stand

The ranges of the nodes of a tree fit together if the nodes below a node follow one another inside
its range.

* `Node.IsPlaced` -- the ranges of a node and of all nodes below it fit together;
* `Node.inductionOn` -- induction from the nodes directly below a node;
* `Node.IsPlaced.within`, `Node.IsPlaced.nested_or_apart` -- what is below a node lies inside it,
  and two nodes of a tree follow one another unless one is below the other;
* `Node.IsPlaced.all_pairwise` -- all nodes of a tree, each before those below it.
-/

namespace SkinCompiler.Source

variable {source : Text} {n m : Node}

/-! ## Ranges -/

namespace Span

/-- The range ends before another one begins. -/
def Before (s t : Span) : Prop := s.stop ≤ t.start

/-- The range lies inside another one. -/
structure Within (s t : Span) : Prop where
  /-- It does not begin before the other one. -/
  start_le : t.start ≤ s.start
  /-- It does not end after the other one. -/
  le_stop : s.stop ≤ t.stop

/-- The position is in the range. -/
def Holds (s : Span) (p : Nat) : Prop := s.start ≤ p ∧ p < s.stop

theorem Within.refl (s : Span) : s.Within s := ⟨Nat.le_refl _, Nat.le_refl _⟩

theorem Within.trans {s t u : Span} (h : s.Within t) (h' : t.Within u) : s.Within u :=
  ⟨Nat.le_trans h'.start_le h.start_le, Nat.le_trans h.le_stop h'.le_stop⟩

theorem Before.mono {s t s' t' : Span} (h : s.Before t) (hs : s'.Within s) (ht : t'.Within t) :
    s'.Before t' := Nat.le_trans hs.le_stop (Nat.le_trans h ht.start_le)

end Span

/-! ## Nodes -/

/-- The characters at the ends of a node that show what it is: the braces around an expression, the
keyword of a declaration, which does not end with a blank. -/
def Node.HasEnds (source : Text) : Node → Prop
  | .container s _ => source[s.start]? = some '\x7b' ∧ source[s.stop - 1]? = some '\x7d'
  | .declaration s _ _ =>
    (∃ c, source[s.start]? = some c ∧ Text.isAsciiLetter c = true) ∧ Text.IsSolidAt source s.stop
  | _ => True

/-- A node stands in a source, with the nodes directly below it one after the other inside its
range. -/
structure Node.IsSeated (source : Text) (n : Node) : Prop where
  /-- The range is not empty. -/
  lt : n.span.start < n.span.stop
  /-- The range ends in the source. -/
  le_length : n.span.stop ≤ source.length
  /-- The nodes below follow one another. -/
  ordered : n.children.Pairwise fun m k => m.span.Before k.span
  /-- The nodes below lie inside. -/
  inside : ∀ m ∈ n.children, m.span.Within n.span
  /-- What shows at the ends is there. -/
  ends : n.HasEnds source

/-- A node and all nodes below it stand in a source. -/
def Node.IsPlaced (source : Text) (n : Node) : Prop := ∀ m ∈ n.all, m.IsSeated source

theorem Node.allOfRow_eq (ns : List Node) : Node.allOfRow ns = ns.flatMap Node.all := by
  induction ns with
  | nil => rfl
  | cons n ns ih => rw [Node.allOfRow, ih, List.flatMap_cons]

theorem Node.allOfOption_eq (n : Option Node) :
    Node.allOfOption n = n.toList.flatMap Node.all := by
  cases n with
  | none => rfl
  | some n => simp [Node.allOfOption]

/-- All nodes of a node are itself and all nodes of those directly below it. -/
theorem Node.all_eq (n : Node) : n.all = n :: n.children.flatMap Node.all := by
  cases n <;> simp [Node.all, Node.children, Node.allOfRow_eq, Node.allOfOption_eq]

theorem Node.mem_all_self (n : Node) : n ∈ n.all := by
  rw [Node.all_eq]
  exact List.mem_cons_self

theorem Node.mem_all_of_mem_children (h : m ∈ n.children) {k : Node} (hk : k ∈ m.all) :
    k ∈ n.all := by
  rw [Node.all_eq]
  exact List.mem_cons_of_mem _ (List.mem_flatMap.2 ⟨m, h, hk⟩)

theorem Node.isPlaced_iff :
    n.IsPlaced source ↔ n.IsSeated source ∧ ∀ m ∈ n.children, m.IsPlaced source := by
  unfold Node.IsPlaced
  rw [Node.all_eq]
  simp only [List.mem_cons, List.mem_flatMap]
  grind

/-! ## Nodes of one tree -/

theorem Node.sizeOf_lt (h : m ∈ n.children) : sizeOf m < sizeOf n := by
  have hlist : ∀ l : List Node, m ∈ l → sizeOf m < sizeOf l := fun _ => List.sizeOf_lt_of_mem
  have hoption : ∀ o : Option Node, m ∈ o.toList → sizeOf m < sizeOf o := by
    intro o ho
    obtain rfl : o = some m := by simpa using ho
    simp
  cases n with
  | identifier | literal | unread | aside | text => cases h
  | member _ k _ _ | property _ _ k _ _ | function _ _ k _ | spreadAttribute _ k =>
    obtain rfl := List.mem_singleton.1 h
    simp +arith
  | conditional _ k l o =>
    have hcases : m = k ∨ m = l ∨ m = o := by simpa [Node.children] using h
    rcases hcases with rfl | rfl | rfl <;> simp +arith
  | logical _ _ k l =>
    have hcases : m = k ∨ m = l := by simpa [Node.children] using h
    rcases hcases with rfl | rfl <;> simp +arith
  | call _ k ns =>
    rcases List.mem_cons.1 h with rfl | h
    · simp +arith
    · have hlt := hlist ns h
      simp
      omega
  | element _ _ ks ns _ =>
    rcases List.mem_append.1 h with h | h
    · have hlt := hlist ks h
      simp
      omega
    · have hlt := hlist ns h
      simp
      omega
  | template _ _ ns | object _ ns | array _ ns | block _ ns | declaration _ _ ns
  | fragment _ ns =>
    have hlt := hlist ns h
    simp
    omega
  | result _ o | declarator _ _ o | container _ o | «attribute» _ _ o =>
    have hlt := hoption o h
    simp
    omega

/-- What holds of a node when it holds of those directly below it holds of every node. -/
theorem Node.inductionOn {P : Node → Prop} (n : Node)
    (step : ∀ n, (∀ m ∈ n.children, P m) → P n) : P n :=
  step n fun m _ => Node.inductionOn m step
termination_by sizeOf n
decreasing_by exact Node.sizeOf_lt ‹_›

theorem Node.mem_all_iff : m ∈ n.all ↔ m = n ∨ ∃ k ∈ n.children, m ∈ k.all := by
  rw [Node.all_eq]
  simp

theorem Node.mem_all_trans {k : Node} (hk : k ∈ m.all) (hm : m ∈ n.all) : k ∈ n.all := by
  induction n using Node.inductionOn with
  | step n ih =>
    rcases Node.mem_all_iff.1 hm with rfl | ⟨l, hl, hml⟩
    · exact hk
    · exact Node.mem_all_of_mem_children hl (ih l hl hml)

/-- The nodes below a node lie in its range. -/
theorem Node.IsPlaced.within (hn : n.IsPlaced source) (hm : m ∈ n.all) :
    m.span.Within n.span := by
  induction n using Node.inductionOn with
  | step n ih =>
    obtain ⟨hseated, hchildren⟩ := Node.isPlaced_iff.1 hn
    rcases Node.mem_all_iff.1 hm with rfl | ⟨k, hk, hm⟩
    · exact Span.Within.refl _
    · exact (ih k hk (hchildren k hk) hm).trans (hseated.inside k hk)

theorem rel_or_of_pairwise {α : Type} {R : α → α → Prop} {l : List α} {x y : α}
    (h : l.Pairwise R) (hx : x ∈ l) (hy : y ∈ l) (hxy : x ≠ y) : R x y ∨ R y x := by
  induction l with
  | nil => cases hx
  | cons z l ih =>
    obtain ⟨hz, hl⟩ := List.pairwise_cons.1 h
    rcases List.mem_cons.1 hx with rfl | hxl
    · rcases List.mem_cons.1 hy with rfl | hyl
      · exact absurd rfl hxy
      · exact Or.inl (hz y hyl)
    · rcases List.mem_cons.1 hy with rfl | hyl
      · exact Or.inr (hz x hxl)
      · exact ih hl hxl hyl

/-- Two nodes of a tree follow one another, or one of them is below the other. -/
theorem Node.IsPlaced.nested_or_apart {root : Node} (h : root.IsPlaced source)
    (hm : m ∈ root.all) (hn : n ∈ root.all) :
    m.span.Before n.span ∨ n.span.Before m.span ∨ m ∈ n.all ∨ n ∈ m.all := by
  induction root using Node.inductionOn with
  | step root ih =>
    obtain ⟨hseated, hchildren⟩ := Node.isPlaced_iff.1 h
    rcases Node.mem_all_iff.1 hm with rfl | ⟨k, hk, hmk⟩
    · exact Or.inr (Or.inr (Or.inr hn))
    rcases Node.mem_all_iff.1 hn with rfl | ⟨l, hl, hnl⟩
    · exact Or.inr (Or.inr (Or.inl hm))
    by_cases hkl : k = l
    · subst hkl
      exact ih k hk (hchildren k hk) hmk hnl
    · -- nodes below different children stand where these do
      have hmk' := (hchildren k hk).within hmk
      have hnl' := (hchildren l hl).within hnl
      rcases rel_or_of_pairwise hseated.ordered hk hl hkl with hbefore | hbefore
      · exact Or.inl (hbefore.mono hmk' hnl')
      · exact Or.inr (Or.inl (hbefore.mono hnl' hmk'))

theorem Node.sizeOf_le (h : m ∈ n.all) : sizeOf m ≤ sizeOf n := by
  induction n using Node.inductionOn with
  | step n ih =>
    rcases Node.mem_all_iff.1 h with rfl | ⟨k, hk, hm⟩
    · exact Nat.le_refl _
    · exact Nat.le_trans (ih k hk hm) (Nat.le_of_lt (Node.sizeOf_lt hk))

/-- A node is not below those directly below it. -/
theorem Node.not_mem_all_of_mem_children (h : m ∈ n.children) : n ∉ m.all := by
  intro hmem
  have hlt := Node.sizeOf_lt h
  have hle := Node.sizeOf_le hmem
  omega

/-- No node comes before the nodes that it is below. -/
theorem Node.IsPlaced.all_pairwise (h : n.IsPlaced source) :
    n.all.Pairwise fun m k => m ∉ k.all := by
  induction n using Node.inductionOn with
  | step n ih =>
    obtain ⟨hseated, hchildren⟩ := Node.isPlaced_iff.1 h
    rw [Node.all_eq, List.pairwise_cons, List.pairwise_flatMap]
    refine ⟨?_, fun k hk => ih k hk (hchildren k hk), ?_⟩
    · intro m hm hmem
      obtain ⟨k, hk, hmk⟩ := List.mem_flatMap.1 hm
      exact Node.not_mem_all_of_mem_children hk (Node.mem_all_trans hmem hmk)
    · refine hseated.ordered.imp_of_mem ?_
      intro k l hk hl hbefore m hm m' hm' hmem
      have hlt := (hchildren k hk m hm).lt
      have hstop := ((hchildren k hk).within hm).le_stop
      have hstart := ((hchildren l hl).within (Node.mem_all_trans hmem hm')).start_le
      have hle : k.span.stop ≤ l.span.start := hbefore
      omega

end SkinCompiler.Source
