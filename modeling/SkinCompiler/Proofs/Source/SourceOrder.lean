import SkinCompiler.Proofs.Source.Outline

/-!
# Nodes in the order of the source

Whatever is read from a text, the ranges of its nodes are a map of that text: they nest as the nodes
do, and going through the nodes never leads back.

* `Node.IsMapped` -- what the ranges of a tree have to do with one another and with the text;
* `Node.IsPlaced.starts` -- going through the nodes of a placed tree never leads back;
* `isMapped_of_read` -- expressions, element trees and styles that are read are mapped.
-/

namespace SkinCompiler.Source

open Outline

variable {source : Text} {n m : Node} {items : List ModuleItem} {parts : Parts}

/-- The ranges of a tree are a map of a text. -/
structure Node.IsMapped (source : Text) (root : Node) : Prop where
  /-- Every range holds something and ends in the text. -/
  bounds : ∀ n ∈ root.all, n.span.start < n.span.stop ∧ n.span.stop ≤ source.length
  /-- What is directly below a node lies in its range. -/
  nested : ∀ n ∈ root.all, ∀ m ∈ n.children, m.span.Within n.span
  /-- What is directly below a node follows one another. -/
  ordered : ∀ n ∈ root.all, n.children.Pairwise fun m k => m.span.Before k.span
  /-- Going through the nodes never leads back. -/
  starts : (root.all.map fun n => n.span.start).Pairwise (· ≤ ·)

/-- Each node of a placed tree begins where the one before it does, or later. -/
theorem Node.IsPlaced.starts (h : n.IsPlaced source) :
    n.all.Pairwise fun m k => m.span.start ≤ k.span.start := by
  induction n using Node.inductionOn with
  | step n ih =>
    obtain ⟨hseated, hchildren⟩ := Node.isPlaced_iff.1 h
    rw [Node.all_eq, List.pairwise_cons]
    constructor
    · intro m hm
      have hmem : m ∈ n.all := by
        rw [Node.all_eq]
        exact List.mem_cons_of_mem _ hm
      exact (h.within hmem).start_le
    · refine List.pairwise_flatMap.2 ⟨fun m hm => ih m hm (hchildren m hm), ?_⟩
      refine hseated.ordered.imp_of_mem ?_
      intro k l hk hl hbefore m hm o ho
      -- `m` is below `k` and `o` is below `l`, which comes behind `k`
      have hm' := ((hchildren k hk).within hm)
      have ho' := ((hchildren l hl).within ho)
      have hlt := (hchildren k hk m hm).lt
      have hle : m.span.stop ≤ o.span.start := hbefore.mono hm' ho'
      omega

theorem Node.IsPlaced.isMapped (h : n.IsPlaced source) : n.IsMapped source where
  bounds m hm := ⟨(h m hm).lt, (h m hm).le_length⟩
  nested m hm := (h m hm).inside
  ordered m hm := (h m hm).ordered
  starts := List.pairwise_map.2 h.starts

namespace Outline

theorem mem_of_root_parts {root : Node} (h : (ofItems items parts).root = some root) :
    ∃ n ∈ items.flatMap ModuleItem.nodes, root ∈ n.all := by
  refine mem_of_root ?_
  have hroot : (if parts.elements then (component items).2.bind returned? else none) = some root := by
    unfold ofItems at h
    dsimp only at h
    split at h <;> exact h
  split at hroot
  · exact hroot
  · cases hroot

/-- The value of the styles stands in an item of the module. -/
theorem mem_of_stylesValue {value : Node}
    (h : (ofItems items parts).stylesValue = some value) :
    ∃ n ∈ items.flatMap ModuleItem.nodes, value ∈ n.all := by
  unfold ofItems at h
  dsimp only at h
  split at h
  · obtain ⟨v, hv, hvalue⟩ := Option.bind_eq_some_iff.1 h
    obtain ⟨name, -, hfind⟩ := Option.bind_eq_some_iff.1 hv
    obtain ⟨n, hn, hvn⟩ := exists_of_find_declared hfind
    exact ⟨n, hn, (of_mem_variablesOf hvn).2 value hvalue⟩
  · cases h

end Outline

/-- An expression that is read from a text is mapped to it, and so are the element tree and the
styles of every component, whatever else of it is looked for. -/
theorem isMapped_of_read (source : Text) :
    (∀ n, readExpression source = .ok n → n.IsMapped source) ∧
      ∀ parts o, outline source parts = .ok o →
        ∀ n, o.root = some n ∨ o.stylesValue = some n → n.IsMapped source := by
  constructor
  · intro n h
    have hread : readExpressionAt source (source.length + 1) source 0 = .ok n := h
    have hprefix : source <+: source.drop 0 := List.prefix_rfl
    exact (readExpressionAt_isPlaced _ hprefix hread).1.isMapped
  · intro parts o h n hn
    unfold outline at h
    split at h
    · rename_i items hread
      obtain rfl := Except.ok.inj h
      obtain ⟨k, hk, hnk⟩ : ∃ k ∈ items.flatMap ModuleItem.nodes, n ∈ k.all := by
        rcases hn with hroot | hvalue
        · exact mem_of_root_parts hroot
        · exact mem_of_stylesValue hvalue
      have hplaced := (readModule_placed hread).placed k hk
      exact Node.IsPlaced.isMapped fun m hm => hplaced m (Node.mem_all_trans hm hnk)
    · cases h

/-- A template literal with a placeholder. -/
def greeting : Text := "\x60a$\x7bb\x7d\x60"

/-- A component with a shorthand property among its styles. -/
def shorthandStyles : Text := "const styles=\x7ba\x7d;export default()=><p/>"

/-- The placeholder and the shorthand property stand where they are written. -/
theorem isMapped_greeting :
    (∃ n, readExpression greeting = .ok n ∧ n.all.map Node.span = [⟨0, 7⟩, ⟨4, 5⟩] ∧
        n.IsMapped greeting) ∧
      ∃ o, outline shorthandStyles {} = .ok o ∧
        ∃ value root, o.stylesValue = some value ∧ o.root = some root ∧
          value.all.map Node.span = [⟨13, 16⟩, ⟨14, 15⟩, ⟨14, 15⟩] ∧ root.span = ⟨35, 39⟩ ∧
          value.IsMapped shorthandStyles ∧ root.IsMapped shorthandStyles := by
  constructor
  · have hread : (readExpression greeting).toOption.map (fun n => n.all.map Node.span) =
        some [⟨0, 7⟩, ⟨4, 5⟩] := by decide +kernel
    obtain ⟨n, hn, hspans⟩ := exists_eq_ok hread
    exact ⟨n, hn, hspans, (isMapped_of_read greeting).1 n hn⟩
  · have hread : (outline shorthandStyles {}).toOption.map (fun o =>
        (o.stylesValue.map fun n => n.all.map Node.span, o.root.map Node.span)) =
        some (some [⟨13, 16⟩, ⟨14, 15⟩, ⟨14, 15⟩], some ⟨35, 39⟩) := by decide +kernel
    obtain ⟨o, ho, hspans⟩ := exists_eq_ok hread
    obtain ⟨hvalue, hroot⟩ := Prod.mk.inj hspans
    obtain ⟨value, hv, hvalue⟩ := Option.map_eq_some_iff.1 hvalue
    obtain ⟨root, hr, hroot⟩ := Option.map_eq_some_iff.1 hroot
    have hmapped := (isMapped_of_read shorthandStyles).2 {} o ho
    exact ⟨o, ho, value, root, hv, hr, hvalue, hroot, hmapped _ (.inr hv), hmapped _ (.inl hr)⟩

end SkinCompiler.Source
