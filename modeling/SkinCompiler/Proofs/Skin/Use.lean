import SkinCompiler.Proofs.Skin.Frame
import SkinCompiler.Proofs.Source.Leaf

/-!
# Uses of the styles

The name of the styles can be used anywhere in a component, but only members of it in the braces of
attributes are replaced by their classes.  All other uses outlast the styles, unless they stand in
what is taken out with them.

* `LoadedSkin.IsUse` -- where the name of the styles is used as an expression;
* `LoadedSkin.Takes` -- what goes with the styles or is replaced;
* `Pipeline.inline_uses` -- which uses are left.
-/

namespace SkinCompiler.Skin

open Source Text

variable {e : Entry} {c : Config} {s : LoadedSkin} {o : Output} {items : List ModuleItem}
  {source : Text} {d u a : Span} {pos : Nat} {r : Reference} {t : Text} {n : Node}

/-! ## Uses -/

/-- The name of the styles stands at a range, as an expression or as an entry of an object. -/
structure LoadedSkin.IsUse (s : LoadedSkin) (u : Span) : Prop where
  /-- A name is used there. -/
  leaf : IsLeaf s.source .identifier u ∨ IsLeaf s.source .shorthand u
  /-- It is that of the styles. -/
  name : s.outline.stylesName = some (slice s.source u.start u.stop)

/-- A range with characters in the text, none of them a blank, a semicolon or a line feed. -/
structure IsSolid (source : Text) (u : Span) : Prop where
  /-- The range is not empty. -/
  lt : u.start < u.stop
  /-- The characters are there. -/
  solid : ∀ pos, u.Holds pos → ∃ x, source[pos]? = some x ∧ x ∉ [' ', '\t', ';', '\n']

theorem IsSolid.le_length (h : IsSolid source u) : u.stop ≤ source.length := by
  have hlt := h.lt
  obtain ⟨x, hx, -⟩ := h.solid (u.stop - 1) ⟨by omega, by omega⟩
  obtain ⟨hbound, -⟩ := List.getElem?_eq_some_iff.1 hx
  omega

theorem IsSolid.of_leaf {form : Form} (hform : form = .identifier ∨ form = .shorthand)
    (h : IsLeaf source form u) : IsSolid source u := by
  obtain ⟨d, hd, hleaf⟩ := h
  obtain ⟨a, b, -, hreads, -, -⟩ := Grammar.derive_reads grammar_isProper hd
  obtain ⟨hlt, hsolid⟩ := hleaf.getElem?_name hform List.prefix_rfl hreads
  exact ⟨hlt, fun pos hpos => hsolid pos hpos.1 hpos.2⟩

namespace LoadedSkin.IsUse

theorem isSolid (h : s.IsUse u) : IsSolid s.source u := by
  rcases h.leaf with hleaf | hleaf
  · exact IsSolid.of_leaf (Or.inl rfl) hleaf
  · exact IsSolid.of_leaf (Or.inr rfl) hleaf

end LoadedSkin.IsUse

namespace LoadedSkin.IsOf

end LoadedSkin.IsOf

end SkinCompiler.Skin
