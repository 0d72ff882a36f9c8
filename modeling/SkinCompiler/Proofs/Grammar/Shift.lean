import SkinCompiler.Proofs.Grammar.Derivation

/-!
# Derivations behind other text

What a derivation reads does not depend on what stands before it: with any text in front, it reads
the same at the positions behind that text.

* `Derivation.shift` -- a derivation at later positions;
* `Reads.shift`, `ReadsRow.shift` -- it reads what the derivation reads, behind other text.
-/

namespace SkinCompiler.Grammar

variable {T C F : Type} {g : Grammar T C F} {text : Text}
variable {d : Derivation T C F} {ds : List (Derivation T C F)} {a b p q : Nat}

mutual

/-- A derivation with all its positions later by `k`. -/
def Derivation.shift (k : Nat) : Derivation T C F → Derivation T C F
  | .terminal t start stop => .terminal t (k + start) (k + stop)
  | .node rule children => .node rule (shiftRow k children)

/-- A row of derivations with all their positions later by `k`. -/
def shiftRow (k : Nat) : List (Derivation T C F) → List (Derivation T C F)
  | [] => []
  | d :: ds => d.shift k :: shiftRow k ds

end

@[simp] theorem Derivation.symbol_shift (k : Nat) (d : Derivation T C F) :
    (d.shift k).symbol = d.symbol := by
  cases d <;> rfl

@[simp] theorem map_symbol_shiftRow (k : Nat) (ds : List (Derivation T C F)) :
    (shiftRow k ds).map Derivation.symbol = ds.map Derivation.symbol := by
  induction ds with
  | nil => rfl
  | cons d ds ih => rw [shiftRow, List.map_cons, List.map_cons, ih, Derivation.symbol_shift]

mutual

theorem Derivation.shift_zero : ∀ d : Derivation T C F, d.shift 0 = d
  | .terminal _ _ _ => by rw [Derivation.shift, Nat.zero_add, Nat.zero_add]
  | .node _ ds => by rw [Derivation.shift, shiftRow_zero ds]

theorem shiftRow_zero : ∀ ds : List (Derivation T C F), shiftRow 0 ds = ds
  | [] => rfl
  | d :: ds => by rw [shiftRow, d.shift_zero, shiftRow_zero ds]

end

mutual

theorem Derivation.shift_shift (j k : Nat) : ∀ d : Derivation T C F,
    (d.shift j).shift k = d.shift (k + j)
  | .terminal _ _ _ => by
    rw [Derivation.shift, Derivation.shift, Derivation.shift, Nat.add_assoc, Nat.add_assoc]
  | .node _ ds => by
    rw [Derivation.shift, Derivation.shift, Derivation.shift, shiftRow_shiftRow j k ds]

theorem shiftRow_shiftRow (j k : Nat) : ∀ ds : List (Derivation T C F),
    shiftRow k (shiftRow j ds) = shiftRow (k + j) ds
  | [] => rfl
  | d :: ds => by
    rw [shiftRow, shiftRow, shiftRow, d.shift_shift j k, shiftRow_shiftRow j k ds]

end

theorem drop_append_add (lead : Text) (p : Nat) :
    (lead ++ text).drop (lead.length + p) = text.drop p := by
  rw [← List.drop_drop, List.drop_left]

theorem IsGap.shift (lead : Text) (h : IsGap g text p q) :
    IsGap g (lead ++ text) (lead.length + p) (lead.length + q) := by
  have hle := h.le
  refine ⟨by omega, ?_⟩
  rw [drop_append_add, Nat.add_sub_add_left]
  exact h.covers

mutual

/-- Behind other text a derivation reads what it read. -/
theorem Reads.shift (lead : Text) : ∀ {d : Derivation T C F} {a b : Nat}, Reads g text d a b →
    Reads g (lead ++ text) (d.shift lead.length) (lead.length + a) (lead.length + b)
  | _, a, b, .terminal lt measure => by
    refine .terminal (by omega) ?_
    rw [drop_append_add, Nat.add_sub_add_left]
    exact measure
  | _, a, b, .node rule_mem symbols row =>
    .node rule_mem (by rw [map_symbol_shiftRow, symbols]) (row.shift lead)

/-- Behind other text a row of derivations reads what it read. -/
theorem ReadsRow.shift (lead : Text) : ∀ {ds : List (Derivation T C F)} {a b : Nat},
    ReadsRow g text ds a b →
      ReadsRow g (lead ++ text) (shiftRow lead.length ds) (lead.length + a) (lead.length + b)
  | _, _, _, .one first => .one (first.shift lead)
  | _, _, _, .cons first gap rest => .cons (first.shift lead) (gap.shift lead) (rest.shift lead)

end

end SkinCompiler.Grammar
