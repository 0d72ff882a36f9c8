import Mathlib.Tactic.Common
import SkinCompiler.Table

/-!
# Tables read after they are changed

What `Table.get?` finds in a table after a key was set, and in a table in which the first value of a
key counts.
-/

namespace SkinCompiler.Table

variable {α : Type} {t : Table α} {k key : Text} {v : α}

theorem get?_cons (key k : Text) (v : α) (t : Table α) :
    get? key ((k, v) :: t) = if k = key then some v else get? key t := rfl

theorem mem_of_get? (h : get? key t = some v) : (key, v) ∈ t := by
  induction t with
  | nil => cases h
  | cons p t ih =>
    obtain ⟨k, w⟩ := p
    rw [get?_cons] at h
    split_ifs at h with hk
    · obtain rfl := Option.some.inj h
      exact hk ▸ List.mem_cons_self
    · exact List.mem_cons_of_mem _ (ih h)

theorem get?_of_mem (h : t.keys.Nodup) (hm : (key, v) ∈ t) : get? key t = some v := by
  induction t with
  | nil => cases hm
  | cons p t ih =>
    obtain ⟨k, w⟩ := p
    obtain ⟨hk, hrest⟩ := List.nodup_cons.1 h
    rw [get?_cons]
    rcases List.mem_cons.1 hm with heq | hm
    · cases heq
      exact if_pos rfl
    · have hne : k ≠ key := by
        rintro rfl
        exact hk (List.mem_map.2 ⟨_, hm, rfl⟩)
      rw [if_neg hne]
      exact ih hrest hm

/-- Where no key stands twice, the order of the entries does not matter. -/
theorem get?_perm {t' : Table α} (h : t'.Perm t) (hn : t.keys.Nodup) : get? key t' = get? key t := by
  have hn' : t'.keys.Nodup := (h.map Prod.fst).nodup_iff.2 hn
  refine Option.ext fun v => ⟨fun hv => ?_, fun hv => ?_⟩
  · exact get?_of_mem hn (h.mem_iff.1 (mem_of_get? hv))
  · exact get?_of_mem hn' (h.mem_iff.2 (mem_of_get? hv))

theorem get?_map {β : Type} (f : α → β) (t : Table α) (key : Text) :
    get? key (t.map fun p => (p.1, f p.2)) = (get? key t).map f := by
  induction t with
  | nil => rfl
  | cons p t ih =>
    obtain ⟨k, v⟩ := p
    rw [List.map_cons, get?_cons, get?_cons, ih]
    split_ifs <;> rfl

theorem get?_set (key k : Text) (v : α) (t : Table α) :
    get? key (set k v t) = if k = key then some v else get? key t := by
  induction t with
  | nil => rfl
  | cons p t ih =>
    obtain ⟨k', v'⟩ := p
    rw [set]
    by_cases h : k' = k
    · subst h
      rw [if_pos rfl, get?_cons, get?_cons]
      split_ifs <;> rfl
    · rw [if_neg h, get?_cons, get?_cons, ih]
      split_ifs with h₁ h₂
      · exact absurd (h₁.trans h₂.symm) h
      all_goals rfl

/-- Set a key unless it has a value. -/
def setDefault (t : Table α) (p : Text × α) : Table α := if t.has p.1 then t else set p.1 p.2 t

theorem get?_setDefault (key : Text) (t : Table α) (p : Text × α) : get? key (setDefault t p)
    = (get? key t).or (if p.1 = key then some p.2 else none) := by
  rw [setDefault, has]
  split_ifs with h₁ h₂ h₂
  · subst h₂
    obtain ⟨v, hv⟩ := Option.isSome_iff_exists.1 h₁
    rw [hv, Option.some_or]
  · rw [Option.or_none]
  · subst h₂
    rw [Option.not_isSome_iff_eq_none] at h₁
    rw [get?_set, if_pos rfl, h₁, Option.none_or]
  · rw [get?_set, if_neg h₂, Option.or_none]

/-- Of entries that are set unless the key is there, the first one of a key counts. -/
theorem get?_foldl_setDefault (key : Text) (t : Table α) (l : List (Text × α)) :
    get? key (l.foldl setDefault t) = (get? key t).or ((l.find? (·.1 = key)).map (·.2)) := by
  induction l generalizing t with
  | nil => simp
  | cons p l ih =>
    rw [List.foldl_cons, ih, get?_setDefault, Option.or_assoc, List.find?_cons]
    by_cases h : p.1 = key <;> simp [h]

end SkinCompiler.Table
