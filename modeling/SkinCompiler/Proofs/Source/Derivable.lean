import SkinCompiler.Proofs.Grammar.Completeness
import SkinCompiler.Proofs.Source.Grammar

/-!
# Texts that the grammar of component sources reads

The tables of the grammar are in order, and no chain of rules of a single category goes on for
ever, so that a text is read whenever there is a derivation of it.

* `grammar_isTabled`, `grammar_isRanked`, `grammar_isApart` -- what the grammar is like;
* `exists_derive` -- what a derivation covers is read.
-/

namespace SkinCompiler.Source

open Grammar

variable {c : Category} {text : Text} {d : Derivation Terminal Category Form}

theorem all_getElem? (c : Category) : Category.all[c.ctorIdx]? = some c := by
  cases c <;> rfl

theorem mem_all (c : Category) : c ∈ Category.all := List.mem_of_getElem? (all_getElem? c)

/-- The categories that stand for a category by a rule of their own. -/
def Category.units (c : Category) : List Category :=
  (grammar.rulesOf c).filterMap fun r => match r.body with
    | [.category d] => some d
    | _ => none

/-- The length of the longest chain of rules of a single category, up to `fuel`. -/
def Category.rank : (fuel : Nat) → Category → Nat
  | 0, _ => 0
  | fuel + 1, c => (c.units.map fun d => d.rank fuel + 1).foldl max 0

/-- What every category of the grammar has in its tables, and where it stands in chains. -/
theorem forall_categories : ∀ c ∈ Category.all, c ∈ grammar.openingsOf c ∧
    (∀ r ∈ grammar.rulesOf c, r.head = c ∧ (0 < r.body.length ∧ r.body.length < 64) ∧
      .category .module ∉ r.body) ∧
    c.rank 20 + 1 < grammar.extent ∧ ∀ d ∈ c.units, d.rank 20 < c.rank 20 := by
  decide +kernel

theorem mem_flatten_rules {r : Grammar.Rule Terminal Category Form}
    (hr : r ∈ grammar.rulesOf c) : r ∈ grammar.rules.toList.flatten := by
  obtain ⟨rules, hrules, hmem⟩ := exists_rules hr
  exact List.mem_flatten.2 ⟨rules, hrules, hmem⟩

/-- No two rules have the same number. -/
theorem nodup_rules : (grammar.rules.toList.flatten.map (·.number)).Nodup := by
  have htable : grammar.rules.toList = ruleTable Productions.of 0 Category.all := rfl
  rw [htable, map_number_ruleTable]
  exact List.nodup_range'

/-- The tables of the grammar are in order. -/
theorem grammar_isTabled : grammar.IsTabled where
  head_eq c r hr := ((forall_categories c (mem_all c)).2.1 r hr).1
  body_length c r hr := ((forall_categories c (mem_all c)).2.1 r hr).2.1
  index_inj c c' h := by
    have hsame : c.ctorIdx = c'.ctorIdx := h
    have hget := all_getElem? c
    rw [hsame, all_getElem? c'] at hget
    exact (Option.some.inj hget).symm
  number_inj c c' r hr r' hr' h :=
    List.inj_on_of_nodup_map nodup_rules (mem_flatten_rules hr) (mem_flatten_rules hr') h
  nodup c := by
    unfold Grammar.rulesOf
    rw [Array.getD_eq_getD_getElem?]
    cases hrules : grammar.rules[grammar.index c]? with
    | none => exact List.nodup_nil
    | some rules =>
      refine (List.Nodup.of_map _ nodup_rules).sublist ?_
      exact List.sublist_flatten_of_mem (Array.mem_toList_iff.2 (Array.mem_of_getElem? hrules))
  mem_openings c := (forall_categories c (mem_all c)).1

/-- A whole module stands in no other construct. -/
theorem grammar_isApart : grammar.IsApart .module :=
  fun c r hr => ((forall_categories c (mem_all c)).2.1 r hr).2.2

/-- No chain of rules of a single category goes on for ever. -/
theorem grammar_isRanked : grammar.IsRanked (Category.rank 20) where
  unit_lt c r hr d hbody := by
    refine (forall_categories c (mem_all c)).2.2.2 d (List.mem_filterMap.2 ⟨r, hr, ?_⟩)
    rw [hbody]
  lt_extent c := (forall_categories c (mem_all c)).2.2.1

/-- What a derivation covers as a module is read. -/
theorem exists_derive (h : d.covers grammar .module text = true) :
    ∃ d', grammar.derive .module text = .ok d' :=
  (derive_isOk_iff grammar_isTabled grammar_isProper grammar_isApart grammar_isRanked).2 ⟨d, h⟩

end SkinCompiler.Source
