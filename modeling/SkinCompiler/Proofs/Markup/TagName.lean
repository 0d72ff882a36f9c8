import SkinCompiler.Proofs.Markup.Name
import SkinCompiler.Proofs.Markup.Reader
import SkinCompiler.Proofs.Source.Spelling
import SkinCompiler.Proofs.Table

/-!
# Names that markup can hold

The names that markup has for the elements and attributes of a source are read as a whole: neither
the words of a name nor their small letters bring in a character that ends names.

* `endsName_toLower` -- small letters end no names;
* `isName_elementName`, `isName_attributeName` -- the names of elements and attributes.
-/

namespace SkinCompiler.Markup

open Source Text

variable {t name : Text} {c : Char}

/-! ## Characters that end names -/

/-- The points of the characters that end names. -/
def nameEnds : List Nat := blankPoints ++ [34, 47, 60, 61, 62]

theorem mem_nameEnds (h : endsName c = true) : c.toNat ∈ nameEnds := by
  simp only [endsName, Bool.or_eq_true, beq_iff_eq] at h
  rw [nameEnds, List.mem_append]
  rcases h with ((((h | rfl) | rfl) | rfl) | rfl) | rfl
  · exact .inl (mem_blankPoints h)
  all_goals exact .inr (by decide)

theorem endsName_of_isTagChar (h : isTagChar c = true) : endsName c = false := by
  have hends : ∀ n ∈ nameEnds, isTagChar (Char.ofNat n) = false := by decide +kernel
  by_contra hc
  have hmem := hends c.toNat (mem_nameEnds (by simpa using hc))
  rw [Char.ofNat_toNat, h] at hmem
  cases hmem

/-! ## Small letters -/

open LetterCase

theorem exists_of_distance? {runs : List (Nat × Nat × Nat × Int)} {n : Nat} {d : Int}
    (h : distance? runs n = some d) :
    ∃ run ∈ runs, run.1 ≤ n ∧ n ≤ run.2.1 ∧ run.2.2.2 = d := by
  induction runs with
  | nil => cases h
  | cons run runs ih =>
    obtain ⟨first, last, step, e⟩ := run
    rw [distance?] at h
    split at h
    · cases h
    · split at h
      · rename_i hfirst hlast
        obtain rfl := Option.some.inj h
        rw [Bool.and_eq_true, decide_eq_true_eq] at hlast
        exact ⟨_, List.mem_cons_self, by omega, hlast.1, rfl⟩
      · obtain ⟨run, hrun, hrest⟩ := ih h
        exact ⟨run, List.mem_cons_of_mem _ hrun, hrest⟩

theorem toNat_ofNat_or (n : Nat) : (Char.ofNat n).toNat = n ∨ (Char.ofNat n).toNat = 0 := by
  rw [Char.ofNat]
  by_cases h : n.isValidChar
  · rw [dif_pos h]
    exact .inl rfl
  · rw [dif_neg h]
    exact .inr rfl

/-- No letter becomes a character that ends names. -/
theorem endsName_shift (h : endsName c = false) : endsName (shift lowerRuns c) = false := by
  have hruns : ∀ run ∈ lowerRuns, ∀ n ∈ nameEnds,
      ¬((run.1 : Int) + run.2.2.2 ≤ n ∧ (n : Int) ≤ run.2.1 + run.2.2.2) := by decide +kernel
  rw [shift]
  split
  · rename_i d hd
    obtain ⟨run, hrun, hfirst, hlast, rfl⟩ := exists_of_distance? hd
    by_contra hc
    have hmem := mem_nameEnds (by simpa using hc)
    rcases toNat_ofNat_or ((c.toNat : Int) + run.2.2.2).toNat with hpoint | hpoint <;>
      rw [hpoint] at hmem
    · have hpos : ((c.toNat : Int) + run.2.2.2).toNat ≠ 0 := by
        intro hzero
        rw [hzero] at hmem
        exact absurd hmem (by decide)
      exact hruns run hrun _ hmem (by omega)
    · exact absurd hmem (by decide)
  · exact h

theorem endsName_lowerAfter (before : Text) (h : ∀ c ∈ t, endsName c = false) :
    ∀ c ∈ lowerAfter before t, endsName c = false := by
  induction t generalizing before with
  | nil => simp [lowerAfter]
  | cons x t ih =>
    intro c hc
    rw [lowerAfter, List.mem_append] at hc
    rcases hc with hc | hc
    · split at hc
      · split at hc
        · rw [List.mem_singleton.1 hc]
          decide
        · rw [List.mem_singleton.1 hc]
          decide
      · split at hc
        · rcases List.mem_cons.1 hc with rfl | hc
          · decide
          · rw [List.mem_singleton.1 hc]
            decide
        · rw [List.mem_singleton.1 hc]
          exact endsName_shift (h x List.mem_cons_self)
    · exact ih (x :: before) (fun y hy => h y (List.mem_cons_of_mem _ hy)) c hc

theorem endsName_toLower (h : ∀ c ∈ t, endsName c = false) :
    ∀ c ∈ toLower t, endsName c = false := endsName_lowerAfter [] h

/-! ## Names -/

theorem endsName_kebabCase (h : ∀ c ∈ name, endsName c = false) :
    ∀ c ∈ kebabCase name, endsName c = false := by
  refine endsName_toLower fun c hc => ?_
  rcases of_mem_joinedParts hc with hc | rfl
  · exact h c hc
  · decide

/-- The name of an element is read as a whole. -/
theorem isName_elementName {tag : Text} (h : ∀ c ∈ tag, isTagChar c = true) :
    IsName (elementName tag) := by
  have htag : ∀ c ∈ tag, endsName c = false := fun c hc => endsName_of_isTagChar (h c hc)
  rw [elementName]
  split
  · rename_i hkept
    refine ⟨?_, htag⟩
    rintro rfl
    simp [isBuiltIn, builtInElements] at hkept
  · rw [withLead]
    split
    · rename_i hlead
      obtain ⟨rest, hrest⟩ := startsWith_iff.1 hlead
      refine ⟨?_, endsName_kebabCase htag⟩
      rw [hrest]
      exact List.cons_ne_nil _ _
    · have hlead : ∀ c ∈ elementLead, endsName c = false :=
        List.forall_iff_forall_mem.1 (by decide)
      refine ⟨List.cons_ne_nil _ _, fun c hc => ?_⟩
      exact (List.mem_append.1 hc).elim (hlead c) (endsName_kebabCase htag c)

instance (t : Text) : Decidable (IsName t) :=
  decidable_of_iff (t ≠ [] ∧ t.Forall (endsName · = false))
    (and_congr_right fun _ => List.forall_iff_forall_mem)

/-- A name of nothing but marks between words is the same in small letters. -/
theorem toLower_of_separators (h : ∀ c ∈ name, isSeparator c = true)
    (hname : ∀ c ∈ name, endsName c = false) : toLower name = name := by
  have hmark : ∀ c ∈ name, c = '.' ∨ c = '_' ∨ c = '-' := by
    intro c hc
    have hsep := h c hc
    rw [isSeparator, (Reading.ne_of_endsName (hname c hc)).1] at hsep
    simpa [or_assoc] using hsep
  rw [toLower_of_ascii]
  · conv_rhs => rw [← List.map_id name]
    refine List.map_congr_left fun c hc => ?_
    rcases hmark c hc with rfl | rfl | rfl <;> decide
  · intro c hc
    rcases hmark c hc with rfl | rfl | rfl <;> decide

/-- The name of an attribute is read as a whole. -/
theorem isName_attributeName (hne : name ≠ []) (h : ∀ c ∈ name, isTagChar c = true) :
    IsName (attributeName name) := by
  have hname : ∀ c ∈ name, endsName c = false := fun c hc => endsName_of_isTagChar (h c hc)
  have hspellings : ∀ p ∈ attributeNames, IsName p.2 := by decide
  rw [attributeName]
  split
  · rename_i spelling hspelling
    exact hspellings _ (Table.mem_of_get? hspelling)
  · split
    · exact ⟨hne, hname⟩
    · rename_i hkept
      refine ⟨?_, endsName_kebabCase hname⟩
      by_cases hword : ∃ c ∈ name, isSeparator c = false
      · obtain ⟨c, hc, hsep⟩ := hword
        exact kebabCase_ne_nil_of_mem hc hsep
      · have hsep : ∀ c ∈ name, isSeparator c = true := by simpa using hword
        refine absurd (toLower_of_separators hsep hname) fun hlower => hkept ?_
        simp [hlower]

end SkinCompiler.Markup
