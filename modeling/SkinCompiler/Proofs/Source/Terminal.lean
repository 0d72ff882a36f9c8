import Mathlib.Data.List.TakeWhile
import SkinCompiler.Proofs.Text.Basic
import SkinCompiler.Source.Terminal

/-!
# What terminals cover

Every terminal covers a beginning of the text it is measured in.

* `spelling?_eq_some_iff`, `word?_eq_some` -- marks and words cover their spelling;
* `measure_le` -- no terminal covers more than there is;
* `getElem?_string?`, `getElem?_template?`, `getElem?_bindingWord` -- strings end with a quote,
  template literals with a backtick, declarations begin with a letter;
* `getElem?_measure_name` -- there are no blanks in names.
-/

namespace SkinCompiler.Source.Terminal

open Text

variable {s t w : Text} {n : Nat} {part : Char → Bool}

theorem spelling?_eq_some_iff : spelling? s t = some n ↔ n = s.length ∧ ∃ rest, t = s ++ rest := by
  simp only [spelling?, Option.map_eq_some_iff, after?_eq_some_iff]
  constructor
  · rintro ⟨rest, ht, rfl⟩
    exact ⟨rfl, rest, ht⟩
  · rintro ⟨rfl, rest, ht⟩
    exact ⟨rest, ht, rfl⟩

theorem word?_eq_some (h : word? w t = some n) : n = w.length ∧ ∃ rest, t = w ++ rest := by
  unfold word? at h
  split at h
  · rename_i c rest hafter
    split at h
    · cases h
    · exact ⟨(Option.some.inj h).symm, c :: rest, after?_eq_some_iff.1 hafter⟩
  · rename_i hafter
    exact ⟨(Option.some.inj h).symm, [], after?_eq_some_iff.1 hafter⟩
  · cases h

theorem length_le_of_spelling? (h : spelling? s t = some n) : n ≤ t.length := by
  obtain ⟨rfl, rest, rfl⟩ := spelling?_eq_some_iff.1 h
  simp

theorem length_le_of_word? (h : word? w t = some n) : n ≤ t.length := by
  obtain ⟨rfl, rest, rfl⟩ := word?_eq_some h
  simp

theorem length_le_of_name? (h : name? part t = some n) : n ≤ t.length := by
  unfold name? at h
  split at h
  · rename_i c rest
    split at h
    · obtain rfl := Option.some.inj h
      have hle := (List.takeWhile_sublist part (l := rest)).length_le
      rw [List.length_cons]
      omega
    · cases h
  · cases h

theorem length_le_of_stringEnd? {quote : Char} (h : stringEnd? quote t = some n) :
    n ≤ t.length := by
  induction t using stringEnd?.induct quote generalizing n <;> rw [stringEnd?] at h <;>
    simp_all <;> grind

theorem length_le_of_string? (h : string? t = some n) : n ≤ t.length := by
  unfold string? at h
  split at h
  all_goals
    first
    | cases h
    | obtain ⟨m, hm, rfl⟩ := Option.map_eq_some_iff.1 h
      have hle := length_le_of_stringEnd? hm
      rw [List.length_cons]
      omega

theorem length_le_of_templateEnd? {region : Region} (h : templateEnd? region t = some n) :
    n ≤ t.length := by
  induction region, t using templateEnd?.induct generalizing n <;> rw [templateEnd?] at h <;>
    simp_all <;> grind

theorem length_le_of_template? (h : template? t = some n) : n ≤ t.length := by
  unfold template? at h
  split at h
  · obtain ⟨m, hm, rfl⟩ := Option.map_eq_some_iff.1 h
    have hle := length_le_of_templateEnd? hm
    rw [List.length_cons]
    omega
  · cases h

theorem exponentLength_le (t : Text) : exponentLength t ≤ t.length := by
  have hdigits : ∀ u : Text, (u.takeWhile Text.isDecimal).length ≤ u.length := fun u =>
    (List.takeWhile_sublist Text.isDecimal).length_le
  unfold exponentLength
  dsimp only
  split
  · rename_i e u
    split
    · split
      · rename_i s v
        have hu := hdigits (s :: v)
        have hv := hdigits v
        simp only [List.length_cons] at hu ⊢
        split <;> split <;> omega
      · omega
    · omega
  · omega

theorem length_le_of_number? (h : number? t = some n) : n ≤ t.length := by
  have hsplit : (t.takeWhile Text.isDecimal).length + (t.dropWhile Text.isDecimal).length =
      t.length := by
    rw [← List.length_append, List.takeWhile_append_dropWhile]
  -- the digits before and after the point are there, and the exponent is among what follows them
  have key : ∀ length : Nat, length ≤ t.length →
      (if (length == 0) = true then none else some (length + exponentLength (t.drop length))) =
        some n → n ≤ t.length := by
    intro length hlength hsome
    split at hsome
    · cases hsome
    · obtain rfl := Option.some.inj hsome
      have hexponent := exponentLength_le (t.drop length)
      rw [List.length_drop] at hexponent
      omega
  unfold number? at h
  dsimp only at h
  split at h
  · rename_i rest hrest
    have hplaces := (List.takeWhile_sublist Text.isDecimal (l := rest)).length_le
    rw [hrest, List.length_cons] at hsplit
    refine key _ ?_ h
    split <;> omega
  · exact key _ (by omega) h

theorem length_le_of_run? (h : run? t = some n) : n ≤ t.length := by
  unfold run? at h
  split at h
  · rename_i c rest
    split at h
    · cases h
    · obtain rfl := Option.some.inj h
      have htrim : ∀ u : Text, (trimRight Text.isBlank u).length ≤ u.length := by
        intro u
        unfold trimRight
        rw [List.length_reverse]
        have hle := (List.dropWhile_sublist Text.isBlank (l := u.reverse)).length_le
        rwa [List.length_reverse] at hle
      exact Nat.le_trans (htrim _) (List.takeWhile_sublist _).length_le
  · cases h

/-- A terminal covers no more than there is. -/
theorem measure_le : ∀ (terminal : Terminal), terminal.measure t = some n → n ≤ t.length
  | .mark _, h => length_le_of_spelling? h
  | .keyword _, h => length_le_of_word? h
  | .bindingWord, h => by
    obtain ⟨w, -, hw⟩ := List.exists_of_findSome?_eq_some h
    exact length_le_of_word? hw
  | .name, h => by
    cases t with
    | nil => cases h
    | cons c t =>
      simp only [measure] at h
      split at h
      · exact length_le_of_name? h
      · cases h
  | .property, h => length_le_of_name? h
  | .tag, h => length_le_of_name? h
  | .attribute, h => length_le_of_name? h
  | .string, h => length_le_of_string? h
  | .template, h => length_le_of_template? h
  | .number, h => length_le_of_number? h
  | .run, h => length_le_of_run? h
  | .operator _, h => by
    obtain ⟨s, -, hs⟩ := List.exists_of_findSome?_eq_some h
    exact length_le_of_spelling? hs

/-! ## Ends -/

/-- What is found behind a lead is found in the whole. -/
theorem getElem?_of_map_add {q : Char} {length : Option Nat} (lead : Text)
    (ih : ∀ {k : Nat}, length = some k → ∃ m, k = m + 1 ∧ t[m]? = some q)
    (h : length.map (· + lead.length) = some n) :
    ∃ m, n = m + 1 ∧ (lead ++ t)[m]? = some q := by
  obtain ⟨k, hk, rfl⟩ := Option.map_eq_some_iff.1 h
  obtain ⟨m, rfl, hm⟩ := ih hk
  refine ⟨m + lead.length, by omega, ?_⟩
  rw [List.getElem?_append_right (Nat.le_add_left _ _), Nat.add_sub_cancel, hm]

/-- The search for the end of a string ends at its quote. -/
theorem getElem?_stringEnd? {quote : Char} (h : stringEnd? quote t = some n) :
    ∃ m, n = m + 1 ∧ t[m]? = some quote := by
  induction t using stringEnd?.induct quote generalizing n with
  | case1 => cases h
  | case2 c t hbreak =>
    rw [stringEnd?, if_pos hbreak] at h
    cases h
  | case3 c t hbreak ih =>
    rw [stringEnd?, if_neg hbreak] at h
    exact getElem?_of_map_add ['\\', c] ih h
  | case4 c t hplain hquote =>
    rw [stringEnd?, if_pos hquote] at h
    case x_1 => exact hplain
    obtain rfl := Option.some.inj h
    have hc : c = quote := by simpa using hquote
    exact ⟨0, rfl, by simp [hc]⟩
  | case5 c t hplain hquote hbreak =>
    rw [stringEnd?, if_neg hquote, if_pos hbreak] at h
    · cases h
    · exact hplain
  | case6 c t hplain hquote hbreak ih =>
    rw [stringEnd?, if_neg hquote, if_neg hbreak] at h
    case x_1 => exact hplain
    exact getElem?_of_map_add [c] ih h

/-- A string ends with a quote. -/
theorem getElem?_string? (h : string? t = some n) :
    ∃ m, n = m + 1 ∧ (t[m]? = some '"' ∨ t[m]? = some '\'') := by
  unfold string? at h
  split at h
  · obtain ⟨m, hn, hm⟩ := getElem?_of_map_add ['"'] getElem?_stringEnd? h
    exact ⟨m, hn, Or.inl hm⟩
  · obtain ⟨m, hn, hm⟩ := getElem?_of_map_add ['\''] getElem?_stringEnd? h
    exact ⟨m, hn, Or.inr hm⟩
  · cases h

/-- The search for the end of a template literal ends at a backtick. -/
theorem getElem?_templateEnd? {region : Region} (h : templateEnd? region t = some n) :
    ∃ m, n = m + 1 ∧ t[m]? = some '\x60' := by
  induction region, t using templateEnd?.induct generalizing n with
  | case1 =>
    rw [templateEnd?] at h
    cases h
  | case2 c t hfeed =>
    rw [templateEnd?, if_pos hfeed] at h
    cases h
  | case3 c t hfeed ih =>
    rw [templateEnd?, if_neg hfeed] at h
    exact getElem?_of_map_add ['\\', c] ih h
  | case4 t ih =>
    rw [templateEnd?] at h
    exact getElem?_of_map_add ['$', '\x7b'] ih h
  | case5 c t hescape hopen hclose =>
    rw [templateEnd?, if_pos hclose] at h
    · obtain rfl := Option.some.inj h
      obtain rfl : c = '\x60' := by simpa using hclose
      exact ⟨0, rfl, rfl⟩
    all_goals assumption
  | case6 c t hescape hopen hclose hslash =>
    rw [templateEnd?, if_neg hclose, if_pos hslash] at h
    · cases h
    all_goals assumption
  | case7 c t hescape hopen hclose hslash ih =>
    rw [templateEnd?, if_neg hclose, if_neg hslash] at h
    · exact getElem?_of_map_add [c] ih h
    all_goals assumption
  | case8 c t hend ih | case12 c t hend ih =>
    rw [templateEnd?, if_pos hend] at h
    exact getElem?_of_map_add [c] ih h
  | case9 c t hend hopen ih =>
    rw [templateEnd?, if_neg hend, if_pos hopen] at h
    exact getElem?_of_map_add [c] ih h
  | case10 c t hend hopen hclose =>
    rw [templateEnd?, if_neg hend, if_neg hopen, if_pos hclose] at h
    cases h
  | case11 c t hend hopen hclose ih =>
    rw [templateEnd?, if_neg hend, if_neg hopen, if_neg hclose] at h
    exact getElem?_of_map_add [c] ih h
  | case13 c t hend hopen =>
    rw [templateEnd?, if_neg hend, if_pos hopen] at h
    cases h
  | case14 c t hend hopen ih =>
    rw [templateEnd?, if_neg hend, if_neg hopen] at h
    exact getElem?_of_map_add [c] ih h

/-- A template literal ends with a backtick. -/
theorem getElem?_template? (h : template? t = some n) : ∃ m, n = m + 1 ∧ t[m]? = some '\x60' := by
  unfold template? at h
  split at h
  · exact getElem?_of_map_add ['\x60'] getElem?_templateEnd? h
  · cases h

/-- The keyword of a declaration begins with a letter. -/
theorem getElem?_bindingWord (h : measure .bindingWord t = some n) :
    ∃ c, t[0]? = some c ∧ Text.isAsciiLetter c = true := by
  obtain ⟨w, hw, hword⟩ := List.exists_of_findSome?_eq_some h
  obtain ⟨-, rest, rfl⟩ := word?_eq_some hword
  simp only [List.mem_cons, List.not_mem_nil, or_false] at hw
  rcases hw with rfl | rfl | rfl
  · exact ⟨'c', rfl, by decide⟩
  · exact ⟨'l', rfl, by decide⟩
  · exact ⟨'v', rfl, by decide⟩

/-! ## Names -/

/-- The characters of a name are neither blanks nor semicolons. -/
theorem getElem?_name? {k : Nat} (h : name? isNamePart t = some n) (hk : k < n) :
    ∃ c, t[k]? = some c ∧ c ∉ [' ', '\t', ';', '\n'] := by
  have hsolid : ∀ c, isNameStart c = true ∨ isNamePart c = true → c ∉ [' ', '\t', ';', '\n'] := by
    intro c hc hmem
    simp only [List.mem_cons, List.not_mem_nil, or_false] at hmem
    rcases hmem with rfl | rfl | rfl | rfl <;> revert hc <;> decide
  unfold name? at h
  split at h
  · rename_i c rest
    split at h
    · rename_i hstart
      obtain rfl := Option.some.inj h
      cases k with
      | zero => exact ⟨c, rfl, hsolid c (Or.inl hstart)⟩
      | succ k =>
        have hlt : k < (rest.takeWhile isNamePart).length := by omega
        obtain ⟨after, hafter⟩ := List.takeWhile_prefix isNamePart (l := rest)
        have hget : rest[k]? = (rest.takeWhile isNamePart)[k]? := by
          have happend :
              (rest.takeWhile isNamePart ++ after)[k]? = (rest.takeWhile isNamePart)[k]? :=
            List.getElem?_append_left hlt
          rw [← happend, hafter]
        refine ⟨(rest.takeWhile isNamePart)[k], ?_, hsolid _ (Or.inr ?_)⟩
        · rw [List.getElem?_cons_succ, hget, List.getElem?_eq_getElem hlt]
        · exact List.mem_takeWhile_imp (List.getElem_mem hlt)
    · cases h
  · cases h

theorem getElem?_measure_name {terminal : Terminal} {k : Nat}
    (hterminal : terminal = .name ∨ terminal = .property) (h : terminal.measure t = some n)
    (hk : k < n) : ∃ c, t[k]? = some c ∧ c ∉ [' ', '\t', ';', '\n'] := by
  rcases hterminal with rfl | rfl
  · cases t with
    | nil => cases h
    | cons c t =>
      simp only [measure] at h
      split at h
      · exact getElem?_name? h hk
      · cases h
  · exact getElem?_name? h hk

end SkinCompiler.Source.Terminal
