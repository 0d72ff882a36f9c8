import SkinCompiler.Proofs.Text.Blank
import SkinCompiler.Skin.StylesEdit

/-!
# What the edits of styles take out

A removal takes the rest of a line with it only if that is blank, and the beginning of a line only
if that is blank or `export`.

* `lineEnd_cases`, `lineStart_cases` -- what stands between a range and the end of its removal;
* `mem_trail`, `mem_lead` -- the characters there;
* `lineEnd_le`, `le_lineStart` -- a removal does not reach what is neither blank nor `export`;
* `lineEnd_le_lineStart_iff` -- removals of two ranges overlap only where the second one takes a
  part of the first one for its `export`.
-/

namespace SkinCompiler.Skin

open Source Text

variable {source : Text} {c : Char} {p start stop : Nat}

/-! ## The ends of a removal -/

/-- Either a removal ends with its range, or blanks, semicolons and one line feed follow in it. -/
theorem lineEnd_cases (source : Text) (stop : Nat) : lineEnd source stop = stop ∨
    ∃ gap rest, source.drop stop = gap ++ '\n' :: rest ∧
      (∀ c ∈ gap, c = ' ' ∨ c = '\t' ∨ c = ';') ∧ lineEnd source stop = stop + gap.length + 1 := by
  rcases hspan : (source.drop stop).span (· != '\n') with ⟨gap, after⟩
  obtain ⟨hdrop, -, hafter⟩ := span_eq_iff.1 hspan
  have heq : lineEnd source stop = if (!after.isEmpty && gap.all fun c =>
      c == ' ' || c == '\t' || c == ';') = true then stop + gap.length + 1 else stop := by
    unfold lineEnd
    rw [hspan]
  by_cases hblank : (!after.isEmpty && gap.all fun c =>
      c == ' ' || c == '\t' || c == ';') = true
  · rw [if_pos hblank] at heq
    cases after with
    | nil => simp at hblank
    | cons c rest =>
      obtain rfl : c = '\n' := by simpa using hafter c rfl
      refine Or.inr ⟨gap, rest, hdrop, ?_, heq⟩
      intro c hc
      have hall : ∀ c ∈ gap, (c = ' ' ∨ c = '\t') ∨ c = ';' := by simpa using hblank
      rcases hall c hc with (h | h) | h
      · exact Or.inl h
      · exact Or.inr (Or.inl h)
      · exact Or.inr (Or.inr h)
  · rw [if_neg hblank] at heq
    exact Or.inl heq

/-- Either a removal begins with its range, or at the beginning of its line, and nothing but blanks
or `export` stands before the range. -/
theorem lineStart_cases (source : Text) (start : Nat) : lineStart source start = start ∨
    ∃ before lead, source.take start = before ++ lead ∧ before.getLast? ∈ [none, some '\n'] ∧
      '\n' ∉ lead ∧ (strip lead = [] ∨ strip lead = "export") ∧
      lineStart source start = start - lead.length := by
  rcases hspan : (source.take start).reverse.span (· != '\n') with ⟨lead, before⟩
  obtain ⟨htake, hlead, hbefore⟩ := span_eq_iff.1 hspan
  have hsplit : source.take start = before.reverse ++ lead.reverse := by
    rw [← List.reverse_append, ← htake, List.reverse_reverse]
  have hwhile : (source.take start).reverse.takeWhile (· != '\n') = lead := by
    rw [List.span_eq_takeWhile_dropWhile, Prod.mk.injEq] at hspan
    exact hspan.1
  have heq : lineStart source start = if ((strip lead.reverse).isEmpty ||
      decide (strip lead.reverse = "export".toList)) = true then start - lead.length
        else start := by
    unfold lineStart
    rw [hwhile]
  split at heq
  · rename_i hblank
    refine Or.inr ⟨before.reverse, lead.reverse, hsplit, ?_, ?_, by simpa using hblank, ?_⟩
    · cases before with
      | nil => simp
      | cons c before =>
        obtain rfl : c = '\n' := by simpa using hbefore c rfl
        simp
    · rw [List.mem_reverse]
      intro hmem
      simpa using hlead _ hmem
    · rw [heq, List.length_reverse]
  · exact Or.inl heq

theorem le_lineEnd (source : Text) (stop : Nat) : stop ≤ lineEnd source stop := by
  rcases lineEnd_cases source stop with h | ⟨gap, rest, -, -, h⟩ <;> omega

theorem lineStart_le (source : Text) (start : Nat) : lineStart source start ≤ start := by
  rcases lineStart_cases source start with h | ⟨before, lead, -, -, -, -, h⟩ <;> omega

theorem lineEnd_le_length (h : stop ≤ source.length) : lineEnd source stop ≤ source.length := by
  rcases lineEnd_cases source stop with heq | ⟨gap, rest, hdrop, -, heq⟩
  · omega
  · have hlength := congrArg List.length hdrop
    simp only [List.length_drop, List.length_append, List.length_cons] at hlength
    omega

/-- What a removal takes out behind a range. -/
theorem mem_trail (hstop : stop ≤ p) (hp : p < lineEnd source stop) (hc : source[p]? = some c) :
    c ∈ [' ', '\t', ';', '\n'] := by
  rcases lineEnd_cases source stop with heq | ⟨gap, rest, hdrop, hgap, heq⟩
  · omega
  · have hget : (gap ++ '\n' :: rest)[p - stop]? = some c := by
      rw [← hdrop, List.getElem?_drop, show stop + (p - stop) = p by omega, hc]
    rw [List.append_cons, List.getElem?_append_left (by simp; omega)] at hget
    rcases List.mem_append.1 (List.mem_of_getElem? hget) with hmem | hmem
    · rcases hgap c hmem with rfl | rfl | rfl <;> simp
    · rw [List.mem_singleton.1 hmem]
      simp

/-- A removal ends before a character that is neither a blank nor a semicolon. -/
theorem lineEnd_le (hstop : stop ≤ p) (hc : source[p]? = some c)
    (hsolid : c ∉ [' ', '\t', ';', '\n']) : lineEnd source stop ≤ p := by
  by_contra hlt
  exact hsolid (mem_trail hstop (by omega) hc)

/-- What can stand before a range in its removal. -/
theorem of_mem_lead {lead : Text} (h : strip lead = [] ∨ strip lead = "export") (hc : c ∈ lead) :
    isBlank c = true ∨ c ∈ "export".toList := by
  by_cases hb : isBlank c = true
  · exact Or.inl hb
  · have hink : c ∈ ink (strip lead) := by
      rw [ink_strip, mem_ink_iff]
      exact ⟨hc, by simpa using hb⟩
    have hmem := (mem_ink_iff.1 hink).1
    rcases h with h | h
    · rw [h] at hmem
      cases hmem
    · rw [h] at hmem
      exact Or.inr hmem

/-- What a removal takes out in front of a range. -/
theorem mem_lead (hle : lineStart source start ≤ p) (hp : p < start) (hc : source[p]? = some c) :
    isBlank c = true ∨ c ∈ "export".toList := by
  rcases lineStart_cases source start with heq | ⟨before, lead, htake, -, -, hlead, heq⟩
  · omega
  · have hlength := congrArg List.length htake
    rw [List.length_take, List.length_append] at hlength
    have hget : (before ++ lead)[p]? = some c := by
      rw [← htake, List.getElem?_take_of_lt hp, hc]
    rw [List.getElem?_append_right (by omega)] at hget
    exact of_mem_lead hlead (List.mem_of_getElem? hget)

/-- A removal begins after a character that is not blank and not in `export`. -/
theorem le_lineStart (hstart : p < start) (hc : source[p]? = some c) (hblank : isBlank c = false)
    (hexport : c ∉ "export".toList) : p < lineStart source start := by
  by_contra hle
  rcases mem_lead (by omega) hstart hc with h | h
  · rw [hblank] at h
    cases h
  · exact hexport h

/-- The removals of two ranges, of which the first one ends before the second one begins, keep
clear of one another just if the second one does not take a part of the first one for its
`export`. -/
theorem lineEnd_le_lineStart_iff (hc : source[start]? = some c)
    (hsolid : c ∉ [' ', '\t', ';', '\n']) (hstop : stop ≤ start) :
    lineEnd source stop ≤ lineStart source start ↔ stop ≤ lineStart source start := by
  constructor
  · intro h
    exact Nat.le_trans (le_lineEnd source stop) h
  · intro h
    have hend := lineEnd_le hstop hc hsolid
    rcases lineEnd_cases source stop with heq | ⟨gap, rest, hdrop, -, heq⟩
    · omega
    · -- the line feed before the end of the first removal is not in front of the second range
      have hfeed : source[stop + gap.length]? = some '\n' := by
        rw [← List.getElem?_drop, hdrop]
        simp
      rcases lineStart_cases source start with heq' | ⟨before, lead, htake, -, hlead, -, heq'⟩
      · omega
      · by_contra hlt
        have hlength := congrArg List.length htake
        rw [List.length_take, List.length_append] at hlength
        obtain ⟨hbound, -⟩ := List.getElem?_eq_some_iff.1 hc
        have hget : (before ++ lead)[stop + gap.length]? = some '\n' := by
          rw [← htake, List.getElem?_take_of_lt (by omega), hfeed]
        rw [List.getElem?_append_right (by omega)] at hget
        exact hlead (List.mem_of_getElem? hget)

end SkinCompiler.Skin
