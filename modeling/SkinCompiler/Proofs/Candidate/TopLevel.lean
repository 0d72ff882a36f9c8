import SkinCompiler.Proofs.Candidate.RoundTrip

/-!
# Cuts at the top level

A text is cut at a separator wherever nothing is open in front of it, and nowhere else.

* `Text.segments_append` -- the segments on both sides of such a separator are found apart;
* `Text.uncut_of_mem_segments` -- no segment can be cut any further;
* `Text.segments_topLevel` -- the segments together: nothing of the text is lost, every one but the
  last is balanced, and the last one is balanced exactly when the text is.

Whether the text itself is balanced does not matter, and neither does what the separator means
elsewhere: a bracket, a quote or a backslash is never cut at.
-/

namespace SkinCompiler.Text

open Scope

variable {sep : Char} {a b t : Text} {pieces : List Text}

/-! ## What is cut -/

/-- Brackets, quotes and the backslash separate nothing. -/
theorem segments_of_not_plain (hs : isPlain sep = false) (t : Text) : segments [sep] t = [t] := by
  cases h : segments [sep] t with
  | nil => exact absurd h (segments_ne_nil sep t)
  | cons p rest =>
    cases rest with
    | nil => rw [(segments_eq_singleton h).1]
    | cons q rest =>
      obtain ⟨-, -, -, -, hplain, -⟩ := pieces_eq_cons_cons h
      rw [hs] at hplain
      cases hplain

/-- No segment can be cut any further, whether it is balanced or not. -/
theorem uncut_of_mem_segments (t : Text) : ∀ p ∈ segments [sep] t, Uncut sep {} p := by
  obtain ⟨pieces, last, hseg, -, hlast, hall⟩ := segments_spec sep t
  intro p hp
  rw [hseg] at hp
  rcases List.mem_append.1 hp with hp | hp
  · exact (hall p hp).2
  · rw [List.mem_singleton.1 hp]
    exact hlast

/-- A separator behind a closed text is cut at, and the rest of the text does not depend on what
stands in front of it. -/
theorem segments_append (hs : isPlain sep = true) (ha : a.IsClosed) (b : Text) :
    segments [sep] (a ++ sep :: b) = segments [sep] a ++ segments [sep] b := by
  obtain ⟨pieces, last, hseg, htext, hu, hall⟩ := segments_spec sep a
  have hterm : (terminated sep pieces).IsClosed := isClosed_terminated hs fun p hp => (hall p hp).1
  have hlast : last.IsClosed := by
    rw [htext] at ha
    exact (isClosed_append hterm).1 ha
  have hall' : ∀ p ∈ pieces ++ [last], p.IsClosed ∧ Uncut sep {} p := by
    intro p hp
    rcases List.mem_append.1 hp with hp | hp
    · exact hall p hp
    · rw [List.mem_singleton.1 hp]
      exact ⟨hlast, hu⟩
  have hsum : a ++ sep :: b = terminated sep (pieces ++ [last]) ++ b := by
    simp [htext, terminated]
  rw [hsum, segments_terminated_append hs hall' b, hseg]

/-! ## What is balanced -/

/-- Closed pieces with a separator behind each of them change nothing about the balance of what
follows. -/
theorem isBalanced_terminated_append (hs : isPlain sep = true ∨ pieces = [])
    (h : ∀ p ∈ pieces, p.IsClosed) (t : Text) :
    isBalanced (terminated sep pieces ++ t) = isBalanced t := by
  rcases hs with hs | rfl
  · exact isBalanced_append (isClosed_terminated hs h)
  · rfl

/-! ## The segments of a text -/

/-- The segments of a text are found without loss at its top level: put together they are the text,
none of them can be cut any further, those before the last are balanced, and the last is balanced
exactly when the text is.  No separator at the top level is passed over, and one that opens, closes
or escapes something never cuts. -/
theorem segments_topLevel (sep : Char) (t : Text) : ∃ parts last,
    segments [sep] t = parts ++ [last] ∧
      join [sep] (segments [sep] t) = t ∧
      (∀ p ∈ segments [sep] t, segments [sep] p = [p]) ∧
      (∀ p ∈ parts, isBalanced p = true) ∧
      (isBalanced t = true ↔ isBalanced last = true) ∧
      (∀ a b, t = a ++ sep :: b → a.IsClosed → isPlain sep = true →
        segments [sep] t = segments [sep] a ++ segments [sep] b) ∧
      (isPlain sep = false → parts = []) := by
  obtain ⟨parts, last, hseg, htext, -, hall⟩ := segments_spec sep t
  have hnever : isPlain sep = false → parts = [] := by
    intro hs
    rw [segments_of_not_plain hs, ← List.nil_append [t]] at hseg
    exact (List.append_inj_left' hseg rfl).symm
  have hplain : isPlain sep = true ∨ parts = [] := by
    cases hs : isPlain sep with
    | true => exact Or.inl rfl
    | false => exact Or.inr (hnever hs)
  refine ⟨parts, last, hseg, join_pieces sep {} t, ?_, ?_, ?_, ?_, hnever⟩
  · intro p hp
    exact segments_of_uncut (uncut_of_mem_segments t p hp)
  · intro p hp
    exact (hall p hp).1.isBalanced
  · rw [htext, isBalanced_terminated_append hplain fun p hp => (hall p hp).1]
  · rintro a b rfl ha hs
    exact segments_append hs ha b

/-- A bracket that is not closed keeps the rest of the text together. -/
example : segments ":" "hover:[&:x]:w-[url(a:b)" = ["hover", "[&:x]", "w-[url(a:b)"] := by decide

end SkinCompiler.Text
