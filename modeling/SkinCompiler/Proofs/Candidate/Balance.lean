import SkinCompiler.Proofs.Candidate.Segment

/-!
# Balanced texts

The grammar of the texts in which every bracket and every quote is closed, and none too many.

* `Text.Nested` -- texts that close what they open, put together of characters, escapes, bracketed
  and quoted texts;
* `Text.Balanced` -- such a text, or one with a single backslash behind it;
* `Text.isBalanced_iff_balanced` -- the test for balance accepts the texts of the grammar and no
  others.

A text that a scope is run along is taken apart at the brackets that the scope awaits
(`Text.Awaits`); what each character does to them is `Scope.Step`.
-/

namespace SkinCompiler.Text

open Scope

variable {s s' : Scope} {k : List Char} {c q : Char} {a b t : Text}

/-! ## The grammar -/

/-- The inside of a quoted text: escaped characters, and characters that are neither the quote nor a
backslash. -/
inductive QuotedBody (q : Char) : Text → Prop where
  | nil : QuotedBody q []
  | char {c : Char} {t : Text} (hq : c ≠ q) (hc : c ≠ '\\') (ht : QuotedBody q t) :
      QuotedBody q (c :: t)
  | escape (c : Char) {t : Text} (ht : QuotedBody q t) : QuotedBody q ('\\' :: c :: t)

/-- Texts that close what they open, and that no backslash ends. -/
inductive Nested : Text → Prop where
  | nil : Nested []
  | char {c : Char} {t : Text} (hc : c ∉ marks) (ht : Nested t) : Nested (c :: t)
  | escape (c : Char) {t : Text} (ht : Nested t) : Nested ('\\' :: c :: t)
  | bracket {o c : Char} {a t : Text} (h : (o, c) ∈ brackets) (ha : Nested a) (ht : Nested t) :
      Nested (o :: a ++ c :: t)
  | quote {q : Char} {b t : Text} (hq : q ∈ quotes) (hb : QuotedBody q b) (ht : Nested t) :
      Nested (q :: b ++ q :: t)

/-- Nested texts; a backslash may stand behind one. -/
inductive Balanced : Text → Prop where
  | whole {t : Text} (h : Nested t) : Balanced t
  | slash {t : Text} (h : Nested t) : Balanced (t ++ ['\\'])

/-! ## Texts of the grammar are balanced -/

theorem ne_backslash_of_mem_quotes (hq : q ∈ quotes) : q ≠ '\\' := by
  rintro rfl
  exact absurd hq (by decide)

theorem QuotedBody.run (h : QuotedBody q t) (k : List Char) :
    run ⟨k, some q, false⟩ t = some ⟨k, some q, false⟩ := by
  induction h with
  | nil => rfl
  | char hq hc _ ih => rw [run_cons, step_eq_some_iff.2 (.inside k hc hq), Option.bind_some, ih]
  | escape c _ ih =>
    rw [run_cons, step_eq_some_iff.2 (.backslash ..), Option.bind_some, run_cons,
      step_eq_some_iff.2 (.escaped ..), Option.bind_some, ih]

/-- A nested text leaves open what it found open, and nothing else. -/
theorem Nested.run (h : Nested t) (k : List Char) :
    run ⟨k, none, false⟩ t = some ⟨k, none, false⟩ := by
  induction h generalizing k with
  | nil => rfl
  | char hc _ ih =>
    rw [run_cons, step_eq_some_iff.2 (.plain k (isPlain_iff.2 hc)), Option.bind_some, ih]
  | escape c _ ih =>
    rw [run_cons, step_eq_some_iff.2 (.backslash ..), Option.bind_some, run_cons,
      step_eq_some_iff.2 (.escaped ..), Option.bind_some, ih]
  | bracket hb _ _ iha iht =>
    rw [List.cons_append, run_cons, step_eq_some_iff.2 (.opening k hb), Option.bind_some,
      run_append, iha, Option.bind_some, run_cons, step_eq_some_iff.2 (.closing k hb),
      Option.bind_some, iht]
  | quote hq hb _ ih =>
    rw [List.cons_append, run_cons, step_eq_some_iff.2 (.quote k hq), Option.bind_some, run_append,
      hb.run k, Option.bind_some, run_cons,
      step_eq_some_iff.2 (.unquote k (ne_backslash_of_mem_quotes hq)), Option.bind_some, ih]

theorem Balanced.isBalanced (h : Balanced t) : isBalanced t = true := by
  rw [isBalanced_iff]
  cases h with
  | whole h => exact ⟨false, h.run []⟩
  | slash h =>
    refine ⟨true, ?_⟩
    rw [run_append, h.run [], Option.bind_some]
    rfl

/-! ## Balanced texts are texts of the grammar -/

/-- What stands behind opening brackets: for each of them, the innermost first, a nested text and
the closing bracket that it awaits, and then a nested text. -/
inductive Awaits : List Char → Text → Prop where
  | nothing {t : Text} (h : Nested t) : Awaits [] t
  | closer {c : Char} {k : List Char} {a t : Text} (ha : Nested a) (ht : Awaits k t) :
      Awaits (c :: k) (a ++ c :: t)

/-- What may stand in front of every nested text may stand where brackets are awaited. -/
theorem Awaits.prepend (hw : ∀ t, Nested t → Nested (a ++ t)) (h : Awaits k t) :
    Awaits k (a ++ t) := by
  cases h with
  | nothing h => exact .nothing (hw _ h)
  | closer ha ht =>
    rw [← List.append_assoc]
    exact .closer (hw _ ha) ht

/-- The text takes a scope to the point where nothing is open. -/
def Completes : Scope → Text → Prop
  | ⟨k, none, false⟩, t => Awaits k t
  | ⟨k, none, true⟩, t => ∃ c r, t = c :: r ∧ Awaits k r
  | ⟨k, some q, false⟩, t => ∃ b r, t = b ++ q :: r ∧ QuotedBody q b ∧ Awaits k r
  | ⟨k, some q, true⟩, t => ∃ c b r, t = c :: b ++ q :: r ∧ QuotedBody q b ∧ Awaits k r

theorem Completes.cons (hs : s.step c = some s') (h : Completes s' t) : Completes s (c :: t) := by
  cases step_eq_some_iff.1 hs with
  | escaped k q c =>
    cases q with
    | none => exact ⟨c, t, rfl, h⟩
    | some q =>
      obtain ⟨b, r, rfl, hb, hr⟩ := h
      exact ⟨c, b, r, rfl, hb, hr⟩
  | backslash k q =>
    cases q with
    | none =>
      obtain ⟨c, r, rfl, hr⟩ := h
      exact hr.prepend (a := ['\\', c]) fun _ => .escape c
    | some q =>
      obtain ⟨c, b, r, rfl, hb, hr⟩ := h
      exact ⟨'\\' :: c :: b, r, rfl, .escape c hb, hr⟩
  | inside k hc hq =>
    obtain ⟨b, r, rfl, hb, hr⟩ := h
    exact ⟨c :: b, r, rfl, .char hq hc hb, hr⟩
  | unquote k hq => exact ⟨[], t, rfl, .nil, h⟩
  | quote k hq =>
    obtain ⟨b, r, rfl, hb, hr⟩ := h
    have hw : ∀ t, Nested t → Nested ((c :: b ++ [c]) ++ t) := fun t ht => by
      simpa using Nested.quote hq hb ht
    have hall := hr.prepend hw
    rwa [List.append_assoc] at hall
  | @opening _ d k hb =>
    cases h with
    | @closer _ _ a r ha hr =>
      have hw : ∀ t, Nested t → Nested ((c :: a ++ [d]) ++ t) := fun t ht => by
        simpa using Nested.bracket hb ha ht
      have hall := hr.prepend hw
      rwa [List.append_assoc] at hall
  | closing k hb => exact .closer .nil h
  | plain k hc => exact Awaits.prepend (a := [c]) (fun _ => .char (isPlain_iff.1 hc)) h

theorem completes_of_run (h : s.run t = some {}) : Completes s t := by
  induction t generalizing s with
  | nil =>
    cases h
    exact .nothing .nil
  | cons c t ih =>
    rw [run_cons] at h
    obtain ⟨s₁, hs, ht⟩ := Option.bind_eq_some_iff.1 h
    exact (ih ht).cons hs

theorem nested_of_isClosed (h : t.IsClosed) : Nested t := by
  cases completes_of_run h with
  | nothing h => exact h

/-- A backslash that nothing follows stands behind a closed text. -/
theorem exists_of_run_escaped (h : run {} t = some ⟨[], none, true⟩) :
    ∃ a, t = a ++ ['\\'] ∧ a.IsClosed := by
  rcases List.eq_nil_or_concat t with rfl | ⟨a, c, rfl⟩
  · cases h
  · rw [List.concat_eq_append, run_append] at h
    obtain ⟨s, ha, hc⟩ := Option.bind_eq_some_iff.1 h
    rw [run_cons] at hc
    obtain ⟨s', hc, hs'⟩ := Option.bind_eq_some_iff.1 hc
    cases hs'
    cases step_eq_some_iff.1 hc with
    | backslash => exact ⟨a, List.concat_eq_append, ha⟩

/-- The test for balance accepts exactly the texts of the grammar. -/
theorem isBalanced_iff_balanced (t : Text) : isBalanced t = true ↔ Balanced t := by
  constructor
  · intro h
    obtain ⟨escaped, hrun⟩ := isBalanced_iff.1 h
    cases escaped with
    | false => exact .whole (nested_of_isClosed hrun)
    | true =>
      obtain ⟨a, rfl, ha⟩ := exists_of_run_escaped hrun
      exact .slash (nested_of_isClosed ha)
  · exact Balanced.isBalanced

end SkinCompiler.Text
