import Mathlib.Tactic.Common
import SkinCompiler.Candidate.Segment

/-!
# Scopes along a text

What a text opens and closes, followed with `Scope.run`, and where it is cut.

* `run_append` -- what is open after two texts is found one text after the other;
* `run_below` and `uncut_below` -- a text that closes what it opens does so inside any brackets, and
  is not cut there;
* `pieces_append_cons` and `pieces_eq_cons_cons` -- a first piece is a text that leaves nothing open
  and has no cut of its own, and nothing else is.
-/

namespace SkinCompiler

namespace Scope

/-- What is open after a text, unless the text breaks. -/
def run : Scope → Text → Option Scope
  | s, [] => some s
  | s, c :: t => (s.step c).bind fun s => s.run t

/-- The text is in one piece. -/
def Uncut (separator : Char) (s : Scope) (t : Text) : Prop := s.pieces separator t = [t]

/-- The character means nothing but itself outside quotes. -/
def isPlain (c : Char) : Bool :=
  !(c == '\\' || isQuote c || (closer? c).isSome || isCloser c)

/-- The same scope inside further brackets. -/
def below (closers : List Char) (s : Scope) : Scope := { s with closers := s.closers ++ closers }

variable {s s' : Scope} {c o sep : Char} {a b t : Text}

/-! ## One character -/

theorem step_plain (he : s.escaped = false) (hq : s.quote = none) (hc : isPlain c = true) :
    s.step c = some s := by
  simp only [isPlain, Bool.not_eq_true', Bool.or_eq_false_iff, beq_eq_false_iff_ne,
    Option.isSome_eq_false_iff, Option.isNone_iff_eq_none] at hc
  simp [step, he, hq, hc]

/-- The characters that open, close or escape something. -/
def marks : List Char := ['\\', '\'', '"', '`', '[', '(', '{', ']', ')', '}']

theorem isPlain_iff : isPlain c = true ↔ c ∉ marks := by
  have hc : (closer? c).isSome = true ↔ c = '[' ∨ c = '(' ∨ c = '{' := by
    unfold closer?
    split <;> simp_all
  simp only [isPlain, Bool.not_eq_true', ← Bool.not_eq_true, Bool.or_eq_true, hc, isQuote, isCloser,
    beq_iff_eq, marks, List.mem_cons, List.not_mem_nil, or_false]
  tauto

/-! ### Case by case -/

/-- The brackets, each opening one with its closing one. -/
def brackets : List (Char × Char) := [('[', ']'), ('(', ')'), ('{', '}')]

/-- The quotes: single, double and back. -/
def quotes : List Char := ['\'', '"', '\x60']

theorem closer?_eq_some_iff : closer? o = some c ↔ (o, c) ∈ brackets := by
  unfold closer?
  split <;> simp_all [brackets, eq_comm]

theorem isCloser_iff : isCloser c = true ↔ ∃ o, (o, c) ∈ brackets := by
  simp only [isCloser, brackets, Bool.or_eq_true, beq_iff_eq, List.mem_cons, Prod.mk.injEq,
    List.not_mem_nil, or_false]
  constructor
  · rintro ((rfl | rfl) | rfl) <;> simp
  · rintro ⟨o, ⟨-, rfl⟩ | ⟨-, rfl⟩ | ⟨-, rfl⟩⟩ <;> simp

theorem isQuote_iff : isQuote c = true ↔ c ∈ quotes := by
  simp [isQuote, quotes, or_assoc]

/-- What one character does, case by case. -/
inductive Step : Scope → Char → Scope → Prop where
  | escaped (k : List Char) (q : Option Char) (c : Char) : Step ⟨k, q, true⟩ c ⟨k, q, false⟩
  | backslash (k : List Char) (q : Option Char) : Step ⟨k, q, false⟩ '\\' ⟨k, q, true⟩
  | inside {q c : Char} (k : List Char) (hc : c ≠ '\\') (hq : c ≠ q) :
      Step ⟨k, some q, false⟩ c ⟨k, some q, false⟩
  | unquote {q : Char} (k : List Char) (hq : q ≠ '\\') : Step ⟨k, some q, false⟩ q ⟨k, none, false⟩
  | quote {q : Char} (k : List Char) (hq : q ∈ quotes) : Step ⟨k, none, false⟩ q ⟨k, some q, false⟩
  | opening {o c : Char} (k : List Char) (h : (o, c) ∈ brackets) :
      Step ⟨k, none, false⟩ o ⟨c :: k, none, false⟩
  | closing {o c : Char} (k : List Char) (h : (o, c) ∈ brackets) :
      Step ⟨c :: k, none, false⟩ c ⟨k, none, false⟩
  | plain {c : Char} (k : List Char) (hc : isPlain c = true) :
      Step ⟨k, none, false⟩ c ⟨k, none, false⟩

theorem step_eq_some_iff : s.step c = some s' ↔ Step s c s' := by
  constructor
  · intro h
    obtain ⟨k, quote, escaped⟩ := s
    cases escaped with
    | true =>
      cases h
      exact .escaped k quote c
    | false =>
      by_cases hslash : c = '\\'
      · subst hslash
        cases h
        exact .backslash k quote
      · simp only [step, Bool.false_eq_true, if_false, beq_iff_eq, hslash] at h
        cases quote with
        | some q =>
          dsimp only at h
          split_ifs at h with hq
          · cases h
            subst hq
            exact .unquote k hslash
          · cases h
            exact .inside k hslash hq
        | none =>
          by_cases hq : isQuote c = true
          · rw [if_pos hq] at h
            cases h
            exact .quote k (isQuote_iff.1 hq)
          · rw [if_neg hq] at h
            cases hc : closer? c with
            | some d =>
              simp only [hc] at h
              cases h
              exact .opening k (closer?_eq_some_iff.1 hc)
            | none =>
              simp only [hc] at h
              by_cases hcloser : isCloser c = true
              · rw [if_pos hcloser] at h
                obtain ⟨o, ho⟩ := isCloser_iff.1 hcloser
                cases k with
                | nil => cases h
                | cons awaited k =>
                  by_cases ha : awaited = c
                  · subst ha
                    simp only [if_true] at h
                    cases h
                    exact .closing k ho
                  · simp [ha] at h
              · rw [if_neg hcloser] at h
                cases h
                exact .plain k (by simp [isPlain, hslash, hq, hc, hcloser])
  · intro h
    cases h with
    | escaped => rfl
    | backslash => rfl
    | inside k hc hq => simp [step, hc, hq]
    | unquote k hq => simp [step, hq]
    | quote k hq =>
      simp only [quotes, List.mem_cons, List.not_mem_nil, or_false] at hq
      rcases hq with rfl | rfl | rfl <;> rfl
    | opening k h =>
      simp only [brackets, List.mem_cons, Prod.mk.injEq, List.not_mem_nil, or_false] at h
      rcases h with ⟨rfl, rfl⟩ | ⟨rfl, rfl⟩ | ⟨rfl, rfl⟩ <;> rfl
    | closing k h =>
      simp only [brackets, List.mem_cons, Prod.mk.injEq, List.not_mem_nil, or_false] at h
      rcases h with ⟨rfl, rfl⟩ | ⟨rfl, rfl⟩ | ⟨rfl, rfl⟩ <;> rfl
    | plain k hc => exact step_plain rfl rfl hc

theorem step_below (k : List Char) (h : s.step c = some s') :
    (s.below k).step c = some (s'.below k) := by
  rw [step_eq_some_iff] at h ⊢
  cases h with
  | escaped => exact .escaped ..
  | backslash => exact .backslash ..
  | inside _ hc hq => exact .inside _ hc hq
  | unquote _ hq => exact .unquote _ hq
  | quote _ hq => exact .quote _ hq
  | opening _ h => exact .opening _ h
  | closing _ h => exact .closing _ h
  | plain _ hc => exact .plain _ hc

theorem cutsAt_iff : s.cutsAt c = true ↔ s = {} ∧ isPlain c = true := by
  obtain ⟨closers, quote, escaped⟩ := s
  cases closers <;> cases quote <;> cases escaped <;> simp [cutsAt, isPlain]

theorem cutsAt_below {k : List Char} (hk : k ≠ []) : (s.below k).cutsAt c = false := by
  simp [cutsAt, below, hk]

/-! ## A run along a text -/

@[simp] theorem run_nil (s : Scope) : s.run [] = some s := rfl

theorem run_cons (s : Scope) (c : Char) (t : Text) :
    s.run (c :: t) = (s.step c).bind fun s => s.run t := rfl

theorem run_append (s : Scope) (a b : Text) : s.run (a ++ b) = (s.run a).bind (·.run b) := by
  induction a generalizing s with
  | nil => rfl
  | cons c a ih =>
    rw [List.cons_append, run_cons, run_cons]
    cases s.step c with
    | none => rfl
    | some s => exact ih s

theorem run_of_plain (he : s.escaped = false) (hq : s.quote = none)
    (h : ∀ c ∈ t, isPlain c = true) : s.run t = some s := by
  induction t with
  | nil => rfl
  | cons c t ih =>
    rw [run_cons, step_plain he hq (h c (by simp)), Option.bind_some]
    exact ih fun x hx => h x (by simp [hx])

theorem run_below (k : List Char) (h : s.run t = some s') :
    (s.below k).run t = some (s'.below k) := by
  induction t generalizing s with
  | nil => cases h; rfl
  | cons c t ih =>
    rw [run_cons] at h ⊢
    obtain ⟨s₁, h₁, h₂⟩ := Option.bind_eq_some_iff.1 h
    rw [step_below k h₁, Option.bind_some]
    exact ih h₂

/-- A text is balanced when a run along it ends with no bracket and no quote open. -/
theorem closes_iff : s.closes t = true ↔ ∃ e, s.run t = some ⟨[], none, e⟩ := by
  induction t generalizing s with
  | nil =>
    obtain ⟨closers, quote, escaped⟩ := s
    simp [closes]
  | cons c t ih =>
    rw [closes, run_cons]
    cases s.step c with
    | none => simp
    | some s₁ => simpa using ih

/-! ## Pieces -/

theorem pieces_ne_nil (sep : Char) (s : Scope) (t : Text) : s.pieces sep t ≠ [] := by
  cases t with
  | nil => simp [pieces]
  | cons c t =>
    rw [pieces]
    repeat' split
    all_goals simp

theorem pieces_cons (h : s.step c = some s') :
    s.pieces sep (c :: t) = if c = sep ∧ s.cutsAt c = true then [] :: s'.pieces sep t
      else (c :: (s'.pieces sep t).head (pieces_ne_nil sep s' t)) :: (s'.pieces sep t).tail := by
  rw [pieces, h]
  simp only [Bool.and_eq_true, beq_iff_eq]
  split_ifs with hc
  · rfl
  · split
    · rename_i hp
      exact absurd hp (pieces_ne_nil sep s' t)
    · rename_i hp
      simp [hp]

@[simp] theorem uncut_nil (sep : Char) (s : Scope) : s.Uncut sep [] := rfl

theorem uncut_cons (h : s.step c = some s') :
    s.Uncut sep (c :: t) ↔ ¬(c = sep ∧ s.cutsAt c = true) ∧ s'.Uncut sep t := by
  rw [Uncut, Uncut, pieces_cons h]
  split_ifs with hc
  · refine iff_of_false ?_ fun h => h.1 hc
    simp
  · simp only [hc, not_false_eq_true, true_and, List.cons.injEq]
    constructor
    · rintro ⟨h₁, h₂⟩
      rw [← List.cons_head_tail (pieces_ne_nil sep s' t), h₁, h₂]
    · intro h
      simp [h]

theorem uncut_append (h : s.run a = some s') :
    s.Uncut sep (a ++ b) ↔ s.Uncut sep a ∧ s'.Uncut sep b := by
  induction a generalizing s with
  | nil => cases h; simp
  | cons c a ih =>
    rw [run_cons] at h
    obtain ⟨s₁, h₁, h₂⟩ := Option.bind_eq_some_iff.1 h
    rw [List.cons_append, uncut_cons h₁, uncut_cons h₁, ih h₂, and_assoc]

/-- A text without the separator is in one piece, whatever it opens. -/
theorem uncut_of_not_mem (h : sep ∉ t) (hr : s.run t ≠ none) : s.Uncut sep t := by
  induction t generalizing s with
  | nil => exact uncut_nil ..
  | cons c t ih =>
    rw [run_cons] at hr
    cases h₁ : s.step c with
    | none => simp [h₁] at hr
    | some s₁ =>
      rw [uncut_cons h₁]
      simp only [h₁, Option.bind_some] at hr
      simp only [List.mem_cons, not_or] at h
      exact ⟨fun hc => h.1 hc.1.symm, ih h.2 hr⟩

/-- Nothing is cut inside brackets. -/
theorem uncut_below {k : List Char} (hk : k ≠ []) (h : s.run t = some s') :
    (s.below k).Uncut sep t := by
  induction t generalizing s with
  | nil => exact uncut_nil ..
  | cons c t ih =>
    rw [run_cons] at h
    obtain ⟨s₁, h₁, h₂⟩ := Option.bind_eq_some_iff.1 h
    rw [uncut_cons (step_below k h₁), cutsAt_below hk]
    exact ⟨by simp, ih h₂⟩

/-- Where nothing is open, the separator ends the first piece. -/
theorem pieces_append_cons (hs : isPlain sep = true) (hr : s.run a = some {})
    (hu : s.Uncut sep a) : s.pieces sep (a ++ sep :: b) = a :: ({} : Scope).pieces sep b := by
  induction a generalizing s with
  | nil =>
    cases hr
    rw [List.nil_append, pieces_cons (step_plain rfl rfl hs), if_pos ⟨rfl, cutsAt_iff.2 ⟨rfl, hs⟩⟩]
  | cons c a ih =>
    rw [run_cons] at hr
    obtain ⟨s₁, h₁, h₂⟩ := Option.bind_eq_some_iff.1 hr
    rw [uncut_cons h₁] at hu
    rw [List.cons_append, pieces_cons h₁, if_neg hu.1]
    simp [ih h₂ hu.2]

/-- A piece that is not the last one leaves nothing open and is followed by the separator. -/
theorem pieces_eq_cons_cons {p q : Text} {rest : List Text}
    (h : s.pieces sep t = p :: q :: rest) :
    ∃ t', t = p ++ sep :: t' ∧ s.run p = some {} ∧ s.Uncut sep p ∧ isPlain sep = true
      ∧ ({} : Scope).pieces sep t' = q :: rest := by
  induction t generalizing s p with
  | nil => simp [pieces] at h
  | cons c t ih =>
    cases h₁ : s.step c with
    | none => simp [pieces, h₁] at h
    | some s₁ =>
      rw [pieces_cons h₁] at h
      split_ifs at h with hc
      · obtain ⟨rfl, hcut⟩ := hc
        obtain ⟨rfl, hplain⟩ := cutsAt_iff.1 hcut
        rw [step_plain rfl rfl hplain] at h₁
        cases h₁
        rw [List.cons.injEq] at h
        exact ⟨t, by simp [← h.1], by simp [← h.1], by simp [← h.1], hplain, h.2⟩
      · rw [List.cons.injEq] at h
        obtain ⟨rfl, htail⟩ := h
        have hp : s₁.pieces sep t = (s₁.pieces sep t).head (pieces_ne_nil sep s₁ t) :: q :: rest := by
          rw [← htail, List.cons_head_tail]
        obtain ⟨t', ht, hrun, hu, hplain, hrest⟩ := ih hp
        refine ⟨t', by rw [List.cons_append, ← ht], ?_, ?_, hplain, hrest⟩
        · rw [run_cons, h₁]
          exact hrun
        · rw [uncut_cons h₁]
          exact ⟨hc, hu⟩

/-- A single piece is the whole text. -/
theorem pieces_eq_singleton {p : Text} (h : s.pieces sep t = [p]) : p = t := by
  induction t generalizing s p with
  | nil => simpa [pieces] using h.symm
  | cons c t ih =>
    cases h₁ : s.step c with
    | none => simpa [pieces, h₁] using h.symm
    | some s₁ =>
      rw [pieces_cons h₁] at h
      split_ifs at h with hc
      · simp [pieces_ne_nil] at h
      · simp only [List.cons.injEq] at h
        obtain ⟨rfl, htail⟩ := h
        have hp : s₁.pieces sep t = [(s₁.pieces sep t).head (pieces_ne_nil sep s₁ t)] := by
          conv_lhs => rw [← List.cons_head_tail (pieces_ne_nil sep s₁ t), htail]
        rw [ih hp]

/-- The pieces with the separator between them are the text. -/
theorem join_pieces (sep : Char) (s : Scope) (t : Text) :
    Text.join [sep] (s.pieces sep t) = t := by
  induction h : s.pieces sep t generalizing s t with
  | nil => exact absurd h (pieces_ne_nil sep s t)
  | cons p rest ih =>
    cases rest with
    | nil => exact pieces_eq_singleton h
    | cons q rest =>
      obtain ⟨t', ht, -, -, -, hrest⟩ := pieces_eq_cons_cons h
      rw [Text.join, ih {} t' hrest, ht]
      simp

/-- Only a backslash takes the next character as it is. -/
theorem eq_backslash_of_step (h : s.step c = some s') (he : s'.escaped = true) : c = '\\' := by
  cases step_eq_some_iff.1 h with
  | backslash => rfl
  | _ => cases he

theorem getLast?_of_run (h : s.run t = some s') (he : s.escaped = false)
    (he' : s'.escaped = true) : t.getLast? = some '\\' := by
  rcases List.eq_nil_or_concat t with rfl | ⟨init, c, rfl⟩
  · cases h
    rw [he] at he'
    cases he'
  · rw [List.concat_eq_append, run_append] at h
    obtain ⟨s₁, -, h₁⟩ := Option.bind_eq_some_iff.1 h
    rw [run_cons] at h₁
    obtain ⟨s₂, h₂, h₃⟩ := Option.bind_eq_some_iff.1 h₁
    cases h₃
    simp [eq_backslash_of_step h₂ he']

/-- Only quotes are open as quotes. -/
theorem isQuote_of_step (h : s.step c = some s') (hq : ∀ q ∈ s.quote, isQuote q = true) :
    ∀ q ∈ s'.quote, isQuote q = true := by
  cases step_eq_some_iff.1 h with
  | quote _ hmem =>
    rintro q ⟨rfl⟩
    exact isQuote_iff.2 hmem
  | unquote => simp
  | _ => exact hq

theorem isQuote_of_run (h : s.run t = some s') (hq : ∀ q ∈ s.quote, isQuote q = true) :
    ∀ q ∈ s'.quote, isQuote q = true := by
  induction t generalizing s with
  | nil =>
    cases h
    exact hq
  | cons c t ih =>
    rw [run_cons] at h
    obtain ⟨s₁, h₁, h₂⟩ := Option.bind_eq_some_iff.1 h
    exact ih h₂ (isQuote_of_step h₁ hq)

end Scope

/-! ## Closed texts -/

namespace Text

open Scope

variable {a b t : Text} {sep o c : Char}

/-- The text closes what it opens, and no backslash at its end waits for a character. -/
def IsClosed (t : Text) : Prop := ({} : Scope).run t = some {}

instance decidableIsClosed (t : Text) : Decidable t.IsClosed :=
  inferInstanceAs (Decidable (_ = _))

instance decidableUncut (sep : Char) (s : Scope) (t : Text) : Decidable (Uncut sep s t) :=
  inferInstanceAs (Decidable (_ = _))

theorem isBalanced_iff : isBalanced t = true ↔ ∃ e, ({} : Scope).run t = some ⟨[], none, e⟩ :=
  closes_iff

theorem IsClosed.isBalanced (h : t.IsClosed) : isBalanced t = true := isBalanced_iff.2 ⟨false, h⟩

/-- A balanced text is closed unless it ends in a backslash. -/
theorem isClosed_of_isBalanced (h : isBalanced t = true) (hl : t.getLast? ≠ some '\\') :
    t.IsClosed := by
  obtain ⟨e, he⟩ := isBalanced_iff.1 h
  cases e with
  | false => exact he
  | true => exact absurd (getLast?_of_run he rfl rfl) hl

theorem isClosed_append (ha : a.IsClosed) : (a ++ b).IsClosed ↔ b.IsClosed := by
  rw [IsClosed, run_append, ha]
  exact Iff.rfl

theorem isBalanced_append (ha : a.IsClosed) : isBalanced (a ++ b) = isBalanced b := by
  rw [Bool.eq_iff_iff, isBalanced_iff, isBalanced_iff, run_append, ha]
  exact Iff.rfl

/-- A plain character at the end of a balanced text closes nothing. -/
theorem isBalanced_of_concat (hc : isPlain c = true) (h : isBalanced (t ++ [c]) = true) :
    isBalanced t = true := by
  obtain ⟨e, he⟩ := isBalanced_iff.1 h
  rw [run_append] at he
  obtain ⟨⟨closers, quote, escaped⟩, hs, hstep⟩ := Option.bind_eq_some_iff.1 he
  have hq := isQuote_of_run hs (by simp)
  rw [run_cons] at hstep
  obtain ⟨s₁, hstep, hs₁⟩ := Option.bind_eq_some_iff.1 hstep
  cases hs₁
  simp only [isPlain, Bool.not_eq_true', Bool.or_eq_false_iff, beq_eq_false_iff_ne,
    Option.isSome_eq_false_iff, Option.isNone_iff_eq_none] at hc
  refine isBalanced_iff.2 ⟨escaped, ?_⟩
  cases quote with
  | none => cases escaped <;> simp_all [step]
  | some q =>
    have hne : c ≠ q := by
      rintro rfl
      have := hq c rfl
      simp_all
    cases escaped <;> simp [step, hc, hne] at hstep

theorem isClosed_of_plain (h : ∀ x ∈ t, isPlain x = true) : t.IsClosed := run_of_plain rfl rfl h

theorem uncut_append_of_closed (ha : a.IsClosed) :
    Uncut sep {} (a ++ b) ↔ Uncut sep {} a ∧ Uncut sep {} b := uncut_append ha

theorem uncut_of_plain (h : ∀ x ∈ t, isPlain x = true) (hs : sep ∉ t) : Uncut sep {} t :=
  uncut_of_not_mem hs (by rw [isClosed_of_plain h]; simp)

/-! ### Brackets -/

theorem step_opener (ho : closer? o = some c) : ({} : Scope).step o = some (below [c] {}) := by
  have hb : (o == '\\') = false := by
    by_contra h
    simp only [Bool.not_eq_false, beq_iff_eq] at h
    subst h
    simp [closer?] at ho
  have hq : isQuote o = false := by
    by_contra h
    simp only [isQuote, Bool.not_eq_false, Bool.or_eq_true, beq_iff_eq] at h
    rcases h with (rfl | rfl) | rfl <;> simp [closer?] at ho
  simp [step, hb, hq, ho, below]

theorem step_closer (ho : closer? o = some c) : (below [c] {} : Scope).step c = some {} := by
  simp only [closer?] at ho
  split at ho <;> first | (cases ho; rfl) | cases ho

/-- Brackets around a closed text make a closed text. -/
theorem IsClosed.bracket (h : t.IsClosed) (ho : closer? o = some c) :
    IsClosed (o :: t ++ [c]) := by
  rw [IsClosed, List.cons_append, run_cons, step_opener ho, Option.bind_some, run_append,
    run_below [c] h, Option.bind_some, run_cons, step_closer ho, Option.bind_some, run_nil]

/-- A balanced text is closed if it is balanced also between brackets: no backslash at its end
reaches the closing one. -/
theorem isClosed_of_bracket (h : isBalanced t = true) (ho : closer? o = some c)
    (hb : isBalanced (o :: t ++ [c]) = true) : t.IsClosed := by
  obtain ⟨e, he⟩ := isBalanced_iff.1 h
  cases e with
  | false => exact he
  | true =>
    obtain ⟨e', he'⟩ := isBalanced_iff.1 hb
    rw [List.cons_append, run_cons, step_opener ho, Option.bind_some, run_append,
      run_below [c] he, Option.bind_some, run_cons] at he'
    simp [step, below] at he'

/-- Text in brackets is in one piece. -/
theorem uncut_bracket (h : t.IsClosed) (ho : closer? o = some c) (hso : sep ≠ o) (hsc : sep ≠ c) :
    Uncut sep {} (o :: t ++ [c]) := by
  rw [List.cons_append, uncut_cons (step_opener ho)]
  refine ⟨fun hc => hso hc.1.symm, ?_⟩
  rw [uncut_append (run_below [c] h)]
  refine ⟨uncut_below (by simp) h, ?_⟩
  rw [uncut_cons (step_closer ho)]
  exact ⟨fun hc => hsc hc.1.symm, uncut_nil ..⟩

/-! ### Segments -/

theorem segments_of_uncut (h : Uncut sep {} t) : segments [sep] t = [t] := h

theorem segments_append_cons (hs : isPlain sep = true) (ha : a.IsClosed) (hu : Uncut sep {} a) :
    segments [sep] (a ++ sep :: b) = a :: segments [sep] b := pieces_append_cons hs ha hu

theorem segments_eq_cons_cons {p q : Text} {rest : List Text}
    (h : segments [sep] t = p :: q :: rest) :
    ∃ t', t = p ++ sep :: t' ∧ p.IsClosed ∧ Uncut sep {} p ∧ segments [sep] t' = q :: rest := by
  obtain ⟨t', ht, hr, hu, -, hrest⟩ := pieces_eq_cons_cons h
  exact ⟨t', ht, hr, hu, hrest⟩

theorem segments_eq_singleton {p : Text} (h : segments [sep] t = [p]) :
    p = t ∧ Uncut sep {} t := by
  have hp := pieces_eq_singleton h
  subst hp
  exact ⟨rfl, h⟩

theorem segments_ne_nil (sep : Char) (t : Text) : segments [sep] t ≠ [] :=
  pieces_ne_nil sep {} t

end Text

end SkinCompiler
