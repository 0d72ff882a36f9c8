import SkinCompiler.Proofs.Stylesheet.Reader

/-!
# Stylesheets that cannot be read

A text without comments has no rules just if a block in it is opened and never closed: one of the
blocks that follow one another, or one inside the block of an at-rule.

* `LeavesOpen` -- where such a block stands;
* `rulesOf_eq_error_iff` -- it is the only reason why a text has no rules.
-/

namespace SkinCompiler.Stylesheet

open Text

variable {t pre lead body rest after : Text}

/-- What stands before the opening brace of a block: a statement does not end in it. -/
def IsHead (pre : Text) : Prop := '\x7b' ∉ pre ∧ ¬(';' ∈ pre ∧ (ink pre).head? = some '@')

/-- What stands before the semicolon of a statement. -/
def IsStatementHead (lead : Text) : Prop :=
  ';' ∉ lead ∧ '\x7b' ∉ lead ∧ (ink lead).head? = some '@'

/-- A block is opened in the text and never closed. -/
inductive LeavesOpen : Text → Prop
  /-- The first block goes on to the end. -/
  | unclosed {pre after : Text} (head : IsHead pre)
    (never : ∀ body rest, FillsBlock body → after ≠ body ++ '\x7d' :: rest) :
    LeavesOpen (pre ++ '\x7b' :: after)
  /-- A block inside the first one is left open, where rules are looked for. -/
  | inside {pre body rest : Text} (head : IsHead pre) (rule : (atRule? (strip pre)).isSome = true)
    (fills : FillsBlock body) (inner : LeavesOpen body) :
    LeavesOpen (pre ++ '\x7b' :: (body ++ '\x7d' :: rest))
  /-- A block after the first one is left open. -/
  | afterBlock {pre body rest : Text} (head : IsHead pre) (fills : FillsBlock body)
    (later : LeavesOpen rest) : LeavesOpen (pre ++ '\x7b' :: (body ++ '\x7d' :: rest))
  /-- A block after a statement is left open. -/
  | afterStatement {lead rest : Text} (head : IsStatementHead lead) (later : LeavesOpen rest) :
    LeavesOpen (lead ++ ';' :: rest)

theorem LeavesOpen.mem (h : LeavesOpen t) : '\x7b' ∈ t := by
  induction h with
  | unclosed | inside | afterBlock => simp
  | afterStatement _ _ ih => simp [ih]

theorem next_block (h : IsHead pre) : next (pre ++ '\x7b' :: after) = .block (strip pre) after :=
  next_block_iff.2 ⟨pre, rfl, h.1, h.2, rfl⟩

theorem next_statement (h : IsStatementHead lead) :
    next (lead ++ ';' :: rest) = .statement (strip lead) rest :=
  next_statement_iff.2 ⟨lead, rfl, h.1, h.2.1, h.2.2, rfl⟩

theorem startsWith_of_atRule? (h : (atRule? t).isSome = true) : startsWith t ['@'] = true := by
  obtain ⟨⟨name, params⟩, hp⟩ := Option.isSome_iff_exists.1 h
  obtain ⟨rest, rfl, -⟩ := atRule?_eq_some_iff.1 hp
  exact startsWith_singleton.2 rfl

/-- Where the rules of a text with a block at its beginning are missing. -/
theorem rulesOf_block_eq_error_iff (head : IsHead pre) (fills : FillsBlock body) :
    rulesOf (pre ++ '\x7b' :: (body ++ '\x7d' :: rest)) = .error {} ↔
      (atRule? (strip pre)).isSome = true ∧ rulesOf body = .error {} ∨
        rulesOf rest = .error {} := by
  rw [rulesOf_block (next_block head) (blockFrom_eq_iff.2 fills)]
  cases hrule : atRule? (strip pre) with
  | none =>
    split
    · simp
    · rw [bind_pure_eq_error_iff]
      simp
  | some a =>
    have hat := startsWith_of_atRule? (t := strip pre) (by rw [hrule]; rfl)
    rw [if_pos hat, Option.elim_some]
    cases rulesOf body with
    | error e => simp [bind, Except.bind]
    | ok inner =>
      have hinner : Except.ok inner ≠ (.error {} : Except Unterminated (List Rule)) := nofun
      simp only [hinner, and_false, false_or]
      exact bind_pure_eq_error_iff

theorem rulesOf_eq_error_of_leavesOpen (h : LeavesOpen t) : rulesOf t = .error {} := by
  induction h with
  | unclosed head never =>
    refine rulesOf_unterminated (next_block head) ?_
    rw [Option.eq_none_iff_forall_ne_some]
    rintro ⟨body, rest⟩ hblock
    obtain rfl := eq_of_blockFrom hblock
    exact never body rest (blockFrom_eq_iff.1 hblock) rfl
  | inside head rule fills inner ih =>
    exact (rulesOf_block_eq_error_iff head fills).2 (Or.inl ⟨rule, ih⟩)
  | afterBlock head fills later ih =>
    exact (rulesOf_block_eq_error_iff head fills).2 (Or.inr ih)
  | afterStatement head later ih =>
    rw [rulesOf_statement (next_statement head), ih]
    rfl

theorem leavesOpen_of_rulesOf_eq_error (h : rulesOf t = .error {}) : LeavesOpen t := by
  induction hn : t.length using Nat.strongRecOn generalizing t with
  | ind n ih =>
    subst hn
    rcases next_cases t with ⟨lead, rest, hnext, rfl, hs, hb, hi⟩ |
      ⟨pre, after, hnext, rfl, hb, hno⟩ | ⟨hnext, -⟩
    · rw [rulesOf_statement hnext, bind_pure_eq_error_iff] at h
      exact .afterStatement ⟨hs, hb, hi⟩ (ih _ (by simp; omega) h rfl)
    · have head : IsHead pre := ⟨hb, hno⟩
      cases hblock : blockFrom 0 none '\x7b' after with
      | none =>
        refine .unclosed head ?_
        rintro body rest hfills rfl
        rw [blockFrom_eq_iff.2 hfills] at hblock
        cases hblock
      | some p =>
        obtain ⟨body, rest⟩ := p
        obtain rfl := eq_of_blockFrom hblock
        have fills : FillsBlock body := blockFrom_eq_iff.1 hblock
        rcases (rulesOf_block_eq_error_iff head fills).1 h with ⟨rule, hbody⟩ | hrest
        · exact .inside head rule fills (ih _ (by simp; omega) hbody rfl)
        · exact .afterBlock head fills (ih _ (by simp; omega) hrest rfl)
    · rw [rulesOf_done hnext] at h
      cases h

/-- A text has no rules just if a block in it is left open. -/
theorem rulesOf_eq_error_iff : rulesOf t = .error {} ↔ LeavesOpen t :=
  ⟨leavesOpen_of_rulesOf_eq_error, rulesOf_eq_error_of_leavesOpen⟩

end SkinCompiler.Stylesheet
