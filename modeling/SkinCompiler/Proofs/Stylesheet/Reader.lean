import SkinCompiler.Proofs.Except
import SkinCompiler.Proofs.Stylesheet.Block

/-!
# The rules of a text

What a reader finds next in a text, and how the rules of a text are made up of the first one and
those after it.

* `next_statement_iff`, `next_block_iff` -- where a statement and where a block stand;
* `readRules_eq` -- any sufficient number of steps gives the same rules;
* `rulesOf_eq_ok_iff` -- the rules of a text are the first one and those of the rest.
-/

namespace SkinCompiler.Stylesheet

open Text

variable {t head lead body rest : Text} {c : Char}

/-! ## What comes next -/

theorem startsWith_strip : startsWith (strip t) ['@'] = true ↔ (ink t).head? = some '@' := by
  rw [startsWith_singleton, head?_strip]

/-- Where a text goes on with a statement, with a block or with nothing. -/
theorem next_cases (t : Text) :
    (∃ lead rest, next t = .statement (strip lead) rest ∧ t = lead ++ ';' :: rest ∧ ';' ∉ lead ∧
      '\x7b' ∉ lead ∧ (ink lead).head? = some '@') ∨
    (∃ head rest, next t = .block (strip head) rest ∧ t = head ++ '\x7b' :: rest ∧
      '\x7b' ∉ head ∧ ¬(';' ∈ head ∧ (ink head).head? = some '@')) ∨
    (next t = .done ∧ '\x7b' ∉ t ∧ ¬(';' ∈ t ∧ (ink t).head? = some '@')) := by
  rcases hs : t.span (· != '\x7b') with ⟨head, rest⟩
  rcases hl : head.span (· != ';') with ⟨lead, after⟩
  obtain ⟨rfl, hhead, hrest⟩ := span_eq_iff.1 hs
  obtain ⟨rfl, hlead, hafter⟩ := span_eq_iff.1 hl
  have hnext : next (lead ++ after ++ rest) =
      if !after.isEmpty && startsWith (strip lead) ['@'] then
        .statement (strip lead) (after.drop 1 ++ rest)
      else if rest.isEmpty then .done
      else .block (strip (lead ++ after)) (rest.drop 1) := by
    simp only [next, hs, hl]
  have hbrace : '\x7b' ∉ lead ++ after := fun h => by simpa using hhead _ h
  have hsemi : ';' ∉ lead := fun h => by simpa using hlead _ h
  by_cases hst : !after.isEmpty && startsWith (strip lead) ['@']
  · rw [if_pos hst] at hnext
    cases after with
    | nil => cases hst
    | cons c after =>
      obtain rfl : c = ';' := by simpa using hafter c rfl
      exact Or.inl ⟨lead, after ++ rest, hnext, by simp, hsemi,
        fun h => hbrace (List.mem_append_left _ h),
        startsWith_strip.1 (by simpa using hst)⟩
  · rw [if_neg hst] at hnext
    have hno : ¬(';' ∈ lead ++ after ∧ (ink (lead ++ after)).head? = some '@') := by
      rintro ⟨hm, hh⟩
      cases after with
      | nil => exact hsemi (by simpa using hm)
      | cons c after =>
        obtain rfl : c = ';' := by simpa using hafter c rfl
        refine hst ?_
        rw [Bool.and_eq_true]
        refine ⟨rfl, startsWith_strip.2 ?_⟩
        cases hi : ink lead with
        | nil =>
          rw [ink_append, hi] at hh
          cases hh
        | cons x i =>
          rw [ink_append, hi] at hh
          exact hh
    cases rest with
    | nil =>
      rw [if_pos List.isEmpty_nil] at hnext
      rw [List.append_nil] at hnext ⊢
      exact Or.inr (Or.inr ⟨hnext, hbrace, hno⟩)
    | cons c rest =>
      obtain rfl : c = '\x7b' := by simpa using hrest c rfl
      exact Or.inr (Or.inl ⟨lead ++ after, rest, hnext, by simp, hbrace, hno⟩)

theorem next_statement_iff : next t = .statement head rest ↔ ∃ lead, t = lead ++ ';' :: rest ∧
    ';' ∉ lead ∧ '\x7b' ∉ lead ∧ (ink lead).head? = some '@' ∧ head = strip lead := by
  constructor
  · intro h
    rcases next_cases t with ⟨lead, rest', hn, ht, hs, hb, hi⟩ | ⟨_, _, hn, -⟩ | ⟨hn, -⟩ <;>
      rw [hn] at h <;> cases h
    exact ⟨lead, ht, hs, hb, hi, rfl⟩
  · rintro ⟨lead, rfl, hs, hb, hi, rfl⟩
    have hhead : ∀ more, (ink (lead ++ ';' :: more)).head? = some '@' := fun more => by
      rw [ink_append, List.head?_append, hi]
      rfl
    rcases next_cases (lead ++ ';' :: rest) with ⟨lead', rest', hn, ht, hs', -⟩ |
      ⟨head', rest', -, ht, hb', hno⟩ | ⟨-, -, hno⟩
    · obtain ⟨rfl, rfl⟩ := append_cons_inj hs hs' ht
      exact hn
    · rcases append_cons_cases ht with ⟨-, hc, -⟩ | ⟨m, rfl, -⟩ | ⟨m, rfl, -⟩
      · exact absurd hc (by decide)
      · exact absurd ⟨by simp, hhead m⟩ hno
      · exact absurd (by simp) hb
    · exact absurd ⟨by simp, hhead rest⟩ hno

theorem next_block_iff : next t = .block head rest ↔ ∃ pre, t = pre ++ '\x7b' :: rest ∧
    '\x7b' ∉ pre ∧ ¬(';' ∈ pre ∧ (ink pre).head? = some '@') ∧ head = strip pre := by
  constructor
  · intro h
    rcases next_cases t with ⟨_, _, hn, -⟩ | ⟨pre, rest', hn, ht, hb, hno⟩ | ⟨hn, -⟩ <;>
      rw [hn] at h <;> cases h
    exact ⟨pre, ht, hb, hno, rfl⟩
  · rintro ⟨pre, rfl, hb, hno, rfl⟩
    rcases next_cases (pre ++ '\x7b' :: rest) with ⟨lead', rest', -, ht, hs', hb', hi⟩ |
      ⟨pre', rest', hn, ht, hb', -⟩ | ⟨-, hm, -⟩
    · rcases append_cons_cases ht with ⟨-, hc, -⟩ | ⟨m, rfl, -⟩ | ⟨m, rfl, -⟩
      · exact absurd hc (by decide)
      · exact absurd (by simp) hb'
      · refine absurd ⟨by simp, ?_⟩ hno
        rw [ink_append, List.head?_append, hi]
        rfl
    · obtain ⟨rfl, rfl⟩ := append_cons_inj hb hb' ht
      exact hn
    · exact absurd (by simp) hm

/-! ## Rules one after the other -/

theorem length_next (h : next t = .statement head rest ∨ next t = .block head rest) :
    rest.length < t.length := by
  rcases h with h | h
  · obtain ⟨lead, rfl, -⟩ := next_statement_iff.1 h
    simp
    omega
  · obtain ⟨pre, rfl, -⟩ := next_block_iff.1 h
    simp
    omega

/-- Any number of steps that the text is shorter than is enough. -/
theorem readRules_eq {m n : Nat} (hm : t.length < m) (hn : t.length < n) :
    readRules m t = readRules n t := by
  induction m generalizing t n with
  | zero => exact absurd hm (Nat.not_lt_zero _)
  | succ m ih =>
    obtain ⟨n, rfl⟩ : ∃ k, n = k + 1 := ⟨n - 1, by omega⟩
    rw [readRules, readRules]
    cases hnext : next t with
    | done => rfl
    | statement head rest =>
      have hlen := length_next (Or.inl hnext)
      simp only [ih (t := rest) (n := n) (by omega) (by omega)]
    | block head rest =>
      have hlen := length_next (Or.inr hnext)
      cases hblock : blockFrom 0 none '\x7b' rest with
      | none => simp only [hblock]
      | some p =>
        obtain ⟨body, after⟩ := p
        have hsum : rest.length = body.length + (after.length + 1) := by
          rw [eq_of_blockFrom hblock, List.length_append, List.length_cons]
        simp only [hblock, ih (t := body) (n := n) (by omega) (by omega),
          ih (t := after) (n := n) (by omega) (by omega)]

/-- The rules of a text without comments. -/
def rulesOf (t : Text) : Except Unterminated (List Rule) := readRules (t.length + 1) t

theorem read_eq (t : Text) : read t = rulesOf (stripComments t) := rfl

theorem rulesOf_done (h : next t = .done) : rulesOf t = .ok [] := by
  rw [rulesOf, readRules, h]

theorem rulesOf_statement (h : next t = .statement head rest) :
    rulesOf t = do
      let rules ← rulesOf rest
      return ((atRule? head).map fun a => Rule.statement a.1 a.2).toList ++ rules := by
  have hlen := length_next (Or.inl h)
  rw [rulesOf, readRules, h]
  simp only [rulesOf,
    readRules_eq (t := rest) (m := t.length) (n := rest.length + 1) hlen (by omega)]
  cases atRule? head <;> rfl

theorem rulesOf_block {after : Text} (h : next t = .block head after)
    (hb : blockFrom 0 none '\x7b' after = some (body, rest)) :
    rulesOf t =
      if startsWith head ['@'] then (atRule? head).elim (rulesOf rest) fun a => do
        let inner ← rulesOf body
        let rules ← rulesOf rest
        return .block a.1 a.2 inner :: rules
      else do
        let rules ← rulesOf rest
        return if head.isEmpty then rules
          else .style (collapse head) (declarations body) :: rules := by
  have hlen := length_next (Or.inr h)
  rw [eq_of_blockFrom hb, List.length_append, List.length_cons] at hlen
  rw [rulesOf, readRules, h]
  simp only [hb, rulesOf,
    readRules_eq (t := rest) (m := t.length) (n := rest.length + 1) (by omega) (by omega),
    readRules_eq (t := body) (m := t.length) (n := body.length + 1) (by omega) (by omega)]
  cases atRule? head <;> rfl

theorem rulesOf_unterminated {after : Text} (h : next t = .block head after)
    (hb : blockFrom 0 none '\x7b' after = none) : rulesOf t = .error {} := by
  rw [rulesOf, readRules, h]
  simp only [hb]

/-! ## The first rule -/

/-- What a text goes on with, and the rest after it.  A head without a name and a block without a
head come to nothing. -/
inductive First (t : Text) : Option Rule → Text → Prop where
  /-- A statement. -/
  | statement {lead rest : Text} (ht : t = lead ++ ';' :: rest) (hs : ';' ∉ lead)
      (hb : '\x7b' ∉ lead) (ha : (ink lead).head? = some '@') :
      First t ((atRule? (strip lead)).map fun a => .statement a.1 a.2) rest
  /-- A block of rules. -/
  | block {pre body rest name params : Text} {inner : List Rule}
      (ht : t = pre ++ '\x7b' :: (body ++ '\x7d' :: rest)) (hb : '\x7b' ∉ pre) (hs : ';' ∉ pre)
      (ha : (ink pre).head? = some '@') (hf : FillsBlock body)
      (hn : atRule? (strip pre) = some (name, params)) (hi : rulesOf body = .ok inner) :
      First t (some (.block name params inner)) rest
  /-- A block without a name. -/
  | unnamed {pre body rest : Text} (ht : t = pre ++ '\x7b' :: (body ++ '\x7d' :: rest))
      (hb : '\x7b' ∉ pre) (hs : ';' ∉ pre) (ha : (ink pre).head? = some '@')
      (hf : FillsBlock body) (hn : atRule? (strip pre) = none) : First t none rest
  /-- A block of declarations. -/
  | style {pre body rest : Text} (ht : t = pre ++ '\x7b' :: (body ++ '\x7d' :: rest))
      (hb : '\x7b' ∉ pre) (ha : (ink pre).head? ≠ some '@') (hf : FillsBlock body) :
      First t (if ink pre = [] then none else some (.style (collapse pre) (declarations body))) rest

theorem strip_eq_nil_iff : strip t = [] ↔ ink t = [] := by
  rw [← List.head?_eq_none_iff, head?_strip, List.head?_eq_none_iff]

theorem toList_style (pre : Text) (ds : List Declaration) (rs : List Rule) :
    (if ink pre = [] then none else some (Rule.style (collapse pre) ds)).toList ++ rs =
      if (strip pre).isEmpty then rs else .style (collapse (strip pre)) ds :: rs := by
  rw [collapse_strip]
  by_cases hi : ink pre = []
  · rw [if_pos hi, if_pos (List.isEmpty_iff.2 (strip_eq_nil_iff.2 hi))]
    rfl
  · rw [if_neg hi, if_neg fun h => hi (strip_eq_nil_iff.1 (List.isEmpty_iff.1 h))]
    rfl

/-- The rules of a text are the first one and those of the rest. -/
theorem rulesOf_eq_ok_iff {rs : List Rule} : rulesOf t = .ok rs ↔
    ('\x7b' ∉ t ∧ ¬(';' ∈ t ∧ (ink t).head? = some '@') ∧ rs = []) ∨
      ∃ first rest rs', First t first rest ∧ rulesOf rest = .ok rs' ∧ rs = first.toList ++ rs' := by
  constructor
  · intro h
    rcases next_cases t with ⟨lead, rest, hn, ht, hs, hb, hi⟩ | ⟨pre, after, hn, ht, hb, hno⟩ |
      ⟨hn, hb, hno⟩
    · rw [rulesOf_statement hn, bind_eq_ok_iff] at h
      obtain ⟨rs', hr, h⟩ := h
      cases h
      exact Or.inr ⟨_, rest, rs', .statement ht hs hb hi, hr, rfl⟩
    · cases hblock : blockFrom 0 none '\x7b' after with
      | none =>
        rw [rulesOf_unterminated hn hblock] at h
        cases h
      | some p =>
        obtain ⟨body, rest⟩ := p
        obtain rfl := eq_of_blockFrom hblock
        have hf : FillsBlock body := blockFrom_eq_iff.1 hblock
        rw [rulesOf_block hn hblock] at h
        by_cases ha : (ink pre).head? = some '@'
        · rw [if_pos (startsWith_strip.2 ha)] at h
          have hs : ';' ∉ pre := fun hs => hno ⟨hs, ha⟩
          cases hat : atRule? (strip pre) with
          | none =>
            rw [hat, Option.elim_none] at h
            exact Or.inr ⟨none, rest, rs, .unnamed ht hb hs ha hf hat, h, rfl⟩
          | some p =>
            obtain ⟨name, params⟩ := p
            simp only [hat, Option.elim_some, bind_eq_ok_iff] at h
            obtain ⟨inner, hi, rs', hr, h⟩ := h
            cases h
            exact Or.inr ⟨_, rest, rs', .block ht hb hs ha hf hat hi, hr, rfl⟩
        · rw [if_neg (fun hc => ha (startsWith_strip.1 hc)), bind_eq_ok_iff] at h
          obtain ⟨rs', hr, h⟩ := h
          refine Or.inr ⟨_, rest, rs', .style ht hb ha hf, hr, ?_⟩
          cases h
          rw [toList_style]
    · rw [rulesOf_done hn] at h
      cases h
      exact Or.inl ⟨hb, hno, rfl⟩
  · rintro (⟨hb, hno, rfl⟩ | ⟨first, rest, rs', hf, hr, rfl⟩)
    · refine rulesOf_done ?_
      rcases next_cases t with ⟨lead, rest, -, rfl, -, -, hi⟩ | ⟨pre, after, -, rfl, -⟩ | ⟨hn, -⟩
      · refine absurd ⟨by simp, ?_⟩ hno
        rw [ink_append, List.head?_append, hi]
        rfl
      · exact absurd (by simp) hb
      · exact hn
    · cases hf with
      | statement ht hs hb ha =>
        rw [rulesOf_statement (next_statement_iff.2 ⟨_, ht, hs, hb, ha, rfl⟩), hr]
        rfl
      | block ht hb hs ha hf hn hi =>
        rw [rulesOf_block (next_block_iff.2 ⟨_, ht, hb, fun h => hs h.1, rfl⟩)
          (blockFrom_eq_iff.2 hf), if_pos (startsWith_strip.2 ha), hn, hi, hr]
        rfl
      | unnamed ht hb hs ha hf hn =>
        rw [rulesOf_block (next_block_iff.2 ⟨_, ht, hb, fun h => hs h.1, rfl⟩)
          (blockFrom_eq_iff.2 hf), if_pos (startsWith_strip.2 ha), hn]
        exact hr
      | style ht hb ha hf =>
        rw [rulesOf_block (next_block_iff.2 ⟨_, ht, hb, fun h => ha h.2, rfl⟩)
          (blockFrom_eq_iff.2 hf), if_neg (fun hc => ha (startsWith_strip.1 hc)), hr, toList_style]
        rfl

variable {first : Option Rule}

theorem First.of_style {selector : Text} {ds : List Declaration} (h : First t first rest)
    (hr : first = some (.style selector ds)) : ∃ pre body,
      t = pre ++ '\x7b' :: (body ++ '\x7d' :: rest) ∧ '\x7b' ∉ pre ∧ ink pre ≠ [] ∧
      (ink pre).head? ≠ some '@' ∧ FillsBlock body ∧ selector = collapse pre ∧
      ds = declarations body := by
  cases h with
  | statement _ _ _ _ =>
    obtain ⟨_, _, h⟩ := Option.map_eq_some_iff.1 hr
    cases h
  | block _ _ _ _ _ _ _ => cases hr
  | unnamed _ _ _ _ _ _ => cases hr
  | style ht hb ha hf =>
    split_ifs at hr with hi
    cases hr
    exact ⟨_, _, ht, hb, hi, ha, hf, rfl, rfl⟩

theorem First.of_block {name params : Text} {rules : List Rule} (h : First t first rest)
    (hr : first = some (.block name params rules)) : ∃ pre body,
      t = pre ++ '\x7b' :: (body ++ '\x7d' :: rest) ∧ '\x7b' ∉ pre ∧ ';' ∉ pre ∧ FillsBlock body ∧
      atRule? (strip pre) = some (name, params) ∧ rulesOf body = .ok rules := by
  cases h with
  | statement _ _ _ _ =>
    obtain ⟨_, _, h⟩ := Option.map_eq_some_iff.1 hr
    cases h
  | block ht hb hs _ hf hn hi =>
    cases hr
    exact ⟨_, _, ht, hb, hs, hf, hn, hi⟩
  | unnamed _ _ _ _ _ _ => cases hr
  | style _ _ _ _ =>
    split_ifs at hr
    cases hr

theorem First.of_statement {name params : Text} (h : First t first rest)
    (hr : first = some (.statement name params)) : ∃ lead,
      t = lead ++ ';' :: rest ∧ ';' ∉ lead ∧ '\x7b' ∉ lead ∧
      atRule? (strip lead) = some (name, params) := by
  cases h with
  | statement ht hs hb _ =>
    obtain ⟨⟨_, _⟩, hn, h⟩ := Option.map_eq_some_iff.1 hr
    cases h
    exact ⟨_, ht, hs, hb, hn⟩
  | block _ _ _ _ _ _ _ => cases hr
  | unnamed _ _ _ _ _ _ => cases hr
  | style _ _ _ _ =>
    split_ifs at hr
    cases hr

/-! ## Names of at-rules -/

/-- What the name of an at-rule is made of. -/
def isRuleNamePart (c : Char) : Bool := isAsciiLetter c || c == '-'

theorem atRule?_cons (t : Text) : atRule? ('@' :: t) =
    if (t.span isRuleNamePart).1.isEmpty then none
    else some ((t.span isRuleNamePart).1, strip (t.span isRuleNamePart).2) := rfl

theorem atRule?_eq_some_iff {name params : Text} : atRule? t = some (name, params) ↔
    ∃ rest, t = '@' :: (name ++ rest) ∧ name ≠ [] ∧ (∀ c ∈ name, isRuleNamePart c = true) ∧
      (∀ c ∈ rest.head?, isRuleNamePart c = false) ∧ params = strip rest := by
  constructor
  · intro h
    have hat : ∃ t', t = '@' :: t' := by
      unfold atRule? at h
      split at h
      · exact ⟨_, rfl⟩
      · cases h
    obtain ⟨t, rfl⟩ := hat
    rcases hs : t.span isRuleNamePart with ⟨name', rest⟩
    rw [atRule?_cons, hs] at h
    split_ifs at h with hne
    cases h
    obtain ⟨rfl, hname, hrest⟩ := span_eq_iff.1 hs
    exact ⟨rest, rfl, by simpa using hne, hname, hrest, rfl⟩
  · rintro ⟨rest, rfl, hne, hname, hrest, rfl⟩
    have hs : (name ++ rest).span isRuleNamePart = (name, rest) :=
      span_eq_iff.2 ⟨rfl, hname, hrest⟩
    rw [atRule?_cons, hs, if_neg (by simpa using hne)]

end SkinCompiler.Stylesheet
