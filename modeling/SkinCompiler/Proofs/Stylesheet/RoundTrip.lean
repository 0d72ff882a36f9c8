import SkinCompiler.Proofs.Stylesheet.Rule

/-!
# Stylesheets written and read

Which rules are read back from the text that is written of them.

* `rulesOf_style_iff`, `rulesOf_block_iff`, `rulesOf_statement_iff` -- a single rule and the rules
  after it are read back exactly when the rule is intact and those after it are read back;
* `rulesOf_sheetText_iff` -- rules without comments are read back exactly when all are intact;
* `read_write_iff` -- a stylesheet is read back exactly when its rules are intact and its text has
  no comments.

Reading never adds to the mass of a text, and a rule has the mass of its text.  So a text whose
rules come back cannot have lost anything on the way, which fixes where each block ends.
-/

namespace SkinCompiler

open Text Stylesheet

variable {t gap tail body rest name params selector : Text} {n depth : Nat} {r : Rule}
  {rs rules : List Rule} {ds : List Declaration}

namespace Rule

/-! ## Intact rules -/

/-- The text can head declarations. -/
def IsSelector (selector : Text) : Prop :=
  '\x7b' ∉ selector ∧ ink selector ≠ [] ∧ (ink selector).head? ≠ some '@'

instance decidableIsSelector (selector : Text) : Decidable (IsSelector selector) :=
  inferInstanceAs (Decidable (_ ∧ _))

/-- The name and the parameters can head an at-rule. -/
def IsPrelude (name params : Text) : Prop :=
  IsRuleName name ∧ '\x7b' ∉ params ∧ ';' ∉ params

instance decidableIsPrelude (name params : Text) : Decidable (IsPrelude name params) :=
  inferInstanceAs (Decidable (_ ∧ _))

mutual

/-- The rule `depth` levels deep is written so that its end and its parts are found again. -/
def IsIntact (n depth : Nat) : Rule → Prop
  | .style selector ds =>
    IsSelector selector ∧ FillsBlock (styleBody n depth ds) ∧ ∀ d ∈ ds, d.IsLegible
  | .block name params rules =>
    IsPrelude name params ∧ FillsBlock (blockBody n depth rules) ∧ AreIntact n (depth + 1) rules
  | .statement name params => IsPrelude name params

/-- All rules are intact. -/
def AreIntact (n depth : Nat) : List Rule → Prop
  | [] => True
  | r :: rs => IsIntact n depth r ∧ AreIntact n depth rs

end

mutual

instance decidableIsIntact (n depth : Nat) : (r : Rule) → Decidable (IsIntact n depth r)
  | .style selector ds =>
    have := List.decidableBAll Declaration.IsLegible ds
    inferInstanceAs (Decidable (IsSelector selector ∧ FillsBlock (styleBody n depth ds) ∧
      ∀ d ∈ ds, d.IsLegible))
  | .block name params rules =>
    have := decidableAreIntact n (depth + 1) rules
    inferInstanceAs (Decidable (IsPrelude name params ∧ FillsBlock (blockBody n depth rules) ∧
      AreIntact n (depth + 1) rules))
  | .statement name params => inferInstanceAs (Decidable (IsPrelude name params))

instance decidableAreIntact (n depth : Nat) : (rs : List Rule) → Decidable (AreIntact n depth rs)
  | [] => inferInstanceAs (Decidable True)
  | r :: rs =>
    have := decidableIsIntact n depth r
    have := decidableAreIntact n depth rs
    inferInstanceAs (Decidable (IsIntact n depth r ∧ AreIntact n depth rs))

end

/-- Nothing but the parameters of an at-rule can break its prelude. -/
theorem isPrelude_iff :
    IsPrelude name params ↔ IsRuleName name ∧ '\x7b' ∉ prelude name params ∧
      ';' ∉ prelude name params := by
  have hmem : ∀ c, isBlank c = false → c ≠ '@' → isRuleNamePart c = false → IsRuleName name →
      (c ∈ prelude name params ↔ c ∈ params) := by
    intro c hc ha hp hn
    have hname : c ∉ name := fun h => by simp [List.all_eq_true.1 hn.2 c h] at hp
    have hi : c ∈ prelude name params ↔ c ∈ ink (prelude name params) :=
      (mem_ink_iff.trans (and_iff_left hc)).symm
    rw [hi, ink_prelude, List.mem_cons, List.mem_append, mem_ink_iff, mem_ink_iff]
    simp [ha, hname, hc]
  rw [IsPrelude]
  refine and_congr_right fun hn => ?_
  rw [hmem _ (by decide) (by decide) (by decide) hn, hmem _ (by decide) (by decide) (by decide) hn]

/-! ## The first rule of a text -/

/-- A text that has the mass of its rules begins with the first of them. -/
theorem rulesOf_eq_cons_iff (hm : Text.mass t = massAll (r :: rs)) :
    rulesOf t = .ok (r :: rs) ↔ ∃ rest, First t (some r) rest ∧ rulesOf rest = .ok rs := by
  rw [rulesOf_eq_ok_iff]
  constructor
  · rintro (⟨-, -, h⟩ | ⟨first, rest, rs', hf, hr, h⟩)
    · cases h
    · cases first with
      | none =>
        rw [Option.toList_none, List.nil_append] at h
        rw [← h] at hr
        exact absurd rfl (first_ne_none hf hr (Nat.le_of_eq hm))
      | some r' =>
        rw [Option.toList_some, List.singleton_append, List.cons.injEq] at h
        obtain ⟨rfl, rfl⟩ := h
        exact ⟨rest, hf, hr⟩
  · rintro ⟨rest, hf, hr⟩
    exact Or.inr ⟨_, rest, rs, hf, hr, rfl⟩

theorem not_mem_of_ink {a b : Text} {c : Char} (h : ink a = ink b) (hc : isBlank c = false)
    (hb : c ∉ b) : c ∉ a := fun ha => hb (mem_ink_iff.1 (h ▸ mem_ink_iff.2 ⟨ha, hc⟩)).1

/-- A block is found at one place only if nothing of it and of the rest is to be lost. -/
theorem braces_inj {pre pre' body' rest' : Text}
    (h : pre ++ '\x7b' :: (body ++ '\x7d' :: rest) = pre' ++ '\x7b' :: (body' ++ '\x7d' :: rest'))
    (hb : '\x7b' ∉ pre') (hi : ink pre = ink pre') (hm : Text.mass body ≤ Text.mass body')
    (hr : Text.mass rest ≤ Text.mass rest') : pre = pre' ∧ body = body' ∧ rest = rest' := by
  obtain ⟨hpre, hafter⟩ := append_cons_inj (not_mem_of_ink hi (by decide) hb) hb h
  have hbrace : ∀ a b : Text, Text.mass (a ++ '\x7d' :: b) = Text.mass a + Text.mass b + 1 := by
    intro a b
    rw [mass_append, mass_cons (by decide) (by decide), Nat.add_assoc]
  rcases append_cons_cases hafter with ⟨hbody, -, hrest⟩ | ⟨m, -, hrest⟩ | ⟨m, hbody, -⟩
  · exact ⟨hpre, hbody, hrest⟩
  · rw [hrest, hbrace] at hr
    omega
  · rw [hbody, hbrace] at hm
    omega

/-! ## Single rules -/

theorem mass_writeAt_append (n depth : Nat) (r : Rule) (hg : isBlankText gap = true)
    (hm : Text.mass rest = massAll rs) :
    Text.mass (gap ++ writeAt n depth r ++ rest) = massAll (settled r :: rs) := by
  rw [mass_append, mass_append, mass_of_blank hg, mass_writeAt, hm, massAll, mass_settled,
    Nat.zero_add]

theorem ink_head (hg : isBlankText gap = true) (n depth : Nat) (head : Text) :
    ink (gap ++ (margin n depth ++ head ++ [' '])) = ink head := by
  have hspace : ink [' '] = [] := by decide
  rw [ink_append, ink_append, ink_append, ink_of_blank hg,
    ink_of_blank (isBlankText_margin n depth), hspace, List.append_nil, List.nil_append,
    List.nil_append]

theorem collapse_head (hg : isBlankText gap = true) (n depth : Nat) (head : Text) :
    collapse (gap ++ (margin n depth ++ head ++ [' '])) = collapse head := by
  have hb := isBlankText_append.2 ⟨hg, isBlankText_margin n depth⟩
  rw [← collapse_of_blank hb (b := [' ']) (by decide) head]
  simp

theorem strip_head (hg : isBlankText gap = true) (n depth : Nat) (head : Text) :
    strip (gap ++ (margin n depth ++ head ++ [' '])) = strip head := by
  have hb := isBlankText_append.2 ⟨hg, isBlankText_margin n depth⟩
  rw [← strip_of_blank hb (b := [' ']) (by decide) head]
  simp

theorem not_mem_head {c : Char} (hg : isBlankText gap = true) (hc : isBlank c = false)
    {head : Text} (h : c ∉ head) : c ∉ gap ++ (margin n depth ++ head ++ [' ']) :=
  not_mem_of_ink (ink_head hg n depth head) hc h

/-- A block of declarations and the rules after it are read back exactly when the block is
intact. -/
theorem rulesOf_style_iff (hg : isBlankText gap = true) (hm : Text.mass rest = massAll rs) :
    rulesOf (gap ++ writeAt n depth (.style selector ds) ++ rest)
        = .ok (settled (.style selector ds) :: rs)
      ↔ IsIntact n depth (.style selector ds) ∧ rulesOf rest = .ok rs := by
  have hmass := mass_writeAt_append n depth (.style selector ds) hg hm
  have htext : gap ++ writeAt n depth (.style selector ds) ++ rest
      = gap ++ (margin n depth ++ selector ++ [' ']) ++
        '\x7b' :: (styleBody n depth ds ++ '\x7d' :: rest) := by
    rw [writeAt_style]
    simp
  have hnew := isBlankText_newline n (depth + 1)
  have htail := isBlankText_newline n depth
  rw [rulesOf_eq_cons_iff hmass, htext, settled]
  constructor
  · rintro ⟨rest', hf, hr⟩
    obtain ⟨pre, body, ht, hb, hi, ha, hfill, hsel, hds⟩ := hf.of_style rfl
    have hink : ink selector = ink pre := by rw [← ink_collapse, hsel, ink_collapse]
    have hbody : Text.mass (styleBody n depth ds) ≤ Text.mass body := by
      have hle := mass_declarations_le body
      rw [← hds, SkinCompiler.mass_settled] at hle
      rwa [styleBody, mass_linesText hnew htail]
    have hle := massAll_rulesOf_le hr
    obtain ⟨-, rfl, rfl⟩ := braces_inj ht hb ((ink_head hg n depth selector).trans hink) hbody
      (hm ▸ hle)
    refine ⟨⟨⟨?_, hink ▸ hi, hink ▸ ha⟩, hfill, ?_⟩, hr⟩
    · exact not_mem_of_ink hink (by decide) hb
    · exact (declarations_lines_iff hnew htail).1 hds.symm
  · rintro ⟨⟨⟨hb, hi, ha⟩, hfill, hds⟩, hr⟩
    refine ⟨rest, ?_, hr⟩
    have hink := ink_head hg n depth selector
    have hstyle : First _ _ rest := First.style rfl (not_mem_head hg (by decide) hb)
      (by rwa [hink]) hfill
    rw [hink, if_neg hi, collapse_head hg, styleBody, declarations_linesText hnew htail hds]
      at hstyle
    exact hstyle

/-- A block of rules and the rules after it are read back exactly when the head of the block and
its end are found and the rules inside are read back. -/
theorem rulesOf_block_iff (hg : isBlankText gap = true) (hm : Text.mass rest = massAll rs) :
    rulesOf (gap ++ writeAt n depth (.block name params rules) ++ rest)
        = .ok (settled (.block name params rules) :: rs)
      ↔ IsPrelude name params ∧ FillsBlock (blockBody n depth rules) ∧
        rulesOf (blockBody n depth rules) = .ok (settledAll rules) ∧ rulesOf rest = .ok rs := by
  have hmass := mass_writeAt_append n depth (.block name params rules) hg hm
  have htext : gap ++ writeAt n depth (.block name params rules) ++ rest
      = gap ++ (margin n depth ++ prelude name params ++ [' ']) ++
        '\x7b' :: (blockBody n depth rules ++ '\x7d' :: rest) := by
    rw [writeAt_block]
    simp
  rw [rulesOf_eq_cons_iff hmass, htext, settled]
  constructor
  · rintro ⟨rest', hf, hr⟩
    obtain ⟨pre, body, ht, hb, hs, hfill, hn, hi⟩ := hf.of_block rfl
    obtain ⟨hname, hpre⟩ := of_atRule?_eq hn
    rw [ink_strip, ← ink_prelude] at hpre
    have hbody : Text.mass (blockBody n depth rules) ≤ Text.mass body := by
      have hle := massAll_rulesOf_le hi
      have hbreak : isBlankText "\n" = true := rfl
      rwa [massAll_settledAll, ← mass_sheetText n (depth + 1) hbreak
        (isBlankText_newline n depth) rules] at hle
    have hle := massAll_rulesOf_le hr
    obtain ⟨rfl, rfl, rfl⟩ := braces_inj ht hb
      ((ink_head hg n depth (prelude name params)).trans hpre.symm) hbody (hm ▸ hle)
    refine ⟨isPrelude_iff.2 ⟨hname, fun h => hb ?_, fun h => hs ?_⟩, hfill, hi, hr⟩ <;> simp [h]
  · rintro ⟨hpre, hfill, hi, hr⟩
    refine ⟨rest, ?_, hr⟩
    obtain ⟨hname, hb, hs⟩ := isPrelude_iff.1 hpre
    refine First.block rfl (not_mem_head hg (by decide) hb) (not_mem_head hg (by decide) hs)
      (by rw [ink_head hg, ink_prelude]; rfl) hfill ?_ hi
    rw [strip_head hg, strip_prelude, atRule?_prelude hname]

/-- A statement and the rules after it are read back exactly when the head of the statement is
found. -/
theorem rulesOf_statement_iff (hg : isBlankText gap = true) (hm : Text.mass rest = massAll rs) :
    rulesOf (gap ++ writeAt n depth (.statement name params) ++ rest)
        = .ok (settled (.statement name params) :: rs)
      ↔ IsIntact n depth (.statement name params) ∧ rulesOf rest = .ok rs := by
  have hmass := mass_writeAt_append n depth (.statement name params) hg hm
  have hblank := isBlankText_append.2 ⟨hg, isBlankText_margin n depth⟩
  have htext : gap ++ writeAt n depth (.statement name params) ++ rest
      = gap ++ margin n depth ++ prelude name params ++ ';' :: rest := by
    rw [writeAt_statement]
    simp
  have hink : ink (gap ++ margin n depth ++ prelude name params) = ink (prelude name params) := by
    rw [ink_append, ink_of_blank hblank, List.nil_append]
  rw [rulesOf_eq_cons_iff hmass, htext, settled]
  constructor
  · rintro ⟨rest', hf, hr⟩
    obtain ⟨lead, ht, hs, hb, hn⟩ := hf.of_statement rfl
    obtain ⟨hname, hlead⟩ := of_atRule?_eq hn
    rw [ink_strip, ← ink_prelude, ← hink] at hlead
    obtain ⟨rfl, rfl⟩ := append_cons_inj (not_mem_of_ink hlead.symm (by decide) hs) hs ht
    refine ⟨isPrelude_iff.2 ⟨hname, fun h => hb ?_, fun h => hs ?_⟩, hr⟩ <;> simp [h]
  · rintro ⟨hpre, hr⟩
    refine ⟨rest, ?_, hr⟩
    obtain ⟨hname, hb, hs⟩ := isPrelude_iff.1 hpre
    have hstrip : strip (gap ++ margin n depth ++ prelude name params) = prelude name params := by
      have := strip_of_blank hblank (b := []) rfl (prelude name params)
      rwa [List.append_nil, strip_prelude] at this
    have hstatement : First _ _ rest := First.statement rfl (not_mem_of_ink hink (by decide) hs)
      (not_mem_of_ink hink (by decide) hb) (by rw [hink, ink_prelude]; rfl)
    rw [hstrip, atRule?_prelude hname] at hstatement
    exact hstatement

/-! ## All rules -/

theorem rulesOf_of_blank (h : isBlankText t = true) : rulesOf t = .ok [] := by
  have hink : ink t = [] := ink_of_blank h
  have hno : ∀ c, isBlank c = false → c ∉ t := fun c hc =>
    not_mem_of_ink (b := []) hink hc List.not_mem_nil
  exact rulesOf_eq_ok_iff.2 (Or.inl ⟨hno _ (by decide), fun h => hno _ (by decide) h.1, rfl⟩)

mutual

theorem rulesOf_writeAt_iff {n depth : Nat} {gap rest : Text} {rs : List Rule}
    (hg : isBlankText gap = true) (hm : Text.mass rest = massAll rs) (r : Rule) :
    rulesOf (gap ++ writeAt n depth r ++ rest) = .ok (settled r :: rs)
      ↔ IsIntact n depth r ∧ rulesOf rest = .ok rs := by
  cases r with
  | style selector ds => exact rulesOf_style_iff hg hm
  | block name params rules =>
    have hbreak : isBlankText "\n" = true := rfl
    rw [rulesOf_block_iff hg hm, IsIntact, blockBody,
      rulesOf_sheetText_iff hbreak (isBlankText_newline n depth) rules]
    tauto
  | statement name params => exact rulesOf_statement_iff hg hm

/-- Rules without comments are read back exactly when all of them are intact. -/
theorem rulesOf_sheetText_iff {n depth : Nat} {gap tail : Text} (hg : isBlankText gap = true)
    (ht : isBlankText tail = true) (rs : List Rule) :
    rulesOf (sheetText n depth gap tail rs) = .ok (settledAll rs) ↔ AreIntact n depth rs := by
  cases rs with
  | nil =>
    rw [AreIntact, iff_true, sheetText]
    exact rulesOf_of_blank
      (isBlankText_append.2 ⟨isBlankText_append.2 ⟨hg, rfl⟩, ht⟩)
  | cons r rs =>
    obtain ⟨gap', hg', heq⟩ := sheetText_cons n depth gap tail r rs
    have hm : Text.mass (sheetText n depth gap' tail rs) = massAll (settledAll rs) := by
      rw [mass_sheetText n depth hg' ht, massAll_settledAll]
    rw [heq, settledAll, rulesOf_writeAt_iff hg hm r, rulesOf_sheetText_iff hg' ht rs, AreIntact]

end

end Rule

/-! ## Comments -/

namespace Stylesheet

theorem stripCommentsFrom_zero (c : Char) (t : Text) :
    stripCommentsFrom 0 (c :: t) = c :: stripCommentsFrom 0 t ∨
      c = '/' ∧ ∃ k, stripCommentsFrom 0 (c :: t) = stripCommentsFrom k t := by
  by_cases h : c = '/' ∧ ∃ rest, t = '*' :: rest
  · obtain ⟨rfl, rest, rfl⟩ := h
    rw [stripCommentsFrom]
    cases commentLength? rest with
    | none => exact Or.inl rfl
    | some n => exact Or.inr ⟨rfl, n + 1, rfl⟩
  · rw [stripCommentsFrom]
    · exact Or.inl rfl
    · intro rest hc ht
      exact h ⟨hc, rest, ht⟩

/-- A comment has mass of its own. -/
theorem mass_stripCommentsFrom (k : Nat) (t : Text) :
    mass (stripCommentsFrom k t) ≤ mass t ∧
      (k = 0 → stripCommentsFrom k t = t ∨ mass (stripCommentsFrom k t) < mass t) := by
  induction t generalizing k with
  | nil => cases k <;> simp [stripCommentsFrom]
  | cons c t ih =>
    have hcons : ∀ t, mass (c :: t) = mass [c] + mass t := fun t => mass_append (a := [c])
    cases k with
    | succ k =>
      have := (ih k).1
      rw [stripCommentsFrom, hcons]
      exact ⟨by omega, by simp⟩
    | zero =>
      rcases stripCommentsFrom_zero c t with h | ⟨rfl, k, h⟩
      · obtain ⟨hle, heq⟩ := ih 0
        rw [h, hcons t, hcons (stripCommentsFrom 0 t)]
        refine ⟨by omega, fun _ => (heq rfl).imp (fun h => by rw [h]) fun h => by omega⟩
      · have := (ih k).1
        rw [h, mass_cons (by decide) (by decide)]
        exact ⟨by omega, fun _ => Or.inr (by omega)⟩

theorem stripComments_eq_or (t : Text) :
    stripComments t = t ∨ mass (stripComments t) < mass t :=
  (mass_stripCommentsFrom 0 t).2 rfl

/-! ## Stylesheets -/

theorem write_eq_sheetText (n : Nat) (s : Stylesheet) : ∃ tail, isBlankText tail = true ∧
    write n s = Rule.sheetText n 0 [] tail s := by
  by_cases h : (writeRules n s).isEmpty
  · refine ⟨[], rfl, ?_⟩
    rw [write, if_pos h, Rule.sheetText, List.append_nil, List.nil_append]
    exact (List.isEmpty_iff.1 h).symm
  · refine ⟨['\n'], rfl, ?_⟩
    rw [write, if_neg h]
    rfl

/-- A stylesheet is read back exactly when its text has no comments and all its rules are
intact. -/
theorem read_write_iff (n : Nat) (s : Stylesheet) : read (write n s) = .ok (Rule.settledAll s) ↔
    stripComments (write n s) = write n s ∧ Rule.AreIntact n 0 s := by
  obtain ⟨tail, ht, hw⟩ := write_eq_sheetText n s
  have hm : mass (write n s) = Rule.massAll (Rule.settledAll s) := by
    rw [hw, Rule.mass_sheetText n 0 rfl ht, Rule.massAll_settledAll]
  rw [read_eq]
  rcases stripComments_eq_or (write n s) with hs | hs
  · rw [hs, hw, Rule.rulesOf_sheetText_iff rfl ht s]
    tauto
  · refine iff_of_false (fun h => ?_) fun h => ?_
    · have hle := Rule.massAll_rulesOf_le h
      omega
    · rw [h.1] at hs
      omega

end Stylesheet

end SkinCompiler
