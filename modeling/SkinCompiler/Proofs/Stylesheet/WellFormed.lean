import SkinCompiler.Proofs.Stylesheet.RoundTrip

/-!
# Well-formed stylesheets

A stylesheet whose selectors, parameters and values are tame is read back as it was written.  A tame
text closes its brackets and quotes and holds none of the marks that readers of stylesheets disagree
about: braces, semicolons, backslashes, backticks and the beginnings of comments.

* `Rule.IsKept.text_sheet` -- what holds of tame texts and of the marks between them, and is kept by
  appending and by braces, holds of the whole text of well-formed rules;
* `areIntact_of_areWellFormed`, `stripComments_write` -- nothing in that text ends a block early or
  begins a comment;
* `read_write` -- a well-formed stylesheet is read back from its text, rule by rule.
-/

namespace SkinCompiler

open Text Stylesheet

variable {t gap tail name params selector : Text} {n depth : Nat} {d : Declaration}
  {ds : List Declaration} {rs : List Rule} {c : Char}

/-! ## Well-formedness -/

/-- The text closes what it opens and holds no brace, semicolon, backslash or backtick and no
beginning of a comment. -/
def Text.IsTame (t : Text) : Prop :=
  isBalanced t = true ∧ (∀ c ∈ t, c ∉ ['\x7b', '\x7d', ';', '\\', '\x60']) ∧
    hasPart "/*" t = false

instance decidableIsTame (t : Text) : Decidable t.IsTame :=
  have := List.decidableBAll (fun c => c ∉ ['\x7b', '\x7d', ';', '\\', '\x60']) t
  inferInstanceAs (Decidable (_ ∧ _))

/-- A property with a stripped value that has no mark of importance of its own. -/
def Declaration.IsWellFormed (d : Declaration) : Prop :=
  IsProperty d.property ∧ d.value ≠ [] ∧ strip d.value = d.value ∧
    endsWith d.value importantMark = false ∧ d.value.IsTame

instance decidableDeclarationIsWellFormed (d : Declaration) : Decidable d.IsWellFormed :=
  inferInstanceAs (Decidable (_ ∧ _))

namespace Rule

/-- A name of letters and hyphens and stripped parameters. -/
def IsWellFormedPrelude (name params : Text) : Prop :=
  IsRuleName name ∧ strip params = params ∧ params.IsTame

/-- A selector without superfluous blanks that is not taken for an at-rule. -/
def IsWellFormedSelector (selector : Text) : Prop :=
  selector ≠ [] ∧ collapse selector = selector ∧ selector.head? ≠ some '@' ∧ selector.IsTame

instance decidableIsWellFormedPrelude (name params : Text) :
    Decidable (IsWellFormedPrelude name params) :=
  inferInstanceAs (Decidable (_ ∧ _))

instance decidableIsWellFormedSelector (selector : Text) :
    Decidable (IsWellFormedSelector selector) :=
  inferInstanceAs (Decidable (_ ∧ _))

mutual

/-- The parts of the rule, and those of the rules inside it, are well formed. -/
def IsWellFormed : Rule → Prop
  | .style selector ds => IsWellFormedSelector selector ∧ ∀ d ∈ ds, d.IsWellFormed
  | .block name params rules => IsWellFormedPrelude name params ∧ AreWellFormed rules
  | .statement name params => IsWellFormedPrelude name params

/-- All rules are well formed. -/
def AreWellFormed : List Rule → Prop
  | [] => True
  | r :: rs => IsWellFormed r ∧ AreWellFormed rs

end

mutual

instance decidableIsWellFormed : (r : Rule) → Decidable (IsWellFormed r)
  | .style selector ds =>
    inferInstanceAs (Decidable (IsWellFormedSelector selector ∧ ∀ d ∈ ds, d.IsWellFormed))
  | .block name params rules =>
    have := decidableAreWellFormed rules
    inferInstanceAs (Decidable (IsWellFormedPrelude name params ∧ AreWellFormed rules))
  | .statement name params => inferInstanceAs (Decidable (IsWellFormedPrelude name params))

instance decidableAreWellFormed : (rs : List Rule) → Decidable (AreWellFormed rs)
  | [] => inferInstanceAs (Decidable True)
  | r :: rs =>
    have := decidableIsWellFormed r
    have := decidableAreWellFormed rs
    inferInstanceAs (Decidable (IsWellFormed r ∧ AreWellFormed rs))

end

/-! ## Well-formed rules are settled -/

theorem settled_declaration (h : d.IsWellFormed) : d.settled = d := by
  obtain ⟨-, -, hstrip, hmark, -⟩ := h
  unfold Declaration.settled
  simp [hstrip, hmark]

mutual

theorem settled_of_isWellFormed (r : Rule) (h : IsWellFormed r) : settled r = r := by
  cases r with
  | style selector ds =>
    obtain ⟨⟨-, hcollapse, -, -⟩, hds⟩ := h
    exact settled_style hcollapse fun d hd => settled_declaration (hds d hd)
  | block name params rules =>
    obtain ⟨⟨-, hstrip, -⟩, hrules⟩ := h
    rw [settled, hstrip, settledAll_of_areWellFormed rules hrules]
  | statement name params =>
    obtain ⟨-, hstrip, -⟩ := h
    rw [settled, hstrip]

theorem settledAll_of_areWellFormed (rs : List Rule) (h : AreWellFormed rs) :
    settledAll rs = rs := by
  cases rs with
  | nil => rfl
  | cons r rs =>
    obtain ⟨hr, hrs⟩ := h
    rw [settledAll, settled_of_isWellFormed r hr, settledAll_of_areWellFormed rs hrs]

end

/-! ## The text of well-formed rules -/

/-- The characters that open, close or escape something or take part in a comment. -/
def loudMarks : List Char :=
  ['\x7b', '\x7d', '\'', '"', '\\', '\x60', '/', '*', '[', '(', ']', ')']

/-- All other characters. -/
def isQuiet (c : Char) : Bool := !loudMarks.contains c

theorem isQuiet_iff : isQuiet c = true ↔ c ∉ loudMarks := by
  unfold isQuiet
  simp

/-- The characters of a class are quiet if no loud one belongs to it. -/
theorem isQuiet_of_class {p : Char → Bool} (hp : loudMarks.all (fun x => !p x) = true)
    (h : p c = true) : isQuiet c = true := by
  rw [isQuiet_iff]
  intro hc
  have := List.all_eq_true.1 hp c hc
  simp [h] at this

theorem isQuiet_of_isBlank (h : isBlank c = true) : isQuiet c = true :=
  isQuiet_of_class (by decide) h

theorem isQuiet_of_isNamePart (h : isNamePart c = true) : isQuiet c = true :=
  isQuiet_of_class (by decide) h

theorem isQuiet_of_isRuleNamePart (h : isRuleNamePart c = true) : isQuiet c = true :=
  isQuiet_of_class (by decide) h

theorem isQuiet_of_blankText (h : isBlankText t = true) : ∀ c ∈ t, isQuiet c = true :=
  fun c hc => isQuiet_of_isBlank (isBlankText_iff.1 h c hc)

/-- Stripped parameters follow the name after a space, and no parameters follow it directly. -/
theorem prelude_eq (hn : IsRuleName name) (hs : strip params = params) :
    prelude name params = '@' :: name ++ if params = [] then [] else ' ' :: params := by
  unfold prelude
  by_cases hp : params = []
  · subst hp
    have hspace : isBlankText [' '] = true := by decide
    have hlast : ∀ c ∈ ('@' :: name).getLast?, isBlank c = false := by
      intro c hc
      rcases List.mem_cons.1 (List.mem_of_getLast? hc) with rfl | hc
      · decide
      · exact isBlank_of_isRuleNamePart (List.all_eq_true.1 hn.2 c hc)
    rw [trimRight_of_blank hspace, trimRight_eq_self hlast]
    simp
  · rw [if_neg hp]
    refine trimRight_eq_self ?_
    intro c hc
    have hends := (strip_ends params).2
    rw [hs] at hends
    rw [Option.mem_def, List.getLast?_append] at hc
    obtain ⟨x, rest, rfl⟩ := List.exists_cons_of_ne_nil hp
    rw [List.getLast?_cons_cons] at hc
    exact hends c hc

/-- A property of texts that quiet texts have, and tame texts before a quiet character, and that
appending and braces keep. -/
structure IsKept (P : Text → Prop) : Prop where
  /-- Two texts that have it make one that has it. -/
  append : ∀ a b, P a → P b → P (a ++ b)
  /-- Quiet texts have it. -/
  quiet : ∀ t, (∀ c ∈ t, isQuiet c = true) → P t
  /-- Tame texts have it with a quiet character after them. -/
  tame : ∀ t c, t.IsTame → isQuiet c = true → P (t ++ [c])
  /-- Braces around a text keep it. -/
  braces : ∀ t, P t → P ('\x7b' :: (t ++ ['\x7d']))

namespace IsKept

variable {P : Text → Prop}

theorem text_declaration (hP : IsKept P) (h : d.IsWellFormed) : P (d.text ++ [';']) := by
  obtain ⟨hproperty, -, -, -, hvalue⟩ := h
  have hname : P (d.property ++ ": ".toList) := by
    refine hP.append _ _ (hP.quiet _ ?_) (hP.quiet _ (List.all_eq_true.1 (by decide)))
    intro c hc
    exact isQuiet_of_isNamePart (hproperty.isNamePart c hc)
  unfold Declaration.text
  cases d.important with
  | false =>
    have htail := hP.append _ _ hname (hP.tame d.value ';' hvalue (by decide))
    simpa using htail
  | true =>
    have hmark : P ("!important;".toList) := hP.quiet _ (List.all_eq_true.1 (by decide))
    have hvalue := hP.append _ _ (hP.tame d.value ' ' hvalue (by decide)) hmark
    have htail := hP.append _ _ hname hvalue
    simpa using htail

theorem text_lines (hP : IsKept P) (hg : isBlankText gap = true) (ht : isBlankText tail = true)
    (h : ∀ d ∈ ds, d.IsWellFormed) : P (linesText gap tail ds) := by
  induction ds with
  | nil => exact hP.quiet _ (isQuiet_of_blankText ht)
  | cons d ds ih =>
    have hfirst := hP.text_declaration (h d List.mem_cons_self)
    have hrest := ih fun x hx => h x (List.mem_cons_of_mem _ hx)
    have hgap : P gap := hP.quiet _ (isQuiet_of_blankText hg)
    rw [linesText_cons]
    have hall := hP.append _ _ (hP.append _ _ hgap hfirst) hrest
    simpa using hall

theorem text_prelude (hP : IsKept P) (h : IsWellFormedPrelude name params) (hc : isQuiet c = true) :
    P (prelude name params ++ [c]) := by
  obtain ⟨hname, hstrip, htamed⟩ := h
  have hquietName : ∀ x ∈ '@' :: name, isQuiet x = true := by
    intro x hx
    rcases List.mem_cons.1 hx with rfl | hx
    · decide
    · exact isQuiet_of_isRuleNamePart (List.all_eq_true.1 hname.2 x hx)
  rw [prelude_eq hname hstrip]
  by_cases hp : params = []
  · rw [if_pos hp, List.append_nil]
    exact hP.append _ _ (hP.quiet _ hquietName) (hP.quiet _ (by simpa using hc))
  · rw [if_neg hp]
    have hlead : P ('@' :: name ++ [' ']) :=
      hP.append _ _ (hP.quiet _ hquietName) (hP.quiet _ (List.all_eq_true.1 (by decide)))
    have hall := hP.append _ _ hlead (hP.tame params c htamed hc)
    simpa using hall

mutual

theorem text_rule (hP : IsKept P) (n depth : Nat) (r : Rule) (h : IsWellFormed r) :
    P (writeAt n depth r) := by
  have hmargin : P (margin n depth) :=
    hP.quiet _ (isQuiet_of_blankText (isBlankText_margin n depth))
  cases r with
  | style selector ds =>
    obtain ⟨⟨-, -, -, hselector⟩, hds⟩ := h
    have hbody : P (styleBody n depth ds) :=
      hP.text_lines (isBlankText_newline n (depth + 1)) (isBlankText_newline n depth) hds
    have hhead := hP.append _ _ hmargin (hP.tame selector ' ' hselector (by decide))
    rw [writeAt_style]
    simpa using hP.append _ _ hhead (hP.braces _ hbody)
  | block name params rules =>
    obtain ⟨hprelude, hrules⟩ := h
    have hbody : P (blockBody n depth rules) :=
      hP.text_sheet n (depth + 1) rfl (isBlankText_newline n depth) rules hrules
    have hhead := hP.append _ _ hmargin (hP.text_prelude hprelude (c := ' ') (by decide))
    rw [writeAt_block]
    simpa using hP.append _ _ hhead (hP.braces _ hbody)
  | statement name params =>
    have hhead := hP.text_prelude h (c := ';') (by decide)
    rw [writeAt_statement]
    simpa using hP.append _ _ hmargin hhead

/-- What is kept by appending and by braces, and holds of tame texts and quiet marks, holds of the
text of well-formed rules. -/
theorem text_sheet (hP : IsKept P) (n depth : Nat) {gap tail : Text} (hg : isBlankText gap = true)
    (ht : isBlankText tail = true) (rs : List Rule) (h : AreWellFormed rs) :
    P (sheetText n depth gap tail rs) := by
  have hgap : P gap := hP.quiet _ (isQuiet_of_blankText hg)
  cases rs with
  | nil =>
    have htail : P tail := hP.quiet _ (isQuiet_of_blankText ht)
    simpa [sheetText, writeRulesAt, join] using hP.append _ _ hgap htail
  | cons r rs =>
    obtain ⟨hr, hrs⟩ := h
    obtain ⟨gap', hg', heq⟩ := sheetText_cons n depth gap tail r rs
    have hfirst := hP.append _ _ hgap (hP.text_rule n depth r hr)
    have hrest := hP.text_sheet n depth hg' ht rs hrs
    rw [heq]
    exact hP.append _ _ hfirst hrest

end

end IsKept

/-! ## The ends of blocks -/

/-- The text leaves what is open outside quotes as it is, whatever stands before it. -/
def IsStill (t : Text) : Prop :=
  '\\' ∉ t ∧ ∀ depth before, before ≠ '\\' → skim depth none before t = some (depth, none)

theorem skim_append (depth : Nat) (quote : Option Char) (before : Char) (a b : Text) :
    skim depth quote before (a ++ b)
      = (skim depth quote before a).bind fun p => skim p.1 p.2 (a.getLast?.getD before) b := by
  induction a generalizing depth quote before with
  | nil => rfl
  | cons c a ih =>
    rw [List.cons_append, skim, skim]
    cases braceStep depth quote before c with
    | none => rfl
    | some p =>
      rw [Option.bind_some, Option.bind_some, ih]
      cases a with
      | nil => rfl
      | cons x a => simp [List.getLast?_cons]

theorem braceStep_of_isQuiet (hc : isQuiet c = true) (depth : Nat) (before : Char) :
    braceStep depth none before c = some (depth, none) := by
  rw [isQuiet_iff] at hc
  simp [loudMarks] at hc
  simp [braceStep, hc]

theorem isStill_of_quiet (h : ∀ c ∈ t, isQuiet c = true) : IsStill t := by
  constructor
  · intro hmem
    exact absurd (h _ hmem) (by decide)
  · intro depth before hbefore
    clear hbefore
    induction t generalizing before with
    | nil => rfl
    | cons c t ih =>
      rw [skim, braceStep_of_isQuiet (h c List.mem_cons_self), Option.bind_some]
      exact ih (fun x hx => h x (List.mem_cons_of_mem _ hx)) c

theorem IsStill.append {a b : Text} (ha : IsStill a) (hb : IsStill b) : IsStill (a ++ b) := by
  constructor
  · intro hmem
    rcases List.mem_append.1 hmem with hmem | hmem
    · exact ha.1 hmem
    · exact hb.1 hmem
  · intro depth before hbefore
    rw [skim_append, ha.2 depth before hbefore, Option.bind_some]
    refine hb.2 depth _ ?_
    cases hlast : a.getLast? with
    | none => exact hbefore
    | some c =>
      rintro rfl
      exact ha.1 (List.mem_of_getLast? hlast)

theorem IsStill.braces (h : IsStill t) : IsStill ('\x7b' :: (t ++ ['\x7d'])) := by
  constructor
  · simpa using h.1
  · intro depth before _
    have hopen : braceStep depth none before '\x7b' = some (depth + 1, none) := rfl
    rw [skim, hopen, Option.bind_some, skim_append, h.2 (depth + 1) '\x7b' (by decide)]
    rfl

/-- Without backslashes, braces and backticks, one more character opens or closes the same quote for
the scope of a text as for the blocks around it. -/
theorem braceStep_of_step {s s' : Scope} (hc : c ∉ ['\x7b', '\x7d', ';', '\\', '\x60'])
    (he : s.escaped = false) (hq : s.quote ≠ some '\x60') (hs : s.step c = some s') (depth : Nat)
    {before : Char} (hb : before ≠ '\\') :
    s'.escaped = false ∧ s'.quote ≠ some '\x60' ∧
      braceStep depth s.quote before c = some (depth, s'.quote) := by
  obtain ⟨closers, quote, escaped⟩ := s
  simp only [List.mem_cons, List.not_mem_nil, or_false, not_or] at hc
  obtain ⟨hopen, hclose, -, hslash, htick⟩ := hc
  dsimp only at he hq ⊢
  subst he
  cases quote with
  | some q =>
    by_cases hcq : c = q
    · subst hcq
      simp [Scope.step, hslash] at hs
      subst hs
      simp [braceStep, hb]
    · simp [Scope.step, hslash, hcq] at hs
      subst hs
      simp [braceStep, hcq] at hq ⊢
      exact hq
  | none =>
    by_cases hquote : c = '\'' ∨ c = '"'
    · have hisQuote : Scope.isQuote c = true := by
        rcases hquote with rfl | rfl <;> decide
      simp [Scope.step, hslash, hisQuote] at hs
      subst hs
      rcases hquote with rfl | rfl <;> simp [braceStep]
    · have hisQuote : Scope.isQuote c = false := by
        simp [Scope.isQuote, htick] at hquote ⊢
        exact hquote
      have hsame : s'.quote = none ∧ s'.escaped = false := by
        simp [Scope.step, hslash, hisQuote] at hs
        repeat' split at hs
        all_goals cases hs
        all_goals exact ⟨rfl, rfl⟩
      rw [not_or] at hquote
      simp [braceStep, hsame, hquote, hopen, hclose]

/-- Without backslashes, braces and backticks, the scope of a text and the blocks around it open and
close the same quotes. -/
theorem skim_of_run {s s' : Scope} (ht : ∀ c ∈ t, c ∉ ['\x7b', '\x7d', ';', '\\', '\x60'])
    (he : s.escaped = false) (hq : s.quote ≠ some '\x60') (hr : s.run t = some s') (depth : Nat)
    (before : Char) (hb : before ≠ '\\') :
    skim depth s.quote before t = some (depth, s'.quote) := by
  induction t generalizing s before with
  | nil =>
    cases hr
    rfl
  | cons c t ih =>
    rw [Scope.run_cons] at hr
    obtain ⟨s₁, hstep, hrest⟩ := Option.bind_eq_some_iff.1 hr
    have hc := ht c List.mem_cons_self
    have hslash : c ≠ '\\' := by
      rintro rfl
      simp at hc
    obtain ⟨he₁, hq₁, hbrace⟩ := braceStep_of_step hc he hq hstep depth hb
    rw [skim, hbrace, Option.bind_some]
    exact ih (fun x hx => ht x (List.mem_cons_of_mem _ hx)) he₁ hq₁ hrest c hslash

theorem isClosed_of_isTame (h : t.IsTame) : t.IsClosed := by
  obtain ⟨hbalanced, hmarks, -⟩ := h
  refine isClosed_of_isBalanced hbalanced ?_
  intro hlast
  exact absurd (by simp) (hmarks _ (List.mem_of_getLast? hlast))

theorem isStill_of_isTame (h : t.IsTame) : IsStill t := by
  have hrun : ({} : Scope).run t = some {} := isClosed_of_isTame h
  obtain ⟨-, hmarks, -⟩ := h
  constructor
  · intro hmem
    exact absurd (by simp) (hmarks _ hmem)
  · intro depth before hbefore
    exact skim_of_run hmarks rfl (by simp) hrun depth before hbefore

theorem isKept_isStill : IsKept IsStill where
  append _ _ ha hb := ha.append hb
  quiet _ h := isStill_of_quiet h
  tame _ _ ht hc := (isStill_of_isTame ht).append (isStill_of_quiet (by simpa using hc))
  braces _ h := h.braces

/-! ## Comments -/

/-- Whether a text ends in a slash, given whether the text before it does; nothing if a comment
begins. -/
def slashAfter : (slash : Bool) → Text → Option Bool
  | slash, [] => some slash
  | slash, c :: t => if slash && c == '*' then none else slashAfter (c == '/') t

theorem slashAfter_append (slash : Bool) (a b : Text) :
    slashAfter slash (a ++ b) = (slashAfter slash a).bind fun s => slashAfter s b := by
  induction a generalizing slash with
  | nil => rfl
  | cons c a ih =>
    rw [List.cons_append, slashAfter, slashAfter]
    split_ifs
    · rfl
    · exact ih (c == '/')

/-- Where no comment begins, nothing is taken out. -/
theorem stripCommentsFrom_eq_self {slash : Bool} (h : slashAfter slash t ≠ none) :
    stripCommentsFrom 0 t = t := by
  induction t generalizing slash with
  | nil => rfl
  | cons c t ih =>
    rw [slashAfter] at h
    split_ifs at h with hc
    · exact absurd rfl h
    · have hrest := ih h
      by_cases hcomment : c = '/' ∧ ∃ rest, t = '*' :: rest
      · obtain ⟨rfl, rest, rfl⟩ := hcomment
        simp [slashAfter] at h
      · rw [stripCommentsFrom, hrest]
        intro rest hslash hstar
        exact hcomment ⟨hslash, rest, hstar⟩

/-- The text begins no comment, whatever is no slash before it, and ends in no slash. -/
def IsCalm (t : Text) : Prop := slashAfter false t = some false

theorem isCalm_of_quiet (h : ∀ c ∈ t, isQuiet c = true) : IsCalm t := by
  unfold IsCalm
  induction t with
  | nil => rfl
  | cons c t ih =>
    have hc := isQuiet_iff.1 (h c List.mem_cons_self)
    have hslash : (c == '/') = false := by
      rw [beq_eq_false_iff_ne]
      rintro rfl
      exact hc (by decide)
    rw [slashAfter, hslash]
    simpa using ih fun x hx => h x (List.mem_cons_of_mem _ hx)

theorem IsCalm.append {a b : Text} (ha : IsCalm a) (hb : IsCalm b) : IsCalm (a ++ b) := by
  unfold IsCalm at *
  rw [slashAfter_append, ha, Option.bind_some, hb]

theorem IsCalm.braces (h : IsCalm t) : IsCalm ('\x7b' :: (t ++ ['\x7d'])) := by
  unfold IsCalm at *
  have hopen : slashAfter false ('\x7b' :: (t ++ ['\x7d'])) = slashAfter false (t ++ ['\x7d']) :=
      rfl
  rw [hopen, slashAfter_append, h]
  rfl

theorem slashAfter_of_hasPart {slash : Bool} (h : hasPart "/*" t = false)
    (hs : slash = true → t.head? ≠ some '*') : slashAfter slash t ≠ none := by
  induction t generalizing slash with
  | nil => simp [slashAfter]
  | cons c t ih =>
    have hsplit : startsWith (c :: t) "/*" = false ∧ hasPart "/*" t = false := by
      simpa [hasPart] using h
    have hno : ¬(slash && c == '*') = true := by
      intro hboth
      simp at hboth
      exact hs hboth.1 (by simp [hboth.2])
    rw [slashAfter, if_neg hno]
    refine ih hsplit.2 ?_
    intro hslash hstar
    obtain ⟨rest, rfl⟩ := List.head?_eq_some_iff.1 hstar
    have hc : c = '/' := by simpa using hslash
    have hstart : startsWith (c :: '*' :: rest) "/*" = true := startsWith_iff.2 ⟨rest, by simp [hc]⟩
    rw [hstart] at hsplit
    simp at hsplit

theorem isCalm_of_isTame (h : t.IsTame) (hc : isQuiet c = true) : IsCalm (t ++ [c]) := by
  obtain ⟨-, -, hpart⟩ := h
  have hscan : slashAfter false t ≠ none := slashAfter_of_hasPart hpart (by simp)
  obtain ⟨slash, hslash⟩ := Option.ne_none_iff_exists'.1 hscan
  have hmark := isQuiet_iff.1 hc
  have hne : c ≠ '/' ∧ c ≠ '*' := by
    constructor <;> rintro rfl <;> exact hmark (by decide)
  unfold IsCalm
  rw [slashAfter_append, hslash, Option.bind_some]
  simp [slashAfter, hne]

theorem isKept_isCalm : IsKept IsCalm where
  append _ _ ha hb := ha.append hb
  quiet _ h := isCalm_of_quiet h
  tame _ _ ht hc := isCalm_of_isTame ht hc
  braces _ h := h.braces

/-! ## Well-formed rules are intact -/

theorem isLegible_of_isWellFormed (h : d.IsWellFormed) : d.IsLegible := by
  have hsettled := settled_declaration h
  obtain ⟨hproperty, hvalue, -, -, htame⟩ := h
  have hplain : ∀ {t : Text}, (∀ c ∈ t, isQuiet c = true) → ';' ∉ t →
      t.IsClosed ∧ Scope.Uncut ';' {} t := by
    intro t ht hsemi
    have hall : ∀ c ∈ t, Scope.isPlain c = true := by
      intro c hc
      have hmark := isQuiet_iff.1 (ht c hc)
      simp [loudMarks] at hmark
      simp [Scope.isPlain_iff, Scope.marks, hmark]
    exact ⟨isClosed_of_plain hall, uncut_of_plain hall hsemi⟩
  have hquiet : ∀ c ∈ d.property ++ ": ".toList, isQuiet c = true := by
    intro c hc
    rcases List.mem_append.1 hc with hc | hc
    · exact isQuiet_of_isNamePart (hproperty.isNamePart c hc)
    · have hcolon : ∀ c ∈ ": ".toList, isQuiet c = true :=
        List.all_eq_true.1 (by decide)
      exact hcolon c hc
  have hsemi : ';' ∉ d.property ++ ": ".toList := by
    intro hmem
    rcases List.mem_append.1 hmem with hmem | hmem
    · exact absurd (hproperty.isNamePart _ hmem) (by decide)
    · exact absurd hmem (by decide)
  obtain ⟨hhead, hheadUncut⟩ := hplain hquiet hsemi
  have hclosed := isClosed_of_isTame htame
  have hvalueUncut : Scope.Uncut ';' {} d.value := by
    refine Scope.uncut_of_not_mem ?_ (by rw [hclosed]; simp)
    intro hmem
    exact absurd (by simp) (htame.2.1 _ hmem)
  have hmark : Text.IsClosed (if d.important then " !important" else "").toList ∧
      Scope.Uncut ';' {} (if d.important then " !important" else "").toList := by
    cases d.important <;> decide
  have hboth : Text.IsClosed (d.property ++ ": ".toList ++ d.value) :=
    (isClosed_append hhead).2 hclosed
  refine ⟨hproperty, by rwa [hsettled], ?_, ?_⟩
  · exact (isClosed_append hboth).2 hmark.1
  · exact (uncut_append_of_closed hboth).2
      ⟨(uncut_append_of_closed hhead).2 ⟨hheadUncut, hvalueUncut⟩, hmark.2⟩

theorem isSelector_of_isWellFormed (h : IsWellFormedSelector selector) : IsSelector selector := by
  obtain ⟨hne, hcollapse, hat, htame⟩ := h
  have hhead : selector.head? = (ink selector).head? := by
    conv_lhs => rw [← hcollapse]
    exact head?_collapse selector
  refine ⟨?_, ?_, ?_⟩
  · intro hmem
    exact absurd (by simp) (htame.2.1 _ hmem)
  · intro hink
    rw [hink] at hhead
    exact hne (List.head?_eq_none_iff.1 hhead)
  · rwa [← hhead]

theorem isPrelude_of_isWellFormed (h : IsWellFormedPrelude name params) :
    IsPrelude name params := by
  obtain ⟨hname, -, htame⟩ := h
  refine ⟨hname, ?_, ?_⟩ <;> intro hmem <;> exact absurd (by simp) (htame.2.1 _ hmem)

theorem fillsBlock_of_isStill (h : IsStill t) : FillsBlock t := h.2 0 '\x7b' (by decide)

mutual

theorem isIntact_of_isWellFormed (n depth : Nat) (r : Rule) (h : IsWellFormed r) :
    IsIntact n depth r := by
  cases r with
  | style selector ds =>
    obtain ⟨hselector, hds⟩ := h
    have hbody : IsStill (styleBody n depth ds) :=
      isKept_isStill.text_lines (isBlankText_newline n (depth + 1))
        (isBlankText_newline n depth) hds
    refine ⟨isSelector_of_isWellFormed hselector, fillsBlock_of_isStill hbody, ?_⟩
    intro d hd
    exact isLegible_of_isWellFormed (hds d hd)
  | block name params rules =>
    obtain ⟨hprelude, hrules⟩ := h
    have hbody : IsStill (blockBody n depth rules) :=
      isKept_isStill.text_sheet n (depth + 1) rfl (isBlankText_newline n depth) rules hrules
    exact ⟨isPrelude_of_isWellFormed hprelude, fillsBlock_of_isStill hbody,
      areIntact_of_areWellFormed n (depth + 1) rules hrules⟩
  | statement name params => exact isPrelude_of_isWellFormed h

/-- Well-formed rules are intact at any depth and with any indentation. -/
theorem areIntact_of_areWellFormed (n depth : Nat) (rs : List Rule) (h : AreWellFormed rs) :
    AreIntact n depth rs := by
  cases rs with
  | nil => trivial
  | cons r rs =>
    obtain ⟨hr, hrs⟩ := h
    exact ⟨isIntact_of_isWellFormed n depth r hr, areIntact_of_areWellFormed n depth rs hrs⟩

end

end Rule

namespace Stylesheet

/-- No comment begins in the text of a well-formed stylesheet. -/
theorem stripComments_write (n : Nat) {s : Stylesheet} (h : Rule.AreWellFormed s) :
    stripComments (write n s) = write n s := by
  obtain ⟨tail, ht, hwrite⟩ := write_eq_sheetText n s
  have hcalm : Rule.IsCalm (write n s) := by
    rw [hwrite]
    exact Rule.isKept_isCalm.text_sheet n 0 rfl ht s h
  have hslash : Rule.slashAfter false (write n s) ≠ none := by
    rw [hcalm]
    simp
  exact Rule.stripCommentsFrom_eq_self hslash

/-- A well-formed stylesheet is read back from its text as it was. -/
theorem read_write (n : Nat) (s : Stylesheet) (h : Rule.AreWellFormed s) :
    read (write n s) = .ok s := by
  have hread := (read_write_iff n s).2
    ⟨stripComments_write n h, Rule.areIntact_of_areWellFormed n 0 s h⟩
  rwa [Rule.settledAll_of_areWellFormed s h] at hread

/-- A statement before nested blocks, one of them empty, with quotes, brackets and a mark of
importance. -/
def nestedSheet : Stylesheet := [
  .statement "import" "url(\"a.css\") screen",
  .block "media" "(width >= 40rem)" [
    .style ".a > [data-b='c d']:hover" [
      { property := "--gap", value := "calc(1rem * 2 / 3)" },
      { property := "color", value := "red", important := true }],
    .block "supports" "(display: grid)" []],
  .style "*" []]

theorem read_write_nestedSheet :
    Rule.AreWellFormed nestedSheet ∧ read (write 4 nestedSheet) = .ok nestedSheet := by
  have h : Rule.AreWellFormed nestedSheet := by decide +kernel
  exact ⟨h, read_write 4 nestedSheet h⟩

end Stylesheet

end SkinCompiler
