import SkinCompiler.Proofs.Candidate.Balance
import SkinCompiler.Proofs.Stylesheet.WellFormed

/-!
# Quoted strings in stylesheets

A stylesheet whose selectors, parameters and values hold quoted strings, and what is read of it.  The
end of a block and the declarations in it are looked for outside strings.  Comments, the brace after a
head and the semicolon after a statement are looked for everywhere, so a string can hide a rule, end
it too early or lose a part of itself.

* `Text.HasStrings` -- a text and what is left of it without its strings;
* `Text.HasStrings.run`, `Text.HasStrings.uncut`, `Text.HasStrings.skim` -- strings neither open nor
  close nor separate anything;
* `Stylesheet.Spells` -- how rules may be written, with any blanks and any strings;
* `Stylesheet.read_spelled_iff` -- spelled rules are read back exactly when no string of a selector
  or of parameters has a mark that ends a head, and no comment stands anywhere.
-/

namespace SkinCompiler

open Text Stylesheet

variable {t bare body gap name params head v : Text} {p a : Text} {d : Declaration}
  {ds : List Declaration} {r : Rule} {rs : List Rule} {s s' : Scope} {c q sep : Char}

/-! ## Texts with strings -/

/-- A text with quoted strings in it, and what is left of it without them.  A string holds neither
its own quote nor a backslash.  Outside strings, only they begin with a quote. -/
inductive Text.HasStrings : Text → Text → Prop where
  /-- The empty text. -/
  | nil : HasStrings [] []
  /-- A character outside strings. -/
  | char {c : Char} {t bare : Text} (hc : c ∉ ['\\', '\'', '"', '\x60']) (h : HasStrings t bare) :
    HasStrings (c :: t) (c :: bare)
  /-- An escaped character outside strings. -/
  | escape {c : Char} {t bare : Text} (hc : c ∉ ['\'', '"']) (h : HasStrings t bare) :
    HasStrings ('\\' :: c :: t) ('\\' :: c :: bare)
  /-- A string. -/
  | string {q : Char} {body t bare : Text} (hq : q ∈ ['\'', '"']) (hquote : q ∉ body)
    (hslash : '\\' ∉ body) (h : HasStrings t bare) : HasStrings (q :: (body ++ q :: t)) bare

theorem quoted_append (q : Char) (body t : Text) :
    q :: (body ++ q :: t) = q :: (body ++ [q]) ++ t := by simp

theorem mem_quotes_of_mem (hq : q ∈ ['\'', '"']) : q ∈ Scope.quotes := by
  rcases List.mem_cons.1 hq with rfl | hq
  · decide
  · rw [List.mem_singleton.1 hq]
    decide

theorem quotedBody_of_not_mem (hquote : q ∉ body) (hslash : '\\' ∉ body) : QuotedBody q body := by
  induction body with
  | nil => exact .nil
  | cons c body ih =>
    rw [List.mem_cons, not_or] at hquote hslash
    exact .char (Ne.symm hquote.1) (Ne.symm hslash.1) (ih hquote.2 hslash.2)

namespace Scope

/-- Neither a quote nor a backslash changes what the next character is taken for. -/
theorem step_outside (hc : c ∉ ['\\', '\'', '"', '\x60']) (hq : s.quote = none)
    (he : s.escaped = false) (hs : s.step c = some s') : s'.quote = none ∧ s'.escaped = false := by
  simp only [List.mem_cons, List.not_mem_nil, or_false, not_or] at hc
  cases step_eq_some_iff.1 hs with
  | escaped => cases he
  | backslash => exact absurd rfl hc.1
  | inside => cases hq
  | unquote => cases hq
  | quote k hmem =>
    simp only [quotes, List.mem_cons, List.not_mem_nil, or_false] at hmem
    exact absurd hmem (by tauto)
  | opening => exact ⟨rfl, rfl⟩
  | closing => exact ⟨rfl, rfl⟩
  | plain => exact ⟨rfl, rfl⟩

/-- Nothing is cut inside a string. -/
theorem uncut_string {k : List Char} (hq : q ∈ quotes) (hbody : QuotedBody q body) :
    Uncut sep ⟨k, some q, false⟩ (body ++ [q]) := by
  have hcut : ∀ e x, cutsAt ⟨k, some q, e⟩ x = false := by
    intro e x
    simp [cutsAt]
  induction hbody with
  | nil =>
    rw [List.nil_append, uncut_cons (step_eq_some_iff.2 (.unquote k (ne_backslash_of_mem_quotes hq))),
      hcut]
    exact ⟨by simp, uncut_nil ..⟩
  | char hne hc _ ih =>
    rw [List.cons_append, uncut_cons (step_eq_some_iff.2 (.inside k hc hne)), hcut]
    exact ⟨by simp, ih⟩
  | escape c _ ih =>
    rw [List.cons_append, List.cons_append, uncut_cons (step_eq_some_iff.2 (.backslash ..)),
      uncut_cons (step_eq_some_iff.2 (.escaped ..)), hcut, hcut]
    exact ⟨by simp, by simp, ih⟩

end Scope

theorem run_string (hq : q ∈ ['\'', '"']) (hquote : q ∉ body) (hslash : '\\' ∉ body)
    (k : List Char) : Scope.run ⟨k, none, false⟩ (q :: (body ++ [q])) = some ⟨k, none, false⟩ := by
  have hmem := mem_quotes_of_mem hq
  rw [Scope.run_cons, Scope.step_eq_some_iff.2 (.quote k hmem), Option.bind_some, Scope.run_append,
    (quotedBody_of_not_mem hquote hslash).run k, Option.bind_some, Scope.run_cons,
    Scope.step_eq_some_iff.2 (.unquote k (ne_backslash_of_mem_quotes hmem)), Option.bind_some,
    Scope.run_nil]

/-- A string leaves the blocks around it as they are. -/
theorem skim_string (hq : q ∈ ['\'', '"']) (hquote : q ∉ body) (hslash : '\\' ∉ body)
    (depth : Nat) (before : Char) :
    skim depth none before (q :: (body ++ [q])) = some (depth, none) := by
  have hopen : braceStep depth none before q = some (depth, some q) := by
    simp only [List.mem_cons, List.not_mem_nil, or_false] at hq
    rcases hq with rfl | rfl <;> rfl
  have hne : q ≠ '\\' := ne_backslash_of_mem_quotes (mem_quotes_of_mem hq)
  -- the character before matters for the closing quote only
  have hinside : ∀ before, before ≠ '\\' →
      skim depth (some q) before (body ++ [q]) = some (depth, none) := by
    clear hopen
    induction body with
    | nil =>
      intro before hbefore
      simp [skim, braceStep, hbefore]
    | cons c body ih =>
      intro before hbefore
      rw [List.mem_cons, not_or] at hquote hslash
      have hstep : braceStep depth (some q) before c = some (depth, some q) := by
        simp [braceStep, Ne.symm hquote.1]
      rw [List.cons_append, skim, hstep, Option.bind_some]
      exact ih hquote.2 hslash.2 c (Ne.symm hslash.1)
  rw [skim, hopen, Option.bind_some]
  exact hinside q hne

/-- Outside strings the character before another one does not matter. -/
theorem skim_cons_outside (hc : c ∉ ['\'', '"'])
    (h : ∀ depth, skim depth none c t = skim depth none c bare) (depth : Nat)
    (before before' : Char) :
    skim depth none before (c :: t) = skim depth none before' (c :: bare) := by
  have hstep : braceStep depth none before c = braceStep depth none before' c := rfl
  simp only [List.mem_cons, List.not_mem_nil, or_false, not_or] at hc
  rw [skim, skim, hstep]
  cases hb : braceStep depth none before' c with
  | none => rfl
  | some p =>
    have hquote : p.2 = none := by
      simp only [braceStep, hc, beq_iff_eq, or_self, if_false, Bool.or_eq_true] at hb
      split_ifs at hb
      · cases hb
        rfl
      · cases depth <;> cases hb
        rfl
      · cases hb
        rfl
    rw [Option.bind_some, Option.bind_some, hquote]
    exact h p.1

namespace Text.HasStrings

theorem run (h : HasStrings t bare) (k : List Char) :
    Scope.run ⟨k, none, false⟩ t = Scope.run ⟨k, none, false⟩ bare := by
  induction h generalizing k with
  | nil => rfl
  | @char c t bare hc _ ih =>
    rw [Scope.run_cons, Scope.run_cons]
    cases hs : Scope.step ⟨k, none, false⟩ c with
    | none => rfl
    | some s' =>
      obtain ⟨k', quote, escaped⟩ := s'
      obtain ⟨rfl, rfl⟩ : quote = none ∧ escaped = false := Scope.step_outside hc rfl rfl hs
      exact ih k'
  | escape _ _ ih => exact ih k
  | @string q body t bare hq hquote hslash _ ih =>
    rw [quoted_append, Scope.run_append, run_string hq hquote hslash, Option.bind_some]
    exact ih k

theorem uncut (h : HasStrings t bare) (k : List Char)
    (hr : Scope.run ⟨k, none, false⟩ bare ≠ none) (hu : Scope.Uncut sep ⟨k, none, false⟩ bare) :
    Scope.Uncut sep ⟨k, none, false⟩ t := by
  induction h generalizing k with
  | nil => exact hu
  | @char c t bare hc _ ih =>
    rw [Scope.run_cons] at hr
    cases hs : Scope.step ⟨k, none, false⟩ c with
    | none =>
      rw [hs] at hr
      exact absurd rfl hr
    | some s' =>
      obtain ⟨k', quote, escaped⟩ := s'
      obtain ⟨rfl, rfl⟩ : quote = none ∧ escaped = false := Scope.step_outside hc rfl rfl hs
      rw [hs] at hr
      rw [Scope.uncut_cons hs] at hu ⊢
      exact ⟨hu.1, ih k' hr hu.2⟩
  | escape _ _ ih =>
    rw [Scope.uncut_cons (Scope.step_eq_some_iff.2 (.backslash ..)),
      Scope.uncut_cons (Scope.step_eq_some_iff.2 (.escaped ..))] at hu ⊢
    exact ⟨hu.1, hu.2.1, ih k hr hu.2.2⟩
  | @string q body t bare hq hquote hslash _ ih =>
    have hmem := mem_quotes_of_mem hq
    have hbody := quotedBody_of_not_mem hquote hslash
    have hplain : Scope.isPlain q = false := by
      rw [← Bool.not_eq_true, Scope.isPlain_iff]
      simp only [List.mem_cons, List.not_mem_nil, or_false] at hq
      rcases hq with rfl | rfl <;> decide
    rw [quoted_append, Scope.uncut_append (run_string hq hquote hslash k),
      Scope.uncut_cons (Scope.step_eq_some_iff.2 (.quote k hmem))]
    refine ⟨⟨?_, Scope.uncut_string hmem hbody⟩, ih k hr hu⟩
    rintro ⟨-, hcut⟩
    rw [Scope.cutsAt_iff, hplain] at hcut
    simp at hcut

theorem skim (h : HasStrings t bare) (depth : Nat) (before before' : Char) :
    skim depth none before t = skim depth none before' bare := by
  induction h generalizing depth before before' with
  | nil => rfl
  | char hc _ ih =>
    refine skim_cons_outside ?_ (fun depth => ih depth _ _) depth before before'
    intro hmem
    exact hc (List.mem_cons_of_mem _ (List.mem_append_left ['\x60'] hmem))
  | escape hc _ ih =>
    refine skim_cons_outside (by decide) (fun depth => ?_) depth before before'
    exact skim_cons_outside hc (fun depth => ih depth _ _) depth _ _
  | @string q body t bare hq hquote hslash _ ih =>
    rw [quoted_append, Rule.skim_append, skim_string hq hquote hslash, Option.bind_some]
    exact ih depth _ before'

end Text.HasStrings

namespace Stylesheet

/-! ## Parts of a block -/

/-- The text leaves nothing open in a block and no semicolon separates anything in it. -/
structure IsPart (t : Text) : Prop where
  /-- No bracket and no quote stays open. -/
  closed : t.IsClosed
  /-- The text is one segment. -/
  uncut : Scope.Uncut ';' {} t
  /-- No block is closed or left open. -/
  fills : ∀ before, skim 0 none before t = some (0, none)

theorem IsPart.append {a b : Text} (ha : IsPart a) (hb : IsPart b) : IsPart (a ++ b) where
  closed := (isClosed_append ha.closed).2 hb.closed
  uncut := (uncut_append_of_closed ha.closed).2 ⟨ha.uncut, hb.uncut⟩
  fills before := by
    rw [Rule.skim_append, ha.fills, Option.bind_some]
    exact hb.fills _

theorem skim_of_isQuiet (h : ∀ c ∈ t, Rule.isQuiet c = true) (before : Char) :
    skim 0 none before t = some (0, none) := by
  induction t generalizing before with
  | nil => rfl
  | cons c t ih =>
    rw [skim, Rule.braceStep_of_isQuiet (h c List.mem_cons_self), Option.bind_some]
    exact ih (fun x hx => h x (List.mem_cons_of_mem _ hx)) c

theorem isPart_of_isQuiet (h : ∀ c ∈ t, Rule.isQuiet c = true) (hs : ';' ∉ t) : IsPart t := by
  have hplain : ∀ c ∈ t, Scope.isPlain c = true := by
    intro c hc
    have hmark := Rule.isQuiet_iff.1 (h c hc)
    simp [Rule.loudMarks] at hmark
    simp [Scope.isPlain_iff, Scope.marks, hmark]
  exact ⟨isClosed_of_plain hplain, uncut_of_plain hplain hs, skim_of_isQuiet h⟩

theorem isPart_of_blank (h : isBlankText gap = true) : IsPart gap := by
  refine isPart_of_isQuiet (Rule.isQuiet_of_blankText h) ?_
  intro hmem
  exact absurd (isBlankText_iff.1 h _ hmem) (by decide)

theorem isPart_of_isProperty (h : IsProperty p) : IsPart p := by
  refine isPart_of_isQuiet (fun c hc => Rule.isQuiet_of_isNamePart (h.isNamePart c hc)) ?_
  intro hmem
  exact absurd (h.isNamePart _ hmem) (by decide)

/-- A text with strings is a part of a block if it is one without them. -/
theorem isPart_of_hasStrings (h : HasStrings t bare) (hb : IsPart bare) : IsPart t where
  closed := (h.run []).trans hb.closed
  uncut := by
    refine h.uncut [] ?_ hb.uncut
    have hclosed : Scope.run {} bare = some {} := hb.closed
    rw [hclosed]
    simp
  fills before := (h.skim 0 before before).trans (hb.fills before)

/-! ## Spelled declarations -/

/-- A value without blanks around it.  Without its strings, it leaves nothing open and no semicolon
separates anything in it. -/
def IsValue (v : Text) : Prop :=
  v ≠ [] ∧ strip v = v ∧ ∃ bare, HasStrings v bare ∧ IsPart bare

/-- The text spells the declaration. -/
inductive SpellsDeclaration : Text → Declaration → Prop where
  /-- A property, a colon and a value, with blanks around them. -/
  | normal {g₁ p g₂ g₃ v g₄ : Text} (hp : IsProperty p) (hv : IsValue v)
    (hm : endsWith v importantMark = false) (h₁ : isBlankText g₁ = true)
    (h₂ : isBlankText g₂ = true) (h₃ : isBlankText g₃ = true) (h₄ : isBlankText g₄ = true) :
    SpellsDeclaration (g₁ ++ p ++ g₂ ++ ':' :: (g₃ ++ v ++ g₄)) { property := p, value := v }
  /-- The same, and a mark of importance after the value. -/
  | important {g₁ p g₂ g₃ v g₄ g₅ : Text} (hp : IsProperty p) (hv : IsValue v)
    (h₁ : isBlankText g₁ = true) (h₂ : isBlankText g₂ = true) (h₃ : isBlankText g₃ = true)
    (h₄ : isBlankText g₄ = true) (h₅ : isBlankText g₅ = true) :
    SpellsDeclaration (g₁ ++ p ++ g₂ ++ ':' :: (g₃ ++ (v ++ g₄ ++ importantMark) ++ g₅))
      { property := p, value := v, important := true }

theorem property?_spelled {g₁ g₂ rest : Text} (hp : IsProperty p) (h₁ : isBlankText g₁ = true)
    (h₂ : isBlankText g₂ = true) :
    property? (trimLeft isBlank (g₁ ++ p ++ g₂ ++ ':' :: rest)) = some (p, g₂ ++ ':' :: rest) := by
  have hhead : ∀ c ∈ (p ++ (g₂ ++ ':' :: rest)).head?, isBlank c = false := by
    obtain ⟨c, name, rfl⟩ := List.exists_cons_of_ne_nil hp.ne_nil
    rintro x ⟨rfl⟩
    exact isBlank_of_isNamePart (hp.isNamePart c List.mem_cons_self)
  have hafter : ∀ c ∈ (g₂ ++ ':' :: rest).head?, isNamePart c = false := by
    cases g₂ with
    | nil =>
      rintro x ⟨rfl⟩
      decide
    | cons c g₂ =>
      rintro x ⟨rfl⟩
      by_contra hname
      have hblank := isBlankText_iff.1 h₂ c List.mem_cons_self
      rw [isBlank_of_isNamePart (by simpa using hname)] at hblank
      cases hblank
  rw [List.append_assoc, List.append_assoc, trimLeft_of_blank h₁, trimLeft_eq_self hhead]
  obtain ⟨hyphens, c, name, hh, hc, hall, rfl⟩ := isProperty_iff.1 hp
  exact property?_eq_some_iff.2 ⟨hyphens, c, name, hh, hc, hall, hafter, rfl, by simp⟩

theorem trimLeft_colon {g₂ rest : Text} (h₂ : isBlankText g₂ = true) :
    trimLeft isBlank (g₂ ++ ':' :: rest) = ':' :: rest := by
  rw [trimLeft_of_blank h₂]
  refine trimLeft_eq_self ?_
  rintro x ⟨rfl⟩
  decide

/-- The last character of a mark of importance is not blank, nor is the first one of a value. -/
theorem strip_marked {g : Text} (hne : v ≠ []) (hv : strip v = v) :
    strip (v ++ g ++ importantMark) = v ++ g ++ importantMark := by
  refine strip_eq_self ?_ ?_
  · obtain ⟨c, v, rfl⟩ := List.exists_cons_of_ne_nil hne
    have hends := (strip_ends (c :: v)).1
    rw [hv] at hends
    rintro x ⟨rfl⟩
    exact hends c rfl
  · rw [List.getLast?_append]
    rintro x ⟨rfl⟩
    decide

/-- A spelled declaration is read. -/
theorem declaration?_of_spells (h : SpellsDeclaration t d) : declaration? t = some d := by
  cases h with
  | @normal g₁ p g₂ g₃ v g₄ hp hv hm h₁ h₂ h₃ h₄ =>
    obtain ⟨hne, hstrip, -⟩ := hv
    rw [declaration?, property?_spelled hp h₁ h₂]
    simp only [trimLeft_colon h₂, strip_of_blank h₃ h₄, hstrip, hm, List.isEmpty_iff, hne,
      Bool.false_eq_true, if_false]
  | @important g₁ p g₂ g₃ v g₄ g₅ hp hv h₁ h₂ h₃ h₄ h₅ =>
    obtain ⟨hne, hstrip, -⟩ := hv
    have hends : endsWith (v ++ g₄ ++ importantMark) importantMark = true :=
      endsWith_iff.2 ⟨v ++ g₄, rfl⟩
    have htrim : trimRight isBlank (v ++ g₄) = v := by
      rw [trimRight_of_blank h₄]
      refine trimRight_eq_self ?_
      have hlast := (strip_ends v).2
      rwa [hstrip] at hlast
    rw [declaration?, property?_spelled hp h₁ h₂]
    simp only [trimLeft_colon h₂, strip_of_blank h₃ h₅, strip_marked hne hstrip, hends, if_true,
      Declaration.take_append_mark, htrim, List.isEmpty_iff, hne, if_false]

/-- A spelled declaration is a part of a block. -/
theorem isPart_of_spells (h : SpellsDeclaration t d) : IsPart t := by
  have hcolon : IsPart [':'] := isPart_of_isQuiet (List.all_eq_true.1 (by decide)) (by decide)
  have hmark : IsPart importantMark :=
    isPart_of_isQuiet (List.all_eq_true.1 (by decide)) (by decide)
  have hfront : ∀ {g₁ p g₂ : Text}, IsProperty p → isBlankText g₁ = true →
      isBlankText g₂ = true → IsPart (g₁ ++ p ++ g₂ ++ [':']) := by
    intro g₁ p g₂ hp h₁ h₂
    exact (((isPart_of_blank h₁).append (isPart_of_isProperty hp)).append
      (isPart_of_blank h₂)).append hcolon
  cases h with
  | @normal g₁ p g₂ g₃ v g₄ hp hv hm h₁ h₂ h₃ h₄ =>
    obtain ⟨-, -, bare, hbare, hpart⟩ := hv
    have hback := ((isPart_of_blank h₃).append (isPart_of_hasStrings hbare hpart)).append
      (isPart_of_blank h₄)
    have hall := (hfront hp h₁ h₂).append hback
    rwa [List.append_assoc _ [':']] at hall
  | @important g₁ p g₂ g₃ v g₄ g₅ hp hv h₁ h₂ h₃ h₄ h₅ =>
    obtain ⟨-, -, bare, hbare, hpart⟩ := hv
    have hmarked := ((isPart_of_hasStrings hbare hpart).append (isPart_of_blank h₄)).append hmark
    have hback := ((isPart_of_blank h₃).append hmarked).append (isPart_of_blank h₅)
    have hall := (hfront hp h₁ h₂).append hback
    rwa [List.append_assoc _ [':']] at hall

/-! ## Spelled blocks -/

/-- The text spells the declarations: each in a segment of its own, and segments may be blank. -/
inductive SpellsBlock : Text → List Declaration → Prop where
  /-- Blanks and nothing more. -/
  | blank {gap : Text} (hg : isBlankText gap = true) : SpellsBlock gap []
  /-- A declaration without a semicolon after it. -/
  | last {t : Text} {d : Declaration} (hd : SpellsDeclaration t d) : SpellsBlock t [d]
  /-- A semicolon too many. -/
  | skip {gap t : Text} {ds : List Declaration} (hg : isBlankText gap = true)
    (h : SpellsBlock t ds) : SpellsBlock (gap ++ ';' :: t) ds
  /-- A declaration, and others after its semicolon. -/
  | cons {a t : Text} {d : Declaration} {ds : List Declaration} (hd : SpellsDeclaration a d)
    (h : SpellsBlock t ds) : SpellsBlock (a ++ ';' :: t) (d :: ds)

theorem declarations_of_uncut (h : Scope.Uncut ';' {} t) :
    declarations t = (declaration? t).toList := by
  rw [declarations, segments_of_uncut h, List.filterMap_cons, List.filterMap_nil]
  cases declaration? t <;> rfl

/-- The declarations of two texts with a semicolon between them. -/
theorem declarations_part (ha : IsPart a) (t : Text) :
    declarations (a ++ ';' :: t) = declarations a ++ declarations t := by
  rw [declarations_append_cons ha.closed ha.uncut, declarations_of_uncut ha.uncut]

theorem declarations_of_spellsDeclaration (h : SpellsDeclaration t d) : declarations t = [d] := by
  rw [declarations_of_uncut (isPart_of_spells h).uncut, declaration?_of_spells h]
  rfl

/-- The declarations of a spelled block are read. -/
theorem declarations_of_spells (h : SpellsBlock t ds) : declarations t = ds := by
  induction h with
  | blank hg => exact declarations_of_blank hg
  | last hd => exact declarations_of_spellsDeclaration hd
  | skip hg _ ih => rw [declarations_part (isPart_of_blank hg), declarations_of_blank hg, ih]; rfl
  | cons hd _ ih =>
    rw [declarations_part (isPart_of_spells hd), declarations_of_spellsDeclaration hd, ih]
    rfl

theorem skim_semicolon (ha : IsPart a) (ht : ∀ before, skim 0 none before t = some (0, none))
    (before : Char) : skim 0 none before (a ++ ';' :: t) = some (0, none) := by
  rw [Rule.skim_append, ha.fills, Option.bind_some, skim,
    Rule.braceStep_of_isQuiet (by decide), Option.bind_some]
  exact ht ';'

/-- A spelled block ends at the brace after it. -/
theorem fillsBlock_of_spells (h : SpellsBlock t ds) : FillsBlock t := by
  have hall : ∀ before, skim 0 none before t = some (0, none) := by
    induction h with
    | blank hg => exact (isPart_of_blank hg).fills
    | last hd => exact (isPart_of_spells hd).fills
    | skip hg _ ih => exact skim_semicolon (isPart_of_blank hg) ih
    | cons hd _ ih => exact skim_semicolon (isPart_of_spells hd) ih
  exact hall _

theorem mass_of_spellsBlock (h : SpellsBlock t ds) :
    mass t = mass (ds.flatMap Declaration.text) := by
  have hone : ∀ {t d}, SpellsDeclaration t d → mass t = mass d.text := by
    intro t d hd
    exact mass_of_ink (Declaration.ink_of_declaration? (declaration?_of_spells hd)).1
  induction h with
  | blank hg => exact mass_of_blank hg
  | last hd => simpa using hone hd
  | skip hg _ ih => rw [mass_append, mass_cons_semicolon, mass_of_blank hg, ih, Nat.zero_add]
  | cons hd _ ih =>
    rw [mass_append, mass_cons_semicolon, hone hd, ih, List.flatMap_cons, mass_append]

/-! ## Spelled stylesheets -/

/-- The text spells the rules: blocks of declarations and statements, each with any blanks and any
strings. -/
inductive Spells : Text → List Rule → Prop where
  /-- Blanks and nothing more. -/
  | blank {gap : Text} (hg : isBlankText gap = true) : Spells gap []
  /-- A selector and a block, and rules after it. -/
  | style {head body t : Text} {ds : List Declaration} {rs : List Rule} (hi : ink head ≠ [])
    (ha : (ink head).head? ≠ some '@') (hb : SpellsBlock body ds) (h : Spells t rs) :
    Spells (head ++ '\x7b' :: (body ++ '\x7d' :: t)) (.style (collapse head) ds :: rs)
  /-- A name and parameters, and rules after their semicolon. -/
  | statement {gap name params t : Text} {rs : List Rule} (hg : isBlankText gap = true)
    (hn : Rule.IsRuleName name) (hp : ∀ c ∈ params.head?, isRuleNamePart c = false)
    (h : Spells t rs) :
    Spells (gap ++ '@' :: (name ++ params) ++ ';' :: t) (.statement name (strip params) :: rs)

theorem mass_of_spells (h : Spells t rs) : mass t = Rule.massAll rs := by
  induction h with
  | blank hg => exact mass_of_blank hg
  | @style head body t ds rs hi ha hb _ ih =>
    rw [Rule.mass_braces, mass_of_spellsBlock hb, ih, Rule.massAll, Rule.mass,
      mass_of_ink (ink_collapse head)]
    omega
  | @statement gap name params t rs hg hn hp _ ih =>
    rw [mass_append, mass_append, mass_cons_semicolon, mass_cons (by decide) (by decide),
      mass_append, mass_of_blank hg, ih, Rule.massAll, Rule.mass, mass_of_ink (ink_strip params)]
    omega

/-! ## The ends of heads -/

/-- The head of the rule goes on to the mark after it: no brace stands in it, and no semicolon if it
is that of an at-rule. -/
def HasWholeHead : Rule → Prop
  | .style selector _ => '\x7b' ∉ selector
  | .block _ params _ => '\x7b' ∉ params ∧ ';' ∉ params
  | .statement _ params => '\x7b' ∉ params ∧ ';' ∉ params

instance decidableHasWholeHead : (r : Rule) → Decidable (HasWholeHead r)
  | .style selector _ => inferInstanceAs (Decidable ('\x7b' ∉ selector))
  | .block _ params _ => inferInstanceAs (Decidable ('\x7b' ∉ params ∧ ';' ∉ params))
  | .statement _ params => inferInstanceAs (Decidable ('\x7b' ∉ params ∧ ';' ∉ params))

/-- What is not found in the head of an at-rule is not found in its parameters. -/
theorem not_mem_params (h : atRule? (strip head) = some (name, params)) (hc : isBlank c = false)
    (hhead : c ∉ head) : c ∉ params := by
  obtain ⟨rest, heq, -, -, -, rfl⟩ := atRule?_eq_some_iff.1 h
  have hstrip : c ∉ strip head := Rule.not_mem_of_ink (ink_strip head) hc hhead
  have hrest : c ∉ rest := by
    intro hmem
    rw [heq] at hstrip
    exact hstrip (List.mem_cons_of_mem _ (List.mem_append_right _ hmem))
  exact Rule.not_mem_of_ink (ink_strip rest) hc hrest

theorem hasWholeHead_of_first {first : Option Rule} {rest : Text} (h : First t first rest)
    (hr : r ∈ first) : HasWholeHead r := by
  cases h with
  | statement ht hs hb ha =>
    obtain ⟨⟨name, params⟩, hrule, rfl⟩ := Option.map_eq_some_iff.1 hr
    exact ⟨not_mem_params hrule (by decide) hb, not_mem_params hrule (by decide) hs⟩
  | block ht hb hs ha hf hn hi =>
    cases hr
    exact ⟨not_mem_params hn (by decide) hb, not_mem_params hn (by decide) hs⟩
  | unnamed => cases hr
  | @style pre body rest ht hb ha hf =>
    by_cases hi : ink pre = []
    · rw [if_pos hi] at hr
      cases hr
    · rw [if_neg hi] at hr
      obtain rfl := Option.mem_some.1 hr
      show '\x7b' ∉ collapse pre
      exact Rule.not_mem_of_ink (ink_collapse pre) (by decide) hb

/-- No rule is read with a mark in its head that would end it. -/
theorem hasWholeHead_of_rulesOf (h : rulesOf t = .ok rs) : ∀ r ∈ rs, HasWholeHead r := by
  induction hl : t.length using Nat.strongRecOn generalizing t rs with
  | ind len ih =>
    intro r hr
    rcases rulesOf_eq_ok_iff.1 h with ⟨-, -, rfl⟩ | ⟨first, rest, rs', hf, hrest, rfl⟩
    · cases hr
    · have hlen := Rule.length_first hf
      rcases List.mem_append.1 hr with hr | hr
      · exact hasWholeHead_of_first hf (Option.mem_toList.1 hr)
      · exact ih rest.length (by omega) hrest rfl r hr

/-! ## What is read of spelled rules -/

theorem first_of_statement (hg : isBlankText gap = true) (hn : Rule.IsRuleName name)
    (hp : ∀ c ∈ params.head?, isRuleNamePart c = false)
    (hw : HasWholeHead (.statement name (strip params))) :
    First (gap ++ '@' :: (name ++ params) ++ ';' :: t) (some (.statement name (strip params))) t := by
  obtain ⟨hbrace, hsemi⟩ := hw
  have hnot : ∀ c, isBlank c = false → isRuleNamePart c = false → c ≠ '@' → c ∉ strip params →
      c ∉ gap ++ '@' :: (name ++ params) := by
    intro c hc hpart hat hparams hmem
    simp only [List.mem_append, List.mem_cons] at hmem
    rcases hmem with hmem | rfl | hmem | hmem
    · rw [isBlankText_iff.1 hg c hmem] at hc
      cases hc
    · exact hat rfl
    · rw [List.all_eq_true.1 hn.2 c hmem] at hpart
      cases hpart
    · exact Rule.not_mem_of_ink (ink_strip params).symm hc hparams hmem
  have hink : (ink (gap ++ '@' :: (name ++ params))).head? = some '@' := by
    rw [ink_append, ink_of_blank hg, List.nil_append, ink_cons (by decide)]
    rfl
  have hrule : atRule? (strip (gap ++ '@' :: (name ++ params))) = some (name, strip params) := by
    have hat : trimLeft isBlank ('@' :: (name ++ params)) = '@' :: (name ++ params) :=
      trimLeft_eq_self (by rintro x ⟨rfl⟩; decide)
    rw [strip_eq_trimRight, trimLeft_of_blank hg, hat]
    exact Rule.atRule?_trimRight hn hp
  have hfirst : First (gap ++ '@' :: (name ++ params) ++ ';' :: t)
      ((atRule? (strip (gap ++ '@' :: (name ++ params)))).map fun a => .statement a.1 a.2) t :=
    .statement rfl (hnot ';' (by decide) (by decide) (by decide) hsemi)
      (hnot '\x7b' (by decide) (by decide) (by decide) hbrace) hink
  rwa [hrule] at hfirst

theorem rulesOf_of_spells (h : Spells t rs) (hw : ∀ r ∈ rs, HasWholeHead r) :
    rulesOf t = .ok rs := by
  induction h with
  | blank hg => exact Rule.rulesOf_of_blank hg
  | @style head body t ds rs hi ha hb _ ih =>
    have hbrace : '\x7b' ∉ head :=
      Rule.not_mem_of_ink (ink_collapse head).symm (by decide) (hw _ List.mem_cons_self)
    have hfirst : First (head ++ '\x7b' :: (body ++ '\x7d' :: t))
        (if ink head = [] then none else some (.style (collapse head) (declarations body))) t :=
      .style rfl hbrace ha (fillsBlock_of_spells hb)
    rw [if_neg hi, declarations_of_spells hb] at hfirst
    have hrest := ih fun r hr => hw r (List.mem_cons_of_mem _ hr)
    exact rulesOf_eq_ok_iff.2 (Or.inr ⟨_, t, rs, hfirst, hrest, rfl⟩)
  | @statement gap name params t rs hg hn hp _ ih =>
    have hfirst := first_of_statement (t := t) hg hn hp (hw _ List.mem_cons_self)
    have hrest := ih fun r hr => hw r (List.mem_cons_of_mem _ hr)
    exact rulesOf_eq_ok_iff.2 (Or.inr ⟨_, t, rs, hfirst, hrest, rfl⟩)

/-! ## Comments -/

/-- The text has a comment in it, inside a string or not. -/
def HasComment (t : Text) : Prop := ∃ a b c, t = a ++ '/' :: '*' :: (b ++ '*' :: '/' :: c)

theorem commentLength?_isSome_iff :
    (commentLength? t).isSome = true ↔ ∃ b c, t = b ++ '*' :: '/' :: c := by
  induction t with
  | nil => simp [commentLength?]
  | cons x t ih =>
    by_cases hend : x = '*' ∧ ∃ c, t = '/' :: c
    · obtain ⟨rfl, c, rfl⟩ := hend
      exact iff_of_true rfl ⟨[], c, rfl⟩
    · have hstep : commentLength? (x :: t) = (commentLength? t).map (· + 1) := by
        rw [commentLength?]
        intro c hx ht
        exact hend ⟨hx, c, ht⟩
      rw [hstep, Option.isSome_map, ih]
      constructor
      · rintro ⟨b, c, rfl⟩
        exact ⟨x :: b, c, rfl⟩
      · rintro ⟨b, c, hb⟩
        cases b with
        | nil =>
          rw [List.nil_append, List.cons.injEq] at hb
          exact absurd ⟨hb.1, c, hb.2⟩ hend
        | cons y b =>
          rw [List.cons_append, List.cons.injEq] at hb
          exact ⟨b, c, hb.2⟩

theorem hasComment_cons :
    HasComment (c :: t) ↔ (c = '/' ∧ ∃ rest, t = '*' :: rest ∧ (commentLength? rest).isSome = true) ∨
      HasComment t := by
  constructor
  · rintro ⟨a, b, d, h⟩
    cases a with
    | nil =>
      rw [List.nil_append, List.cons.injEq] at h
      exact Or.inl ⟨h.1, _, h.2, commentLength?_isSome_iff.2 ⟨b, d, rfl⟩⟩
    | cons x a =>
      rw [List.cons_append, List.cons.injEq] at h
      exact Or.inr ⟨a, b, d, h.2⟩
  · rintro (⟨rfl, rest, rfl, hsome⟩ | ⟨a, b, d, rfl⟩)
    · obtain ⟨b, d, rfl⟩ := commentLength?_isSome_iff.1 hsome
      exact ⟨[], b, d, rfl⟩
    · exact ⟨c :: a, b, d, rfl⟩

/-- Where no comment begins, the first character stays. -/
theorem stripComments_cons
    (h : ¬(c = '/' ∧ ∃ rest, t = '*' :: rest ∧ (commentLength? rest).isSome = true)) :
    stripComments (c :: t) = c :: stripComments t := by
  by_cases hstart : c = '/' ∧ ∃ rest, t = '*' :: rest
  · obtain ⟨rfl, rest, rfl⟩ := hstart
    have hnone : commentLength? rest = none := by
      rw [← Option.not_isSome_iff_eq_none]
      intro hsome
      exact h ⟨rfl, rest, rfl, hsome⟩
    simp only [stripComments, stripCommentsFrom, hnone]
  · rw [stripComments, stripCommentsFrom]
    · rfl
    · intro rest hc ht
      exact hstart ⟨hc, rest, ht⟩

/-- Something is taken out of a text just if it has a comment. -/
theorem stripComments_eq_self_iff : stripComments t = t ↔ ¬HasComment t := by
  induction t with
  | nil =>
    refine iff_of_true rfl ?_
    rintro ⟨a, b, c, h⟩
    simp at h
  | cons c t ih =>
    rw [hasComment_cons, not_or]
    by_cases hstart : c = '/' ∧ ∃ rest, t = '*' :: rest ∧ (commentLength? rest).isSome = true
    · refine iff_of_false ?_ fun h => h.1 hstart
      obtain ⟨rfl, rest, rfl, hsome⟩ := hstart
      obtain ⟨n, hn⟩ := Option.isSome_iff_exists.1 hsome
      have hstrip : stripComments ('/' :: '*' :: rest) = stripCommentsFrom (n + 1) ('*' :: rest) := by
        simp only [stripComments, stripCommentsFrom, hn]
      have hle := (mass_stripCommentsFrom (n + 1) ('*' :: rest)).1
      intro heq
      rw [← hstrip, heq, mass_cons (by decide) (by decide)] at hle
      omega
    · rw [stripComments_cons hstart, List.cons.injEq, ih]
      simp only [hstart, not_false_eq_true, true_and]

/-- Spelled rules are read back exactly when their text has no comment and every head goes on to the
mark after it.  Strings make no difference to blocks and declarations, but `/*`, `{` and `;` mean the
same inside them as outside where comments and the ends of heads are looked for. -/
theorem read_spelled_iff (h : Spells t rs) :
    read t = .ok rs ↔ ¬HasComment t ∧ ∀ r ∈ rs, HasWholeHead r := by
  rw [read_eq, ← stripComments_eq_self_iff]
  constructor
  · intro hr
    rcases stripComments_eq_or t with hs | hs
    · exact ⟨hs, hasWholeHead_of_rulesOf hr⟩
    · -- a comment has taken away what the rules would need
      have hle := Rule.massAll_rulesOf_le hr
      rw [mass_of_spells h] at hs
      omega
  · rintro ⟨hs, hw⟩
    rw [hs]
    exact rulesOf_of_spells h hw

/-- A statement and a block with strings that hold semicolons, braces, quotes and half a comment. -/
def quotedSheet : Text :=
  "@import \"a'b\";\n.a[b=\"c;d\x7d\"] \x7b content: '\x7b;\x7d/*' !important \x7d"

/-- The rules that the statement and the block spell. -/
def quotedRules : List Rule := [
  .statement "import" "\"a'b\"",
  .style ".a[b=\"c;d\x7d\"]" [
    { property := "content", value := "'\x7b;\x7d/*'", important := true }]]

theorem isValue_string (hq : q ∈ ['\'', '"']) (hquote : q ∉ body) (hslash : '\\' ∉ body) :
    IsValue (q :: (body ++ [q])) := by
  have hblank : isBlank q = false := by
    simp only [List.mem_cons, List.not_mem_nil, or_false] at hq
    rcases hq with rfl | rfl <;> decide
  refine ⟨by simp, strip_eq_self ?_ ?_, [], .string hq hquote hslash .nil, rfl, rfl, fun _ => rfl⟩
  · rintro x ⟨rfl⟩
    exact hblank
  · rw [← List.cons_append, List.getLast?_concat]
    rintro x ⟨rfl⟩
    exact hblank

theorem read_quotedSheet :
    Spells quotedSheet quotedRules ∧ read quotedSheet = .ok quotedRules := by
  have hvalue : IsValue "'\x7b;\x7d/*'" :=
    @isValue_string "\x7b;\x7d/*" '\'' (by decide) (by decide) (by decide)
  have hbody : SpellsBlock " content: '\x7b;\x7d/*' !important " _ :=
    .last (@SpellsDeclaration.important " " "content" [] " " _ " " " " (by decide) hvalue
      (by decide) (by decide) (by decide) (by decide) (by decide))
  have hblock : Spells "\n.a[b=\"c;d\x7d\"] \x7b content: '\x7b;\x7d/*' !important \x7d" _ :=
    @Spells.style "\n.a[b=\"c;d\x7d\"] " _ [] _ [] (by decide) (by decide) hbody
      (.blank (by decide))
  have hsheet : Spells quotedSheet quotedRules :=
    @Spells.statement [] "import" " \"a'b\"" _ _ (by decide) (by decide)
      (by rintro c ⟨rfl⟩; decide) hblock
  refine ⟨hsheet, (read_spelled_iff hsheet).2 ⟨?_, by decide⟩⟩
  rw [← stripComments_eq_self_iff]
  decide

/-- A block with a comment in the string of a value. -/
def commentedSheet : Text := ".a::before \x7b content: \"/*x*/\"; \x7d"

/-- A block whose only declaration has the value. -/
def contentRules (value : Text) : List Rule :=
  [.style ".a::before" [{ property := "content", value }]]

/-- The comment is taken out of the string. -/
theorem read_commentedSheet :
    Spells commentedSheet (contentRules "\"/*x*/\"") ∧
      read commentedSheet = .ok (contentRules "\"\"") ∧
      read commentedSheet ≠ .ok (contentRules "\"/*x*/\"") := by
  have hvalue : IsValue "\"/*x*/\"" :=
    @isValue_string "/*x*/" '"' (by decide) (by decide) (by decide)
  have hbody : SpellsBlock " content: \"/*x*/\"; " _ :=
    .cons (@SpellsDeclaration.normal " " "content" [] " " _ [] (by decide) hvalue (by decide)
      (by decide) (by decide) (by decide) (by decide)) (.blank (by decide))
  have hsheet : Spells commentedSheet (contentRules "\"/*x*/\"") :=
    @Spells.style ".a::before " _ [] _ [] (by decide) (by decide) hbody (.blank (by decide))
  have hread : read commentedSheet = .ok (contentRules "\"\"") := rfl
  refine ⟨hsheet, hread, ?_⟩
  rw [hread]
  simp [contentRules]

end Stylesheet

end SkinCompiler
