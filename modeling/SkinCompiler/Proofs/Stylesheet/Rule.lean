import SkinCompiler.Proofs.Stylesheet.Reader

/-!
# Rules and their texts

The written text of a rule taken apart, the form in which a rule is read back, and its mass.

* `writeAt_style`, `writeAt_block`, `writeAt_statement` -- the parts of a written rule;
* `massAll_rulesOf_le` -- reading rules adds nothing to the mass;
* `mass_writeAt`, `mass_settled` -- a rule has the mass of its text and of its settled form.
-/

namespace SkinCompiler

open Text Stylesheet

variable {t gap tail rest name params selector : Text} {n depth : Nat} {r : Rule} {rs : List Rule}

/-! ## The prelude of an at-rule -/

theorem Text.trimRight_append {a : Text} (h : ∀ c ∈ a.getLast?, isBlank c = false) (b : Text) :
    trimRight isBlank (a ++ b) = a ++ trimRight isBlank b := by
  obtain ⟨g, hg, hb, hl⟩ := exists_trimRight b
  conv_lhs => rw [hb, ← List.append_assoc, trimRight_of_blank hg]
  refine trimRight_eq_self ?_
  rw [List.getLast?_append]
  cases ht : (trimRight isBlank b).getLast? with
  | none => simpa using h
  | some c => simpa [ht] using hl

namespace Rule

theorem strip_prelude (name params : Text) : strip (prelude name params) = prelude name params := by
  obtain ⟨g, hg, hp, hl⟩ := exists_trimRight ('@' :: name ++ ' ' :: params)
  refine strip_eq_self ?_ hl
  cases hc : prelude name params with
  | nil => simp
  | cons c p =>
    rw [prelude] at hc
    rw [hc, List.cons_append, List.cons_append, List.cons.injEq] at hp
    rintro x ⟨rfl⟩
    rw [← hp.1]
    decide

@[simp] theorem ink_prelude (name params : Text) :
    ink (prelude name params) = '@' :: (ink name ++ ink params) := by
  rw [prelude, ink_trimRight, List.cons_append, ink_cons (by decide), ink_append,
    ink_cons_blank (by decide)]

theorem isBlank_of_isRuleNamePart {c : Char} (h : isRuleNamePart c = true) : isBlank c = false := by
  refine isBlank_of_isNamePart ?_
  rw [isRuleNamePart, Bool.or_eq_true] at h
  rcases h with h | h <;> simp [isNamePart, isNameStart, h]

/-- The text is taken whole as the name of an at-rule. -/
def IsRuleName (name : Text) : Prop := name ≠ [] ∧ name.all isRuleNamePart = true

instance decidableIsRuleName (name : Text) : Decidable (IsRuleName name) :=
  inferInstanceAs (Decidable (_ ∧ _))

theorem atRule?_trimRight (h : IsRuleName name) (hp : ∀ c ∈ params.head?, isRuleNamePart c = false) :
    atRule? (trimRight isBlank ('@' :: (name ++ params))) = some (name, strip params) := by
  have hlast : ∀ c ∈ ('@' :: name).getLast?, isBlank c = false := by
    intro c hc
    rcases List.mem_cons.1 (List.mem_of_getLast? hc) with rfl | hc
    · decide
    · exact isBlank_of_isRuleNamePart (List.all_eq_true.1 h.2 c hc)
  obtain ⟨g, hg, heq, -⟩ := exists_trimRight params
  refine atRule?_eq_some_iff.2 ⟨trimRight isBlank params, ?_, h.1, List.all_eq_true.1 h.2, ?_, ?_⟩
  · rw [← List.cons_append, trimRight_append hlast, List.cons_append]
  · intro c hc
    refine hp c ?_
    rw [heq, Option.mem_def, List.head?_append, Option.mem_def.1 hc]
    rfl
  · have hstrip := strip_of_blank (a := []) rfl hg (trimRight isBlank params)
    rwa [List.nil_append, ← heq] at hstrip

theorem atRule?_prelude (h : IsRuleName name) :
    atRule? (prelude name params) = some (name, strip params) := by
  have hstrip := strip_of_blank (a := [' ']) (b := []) (by decide) rfl params
  have hp : ∀ c ∈ (' ' :: params).head?, isRuleNamePart c = false := by
    rintro x ⟨rfl⟩
    decide
  rw [List.append_nil] at hstrip
  rw [← hstrip]
  exact atRule?_trimRight h hp

theorem of_atRule?_eq (h : atRule? t = some (name, strip params)) :
    IsRuleName name ∧ ink t = '@' :: (ink name ++ ink params) := by
  obtain ⟨rest, rfl, hne, hname, -, hp⟩ := atRule?_eq_some_iff.1 h
  refine ⟨⟨hne, List.all_eq_true.2 hname⟩, ?_⟩
  rw [ink_cons (by decide), ink_append, ← ink_strip params, hp, ink_strip]

end Rule

/-! ## The mass of rules -/

namespace Rule

mutual

/-- The mass of a rule: that of its parts, its at sign and its braces. -/
def mass : Rule → Nat
  | .style selector ds => Text.mass selector + Text.mass (ds.flatMap Declaration.text) + 2
  | .block name params rules => Text.mass name + Text.mass params + massAll rules + 3
  | .statement name params => Text.mass name + Text.mass params + 1

/-- The mass of rules. -/
def massAll : List Rule → Nat
  | [] => 0
  | r :: rs => mass r + massAll rs

end

theorem massAll_append (rs rs' : List Rule) : massAll (rs ++ rs') = massAll rs + massAll rs' := by
  induction rs with
  | nil => simp [massAll]
  | cons r rs ih => rw [List.cons_append, massAll, ih, massAll, Nat.add_assoc]

theorem mass_braces (pre body rest : Text) :
    Text.mass (pre ++ '\x7b' :: (body ++ '\x7d' :: rest))
      = Text.mass pre + Text.mass body + Text.mass rest + 2 := by
  rw [mass_append, mass_cons (by decide) (by decide), mass_append,
    mass_cons (by decide) (by decide)]
  omega

theorem mass_prelude (name params : Text) :
    Text.mass (prelude name params) = Text.mass name + Text.mass params + 1 := by
  rw [Text.mass, ink_prelude, List.countP_cons_of_pos (by decide), List.countP_append, Text.mass,
    Text.mass]

theorem mass_of_atRule? (h : atRule? t = some (name, params)) :
    Text.mass t = Text.mass name + Text.mass params + 1 := by
  obtain ⟨rest, rfl, -, -, -, rfl⟩ := atRule?_eq_some_iff.1 h
  rw [mass_cons (by decide) (by decide), mass_append, mass_of_ink (ink_strip rest)]

theorem mass_pos_of_ink {c : Char} (h : (ink t).head? = some c) (hs : c ≠ ';') :
    0 < Text.mass t := by
  have hc := mem_ink_iff.1 (List.mem_of_head? h)
  exact mass_pos_of_mem hc.1 hc.2 hs

variable {first : Option Rule}

theorem length_first (h : First t first rest) : rest.length < t.length := by
  cases h <;> subst t <;> simp <;> omega

/-- What a text goes on with and the rest have no more mass than the text, and less if it comes to
nothing. -/
theorem mass_first (h : First t first rest)
    (ih : ∀ body rs, body.length < t.length → rulesOf body = .ok rs → massAll rs ≤ Text.mass body) :
    massAll first.toList + Text.mass rest ≤ Text.mass t ∧
      (first = none → Text.mass rest < Text.mass t) := by
  cases h with
  | @statement lead rest ht hs hb ha =>
    have hpos := mass_pos_of_ink ha (by decide)
    rw [ht, mass_append, mass_cons_semicolon]
    refine ⟨?_, fun _ => by omega⟩
    cases hn : atRule? (strip lead) with
    | none => simp [massAll]
    | some p =>
      have hm := mass_of_atRule? hn
      rw [mass_of_ink (ink_strip lead)] at hm
      simp [massAll, mass]
      omega
  | @block pre body rest name params inner ht hb hs ha hf hn hi =>
    have hbody := ih body inner (by rw [ht]; simp; omega) hi
    have hm := mass_of_atRule? hn
    rw [mass_of_ink (ink_strip pre)] at hm
    rw [ht, mass_braces]
    refine ⟨?_, fun h => by cases h⟩
    simp [massAll, mass]
    omega
  | unnamed ht _ _ _ _ _ =>
    rw [ht, mass_braces]
    exact ⟨by simp [massAll]; omega, fun _ => by omega⟩
  | @style pre body rest ht hb ha hf =>
    have hds := mass_declarations_le body
    rw [ht, mass_braces]
    refine ⟨?_, fun _ => by omega⟩
    split_ifs with hi
    · simp [massAll]
      omega
    · simp [massAll, mass, mass_of_ink (ink_collapse pre)]
      omega

/-- Reading rules adds nothing to the mass. -/
theorem massAll_rulesOf_le (h : rulesOf t = .ok rs) : massAll rs ≤ Text.mass t := by
  induction hl : t.length using Nat.strongRecOn generalizing t rs with
  | ind len ih =>
    rcases rulesOf_eq_ok_iff.1 h with ⟨-, -, rfl⟩ | ⟨first, rest, rs', hf, hr, rfl⟩
    · exact Nat.zero_le _
    · have hlen := length_first hf
      have hrest := ih rest.length (by omega) hr rfl
      have hfirst := (mass_first hf fun body rs hb hok => ih body.length (by omega) hok rfl).1
      rw [massAll_append]
      omega

/-- A rule of full mass is not passed over. -/
theorem first_ne_none (h : First t first rest) (hr : rulesOf rest = .ok rs)
    (hm : Text.mass t ≤ massAll rs) : first ≠ none := by
  have hlt := (mass_first h fun _ _ _ => massAll_rulesOf_le).2
  have hle := massAll_rulesOf_le hr
  intro hn
  have := hlt hn
  omega

/-! ## Settled rules -/

mutual

/-- The rule without superfluous blanks in its selectors, parameters and values. -/
def settled : Rule → Rule
  | .style selector ds => .style (collapse selector) (ds.map Declaration.settled)
  | .block name params rules => .block name (strip params) (settledAll rules)
  | .statement name params => .statement name (strip params)

/-- Rules without superfluous blanks. -/
def settledAll : List Rule → List Rule
  | [] => []
  | r :: rs => settled r :: settledAll rs

end

/-- A block of declarations is settled if its selector and its declarations are. -/
theorem settled_style {ds : List Declaration} (hs : collapse selector = selector)
    (hds : ∀ d ∈ ds, d.settled = d) : settled (.style selector ds) = .style selector ds := by
  have hmap : ds.map Declaration.settled = ds.map id := List.map_congr_left hds
  rw [settled, hs, hmap, List.map_id]

mutual

theorem mass_settled (r : Rule) : (settled r).mass = r.mass := by
  cases r with
  | style selector ds =>
    rw [settled, mass, mass, SkinCompiler.mass_settled, mass_of_ink (ink_collapse selector)]
  | block name params rules =>
    rw [settled, mass, mass, mass_of_ink (ink_strip params), massAll_settledAll rules]
  | statement name params => rw [settled, mass, mass, mass_of_ink (ink_strip params)]

theorem massAll_settledAll (rs : List Rule) : massAll (settledAll rs) = massAll rs := by
  cases rs with
  | nil => rfl
  | cons r rs => rw [settledAll, massAll, massAll, mass_settled r, massAll_settledAll rs]

end

/-! ## The text of a rule -/

/-- Rules `depth` levels deep with blanks before and after them. -/
def sheetText (n depth : Nat) (gap tail : Text) (rs : List Rule) : Text :=
  gap ++ join "\n\n" (writeRulesAt n depth rs) ++ tail

/-- The body of a written block of rules. -/
def blockBody (n depth : Nat) (rules : List Rule) : Text :=
  sheetText n (depth + 1) "\n" ('\n' :: margin n depth) rules

/-- The body of a written block of declarations. -/
def styleBody (n depth : Nat) (ds : List Declaration) : Text :=
  linesText ('\n' :: margin n (depth + 1)) ('\n' :: margin n depth) ds

theorem isBlankText_margin (n depth : Nat) : isBlankText (margin n depth) = true :=
  isBlankText_spaces _

theorem isBlankText_newline (n depth : Nat) : isBlankText ('\n' :: margin n depth) = true :=
  isBlankText_append (a := ['\n']).2 ⟨rfl, isBlankText_margin n depth⟩

theorem writeAt_block (n depth : Nat) (name params : Text) (rules : List Rule) :
    writeAt n depth (.block name params rules) = margin n depth ++ prelude name params ++ [' '] ++
      '\x7b' :: (blockBody n depth rules ++ '\x7d' :: []) := by
  simp [writeAt, braced, blockBody, sheetText]

theorem writeAt_style (n depth : Nat) (selector : Text) (ds : List Declaration) :
    writeAt n depth (.style selector ds) = margin n depth ++ selector ++ [' '] ++
      '\x7b' :: (styleBody n depth ds ++ '\x7d' :: []) := by
  rw [writeAt, join_newline, styleBody, linesText, List.flatMap_map]
  simp [Declaration.write_eq]

theorem writeAt_statement (n depth : Nat) (name params : Text) :
    writeAt n depth (.statement name params) = margin n depth ++ prelude name params ++ [';'] := rfl

/-- The text of rules is that of the first one and that of the others. -/
theorem sheetText_cons (n depth : Nat) (gap tail : Text) (r : Rule) (rs : List Rule) :
    ∃ gap', isBlankText gap' = true ∧ sheetText n depth gap tail (r :: rs) =
      gap ++ writeAt n depth r ++ sheetText n depth gap' tail rs := by
  cases rs with
  | nil => exact ⟨[], rfl, by simp [sheetText, writeRulesAt, join]⟩
  | cons r' rs => exact ⟨"\n\n", rfl, by simp [sheetText, writeRulesAt, join]⟩

mutual

theorem mass_writeAt (n depth : Nat) (r : Rule) : Text.mass (writeAt n depth r) = r.mass := by
  have hmargin := mass_of_blank (isBlankText_margin n depth)
  have hnewline := isBlankText_newline n depth
  have hspace : Text.mass [' '] = 0 := by decide
  cases r with
  | style selector ds =>
    have hds := mass_linesText (isBlankText_newline n (depth + 1)) hnewline ds
    rw [writeAt_style, mass_braces, mass_append, mass_append, hmargin, hspace, styleBody, hds]
    simp [mass]
  | block name params rules =>
    have hbreak : isBlankText "\n" = true := rfl
    have hrules := mass_sheetText n (depth + 1) hbreak hnewline rules
    rw [writeAt_block, mass_braces, mass_append, mass_append, hmargin, hspace, blockBody, hrules,
      mass_prelude, mass, mass_nil]
    omega
  | statement name params =>
    have hsemi : Text.mass [';'] = 0 := by decide
    rw [writeAt_statement, mass_append, mass_append, hmargin, hsemi, mass_prelude, mass]
    omega

theorem mass_sheetText (n depth : Nat) {gap tail : Text} (hg : isBlankText gap = true)
    (ht : isBlankText tail = true) (rs : List Rule) :
    Text.mass (sheetText n depth gap tail rs) = massAll rs := by
  cases rs with
  | nil =>
    rw [sheetText, mass_append, mass_append, mass_of_blank hg, mass_of_blank ht]
    rfl
  | cons r rs =>
    obtain ⟨gap', hg', heq⟩ := sheetText_cons n depth gap tail r rs
    rw [heq, mass_append, mass_append, mass_of_blank hg, mass_writeAt n depth r,
      mass_sheetText n depth hg' ht rs, massAll, Nat.zero_add]

end

end Rule

end SkinCompiler
