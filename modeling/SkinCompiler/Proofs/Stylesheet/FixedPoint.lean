import SkinCompiler.Proofs.Stylesheet.QuotedString

/-!
# Stylesheets read, written and read again

What is read from a text has no superfluous blanks, so that it can be expected to come back from its
own text as it is.  It does so in all but a few cases, which the marks of a value decide: a value that
closes nothing too much and leaves nothing open ends at the semicolon that is written after it.

* `Rule.areRead_of_rulesOf` -- the form of the rules that are read from any text;
* `Rule.areIntact_iff` -- what remains to be asked of such rules;
* `read_write_of_read_iff` -- writing what was read and reading it again changes nothing exactly when
  the text has no comment and blocks and values end where they are written to end.
-/

namespace SkinCompiler

open Text Stylesheet

variable {t source name params : Text} {d : Declaration} {rs : List Rule}

/-! ## Declarations -/

/-- A declaration that is read is settled. -/
theorem Declaration.settled_of_declaration? (h : declaration? t = some d) : d.settled = d := by
  rw [declaration?] at h
  split at h
  · cases h
  · split at h
    · rename_i rest hrest
      dsimp only at h
      split_ifs at h with hmark hvalue hvalue
      · cases h
        obtain ⟨a, ha⟩ := endsWith_iff.1 hmark
        have hstrip := strip_strip rest
        rw [ha] at hstrip ⊢
        rw [take_append_mark]
        simp [settled, strip_trimRight_of_append hstrip]
      · cases h
        simp [settled, strip_strip, hmark]
    · cases h

namespace Rule

/-! ## What is read -/

mutual

/-- The rule has the form of one that is read: heads end where they should, and no blank is
superfluous. -/
def IsRead : Rule → Prop
  | .style selector ds => (IsSelector selector ∧ collapse selector = selector) ∧
      ∀ d ∈ ds, IsProperty d.property ∧ d.value ≠ [] ∧ d.settled = d
  | .block name params rules => (IsPrelude name params ∧ strip params = params) ∧ AreRead rules
  | .statement name params => IsPrelude name params ∧ strip params = params

/-- All rules have that form. -/
def AreRead : List Rule → Prop
  | [] => True
  | r :: rs => IsRead r ∧ AreRead rs

end

/-- The head of an at-rule without braces and semicolons is taken apart into a name and parameters
that can head one again. -/
theorem isPrelude_of_atRule? {head : Text} (h : atRule? (strip head) = some (name, params))
    (hb : '\x7b' ∉ head) (hs : ';' ∉ head) : IsPrelude name params ∧ strip params = params := by
  obtain ⟨rest, -, hne, hname, -, rfl⟩ := atRule?_eq_some_iff.1 h
  exact ⟨⟨⟨hne, List.all_eq_true.2 hname⟩, not_mem_params h (by decide) hb,
    not_mem_params h (by decide) hs⟩, strip_strip rest⟩

theorem isRead_style {head : Text} (body : Text) (hb : '\x7b' ∉ head) (hi : ink head ≠ [])
    (ha : (ink head).head? ≠ some '@') :
    IsRead (.style (collapse head) (declarations body)) := by
  refine ⟨⟨⟨not_mem_of_ink (ink_collapse head) (by decide) hb, ?_, ?_⟩, collapse_collapse head⟩, ?_⟩
  · rwa [ink_collapse]
  · rwa [ink_collapse]
  · intro d hd
    obtain ⟨chunk, -, hchunk⟩ := List.mem_filterMap.1 hd
    obtain ⟨hproperty, hvalue⟩ := isProperty_of_mem_declarations hd
    exact ⟨hproperty, hvalue, Declaration.settled_of_declaration? hchunk⟩

/-- The rules that are read from a text. -/
theorem areRead_of_rulesOf (h : rulesOf t = .ok rs) : AreRead rs := by
  -- the bodies of blocks are read by the same reader, and all that is known of them is that they
  -- are shorter
  induction hn : t.length using Nat.strongRecOn generalizing t rs with
  | ind n ih =>
    subst hn
    rcases rulesOf_eq_ok_iff.1 h with ⟨-, -, rfl⟩ | ⟨first, rest, rs', hfirst, hrest, rfl⟩
    · trivial
    · have hothers : AreRead rs' := ih rest.length (length_first hfirst) hrest rfl
      cases hfirst with
      | @statement lead _ ht hs hb ha =>
        cases hrule : atRule? (strip lead) with
        | none => exact hothers
        | some a => exact ⟨isPrelude_of_atRule? hrule hb hs, hothers⟩
      | @block pre body _ name params inner ht hb hs ha hf hrule hinner =>
        have hlt : body.length < t.length := by
          rw [ht]
          simp
          omega
        exact ⟨⟨isPrelude_of_atRule? hrule hb hs, ih body.length hlt hinner rfl⟩, hothers⟩
      | unnamed => exact hothers
      | @style pre body _ ht hb ha hf =>
        by_cases hi : ink pre = []
        · rw [if_pos hi]
          exact hothers
        · rw [if_neg hi]
          exact ⟨isRead_style body hb hi ha, hothers⟩

mutual

theorem settled_of_isRead (r : Rule) (h : IsRead r) : settled r = r := by
  cases r with
  | style selector ds =>
    obtain ⟨⟨-, hselector⟩, hds⟩ := h
    exact settled_style hselector fun d hd => (hds d hd).2.2
  | block name params rules =>
    obtain ⟨⟨-, hparams⟩, hrules⟩ := h
    rw [settled, hparams, settledAll_of_areRead rules hrules]
  | statement name params =>
    obtain ⟨-, hparams⟩ := h
    rw [settled, hparams]

theorem settledAll_of_areRead (rs : List Rule) (h : AreRead rs) : settledAll rs = rs := by
  cases rs with
  | nil => rfl
  | cons r rs =>
    obtain ⟨hr, hrs⟩ := h
    rw [settledAll, settled_of_isRead r hr, settledAll_of_areRead rs hrs]

end

/-! ## What is still to be asked -/

mutual

/-- Where the rule is written `depth` levels deep, its block ends at the brace written for it and its
declarations end at their semicolons. -/
def EndsAsWritten (n depth : Nat) : Rule → Prop
  | .style _ ds => FillsBlock (styleBody n depth ds) ∧
      ∀ d ∈ ds, IsClosed d.text ∧ Scope.Uncut ';' {} d.text
  | .block _ _ rules => FillsBlock (blockBody n depth rules) ∧ EndAsWritten n (depth + 1) rules
  | .statement _ _ => True

/-- All rules end where they are written to end. -/
def EndAsWritten (n depth : Nat) : List Rule → Prop
  | [] => True
  | r :: rs => EndsAsWritten n depth r ∧ EndAsWritten n depth rs

end

mutual

instance decidableEndsAsWritten (n depth : Nat) : (r : Rule) → Decidable (EndsAsWritten n depth r)
  | .style _ ds =>
    have := List.decidableBAll (fun d : Declaration => IsClosed d.text ∧ Scope.Uncut ';' {} d.text) ds
    inferInstanceAs (Decidable (FillsBlock (styleBody n depth ds) ∧
      ∀ d ∈ ds, IsClosed d.text ∧ Scope.Uncut ';' {} d.text))
  | .block _ _ rules =>
    have := decidableEndAsWritten n (depth + 1) rules
    inferInstanceAs (Decidable (FillsBlock (blockBody n depth rules) ∧
      EndAsWritten n (depth + 1) rules))
  | .statement _ _ => inferInstanceAs (Decidable True)

instance decidableEndAsWritten (n depth : Nat) :
    (rs : List Rule) → Decidable (EndAsWritten n depth rs)
  | [] => inferInstanceAs (Decidable True)
  | r :: rs =>
    have := decidableEndsAsWritten n depth r
    have := decidableEndAsWritten n depth rs
    inferInstanceAs (Decidable (EndsAsWritten n depth r ∧ EndAsWritten n depth rs))

end

mutual

theorem isIntact_iff (n depth : Nat) (r : Rule) (h : IsRead r) :
    IsIntact n depth r ↔ EndsAsWritten n depth r := by
  cases r with
  | style selector ds =>
    obtain ⟨⟨hselector, -⟩, hds⟩ := h
    rw [IsIntact, EndsAsWritten, and_iff_right hselector]
    refine and_congr_right fun _ => forall₂_congr fun d hd => ?_
    obtain ⟨hproperty, hvalue, hsettled⟩ := hds d hd
    rw [Declaration.IsLegible, hsettled, and_iff_right hproperty, and_iff_right hvalue]
  | block name params rules =>
    obtain ⟨⟨hprelude, -⟩, hrules⟩ := h
    rw [IsIntact, EndsAsWritten, and_iff_right hprelude,
      areIntact_iff n (depth + 1) rules hrules]
  | statement name params =>
    obtain ⟨hprelude, -⟩ := h
    exact iff_of_true hprelude trivial

/-- Rules that are read are intact if they end where they are written to end. -/
theorem areIntact_iff (n depth : Nat) (rs : List Rule) (h : AreRead rs) :
    AreIntact n depth rs ↔ EndAsWritten n depth rs := by
  cases rs with
  | nil => exact Iff.rfl
  | cons r rs =>
    obtain ⟨hr, hrs⟩ := h
    rw [AreIntact, EndAsWritten, isIntact_iff n depth r hr,
      areIntact_iff n depth rs hrs]

end

end Rule

namespace Stylesheet

/-- What was read from a text comes back from its own text exactly when nothing in that text is a
comment, every block ends at the brace written for it and every declaration at its semicolon. -/
theorem read_write_of_read_iff (n : Nat) (h : read source = .ok rs) :
    read (write n rs) = .ok rs ↔ ¬HasComment (write n rs) ∧ Rule.EndAsWritten n 0 rs := by
  have hread : Rule.AreRead rs := Rule.areRead_of_rulesOf h
  have hiff := read_write_iff n rs
  rwa [Rule.settledAll_of_areRead rs hread, Rule.areIntact_iff n 0 rs hread,
    stripComments_eq_self_iff] at hiff

/-- A block inside another, with a comment before it, an empty declaration and marks in a string. -/
def looseSheet : Text :=
  "/* print */ @media  print\x7b.a\x7bcolor:red;;content:\"\x7b;\x7d\"!important\x7d\x7d"

/-- The rules that are read from it. -/
def looseRules : List Rule := [
  .block "media" "print" [
    .style ".a" [
      { property := "color", value := "red" },
      { property := "content", value := "\"\x7b;\x7d\"", important := true }]]]

/-- They are read again from their own text. -/
theorem read_write_looseSheet :
    read looseSheet = .ok looseRules ∧ read (write 4 looseRules) = .ok looseRules := by
  have h : read looseSheet = .ok looseRules := rfl
  refine ⟨h, (read_write_of_read_iff 4 h).2 ⟨?_, by decide +kernel⟩⟩
  rw [← stripComments_eq_self_iff]
  decide +kernel

/-- A value that ends with an escaped blank. -/
def escapedBlankSheet : Text := ".a \x7b font-family: A\\ \x7d"

/-- A block whose only declaration has the value. -/
def fontRules (value : Text) : List Rule :=
  [.style ".a" [{ property := "font-family", value }]]

/-- The blank is lost, and its backslash takes the semicolon that is written after it into the
value. -/
theorem read_write_escapedBlankSheet :
    read escapedBlankSheet = .ok (fontRules "A\\") ∧
      read (write 2 (fontRules "A\\")) = .ok (fontRules "A\\;") ∧
      read (write 2 (fontRules "A\\")) ≠ .ok (fontRules "A\\") := by
  have hagain : read (write 2 (fontRules "A\\")) = .ok (fontRules "A\\;") := rfl
  refine ⟨rfl, hagain, ?_⟩
  rw [hagain]
  simp [fontRules]

end Stylesheet

end SkinCompiler
