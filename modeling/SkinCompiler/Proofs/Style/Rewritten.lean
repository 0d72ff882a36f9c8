import SkinCompiler.Proofs.Stylesheet.RoundTrip
import SkinCompiler.Style.Compiled
import SkinCompiler.Stylesheet.ClassSelector

/-!
# Compiled styles rewritten

The stylesheet of compiled styles is read again before its class selectors are replaced.  Here is
when it is read as it was compiled, and that every declaration then keeps its place.

* `read_css_iff` -- the compiled rules come back exactly when all of them are intact and nothing in
  the text is taken for a comment; every declaration is then written once, under the selector that
  takes the place of its own.
-/

namespace SkinCompiler

open Text Stylesheet

/-! ## Places of declarations -/

/-- A declaration with what it stands under. -/
structure Placement where
  /-- The at-rules around it, the outermost first, by name and parameters. -/
  atRules : List (Text × Text)
  /-- The selector. -/
  selector : Text
  /-- The declaration. -/
  declaration : Declaration
  deriving DecidableEq

namespace Rule

mutual

/-- The declarations of a rule inside at-rules, each at its place. -/
def placements (above : List (Text × Text)) : Rule → List Placement
  | .style selector ds => ds.map fun d => ⟨above, selector, d⟩
  | .block name params rules => placementsAll (above ++ [(name, params)]) rules
  | .statement _ _ => []

/-- The declarations of rules inside at-rules, each at its place. -/
def placementsAll (above : List (Text × Text)) : List Rule → List Placement
  | [] => []
  | r :: rs => placements above r ++ placementsAll above rs

end

end Rule

/-- The place of a declaration after its stylesheet has been read and its class selectors have been
replaced. -/
def ClassReplacement.onPlacement (w : ClassReplacement) (p : Placement) : Placement where
  atRules := p.atRules.map fun a => (a.1, strip a.2)
  selector := w.replace (collapse p.selector)
  declaration := p.declaration.settled

namespace Rule

open ClassReplacement

mutual

theorem placements_onRule (w : ClassReplacement) (above : List (Text × Text)) (r : Rule) :
    placements (above.map fun a => (a.1, strip a.2)) (w.onRule (settled r))
      = (placements above r).map w.onPlacement := by
  cases r with
  | style selector ds => simp [settled, onRule, placements, onPlacement]
  | block name params rules =>
    rw [settled, onRule, placements, placements, ← placements_onRules w _ rules]
    simp
  | statement name params => rfl

theorem placements_onRules (w : ClassReplacement) (above : List (Text × Text)) (rs : List Rule) :
    placementsAll (above.map fun a => (a.1, strip a.2)) (w.onRules (settledAll rs))
      = (placementsAll above rs).map w.onPlacement := by
  cases rs with
  | nil => rfl
  | cons r rs =>
    rw [settledAll, onRules, placementsAll, placementsAll, List.map_append,
      placements_onRule w above r, placements_onRules w above rs]

end

end Rule

namespace Style.Compiled

/-- The rules are read back from their stylesheet exactly when each of them is intact and nothing in
the text is taken for a comment.  The class selectors are then replaced with every declaration at
its place. -/
theorem read_css_iff (o : Options) (styles : Table Text) :
    (read (compile o styles).css = .ok (Rule.settledAll (compile o styles).rules) ↔
      stripComments (compile o styles).css = (compile o styles).css ∧
        Rule.AreIntact 2 0 (compile o styles).rules) ∧
    (stripComments (compile o styles).css = (compile o styles).css →
      Rule.AreIntact 2 0 (compile o styles).rules →
      ∀ (w : ClassReplacement) (indent : Nat), ∃ sheet,
        w.stylesheet (compile o styles).css indent = .ok (Stylesheet.write indent sheet) ∧
          Rule.placementsAll [] sheet
            = (Rule.placementsAll [] (compile o styles).rules).map w.onPlacement) := by
  have hiff : read (compile o styles).css = .ok (Rule.settledAll (compile o styles).rules) ↔ _ :=
    read_write_iff 2 (compile o styles).rules
  refine ⟨hiff, fun hc hi w indent => ?_⟩
  refine ⟨w.onRules (Rule.settledAll (compile o styles).rules), ?_, ?_⟩
  · rw [ClassReplacement.stylesheet, hiff.2 ⟨hc, hi⟩]
    rfl
  · exact Rule.placements_onRules w [] (compile o styles).rules

/-- A brace and a semicolon do no harm between quotes. -/
theorem read_css_quoted_brace :
    let compiled := compile {} [("a".toList, "[content:'\x7b;']".toList)]
    read compiled.css = .ok (Rule.settledAll compiled.rules) ∧
      ∀ (w : ClassReplacement) (indent : Nat), ∃ sheet,
        w.stylesheet compiled.css indent = .ok (Stylesheet.write indent sheet) ∧
          Rule.placementsAll [] sheet
            = (Rule.placementsAll [] compiled.rules).map w.onPlacement := by
  intro compiled
  have hc : stripComments compiled.css = compiled.css := by decide +kernel
  have hi : Rule.AreIntact 2 0 compiled.rules := by decide +kernel
  obtain ⟨hread, hrewrite⟩ := read_css_iff {} [("a".toList, "[content:'\x7b;']".toList)]
  exact ⟨hread.2 ⟨hc, hi⟩, hrewrite hc hi⟩

/-- A custom property whose name begins with a digit is compiled but not read again. -/
theorem read_css_digit_property :
    ¬∃ sheet, read (compile {} [("a".toList, "[--1:red]".toList)]).css = .ok sheet ∧
      (Rule.placementsAll [] sheet).map (·.declaration.property)
        = (Rule.placementsAll [] (compile {} [("a".toList, "[--1:red]".toList)]).rules).map
          (·.declaration.property) := by
  rintro ⟨sheet, hread, hnames⟩
  have hcompiled : (Rule.placementsAll [] (compile {} [("a".toList, "[--1:red]".toList)]).rules)
      = [⟨[], ".a", { property := "--1", value := "red" }⟩] := by decide +kernel
  have hlost : (read (compile {} [("a".toList, "[--1:red]".toList)]).css).toOption.map
      (Rule.placementsAll []) = some [] := by decide +kernel
  rw [hread] at hlost
  have hnone : Rule.placementsAll [] sheet = [] := Option.some.inj hlost
  rw [hnone, hcompiled] at hnames
  cases hnames

end Style.Compiled

end SkinCompiler
