import SkinCompiler.Proofs.Grammar.Derivation
import SkinCompiler.Proofs.Source.Terminal
import SkinCompiler.Source.Productions

/-!
# The rules of component sources

What all rules of the grammar have in common, and what the rules of some forms look like.  The
rules are a finite table, which is checked rule by rule, once for all that is known of a rule.

* `ShowsEnds`, `showsEnds` -- what shows at the ends of a construct;
* `PlacesAttributes`, `placesAttributes` -- where attributes stand;
* `IsolatesTerminals`, `isolatesTerminals` -- template literals and names;
* `grammar_isProper` -- no rule is empty and no terminal goes beyond the text.
-/

namespace SkinCompiler.Source

open Grammar

variable {c : Category} {r : Grammar.Rule Terminal Category Form}

/-! ## Attributes -/

/-- The form of an attribute, spread or not. -/
def Form.isAttribute (f : Form) : Bool := f = .attribute || f = .spreadAttribute

/-- The form of an element. -/
def Form.isElement (f : Form) : Bool := f = .selfClosing || f = .element

theorem Form.isAttribute_of_isElement {f : Form} (h : f.isElement = true) :
    f.isAttribute = false := by
  have hcases : f = .selfClosing ∨ f = .element := by simpa [Form.isElement] using h
  rcases hcases with rfl | rfl <;> rfl

/-- Texts of the category are attributes. -/
def Category.isAttributed (c : Category) : Bool := c = .attribute || c = .attributes

/-- What the symbol reads are attributes. -/
def isAttributed : Grammar.Symbol Terminal Category → Bool
  | .terminal _ => false
  | .category c => c.isAttributed

/-- No node is read from the symbol. -/
def isSilent : Grammar.Symbol Terminal Category → Bool
  | .terminal _ => true
  | .category c => c = .tagName

/-! ## Shapes -/

/-- What a rule reads shows at its ends: the braces of a container, the keyword of a declaration of
variables, the keyword of an import and the string or semicolon behind it, and the mark of a
semicolon, which is nothing else. -/
def ShowsEnds (r : Grammar.Rule Terminal Category Form) : Prop :=
  (r.form = .container → r.body.head? = some (.terminal (.mark ['\x7b'])) ∧
    r.body.getLast? = some (.terminal (.mark ['\x7d']))) ∧
  (r.form = .declaration → r.body.head? = some (.terminal .bindingWord)) ∧
  (r.form = .importNames ∨ r.form = .importEffects →
    r.body.head? = some (.terminal (.keyword "import")) ∧
      (r.body.getLast? = some (.terminal .string) ∨
        r.body.getLast? = some (.category .semicolon))) ∧
  (r.head = .semicolon → r.body = [.terminal (.mark ";")])

/-- Attributes have their places: what is not just its contents is an attribute where attributes
are expected, they are parts of attributes and elements only, and come first in an element, after
the tag. -/
def PlacesAttributes (r : Grammar.Rule Terminal Category Form) : Prop :=
  (r.form ≠ .contents → r.head.isAttributed = r.form.isAttribute) ∧
  (r.form.isAttribute = false → r.form.isElement = false →
    ∀ s ∈ r.body, isSilent s = true ∨ isAttributed s = r.head.isAttributed) ∧
  (r.form.isElement = true → r.body.Pairwise fun s t =>
    isSilent s = true ∨ (isAttributed t = true → isAttributed s = true)) ∧
  (r.head = .tagName → r.form = .tag)

/-- Template literals and names that are used as expressions are terminals of their own. -/
def IsolatesTerminals (r : Grammar.Rule Terminal Category Form) : Prop :=
  (r.form = .template → r.body = [.terminal .template]) ∧
  (.terminal .template ∈ r.body → r.body = [.terminal .template]) ∧
  (r.form = .identifier ∨ r.form = .shorthand →
    ∀ s ∈ r.body, s = .terminal .name ∨ s = .terminal .property)

instance (r : Grammar.Rule Terminal Category Form) : Decidable (ShowsEnds r) :=
  inferInstanceAs (Decidable (_ ∧ _ ∧ _ ∧ _))

instance (r : Grammar.Rule Terminal Category Form) : Decidable (PlacesAttributes r) :=
  inferInstanceAs (Decidable (_ ∧ _ ∧ _ ∧ _))

instance (r : Grammar.Rule Terminal Category Form) : Decidable (IsolatesTerminals r) :=
  inferInstanceAs (Decidable (_ ∧ _ ∧ _))

theorem forall_rules : ∀ rules ∈ grammar.rules.toList, ∀ r ∈ rules,
    r.body ≠ [] ∧ ShowsEnds r ∧ PlacesAttributes r ∧ IsolatesTerminals r := by
  decide

/-- The rules of a category are among all rules. -/
theorem exists_rules (hr : r ∈ grammar.rulesOf c) : ∃ rules ∈ grammar.rules.toList, r ∈ rules := by
  unfold Grammar.rulesOf at hr
  rw [Array.getD_eq_getD_getElem?] at hr
  cases hrules : grammar.rules[grammar.index c]? with
  | none =>
    rw [hrules] at hr
    cases hr
  | some rules =>
    rw [hrules] at hr
    exact ⟨rules, Array.mem_toList_iff.2 (Array.mem_of_getElem? hrules), hr⟩

theorem of_mem_rulesOf (hr : r ∈ grammar.rulesOf c) :
    r.body ≠ [] ∧ ShowsEnds r ∧ PlacesAttributes r ∧ IsolatesTerminals r := by
  obtain ⟨rules, hrules, hmem⟩ := exists_rules hr
  exact forall_rules rules hrules r hmem

theorem showsEnds (hr : r ∈ grammar.rulesOf c) : ShowsEnds r := (of_mem_rulesOf hr).2.1

theorem placesAttributes (hr : r ∈ grammar.rulesOf c) : PlacesAttributes r :=
  (of_mem_rulesOf hr).2.2.1

theorem isolatesTerminals (hr : r ∈ grammar.rulesOf c) : IsolatesTerminals r :=
  (of_mem_rulesOf hr).2.2.2

theorem grammar_isProper : grammar.IsProper where
  body_ne_nil _ _ hr := (of_mem_rulesOf hr).1
  measure_le t _ _ := Terminal.measure_le t

end SkinCompiler.Source
