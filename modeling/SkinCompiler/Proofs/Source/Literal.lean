import SkinCompiler.Proofs.Source.Graft
import SkinCompiler.Proofs.Source.Seat

/-!
# Strings in the place of expressions

A string can stand where an expression or the value of an attribute stood, and in braces as the
value of an attribute.

* `IsReadAs` -- a text is read as a category, whatever stands around it;
* `exists_isReadAs_chain`, `exists_isReadAs_attributeValue`, `exists_isReadAs_braces` -- strings;
* `isSpot_of_isWritten` -- what takes the place of a node.
-/

namespace SkinCompiler.Source

open Grammar Text

variable {source u : Text} {c c' : Category} {d : Derivation Terminal Category Form}
  {r : Grammar.Rule Terminal Category Form} {m : Node} {e : Edit}

/-! ## Texts that are read anywhere -/

/-- A derivation reads a text as a category, whatever stands around it, as a node that is no
name. -/
structure IsReadAs (c : Category) (u : Text) (d : Derivation Terminal Category Form) : Prop where
  /-- It reads the category. -/
  symbol : d.symbol = .category c
  /-- It reads the text. -/
  reads : ∀ rest, Reads grammar (u ++ rest) d 0 u.length
  /-- It means a node. -/
  node : ∀ lead rest : Text, ∃ n,
    (Reader.whole (lead ++ (u ++ rest))).phrases (d.shift lead.length) = .ok [.node n]
  /-- It is no name. -/
  lone : ∀ (k : Nat) (t : Text), loneName t (d.shift k) = []

/-- A string is read by a rule for strings. -/
theorem isReadAs_string (hr : r ∈ grammar.rulesOf c) (hhead : r.head = c)
    (hbody : r.body = [.terminal .string]) (hform : r.form = .string) (hpos : 0 < u.length)
    (hmeasure : Terminal.string? u = some u.length) :
    IsReadAs c u (.node r [.terminal .string 0 u.length]) where
  symbol := congrArg _ hhead
  reads rest := by
    subst hhead
    refine .node hr hbody.symm (.one (.terminal hpos ?_))
    have hcut : Terminal.string? (u ++ []) = some u.length := by rw [List.append_nil, hmeasure]
    exact Terminal.string?_cut hcut (Nat.le_refl _) rest
  node lead rest := by
    simp [Derivation.shift, shiftRow, Reader.phrases, Reader.phrasesOfRow, hform, Reader.build,
      Reader.buildExpression]
  lone _ _ := rfl

/-- What is read as a category is read as another one that stands for it. -/
theorem IsReadAs.unit (h : IsReadAs c u d) (hr : r ∈ grammar.rulesOf c') (hhead : r.head = c')
    (hbody : r.body = [.category c]) (hform : r.form = .contents) :
    IsReadAs c' u (.node r [d]) where
  symbol := congrArg _ hhead
  reads rest := by
    subst hhead
    refine .node hr ?_ (.one (h.reads rest))
    rw [hbody, List.map_singleton, h.symbol]
  node lead rest := by
    obtain ⟨n, hn⟩ := h.node lead rest
    refine ⟨n, phrases_node_iff.2 ⟨[.node n], ?_, ?_⟩⟩
    · exact phrasesOfRow_cons_iff.2 ⟨_, [], hn, rfl, rfl⟩
    · rw [hform]
      rfl
  lone k t := h.lone k t

/-- An expression in braces is read by a rule for braces. -/
theorem IsReadAs.braces (h : IsReadAs .expression u d) (hr : r ∈ grammar.rulesOf c)
    (hhead : r.head = c)
    (hbody : r.body = [.terminal (.mark "\x7b"), .category .expression, .terminal (.mark "\x7d")])
    (hform : r.form = .container) :
    IsReadAs c ('\x7b' :: u ++ ['\x7d']) (.node r [.terminal (.mark "\x7b") 0 1, d.shift 1,
      .terminal (.mark "\x7d") (1 + u.length) (1 + u.length + 1)]) where
  symbol := congrArg _ hhead
  reads rest := by
    subst hhead
    have htext : '\x7b' :: u ++ ['\x7d'] ++ rest = ['\x7b'] ++ (u ++ '\x7d' :: rest) := by simp
    have hlength : ('\x7b' :: u ++ ['\x7d']).length = 1 + u.length + 1 := by
      rw [List.length_append, List.length_cons, List.length_singleton, Nat.add_comm u.length]
    rw [htext, hlength]
    have hinner := (h.reads ('\x7d' :: rest)).shift ['\x7b']
    refine .node hr ?_ (.cons (.terminal Nat.zero_lt_one ?_) (.refl _)
      (.cons hinner (.refl _) (.one (.terminal (Nat.lt_succ_self _) ?_))))
    · rw [hbody, List.map_cons, List.map_cons, List.map_singleton, Derivation.symbol_shift, h.symbol]
      rfl
    · have hopen : Terminal.spelling? "\x7b" ('\x7b' :: (u ++ '\x7d' :: rest)) = some 1 :=
        Terminal.spelling?_eq_some_iff.2 ⟨rfl, _, rfl⟩
      exact hopen
    · have hdrop : (['\x7b'] ++ (u ++ '\x7d' :: rest)).drop (1 + u.length) = '\x7d' :: rest :=
        (drop_append_add ['\x7b'] u.length).trans List.drop_left
      have hclose : Terminal.spelling? "\x7d" ('\x7d' :: rest) = some 1 :=
        Terminal.spelling?_eq_some_iff.2 ⟨rfl, _, rfl⟩
      rw [hdrop, Nat.add_sub_cancel_left]
      exact hclose
  node lead rest := by
    obtain ⟨n, hn⟩ := h.node (lead ++ ['\x7b']) ('\x7d' :: rest)
    have htext : lead ++ ['\x7b'] ++ (u ++ '\x7d' :: rest) =
        lead ++ ('\x7b' :: u ++ ['\x7d'] ++ rest) := by simp
    rw [htext, List.length_append, List.length_singleton, ← Derivation.shift_shift] at hn
    have hbuild (span : Span) : ∃ k, (Reader.whole (lead ++ ('\x7b' :: u ++ ['\x7d'] ++ rest))).build
        r.form span [.node n] = .ok [.node k] := by
      rw [hform]
      exact ⟨_, rfl⟩
    obtain ⟨k, hk⟩ := hbuild _
    exact ⟨k, phrases_node_iff.2 ⟨[.node n], phrasesOfRow_cons_iff.2 ⟨[], _, rfl,
      phrasesOfRow_cons_iff.2 ⟨[.node n], [], hn, rfl, rfl⟩, rfl⟩, hk⟩⟩
  lone _ _ := rfl

/-! ## Strings -/

/-- A category is read as another one by a rule of its own. -/
def HasUnit (c c' : Category) : Prop :=
  ∃ r ∈ grammar.rulesOf c', r.head = c' ∧ r.body = [.category c] ∧ r.form = .contents

instance : DecidableRel HasUnit := fun _ c' =>
  inferInstanceAs (Decidable (∃ r ∈ grammar.rulesOf c', _))

/-- From a primary expression to an expression. -/
def expressions : List Category :=
  [.primary, .chain, .unary, .product, .sum, .relation, .equality, .conjunction, .disjunction,
    .conditional, .assignment, .expression]

theorem expressions_isChain : expressions.IsChain HasUnit := by
  decide

theorem IsReadAs.exists_last {cs : List Category} (h : IsReadAs c u d)
    (hcs : (c :: cs).IsChain HasUnit) : ∃ d', IsReadAs ((c :: cs).getLast (by simp)) u d' := by
  induction cs generalizing c d with
  | nil => exact ⟨d, h⟩
  | cons c' cs ih =>
    obtain ⟨⟨r, hr, hhead, hbody, hform⟩, hcs'⟩ := List.isChain_cons_cons.1 hcs
    exact ih (h.unit hr hhead hbody hform) hcs'

/-- The rules by which strings and braces are read. -/
theorem exists_rules_string : (∃ r ∈ grammar.rulesOf .primary, r.head = .primary ∧
      r.body = [.terminal .string] ∧ r.form = .string) ∧
    (∃ r ∈ grammar.rulesOf .attributeValue, r.head = .attributeValue ∧
      r.body = [.terminal .string] ∧ r.form = .string) ∧
    ∃ r ∈ grammar.rulesOf .attributeValue, r.head = .attributeValue ∧ r.body =
      [.terminal (.mark "\x7b"), .category .expression, .terminal (.mark "\x7d")] ∧
        r.form = .container := by
  decide

section String

variable (hpos : 0 < u.length) (hmeasure : Terminal.string? u = some u.length)

include hpos hmeasure

theorem exists_isReadAs_primary : ∃ d, IsReadAs .primary u d := by
  obtain ⟨⟨r, hr, hhead, hbody, hform⟩, -⟩ := exists_rules_string
  exact ⟨_, isReadAs_string hr hhead hbody hform hpos hmeasure⟩

/-- A string as an expression of which members can be taken. -/
theorem exists_isReadAs_chain : ∃ d, IsReadAs .chain u d := by
  obtain ⟨d, hd⟩ := exists_isReadAs_primary hpos hmeasure
  obtain ⟨⟨r, hr, hhead, hbody, hform⟩, -⟩ := List.isChain_cons_cons.1 expressions_isChain
  exact ⟨_, hd.unit hr hhead hbody hform⟩

/-- A string as the value of an attribute. -/
theorem exists_isReadAs_attributeValue : ∃ d, IsReadAs .attributeValue u d := by
  obtain ⟨-, ⟨r, hr, hhead, hbody, hform⟩, -⟩ := exists_rules_string
  exact ⟨_, isReadAs_string hr hhead hbody hform hpos hmeasure⟩

/-- A string in braces as the value of an attribute. -/
theorem exists_isReadAs_braces : ∃ d, IsReadAs .attributeValue ('\x7b' :: u ++ ['\x7d']) d := by
  obtain ⟨d, hd⟩ := exists_isReadAs_primary hpos hmeasure
  obtain ⟨d', hd'⟩ := hd.exists_last expressions_isChain
  obtain ⟨-, -, r, hr, hhead, hbody, hform⟩ := exists_rules_string
  exact ⟨_, hd'.braces hr hhead hbody hform⟩

end String

/-! ## In the place of nodes -/

/-- What is read as a category can take the place of a part of that category. -/
theorem IsReadAs.isReplaced {d₀ : Derivation Terminal Category Form} (h : IsReadAs c u d)
    (hc : c ∈ [Category.chain, .primary, .attributeValue]) (hhead : ∃ x ∈ heads, u.head? = some x)
    (hsymbol : d₀.symbol = .category c)
    (hnode : ∃ n, (Reader.whole source).phrases d₀ = .ok [.node n])
    (hlone : loneName source d₀ = []) : IsReplaced source d₀ u where
  head := hhead
  standIn := ⟨d, fun rest => ⟨h.reads rest, h.symbol.trans hsymbol.symm, ⟨c, hc, hsymbol⟩, hnode,
    fun lead => h.node lead rest, hlone, h.lone⟩⟩

/-- What is read as the category that a node is written as can take its place. -/
theorem isSpot_of_isWritten {d₀ : Derivation Terminal Category Form}
    (hm : IsWritten source c d₀ m) (hc : c ∈ [Category.chain, .primary, .attributeValue])
    (h : IsReadAs c e.text d) (hhead : ∃ x ∈ heads, e.text.head? = some x)
    (hstart : e.start = m.span.start) (hstop : e.stop = m.span.stop) : IsSpot source d₀ e := by
  cases hm with
  | part part head reads span phrases lone =>
    rw [span] at hstart hstop
    exact .part part reads hstart hstop
      (h.isReplaced hc hhead (congrArg _ head) ⟨m, phrases⟩ lone)
  | template part lt_start stop_lt => exact .template part (by omega) (by omega)

end SkinCompiler.Source
