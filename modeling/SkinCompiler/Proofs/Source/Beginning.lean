import SkinCompiler.Proofs.Source.Derivable
import SkinCompiler.Proofs.Source.Gap
import SkinCompiler.Proofs.Source.Lookahead

/-!
# What constructs begin with

Which categories a text can begin with is told by its front, and which rules can read it by the
terminals at the beginning of their bodies.  Both are checked by computing, to rule out readings of
a given text.

* `isBarred`, `not_reads_of_isBarred` -- no text of a category begins at a position;
* `isViable`, `isViable_of_readsRow` -- a row of symbols can be read from a position on, as far as
  its terminals in front and the first category behind them tell;
* `HasNoComment.exists_viable` -- a category is read by one of the rules that can be read.
-/

namespace SkinCompiler.Source

open Grammar

variable {text t u : Text} {d : Derivation Terminal Category Form}
  {ds : List (Derivation Terminal Category Form)} {a b k m n : Nat} {c : Category} {x : Terminal}
  {ss : List (Grammar.Symbol Terminal Category)}

/-! ## Categories -/

/-- The symbol cannot be read from the front of the text, unless one of some categories can. -/
def bars (cs : List Category) (t : Text) : Grammar.Symbol Terminal Category → Bool
  | .terminal x => (x.measure t).isNone
  | .category c => cs.contains c

/-- No text of the category begins at the front of the text: none of the terminals that it can begin
with is there. -/
def isBarred (c : Category) (t : Text) : Bool :=
  (grammar.openingsOf c).all fun c' => (grammar.rulesOf c').all fun r =>
    r.body.head?.any (bars (grammar.openingsOf c) t)

mutual

theorem not_reads_of_bars (h : isBarred c (text.drop a) = true) :
    ∀ {d : Derivation Terminal Category Form} {b : Nat},
      bars (grammar.openingsOf c) (text.drop a) d.symbol = true → Reads grammar text d a b → False
  | .terminal x _ _, _, hbars, .terminal _ hmeasure => by
    have hnone : x.measure (text.drop a) = none := Option.isNone_iff_eq_none.1 hbars
    have hsome : x.measure (text.drop a) = some _ := hmeasure
    rw [hnone] at hsome
    cases hsome
  | .node rule ds, _, hbars, .node hmem hsymbols hrow => by
    have hopening : rule.head ∈ grammar.openingsOf c := List.contains_iff_mem.1 hbars
    have hrule := List.all_eq_true.1 (List.all_eq_true.1 h _ hopening) rule hmem
    rw [← hsymbols] at hrule
    exact not_readsRow_of_bars h hrule hrow

theorem not_readsRow_of_bars (h : isBarred c (text.drop a) = true) :
    ∀ {ds : List (Derivation Terminal Category Form)} {b : Nat},
      (ds.map Derivation.symbol).head?.any (bars (grammar.openingsOf c) (text.drop a)) = true →
        ReadsRow grammar text ds a b → False
  | _, _, hbars, .one first => not_reads_of_bars h hbars first
  | _, _, hbars, .cons first _ _ => not_reads_of_bars h hbars first

end

/-- A category that is barred reads nothing. -/
theorem not_reads_of_isBarred (h : isBarred c (text.drop a) = true)
    (hd : d.symbol = .category c) : ¬Reads grammar text d a b := by
  refine not_reads_of_bars h ?_
  rw [hd]
  exact List.contains_iff_mem.2 (forall_categories c (mem_all c)).1

/-! ## Gaps of blanks -/

/-- There are no comments in the text. -/
def HasNoComment (text : Text) : Prop :=
  ∀ m < text.length, text[m]? = some '/' → text[m + 1]? ≠ some '/' ∧ text[m + 1]? ≠ some '*'

instance (text : Text) : Decidable (HasNoComment text) :=
  inferInstanceAs (Decidable (∀ m < _, _))

theorem HasNoComment.ne (h : HasNoComment text) (hdrop : text.drop m = '/' :: u) :
    u.head? ≠ some '/' ∧ u.head? ≠ some '*' := by
  have hm : text[m]? = some '/' := by
    rw [← List.head?_drop, hdrop, List.head?_cons]
  have hnext : text[m + 1]? = u.head? := by
    rw [← List.head?_drop, ← List.tail_drop, hdrop, List.tail_cons]
  rw [← hnext]
  exact h m (List.getElem?_eq_some_iff.1 hm).1 hm

/-- Where there are no comments, a gap is of blanks. -/
theorem HasNoComment.gap_blank (h : HasNoComment text) (hgap : IsGapText u)
    (hdrop : text.drop m = u ++ t) : ∀ c ∈ u, isGapChar c = true := by
  induction hgap generalizing m with
  | nil => exact fun _ hc => nomatch hc
  | @blank c u blank _ ih =>
    intro c' hc'
    rcases List.mem_cons.1 hc' with rfl | hc'
    · exact blank
    · refine ih (m := m + 1) ?_ c' hc'
      rw [← List.tail_drop, hdrop]
      rfl
  | line => exact absurd rfl (h.ne hdrop).1
  | block => exact absurd rfl (h.ne hdrop).2

/-- The first position from one on where no blank stands. -/
def skipBlanks (text : Text) (m : Nat) : Nat := m + ((text.drop m).takeWhile isGapChar).length

/-- Where there are no comments, a gap ends where the blanks do. -/
theorem HasNoComment.eq_skipBlanks (h : HasNoComment text) (hgap : IsGap grammar text m n)
    {c : Char} (hc : text[n]? = some c) (hblank : isGapChar c = false) : n = skipBlanks text m := by
  have hle := hgap.le
  have hdrop : text.drop m = Text.slice text m n ++ text.drop n := by
    have hsplit := List.take_append_drop (n - m) (text.drop m)
    rw [List.drop_drop, Nat.add_sub_cancel' hle] at hsplit
    exact hsplit.symm
  have hblanks := h.gap_blank (isGapText_of_isGap hgap hc hblank) hdrop
  obtain ⟨hlt, rfl⟩ := List.getElem?_eq_some_iff.1 hc
  have hlength : (Text.slice text m n).length = n - m := by
    rw [Text.slice, List.length_take, List.length_drop]
    omega
  rw [skipBlanks, hdrop, List.takeWhile_append_of_pos hblanks, List.drop_eq_getElem_cons hlt,
    List.takeWhile_cons_of_neg (by simp [hblank]), List.append_nil, hlength]
  omega

/-! ## Rules -/

/-- A row whose first derivation is of a terminal reads on behind it and the blanks. -/
theorem HasNoComment.of_readsRow (h : HasNoComment text)
    (hregular : ∀ s ∈ (d :: ds).map Derivation.symbol, isRegularSymbol s = true)
    (hd : d.symbol = .terminal x) (hrow : ReadsRow grammar text (d :: ds) a b)
    (hmeasure : x.measure (text.drop a) = some n) : d = .terminal x a (a + n) ∧
      (ds ≠ [] → ReadsRow grammar text ds (skipBlanks text (a + n)) b) := by
  have hterminal {m : Nat} (hreads : Reads grammar text d a m) :
      d = .terminal x a (a + n) ∧ m = a + n := by
    cases hreads with
    | terminal hlt hmeasure' =>
      obtain rfl : _ = x := by simpa [Derivation.symbol] using hd
      have hsame := Option.some.inj (hmeasure.symm.trans hmeasure')
      obtain rfl : m = a + n := by omega
      exact ⟨rfl, rfl⟩
    | node _ _ _ => cases hd
  cases hrow with
  | one first => exact ⟨(hterminal first).1, fun hne => absurd rfl hne⟩
  | cons first gap rest =>
    obtain ⟨hd', rfl⟩ := hterminal first
    refine ⟨hd', fun _ => ?_⟩
    obtain ⟨c, hc, hblank⟩ :=
      head_of_readsRow (fun s hs => hregular s (List.mem_cons_of_mem _ hs)) rest
    rwa [← h.eq_skipBlanks gap hc hblank]

/-- A row of symbols can be read from a position on: its terminals in front are there, with blanks
between them, and the first category behind them is not barred. -/
def isViable (text : Text) : List (Grammar.Symbol Terminal Category) → Nat → Bool
  | [], _ => true
  | .terminal x :: ss, m => match x.measure (text.drop m) with
    | some n => isViable text ss (skipBlanks text (m + n))
    | none => false
  | .category c :: _, m => !isBarred c (text.drop m)

/-- What is read can be read. -/
theorem isViable_of_readsRow (h : HasNoComment text)
    (hregular : ∀ s ∈ ds.map Derivation.symbol, isRegularSymbol s = true)
    (hrow : ReadsRow grammar text ds a b) : isViable text (ds.map Derivation.symbol) a = true := by
  induction ds generalizing a with
  | nil => rfl
  | cons d ds ih =>
    obtain ⟨d', m, hd', hreads, -⟩ := hrow.first rfl
    rw [List.map_cons]
    cases hsymbol : d.symbol with
    | category c =>
      rw [isViable, Bool.not_eq_true']
      by_contra hbarred
      exact not_reads_of_isBarred (by simpa using hbarred) (hd'.trans hsymbol) hreads
    | terminal x =>
      have hmeasure := hreads.of_terminal (hd'.trans hsymbol)
      have hmeasure' : x.measure (text.drop a) = some (m - a) := hmeasure
      rw [isViable, hmeasure']
      dsimp only
      obtain ⟨-, hrest⟩ := h.of_readsRow hregular hsymbol hrow hmeasure'
      by_cases hnil : ds = []
      · rw [hnil]
        rfl
      · exact ih (fun s hs => hregular s (List.mem_cons_of_mem _ hs)) (hrest hnil)

/-- The rules by which a category can be read from a position on. -/
def viableRules (text : Text) (c : Category) (a : Nat) :
    List (Grammar.Rule Terminal Category Form) :=
  (grammar.rulesOf c).filter fun r => isViable text r.body a

/-- A category is read by a rule that can be read. -/
theorem HasNoComment.exists_viable (h : HasNoComment text) (hd : d.symbol = .category c)
    (hreads : Reads grammar text d a b) : ∃ rule ds, d = .node rule ds ∧ rule.head = c ∧
      rule ∈ viableRules text c a ∧ ds.map Derivation.symbol = rule.body ∧
      (∀ s ∈ ds.map Derivation.symbol, isRegularSymbol s = true) ∧
        ReadsRow grammar text ds a b := by
  obtain ⟨rule, ds, rfl, hhead, hmem, hsymbols, hrow⟩ := hreads.of_category hd
  have hregular : ∀ s ∈ ds.map Derivation.symbol, isRegularSymbol s = true :=
    fun s hs => isRegularSymbol_of_mem hmem (hsymbols ▸ hs)
  refine ⟨rule, ds, rfl, hhead, List.mem_filter.2 ⟨hmem, ?_⟩, hsymbols, hregular, hrow⟩
  rw [← hsymbols]
  exact isViable_of_readsRow h hregular hrow

end SkinCompiler.Source
