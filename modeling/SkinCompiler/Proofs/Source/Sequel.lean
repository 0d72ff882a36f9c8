import SkinCompiler.Proofs.Source.Lookahead
import SkinCompiler.Proofs.Text.Between

/-!
# What may follow on a terminal

A terminal of a source stays what it is when what stands behind it is edited, as long as the source
is cut only where no terminal goes on, and a run of element text is closed before that.

* `IsSequel` -- what may follow in the edited source;
* `Closes` -- a run of element text is closed;
* `Terminal.measure_sequel` -- terminals measure the same;
* `ClosesRuns`, `closesRuns` -- the grammar closes runs of element text;
* `head_of_startsChild`, `lt_of_startsChild` -- what begins like a child of an element closes them.
-/

namespace SkinCompiler.Source

open Grammar Text

variable {source rest x t : Text} {a b k m n : Nat} {c : Char} {es : List Edit} {e : Edit}

/-! ## Sequels -/

/-- What stands behind position `b` may become `rest`: it stays up to position `k`, and from there
on it either stays, too, or becomes something that no terminal goes on with. -/
structure IsSequel (source : Text) (b k : Nat) (rest : Text) : Prop where
  /-- The source is cut behind the position. -/
  le : b ≤ k
  /-- It is cut before its end. -/
  le_length : k ≤ source.length
  /-- It stays up to there. -/
  split : ∃ x, rest = slice source b k ++ x ∧ (x = source.drop k ∨ IsCut (source.take k) x)

theorem IsSequel.back (h : IsSequel source b k rest) (hab : a ≤ b) :
    IsSequel source a k (slice source a b ++ rest) := by
  obtain ⟨x, rfl, hx⟩ := h.split
  refine ⟨Nat.le_trans hab h.le, h.le_length, x, ?_, hx⟩
  rw [← List.append_assoc, slice_append_slice hab h.le]

/-- A source that is edited later on only. -/
theorem isSequel_drop (h : b ≤ source.length) : IsSequel source b source.length (source.drop b) := by
  refine ⟨h, Nat.le_refl _, [], ?_, Or.inl (List.drop_length).symm⟩
  rw [List.append_nil, slice, ← List.length_drop, List.take_length]

/-- A source that is edited with something that no terminal goes on with. -/
theorem isSequel_of_head (hbk : b ≤ k) (hk : k ≤ source.length)
    (h : ∃ c ∈ heads, t.head? = some c) (x : Text) :
    IsSequel source b k (slice source b k ++ t ++ x) := by
  refine ⟨hbk, hk, t ++ x, List.append_assoc _ _ _, Or.inr (Or.inl ?_)⟩
  obtain ⟨c, hc, hhead⟩ := h
  refine ⟨c, hc, ?_⟩
  obtain ⟨u, rfl⟩ := List.head?_eq_some_iff.1 hhead
  rfl

/-! ## Runs of element text -/

/-- A run of element text that ends at position `b` is closed before position `k`. -/
def Closes (source : Text) (b k : Nat) : Prop :=
  ∃ n c, b ≤ n ∧ n < k ∧ source[n]? = some c ∧ (isBlank c = false ∨ Terminal.endsRun c = true)

theorem IsCut.drop_of_lt (h : IsCut t x) (ha : a < t.length) : IsCut (t.drop a) x := by
  refine h.imp_right ?_
  rintro ⟨c, hc, hlast⟩
  exact ⟨c, hc, by rw [List.getLast?_drop, if_neg (by omega), hlast]⟩

/-- A terminal measures the same before what may follow on it. -/
theorem Terminal.measure_sequel {terminal : Terminal} (hregular : terminal.isRegular = true)
    (hlt : a < b) (h : terminal.measure (source.drop a) = some (b - a))
    (hsequel : IsSequel source b k rest) (hcloses : terminal = .run → Closes source b k) :
    terminal.measure (slice source a b ++ rest) = some (b - a) := by
  obtain ⟨x, rfl, hx⟩ := hsequel.split
  have hbk := hsequel.le
  have hk := hsequel.le_length
  have hdrop : source.drop a = slice source a k ++ source.drop k := by
    have hlast : source.drop k = slice source k source.length := by
      rw [slice, ← List.length_drop, List.take_length]
    rw [hlast, slice_append_slice (by omega) hk, slice, ← List.length_drop, List.take_length]
  have hlength : (slice source a k).length = k - a := by
    rw [slice, List.length_take, List.length_drop]
    omega
  rw [← List.append_assoc, slice_append_slice (by omega) hbk]
  rcases hx with rfl | hcut
  · rwa [← hdrop]
  · rw [hdrop] at h
    have hcut' : IsCut (slice source a k) x := by
      have hslice : slice source a k = (source.take k).drop a := by
        rw [slice, List.drop_take]
      rw [hslice]
      refine hcut.drop_of_lt ?_
      rw [List.length_take]
      omega
    by_cases hrun : terminal = .run
    · obtain ⟨n, c, hbn, hnk, hc, hclose⟩ := hcloses hrun
      subst hrun
      refine run?_cut h (k := n - a) (by omega) (c := c) ?_ hclose x
      rw [slice, List.getElem?_take_of_lt (by omega), List.getElem?_drop,
        Nat.add_sub_cancel' (by omega), hc]
    · exact measure_cut hregular hrun h (by omega) hcut'

/-- Runs of element text may end with what the symbol reads. -/
def needsClose : Grammar.Symbol Terminal Category → Bool
  | .terminal t => t = .run
  | .category c => c = .child || c = .children

/-- What the symbol reads begins with a mark that ends a run of element text, or is one. -/
def startsChild : Grammar.Symbol Terminal Category → Bool
  | .terminal t => t = .mark ['<'] || t = .mark ['<', '/'] || t = .mark ['\x7b'] || t = .run
  | .category c => c = .child || c = .element || c = .fragment

/-- What ends a run of element text comes next to what needs it. -/
def closes : List (Grammar.Symbol Terminal Category) → Bool
  | s :: s' :: ss => (!needsClose s || startsChild s') && closes (s' :: ss)
  | _ => true

/-- The rule closes the runs of element text in it, unless it is left to what stands around it. -/
def ClosesRuns (r : Grammar.Rule Terminal Category Form) : Prop :=
  closes r.body = true ∧
  (r.body.getLast?.any needsClose = true → needsClose (.category r.head) = true) ∧
  (startsChild (.category r.head) = true → r.body.head?.any startsChild = true) ∧
  (r.form = .template → r.head = .primary) ∧
  (.terminal .template ∈ r.body → r.form = .template)

instance (r : Grammar.Rule Terminal Category Form) : Decidable (ClosesRuns r) :=
  inferInstanceAs (Decidable (_ ∧ _ ∧ _ ∧ _ ∧ _))

theorem forall_closesRuns : ∀ rules ∈ grammar.rules.toList, ∀ r ∈ rules, ClosesRuns r := by
  decide +kernel

theorem closesRuns {r : Grammar.Rule Terminal Category Form} {category : Category}
    (hr : r ∈ grammar.rulesOf category) : ClosesRuns r := by
  obtain ⟨rules, hrules, hmem⟩ := exists_rules hr
  exact forall_closesRuns rules hrules r hmem

/-- A terminal that begins like a child of an element ends a run of element text before it. -/
theorem Terminal.head_of_startsChild {terminal : Terminal}
    (hstarts : startsChild (.terminal terminal) = true) {n : Nat}
    (h : terminal.measure t = some n) :
    ∃ c, t.head? = some c ∧ (isBlank c = false ∨ Terminal.endsRun c = true) := by
  simp only [startsChild, Bool.or_eq_true, decide_eq_true_eq] at hstarts
  rcases hstarts with ((rfl | rfl) | rfl) | rfl
  · obtain ⟨-, rest, rfl⟩ := spelling?_eq_some_iff.1 h
    exact ⟨'<', rfl, Or.inr rfl⟩
  · obtain ⟨-, rest, rfl⟩ := spelling?_eq_some_iff.1 h
    exact ⟨'<', rfl, Or.inr rfl⟩
  · obtain ⟨-, rest, rfl⟩ := spelling?_eq_some_iff.1 h
    exact ⟨'\x7b', rfl, Or.inr rfl⟩
  · have hrun : Terminal.run? t = some n := h
    unfold Terminal.run? at hrun
    split at hrun
    · rename_i c rest
      split at hrun
      · cases hrun
      · rename_i hc
        rw [Bool.or_eq_true, not_or] at hc
        exact ⟨c, rfl, Or.inl (Bool.not_eq_true _ ▸ hc.2)⟩
    · cases hrun

mutual

/-- What begins like a child of an element ends a run of element text before it. -/
theorem head_of_startsChild : ∀ {d : Derivation Terminal Category Form} {a b : Nat},
    startsChild d.symbol = true → Reads grammar source d a b →
      ∃ c, source[a]? = some c ∧ (isBlank c = false ∨ Terminal.endsRun c = true)
  | _, _, _, hstarts, .terminal _ hmeasure => by
    obtain ⟨c, hc, hends⟩ := Terminal.head_of_startsChild hstarts hmeasure
    rw [List.head?_drop] at hc
    exact ⟨c, hc, hends⟩
  | _, _, _, hstarts, .node hmem hsymbols hrow => by
    obtain ⟨-, -, hfirst, -⟩ := closesRuns hmem
    rw [← hsymbols] at hfirst
    exact head_of_row_startsChild (hfirst hstarts) hrow

/-- So does a row. -/
theorem head_of_row_startsChild : ∀ {ds : List (Derivation Terminal Category Form)} {a b : Nat},
    (ds.map Derivation.symbol).head?.any startsChild = true → ReadsRow grammar source ds a b →
      ∃ c, source[a]? = some c ∧ (isBlank c = false ∨ Terminal.endsRun c = true)
  | _, _, _, hstarts, .one first => head_of_startsChild (by simpa using hstarts) first
  | _, _, _, hstarts, .cons first _ _ => head_of_startsChild (by simpa using hstarts) first

end

mutual

/-- What does not begin like a child of an element is not at the beginning of what does. -/
theorem lt_of_startsChild {d₀ : Derivation Terminal Category Form}
    (hnot : startsChild d₀.symbol = false) (h₀ : Reads grammar source d₀ m n) :
    ∀ {d : Derivation Terminal Category Form} {a b : Nat}, startsChild d.symbol = true →
      Reads grammar source d a b → IsPart d₀ d → a < m
  | .terminal _ _ _, _, _, hstarts, _, hpart => by
    obtain rfl := isPart_terminal_iff.1 hpart
    rw [hnot] at hstarts
    cases hstarts
  | .node rule ds, _, _, hstarts, .node hmem hsymbols hrow, hpart => by
    obtain ⟨-, -, hfirst, -⟩ := closesRuns hmem
    rw [← hsymbols] at hfirst
    rcases isPart_node_iff.1 hpart with rfl | ⟨d, hd, hpart⟩
    · rw [hnot] at hstarts
      cases hstarts
    · exact lt_of_row_startsChild hnot h₀ (hfirst hstarts) hrow hd hpart

/-- Nor at the beginning of a row of such. -/
theorem lt_of_row_startsChild {d₀ : Derivation Terminal Category Form}
    (hnot : startsChild d₀.symbol = false) (h₀ : Reads grammar source d₀ m n) :
    ∀ {ds : List (Derivation Terminal Category Form)} {a b : Nat}
      {d : Derivation Terminal Category Form},
      (ds.map Derivation.symbol).head?.any startsChild = true → ReadsRow grammar source ds a b →
        d ∈ ds → IsPart d₀ d → a < m
  | _, _, _, _, hstarts, .one first, hd, hpart =>
    lt_of_startsChild hnot h₀ (by simpa using hstarts) first (List.mem_singleton.1 hd ▸ hpart)
  | _, _, _, _, hstarts, .cons first gap rest, hd, hpart => by
    rcases List.mem_cons.1 hd with heq | hd
    · exact lt_of_startsChild hnot h₀ (by simpa using hstarts) first (heq ▸ hpart)
    · obtain ⟨p, q, hp, -, hreads⟩ := rest.exists_reads hd
      obtain ⟨p', q', hp', -, hreads'⟩ := hpart.exists_reads hreads
      obtain rfl := Option.some.inj (h₀.start?.symm.trans hreads'.start?)
      have hlt := first.lt
      have hle := gap.le
      omega

end

end SkinCompiler.Source
