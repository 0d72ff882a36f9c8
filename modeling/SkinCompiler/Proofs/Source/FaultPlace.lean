import SkinCompiler.Proofs.Source.Placement
import SkinCompiler.Source.Outline

/-!
# Where the faults of a source stand

The line and the column of a fault are those of a position of the source, with one exception: a
source that ends too early is reported before its first column.

* `Place.IsIn` -- a line and a column that a position of a text has;
* `derive_error` -- the characters at which readings stop stand in the text;
* `isIn_of_reads` -- what is wrong with a construct is reported in the source if what is wrong in its
  placeholders is;
* `outline_place_iff` -- which faults point into their source.
-/

namespace SkinCompiler.Grammar

variable {T C F : Type} {g : Grammar T C F} {goal : C} {text : Text} {failure : Failure}

/-- A chart stops at a character of the text that it is filled over. -/
theorem Chart.fill_error [DecidableEq C] {here : Nat} {chart : Chart T C F}
    (h : Chart.fill g goal here text chart = .error failure) :
    ∃ k c, failure = .unexpected (here + k) c ∧ text[k]? = some c := by
  induction text generalizing here chart with
  | nil => cases h
  | cons c rest ih =>
    rw [Chart.fill] at h
    split at h
    · obtain rfl := Except.error.inj h
      exact ⟨0, c, rfl, rfl⟩
    · obtain ⟨k, c', rfl, hc'⟩ := ih h
      refine ⟨k + 1, c', ?_, hc'⟩
      rw [Nat.add_right_comm, Nat.add_assoc]

/-- A text without a derivation ends too early or stops at one of its characters. -/
theorem derive_error [DecidableEq T] [DecidableEq C] [DecidableEq F]
    (h : g.derive goal text = .error failure) :
    failure = .unfinished ∨ ∃ k c, failure = .unexpected k c ∧ text[k]? = some c := by
  unfold Grammar.derive at h
  split at h
  · rename_i e hfill
    obtain rfl := Except.error.inj h
    obtain ⟨k, c, rfl, hc⟩ := Chart.fill_error hfill
    exact Or.inr ⟨k, c, by rw [Nat.zero_add], hc⟩
  · left
    dsimp only at h
    split at h
    · exact (Except.error.inj h).symm
    · split at h
      · exact (Except.error.inj h).symm
      · split at h
        · cases h
        · exact (Except.error.inj h).symm

end SkinCompiler.Grammar

namespace SkinCompiler.Source

open Grammar

variable {source text : Text} {r : Reader} {form : Form} {span : Span} {ps : List Phrase}
  {e : Unreadable} {k offset : Nat}

/-! ## Places -/

/-- A position of the text has the line and the column: some lines stand before its own, and some
characters of its own line stand before it. -/
def Place.IsIn (text : Text) (p : Place) : Prop :=
  ∃ lines start rest, text = lines ++ (start ++ rest) ∧ (∀ c ∈ lines.getLast?, c = '\n') ∧
    '\n' ∉ start ∧ p.line = lines.count '\n' + 1 ∧ p.column = start.length + 1

/-- The place of a position of the text. -/
theorem isIn_placeOf (h : k ≤ text.length) : (Place.of text k).IsIn text := by
  have hbefore : (if (k : Int) < 0 then (k : Int) + text.length else k).toNat = k := by
    rw [if_neg (by omega)]
    exact Int.toNat_natCast k
  let lines := ((text.take k).reverse.dropWhile (· != '\n')).reverse
  let start := ((text.take k).reverse.takeWhile (· != '\n')).reverse
  have htake : lines ++ start = text.take k := by
    rw [← List.reverse_append, List.takeWhile_append_dropWhile, List.reverse_reverse]
  have hlength : lines.length + start.length = k := by
    rw [← List.length_append, htake, List.length_take, Nat.min_eq_left h]
  have hstart : '\n' ∉ start := by
    intro hmem
    have := List.mem_takeWhile_imp (List.mem_reverse.1 hmem)
    simp at this
  refine ⟨lines, start, text.drop k, ?_, ?_, hstart, ?_, ?_⟩
  · rw [← List.append_assoc, htake, List.take_append_drop]
  · intro c hc
    rw [List.getLast?_reverse] at hc
    have := List.head?_dropWhile_not (· != '\n') (text.take k).reverse
    rw [Option.mem_def.1 hc] at this
    simpa using this
  · rw [Place.of, hbefore, ← htake, List.count_append, List.count_eq_zero.2 hstart, Nat.add_zero]
  · rw [Place.of, hbefore]
    dsimp only
    have hstop : ((text.take k).reverse.takeWhile (· != '\n')).length = start.length :=
      List.length_reverse.symm
    rw [hstop, List.length_take, Nat.min_eq_left h]
    omega

/-- The position before the first one has no column. -/
theorem not_isIn_before : ¬(Place.of source (-1)).IsIn source := by
  rintro ⟨lines, start, rest, -, -, -, -, hcolumn⟩
  rw [Place.of] at hcolumn
  dsimp only at hcolumn
  omega

/-- What is wrong with a piece of a source stands in the source, unless the piece begins the source
and ends too early. -/
theorem isIn_unreadable {failure : Failure} (htext : text <+: source.drop offset)
    (hfailure : failure = .unfinished ∧ 0 < offset ∨
      ∃ k c, failure = .unexpected k c ∧ text[k]? = some c)
    (hoffset : offset ≤ source.length) :
    (unreadable source offset failure).place.IsIn source := by
  rcases hfailure with ⟨rfl, hpos⟩ | ⟨k, c, rfl, hc⟩
  · have hcast : ((offset : Int) - 1) = ((offset - 1 : Nat) : Int) := by omega
    rw [unreadable, hcast]
    exact isIn_placeOf (by omega)
  · obtain ⟨hlt, -⟩ := List.getElem?_eq_some_iff.1 hc
    have hle := htext.length_le
    rw [List.length_drop] at hle
    rw [unreadable]
    exact isIn_placeOf (k := offset + k) (by omega)

/-! ## Constructs -/

/-- What is wrong in a placeholder is reported where it stands in the source. -/
def Reader.ReportsInside (r : Reader) : Prop :=
  ∀ code position e, 0 < position → position ≤ r.source.length →
    code <+: r.source.drop position → r.placeholder code position = .error e →
      e.place.IsIn r.source

/-- An element is reported at its end. -/
theorem place_of_buildElement (h : r.buildElement form span ps = .error e) :
    e.place = Place.of r.source span.stop := by
  unfold Reader.buildElement at h
  split at h
  case h_6 | h_7 =>
    dsimp only at h
    split at h
    · obtain rfl := Except.error.inj h
      rfl
    · cases h
  all_goals cases h

/-- A template literal is reported in one of its placeholders. -/
theorem exists_of_buildTemplate (h : r.buildTemplate span ps = .error e) :
    ∃ t text start, ps = [.token t text start] ∧
      ∃ x ∈ templateCodes (templatePieces 0 (r.offset + start + 1) (text.drop 1)),
        r.placeholder x.1 x.2 = .error e := by
  unfold Reader.buildTemplate at h
  split at h
  · rename_i t text start
    dsimp only at h
    split at h
    · cases h
    · rename_i e' hread
      obtain rfl := Except.error.inj h
      exact ⟨t, text, start, rfl, exists_of_mapM_eq_error hread⟩
  · cases h

/-- Only elements and template literals are reported. -/
theorem build_eq_error (h : r.build form span ps = .error e) :
    r.buildTemplate span ps = .error e ∨ r.buildElement form span ps = .error e := by
  cases form <;> simp_all [Reader.build]

/-- A construct whose parts are read is reported in the source. -/
theorem isIn_of_build {ds : List (Derivation Terminal Category Form)} {a b : Nat}
    (hr : r.IsFaithful) (hreports : r.ReportsInside) (hrow : ReadsRow grammar r.text ds a b)
    (hparts : r.phrasesOfRow ds = .ok ps) (h : r.build form (r.spanOf ds) ps = .error e) :
    e.place.IsIn r.source := by
  rw [spanOf_eq hrow] at h
  rcases build_eq_error h with htemplate | helement
  · obtain ⟨t, text, start, rfl, x, hx, hread⟩ := exists_of_buildTemplate htemplate
    have hplaced := (isInvariant_arePlaced hr).of_readsRow hrow hparts
    have htext := hplaced.tokens t text start List.mem_cons_self
    have hcode := code_isPrefix hr.text_isPrefix htext hx
    obtain ⟨hstart, hstop, -⟩ := isPlaceholder_of_mem hx
    have hle := (htext.trans (List.IsPrefix.drop hr.text_isPrefix start)).length_le
    have hne : 0 < text.length := by
      refine List.length_pos_iff.2 ?_
      rintro rfl
      simp [templatePieces, templateCodes] at hx
    rw [List.drop_drop, List.length_drop] at hle
    rw [List.length_drop] at hstop
    exact hreports x.1 x.2 e (by omega) (by omega) hcode hread
  · have hle := hr.le_length hrow.lt (hrow.le_length grammar_isProper)
    rw [place_of_buildElement helement]
    exact isIn_placeOf (k := r.offset + b) hle

theorem phrases_node_eq_error {rule : Grammar.Rule Terminal Category Form}
    {ds : List (Derivation Terminal Category Form)}
    (h : r.phrases (.node rule ds) = .error e) : r.phrasesOfRow ds = .error e ∨
      ∃ ps, r.phrasesOfRow ds = .ok ps ∧ r.build rule.form (r.spanOf ds) ps = .error e := by
  rw [Reader.phrases] at h
  cases hrow : r.phrasesOfRow ds <;> simp_all

theorem phrasesOfRow_cons_eq_error {d : Derivation Terminal Category Form}
    {ds : List (Derivation Terminal Category Form)} (h : r.phrasesOfRow (d :: ds) = .error e) :
    r.phrases d = .error e ∨ r.phrasesOfRow ds = .error e := by
  rw [Reader.phrasesOfRow] at h
  cases hd : r.phrases d with
  | error e' => simp_all
  | ok qs => cases hds : r.phrasesOfRow ds <;> simp_all

mutual

/-- What is wrong with a derivation is reported in the source. -/
theorem isIn_of_reads (hr : r.IsFaithful) (hreports : r.ReportsInside) :
    ∀ {d : Derivation Terminal Category Form} {a b : Nat}, Reads grammar r.text d a b →
      r.phrases d = .error e → e.place.IsIn r.source
  | .terminal t a b, _, _, _, h => by
    rw [Reader.phrases] at h
    cases h
  | .node rule ds, _, _, .node _ _ hrow, h => by
    rcases phrases_node_eq_error h with hparts | ⟨ps, hparts, hbuild⟩
    · exact isIn_of_readsRow hr hreports hrow hparts
    · exact isIn_of_build hr hreports hrow hparts hbuild

/-- What is wrong with a row of derivations is reported in the source. -/
theorem isIn_of_readsRow (hr : r.IsFaithful) (hreports : r.ReportsInside) :
    ∀ {ds : List (Derivation Terminal Category Form)} {a b : Nat},
      ReadsRow grammar r.text ds a b → r.phrasesOfRow ds = .error e → e.place.IsIn r.source
  | [_], _, _, .one first, h => by
    rcases phrasesOfRow_cons_eq_error h with hd | hds
    · exact isIn_of_reads hr hreports first hd
    · cases hds
  | _ :: _, _, _, .cons first _ rest, h => by
    rcases phrasesOfRow_cons_eq_error h with hd | hds
    · exact isIn_of_reads hr hreports first hd
    · exact isIn_of_readsRow hr hreports rest hds

end

/-! ## Whole texts -/

/-- What is wrong with an expression that does not begin its source is reported in the source, also
where the expression ends too early. -/
theorem readExpressionAt_isIn (depth : Nat) (hpos : 0 < offset) (hoffset : offset ≤ source.length)
    (htext : text <+: source.drop offset)
    (h : readExpressionAt source depth text offset = .error e) : e.place.IsIn source := by
  induction depth generalizing text offset e with
  | zero =>
    rw [readExpressionAt] at h
    obtain rfl := Except.error.inj h
    exact isIn_unreadable htext (Or.inl ⟨rfl, hpos⟩) hoffset
  | succ depth ih =>
    have hr := isFaithful_readExpressionAt depth htext
    rw [readExpressionAt] at h
    split at h
    · rename_i failure hderive
      obtain rfl := Except.error.inj h
      exact isIn_unreadable htext ((derive_error hderive).imp_left fun hf => ⟨hf, hpos⟩) hoffset
    · rename_i d hderive
      obtain ⟨a, b, -, hreads, -, -⟩ := derive_reads grammar_isProper hderive
      dsimp only at h
      split at h
      · rename_i e' hphrases
        obtain rfl := Except.error.inj h
        exact isIn_of_reads hr (fun _ _ _ hp hle hcode => ih hp hle hcode) hreads hphrases
      · split at h
        · cases h
        · obtain rfl := Except.error.inj h
          exact isIn_unreadable htext (Or.inl ⟨rfl, hpos⟩) hoffset

/-- What is wrong with a module is reported in its source, unless the source ends too early. -/
theorem readModule_isIn_iff (h : readModule source = .error e) :
    e.place.IsIn source ↔ grammar.derive .module source ≠ .error .unfinished := by
  have hsource : source <+: source.drop 0 := List.prefix_rfl
  unfold readModule at h
  split at h
  · cases h
  · split at h
    · rename_i failure hderive
      obtain rfl := Except.error.inj h
      rw [hderive]
      rcases derive_error hderive with rfl | ⟨k, c, rfl, hc⟩
      · exact iff_of_false not_isIn_before fun hne => hne rfl
      · refine iff_of_true ?_ fun heq => by cases heq
        exact isIn_unreadable hsource (Or.inr ⟨k, c, rfl, hc⟩) (Nat.zero_le _)
    · rename_i d hderive
      rw [hderive]
      obtain ⟨a, b, -, hreads, -, -⟩ := derive_reads grammar_isProper hderive
      dsimp only at h
      split at h
      · rename_i e' hphrases
        obtain rfl := Except.error.inj h
        refine iff_of_true ?_ fun heq => by cases heq
        exact isIn_of_reads (isFaithful_readExpressionAt _ hsource)
          (fun _ _ _ hp hle hcode => readExpressionAt_isIn _ hp hle hcode) hreads hphrases
      · cases h

/-- A source that cannot be read is reported at a position of its own exactly if it does not itself
end too early: the end of a whole source has a column before the first one.  An early end inside a
placeholder, an unexpected character and a closing tag that does not match are reported where they
stand. -/
theorem outline_place_iff {parts : Parts} (h : outline source parts = .error e) :
    e.place.IsIn source ↔ grammar.derive .module source ≠ .error .unfinished := by
  refine readModule_isIn_iff ?_
  rw [outline] at h
  split at h
  · cases h
  · rename_i e' hread
    rw [hread, Except.error.inj h]

/-- A module whose second line holds a placeholder with an unclosed bracket. -/
def openPlaceholder : Text := "a;\n\x60$\x7b(\x7d\x60"

theorem outline_openPlaceholder :
    outline openPlaceholder {} = .error ⟨.unfinished, ⟨2, 3⟩⟩ ∧
      grammar.derive .module openPlaceholder ≠ .error .unfinished ∧
      Place.IsIn openPlaceholder ⟨2, 3⟩ := by
  have hread : outline openPlaceholder {} = .error ⟨.unfinished, ⟨2, 3⟩⟩ :=
    eq_error_of_error? (by decide +kernel)
  have hplace : Place.IsIn openPlaceholder ⟨2, 3⟩ := by
    refine ⟨"a;\n", "\x60$", "\x7b(\x7d\x60", by decide +kernel, ?_, by decide, by decide, rfl⟩
    rintro c ⟨rfl⟩
    rfl
  exact ⟨hread, (outline_place_iff hread).1 hplace, hplace⟩

/-- A module that ends inside a bracket is reported at no position of it. -/
theorem outline_openBracket : outline "(" {} = .error ⟨.unfinished, ⟨1, 0⟩⟩ ∧
    ¬Place.IsIn "(" ⟨1, 0⟩ := by
  refine ⟨eq_error_of_error? (by decide +kernel), ?_⟩
  rintro ⟨lines, start, rest, -, -, -, -, hcolumn⟩
  dsimp only at hcolumn
  omega

end SkinCompiler.Source
