import SkinCompiler.Proofs.Source.EditedModule

/-!
# Lines that import a name

An import of a name is read as an item that binds the name, whatever follows on it.

* `ReadsAs` -- a text is read as a row of symbols, and binds names;
* `isLine_import` -- the import of a name.
-/

namespace SkinCompiler.Source

open Grammar Text

variable {t t' rest gap x path : Text} {s : Grammar.Symbol Terminal Category}
  {ss : List (Grammar.Symbol Terminal Category)} {bs bs' : List Text}
  {rule : Grammar.Rule Terminal Category Form}

/-! ## Rows of symbols -/

/-- A text that another one follows on is read as a row of symbols, which binds names and exports
none. -/
def ReadsAs (ss : List (Grammar.Symbol Terminal Category)) (t rest : Text) (bs : List Text) :
    Prop :=
  ∃ ds, ReadsRow grammar (t ++ rest) ds 0 t.length ∧ ds.map Derivation.symbol = ss ∧
    boundOfRow (t ++ rest) ds = bs ∧ exportedOfRow (t ++ rest) ds = [] ∧
      ∃ qs, (Reader.whole (t ++ rest)).phrasesOfRow ds = .ok qs

/-- A terminal binds its text if it is a name. -/
theorem readsAs_terminal {terminal : Terminal} (hne : t ≠ [])
    (h : terminal.measure (t ++ rest) = some t.length) :
    ReadsAs [.terminal terminal] t rest (if terminal = .name then [t] else []) := by
  refine ⟨[.terminal terminal 0 t.length], .one (.terminal (List.length_pos_iff.2 hne) h), rfl, ?_,
    rfl, _, rfl⟩
  have hslice : slice (t ++ rest) 0 t.length = t := by
    rw [slice, List.drop_zero, Nat.sub_zero, List.take_left]
  rw [boundOfRow, boundOfRow, bound, hslice, List.append_nil]

/-- The rule binds and exports nothing by itself, and what it reads has a meaning. -/
def IsPlain (rule : Grammar.Rule Terminal Category Form) : Prop :=
  bindsProperty rule = false ∧ rule.head ≠ .exportDeclaration ∧
    rule.form ∈ [.contents, .importNames, .importClause, .defaultImport]

instance (rule : Grammar.Rule Terminal Category Form) : Decidable (IsPlain rule) :=
  inferInstanceAs (Decidable (_ ∧ _ ∧ _))

theorem IsPlain.exists_build (h : IsPlain rule) (r : Reader) (span : Span) (ps : List Phrase) :
    ∃ qs, r.build rule.form span ps = .ok qs := by
  have hform := h.2.2
  simp only [List.mem_cons, List.not_mem_nil, or_false] at hform
  rcases hform with hform | hform | hform | hform <;> exact hform ▸ ⟨_, rfl⟩

/-- A construct binds what its parts do, if names in it are bound by what it stands in. -/
theorem ReadsAs.node {c : Category} (h : ReadsAs ss t rest bs)
    (hrule : ∃ r ∈ grammar.rulesOf c, r.head = c ∧ r.body = ss ∧ IsPlain r) :
    ReadsAs [.category c] t rest (if c.isOpen then bs else []) := by
  obtain ⟨ds, hrow, hsymbols, hbound, hexported, qs, hqs⟩ := h
  obtain ⟨rule, hmem, rfl, hbody, hplain⟩ := hrule
  obtain ⟨qs', hqs'⟩ :=
    hplain.exists_build (Reader.whole (t ++ rest)) ((Reader.whole (t ++ rest)).spanOf ds) qs
  refine ⟨[.node rule ds], .one (.node hmem (hsymbols.trans hbody.symm) hrow), rfl, ?_, ?_, qs',
    phrasesOfRow_singleton_iff.2 (phrases_node_iff.2 ⟨qs, hqs, hqs'⟩)⟩
  · rw [boundOfRow, boundOfRow, bound, hplain.1, hbound]
    simp
  · rw [exportedOfRow, exportedOfRow, exported, if_neg hplain.2.1, hexported, ite_self,
      List.append_nil]

/-- A row is read from the texts that its parts are read from. -/
theorem ReadsAs.cons (h : ReadsAs [s] t (gap ++ (t' ++ rest)) bs) (hgap : IsGapText gap)
    (h' : ReadsAs ss t' rest bs') (hregular : ∀ s ∈ ss, isRegularSymbol s = true) :
    ReadsAs (s :: ss) (t ++ (gap ++ t')) rest (bs ++ bs') := by
  obtain ⟨ds, hrow, hsymbols, hbound, hexported, ps, hps⟩ := h
  obtain ⟨ds', hrow', rfl, hbound', hexported', qs, hqs⟩ := h'
  obtain ⟨d, rfl, rfl⟩ := List.map_eq_singleton_iff.1 hsymbols
  have hfirst := hrow.of_singleton
  have hwhole : t ++ (gap ++ (t' ++ rest)) = t ++ (gap ++ t') ++ rest := by
    rw [List.append_assoc, List.append_assoc]
  have halike := (AlikeRow.refl (t' ++ rest) ds').shift (t ++ gap)
  obtain ⟨qs', hqs', -⟩ := halike.exists_phrasesOfRow hrow' hqs
  have hbehind := halike.boundOfRow_eq.trans hbound'
  have hexported'' := halike.exportedOfRow_eq.trans hexported'
  have hsymbols'' := halike.map_symbol
  rw [List.append_assoc, hwhole, List.length_append] at hbehind hexported'' hqs'
  rw [List.length_append] at hsymbols''
  rw [hwhole] at hbound hexported hps
  refine ⟨_, readsRow_cons hgap hfirst hrow' hregular, ?_, ?_, ?_, _,
    phrasesOfRow_cons_iff.2 ⟨ps, qs', phrasesOfRow_singleton_iff.1 hps, hqs', rfl⟩⟩
  · rw [List.map_cons, hsymbols'']
  · rw [boundOfRow, boundOfRow, List.append_nil] at hbound
    rw [boundOfRow, hbound, hbehind]
  · rw [exportedOfRow, exportedOfRow, List.append_nil] at hexported
    rw [exportedOfRow, hexported, hexported'', List.append_nil]

/-! ## Imports -/

theorem Terminal.word?_append {c : Char} (hc : isNamePart c = false) (w t : Text) :
    word? w (w ++ c :: t) = some w.length := by
  rw [word?, after?_eq_some_iff.2 rfl]
  simp [hc]

theorem isGapText_blank : IsGapText [' '] := .blank (by decide) .nil

/-- What a default import imports is bound. -/
theorem readsAs_importClause (hx : Terminal.measure .name x = some x.length) (rest : Text) :
    ReadsAs [.category .importClause] x (' ' :: rest) [x] := by
  have hne : x ≠ [] := by
    rintro rfl
    cases hx
  have hname : ReadsAs [.terminal .name] x (' ' :: rest) [x] :=
    readsAs_terminal hne (Terminal.name_append hx (by decide) rest)
  exact (hname.node (c := .defaultImport) (by decide)).node (by decide)

/-- A semicolon binds nothing. -/
theorem readsAs_semicolon (rest : Text) : ReadsAs [.category .semicolon] [';'] rest [] := by
  have hmark : ReadsAs [.terminal (.mark [';'])] [';'] rest [] :=
    readsAs_terminal (List.cons_ne_nil _ _) (Terminal.spelling?_eq_some_iff.2 ⟨rfl, rest, rfl⟩)
  exact hmark.node (by decide)

theorem readsAs_string (hpath : Terminal.string? path = some path.length) (rest : Text) :
    ReadsAs [.terminal .string] path rest [] := by
  have hne : path ≠ [] := by
    rintro rfl
    cases hpath
  have hcut : Terminal.string? (path ++ []) = some path.length := by rw [List.append_nil, hpath]
  exact readsAs_terminal hne (Terminal.string?_cut hcut (Nat.le_refl _) rest)

/-- The import of a name is a line that binds it. -/
theorem isLine_import (hx : Terminal.measure .name x = some x.length)
    (hpath : Terminal.string? path = some path.length) :
    IsLine x ("import " ++ x ++ " from " ++ path ++ ";") := by
  intro rest
  have hword (w t : Text) (hw : w ≠ []) : ReadsAs [.terminal (.keyword w)] w (' ' :: t) [] :=
    readsAs_terminal hw (Terminal.word?_append (by decide) w t)
  have hfrom := (readsAs_string hpath _).cons .nil (readsAs_semicolon rest) (by decide)
  have hclause := (hword "from" _ (by decide)).cons isGapText_blank hfrom (by decide)
  have hname := (readsAs_importClause hx _).cons isGapText_blank hclause (by decide)
  have hrow := (hword "import" _ (by decide)).cons isGapText_blank hname (by decide)
  have hitem := (hrow.node (c := .importDeclaration) (by decide)).node (c := .item)
    (by decide)
  have hline : "import".toList ++ ([' '] ++ (x ++ ([' '] ++ ("from".toList ++ ([' '] ++
      (path ++ ([] ++ [';']))))))) =
        "import ".toList ++ x ++ " from ".toList ++ path ++ ";".toList := by
    simp
  rw [hline] at hitem
  obtain ⟨ds, hreads, hsymbols, hbound, hexported, qs, hqs⟩ := hitem
  obtain ⟨d, rfl, hsymbol⟩ := List.map_eq_singleton_iff.1 hsymbols
  rw [boundOfRow, boundOfRow, List.append_nil] at hbound
  rw [exportedOfRow, exportedOfRow, List.append_nil] at hexported
  exact ⟨d, hreads.of_singleton, hsymbol, ⟨qs, phrasesOfRow_singleton_iff.1 hqs⟩, hbound, hexported⟩

end SkinCompiler.Source
