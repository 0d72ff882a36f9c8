import SkinCompiler.Proofs.Skin.Removal

/-!
# The ranges of the edits of styles

The edits that take the styles out of a source, or put an import in their place, lie in the source.
What goes with a statement is no more than an `export` and blanks before it, on its line, and blanks
and semicolons up to the line feed behind it.  Two edits overlap in one case only: nothing is put
in, and the `export` before the import is one in which the declaration ends.

* `IsWidened`, `removal_isWidened` -- what is removed with a statement;
* `EndsInExport`, `lineStart_lt_iff` -- when that is a part of the statement before;
* `stylesEdits_isOk_iff` -- when the edits of styles can be applied;
* `stylesEdits_areRanges` -- the ranges of all edits of styles.
-/

namespace SkinCompiler.Skin

open Source Text

variable {s : LoadedSkin} {items : List ModuleItem} {parts : Parts} {source line : Text}
variable {d i : Span} {start : Nat}

/-! ## What goes with a statement -/

/-- A range is widened to the positions from `a` up to `b`: by blanks or blanks around one `export`
before it on its line, and by blanks and semicolons behind it, with one line feed at most. -/
structure IsWidened (source : Text) (d : Span) (a b : Nat) : Prop where
  /-- It does not begin after the range. -/
  start_le : a ≤ d.start
  /-- It does not end before the range. -/
  le_stop : d.stop ≤ b
  /-- It begins on the line of the range. -/
  line : '\n' ∉ slice source a d.start
  /-- What stands before the range. -/
  lead : isBlankText (slice source a d.start) = true ∨ ∃ g g', isBlankText g = true ∧
    isBlankText g' = true ∧ slice source a d.start = g ++ "export" ++ g'
  /-- What stands behind the range. -/
  trail : ∃ gap, (∀ c ∈ gap, c = ' ' ∨ c = '\t' ∨ c = ';') ∧
    slice source d.stop b ∈ [gap, gap ++ ['\n']]

/-- The end of a beginning of a text. -/
theorem slice_of_take {a b : Text} (h : source.take start = a ++ b)
    (hstart : start ≤ source.length) :
    slice source (start - b.length) start = b := by
  have hlength := congrArg List.length h
  rw [List.length_take, List.length_append] at hlength
  have ha : start - b.length = a.length := by omega
  rw [slice, ← List.drop_take, h, ha, List.drop_left]

/-- What a removal takes out widens its range. -/
theorem removal_isWidened (hle : d.start ≤ d.stop) (hlength : d.stop ≤ source.length) :
    IsWidened source d (lineStart source d.start) (lineEnd source d.stop) := by
  refine ⟨lineStart_le source d.start, le_lineEnd source d.stop, ?_, ?_, ?_⟩
  · rcases lineStart_cases source d.start with heq | ⟨before, lead, htake, -, hline, -, heq⟩
    · rw [heq]
      simp [slice]
    · rwa [heq, slice_of_take htake (by omega)]
  · rcases lineStart_cases source d.start with heq | ⟨before, lead, htake, -, -, hlead, heq⟩
    · left
      rw [heq]
      simp [slice, isBlankText]
    · rw [heq, slice_of_take htake (by omega)]
      obtain ⟨g, g', hg, hg', hstrip⟩ := exists_strip lead
      rcases hlead with hlead | hlead
      · left
        rw [hstrip, hlead, List.append_nil]
        exact isBlankText_append.2 ⟨hg, hg'⟩
      · right
        rw [hlead] at hstrip
        exact ⟨g, g', hg, hg', hstrip⟩
  · rcases lineEnd_cases source d.stop with heq | ⟨gap, rest, hdrop, hgap, heq⟩
    · refine ⟨[], by simp, ?_⟩
      rw [heq]
      simp [slice]
    · refine ⟨gap, hgap, ?_⟩
      have hslice : slice source d.stop (lineEnd source d.stop) = gap ++ ['\n'] := by
        rw [heq, slice, hdrop, Nat.add_assoc, Nat.add_sub_cancel_left, List.append_cons]
        exact List.take_left' (by simp)
      rw [hslice]
      simp

/-! ## What stands before -/

/-- The range `d` ends in an `export` that stands alone before the range `i` on the line of that
one. -/
def EndsInExport (source : Text) (d i : Span) : Prop :=
  ∃ before lead gap, source.take i.start = before ++ lead ++ "export" ++ gap ∧
    before.getLast? ∈ [none, some '\n'] ∧ '\n' ∉ lead ∧ '\n' ∉ gap ∧
    isBlankText lead = true ∧ isBlankText gap = true ∧
    (before ++ lead).length < d.stop ∧ d.stop ≤ (before ++ lead ++ "export").length

/-- Where a removal begins when nothing but blanks and `export` stands on the line before its
range. -/
theorem lineStart_eq {before lead : Text} (htake : source.take start = before ++ lead)
    (hbefore : before.getLast? ∈ [none, some '\n']) (hline : '\n' ∉ lead)
    (hlead : strip lead = [] ∨ strip lead = "export") :
    lineStart source start = start - lead.length := by
  have hwhile : (source.take start).reverse.takeWhile (· != '\n') = lead.reverse := by
    rw [htake, List.reverse_append, List.takeWhile_append_of_pos]
    · have hnil : before.reverse.takeWhile (· != '\n') = [] := by
        simp only [List.mem_cons, List.not_mem_nil, or_false, ← List.head?_reverse] at hbefore
        cases hrow : before.reverse with
        | nil => rfl
        | cons c row =>
          rw [hrow] at hbefore
          obtain rfl : c = '\n' := by simpa using hbefore
          rfl
      rw [hnil, List.append_nil]
    · intro c hc
      rw [List.mem_reverse] at hc
      simpa using ne_of_mem_of_not_mem hc hline
  unfold lineStart
  rw [hwhile]
  dsimp only
  rw [List.reverse_reverse, List.length_reverse]
  refine if_pos ?_
  rw [Bool.or_eq_true, List.isEmpty_iff, decide_eq_true_eq]
  exact hlead

/-- A removal begins inside of a range before it just if that ends in the `export` that the removal
takes out. -/
theorem lineStart_lt_iff (hbefore : d.Before i) (hlength : i.start ≤ source.length)
    (hpos : 0 < d.stop) (hsolid : IsSolidAt source d.stop) :
    lineStart source i.start < d.stop ↔ EndsInExport source d i := by
  have hle : d.stop ≤ i.start := hbefore
  constructor
  · intro hlt
    rcases lineStart_cases source i.start with heq | ⟨before, lead, htake, hfirst, hline, hlead, heq⟩
    · omega
    obtain ⟨g, g', hg, hg', hstrip⟩ := exists_strip lead
    have hcount := congrArg List.length htake
    rw [List.length_take, List.length_append] at hcount
    -- the last character of the range is not blank, so that it stands in the `export`
    obtain ⟨c, hc, hblank⟩ := hsolid
    rw [← List.getElem?_take_of_lt (j := i.start) (by omega), htake,
      List.getElem?_append_right (by omega)] at hc
    have hsolid : ∀ g : Text, isBlankText g = true → c ∉ g := by
      intro g hg hmem
      rw [isBlankText_iff.1 hg c hmem] at hblank
      cases hblank
    rcases hlead with hlead | hlead
    · rw [hlead, List.append_nil] at hstrip
      rw [hstrip] at hc
      exact absurd (List.mem_of_getElem? hc) (hsolid _ (isBlankText_append.2 ⟨hg, hg'⟩))
    rw [hlead] at hstrip
    subst hstrip
    simp only [List.mem_append, not_or] at hline
    refine ⟨before, g, g', by simpa using htake, hfirst, hline.1.1, hline.2, hg, hg', ?_, ?_⟩
    · by_contra hearly
      rw [List.length_append] at hearly
      rw [List.append_assoc, List.getElem?_append_left (by omega)] at hc
      exact hsolid g hg (List.mem_of_getElem? hc)
    · by_contra hlate
      rw [List.append_assoc, List.length_append] at hlate
      rw [List.getElem?_append_right (by omega)] at hc
      exact hsolid g' hg' (List.mem_of_getElem? hc)
  · rintro ⟨before, lead, gap, htake, hfirst, hline, hline', hlead, hgap, hlt, -⟩
    have hcount := congrArg List.length htake
    have hstart : lineStart source i.start = i.start - (lead ++ "export" ++ gap).length := by
      refine lineStart_eq (by simpa using htake) hfirst ?_ (Or.inr ?_)
      · simp only [List.mem_append, not_or]
        exact ⟨⟨hline, by decide⟩, hline'⟩
      · rw [strip_of_blank hlead hgap]
        decide
    rw [hstart]
    simp only [List.length_take, List.length_append] at hcount hlt ⊢
    omega

/-! ## All edits -/

/-- The `export` that goes with the import of the styles is one in which their declaration ends. -/
def LoadedSkin.TakesExport (s : LoadedSkin) : Prop :=
  ∃ d ∈ s.declarationSpan, ∃ i ∈ s.importSpan, EndsInExport s.source d i

/-- The statements of the styles that are removed: the declaration, and the import if nothing is put
in its place. -/
def LoadedSkin.removed (s : LoadedSkin) (line : Text) : List Span :=
  (if line.isEmpty then s.importSpan.toList else []) ++ s.declarationSpan.toList

theorem EndsInExport.before (h : EndsInExport source d i) : d.Before i := by
  obtain ⟨before, lead, gap, htake, -, -, -, -, -, -, hle⟩ := h
  have hcount := congrArg List.length htake
  rw [List.length_take, List.length_append] at hcount
  unfold Span.Before
  omega

/-- The edits without a text take out what is removed. -/
theorem filter_stylesEdits (s : LoadedSkin) (line : Text) :
    (stylesEdits s line).filter (·.text.isEmpty) = (s.removed line).map (removal s.source) := by
  rw [stylesEdits_eq, LoadedSkin.removed, List.filter_append, List.filter_append, List.map_append]
  have hdeclaration : (s.declarationSpan.map (removal s.source)).toList.filter (·.text.isEmpty) =
      s.declarationSpan.toList.map (removal s.source) := by
    rw [Option.toList_map]
    refine List.filter_eq_self.2 fun edit hedit => ?_
    obtain ⟨d, -, rfl⟩ := List.mem_map.1 hedit
    rfl
  rw [hdeclaration]
  cases line with
  | nil =>
    have himport : importEdit s.source [] = removal s.source := rfl
    rw [himport, Option.toList_map, List.filter_eq_self.2]
    · simp
    · intro edit hedit
      obtain ⟨i, -, rfl⟩ := List.mem_map.1 hedit
      rfl
  | cons c line =>
    have hinserted : ∀ b : Bool, ∀ place : Int, ((if b = true then ([] : List Edit) else
        [⟨place, place, c :: line ++ ['\n']⟩]).filter (·.text.isEmpty)) = [] := by
      rintro (_ | _) place <;> rfl
    rw [hinserted, List.append_nil, Option.toList_map, List.filter_eq_nil_iff.2]
    · rfl
    · intro edit hedit
      obtain ⟨i, -, rfl⟩ := List.mem_map.1 hedit
      simp [importEdit]

namespace LoadedSkin.IsOutlined

/-- A statement that is removed has its range in the source. -/
theorem removed_lt (h : s.IsOutlined items parts) (hd : d ∈ s.removed line) :
    d.start < d.stop ∧ d.stop ≤ s.source.length := by
  rcases List.mem_append.1 hd with hd | hd
  · split at hd
    · obtain ⟨hlt, hlength, -⟩ := h.import_hasEnds (h.isImported (Option.mem_toList.1 hd))
      exact ⟨hlt, hlength⟩
    · cases hd
  · obtain ⟨hlt, hlength, -⟩ := h.declaration_hasEnds (Option.mem_toList.1 hd)
    exact ⟨hlt, hlength⟩

theorem removed_isIn (h : s.IsOutlined items parts) (line : Text) :
    ∀ edit ∈ (s.removed line).map (removal s.source), edit.IsIn s.source.length := by
  rw [List.forall_mem_map]
  intro d hd
  obtain ⟨hlt, hlength⟩ := h.removed_lt hd
  exact removal_isIn hlt hlength

/-- Removals of the import and of the declaration overlap just if the one of the import takes an
`export` in which the declaration ends. -/
theorem removals_apart_iff_not_endsInExport (h : s.IsOutlined items parts) (hi : i ∈ s.importSpan)
    (hd : d ∈ s.declarationSpan) :
    (removal s.source i).IsApart (removal s.source d) ↔ ¬EndsInExport s.source d i := by
  obtain ⟨hi_lt, hi_length, -⟩ := h.import_hasEnds (h.isImported hi)
  obtain ⟨hd_lt, -, -, hsolid⟩ := h.declaration_hasEnds hd
  rw [h.removals_apart_iff (h.isImported hi) hd]
  constructor
  · intro hclear hexport
    have hlt := (lineStart_lt_iff hexport.before (by omega) (by omega) hsolid).2 hexport
    have hle := hclear hexport.before
    omega
  · intro hexport hbefore
    by_contra hlt
    exact hexport ((lineStart_lt_iff hbefore (by omega) (by omega) hsolid).1 (by omega))

/-- The edits of styles can be applied unless nothing is put in and the import takes the end of the
declaration for its `export`. -/
theorem stylesEdits_isOk_iff (h : s.IsOutlined items parts) (line : Text) :
    (∃ t, splice s.source (stylesEdits s line) = .ok t) ↔ ¬(line = [] ∧ s.TakesExport) := by
  rcases eq_or_ne line [] with rfl | hline
  · rw [splice_isOk_iff, stylesEdits_nil, ← List.map_append]
    have hin : ∀ edit ∈ (s.importSpan.toList ++ s.declarationSpan.toList).map (removal s.source),
        edit.IsIn s.source.length := h.removed_isIn []
    rw [and_iff_right hin, List.map_append, List.pairwise_append]
    simp only [List.pairwise_map, List.forall_mem_map, Option.mem_toList, pairwise_toList, true_and]
    constructor
    · rintro hapart ⟨d, hd, i, hi, hexport⟩
      exact (h.removals_apart_iff_not_endsInExport hi hd).1 (hapart i hi d hd) hexport
    · intro hexport i hi d hd
      refine (h.removals_apart_iff_not_endsInExport hi hd).2 fun hends => hexport ?_
      exact ⟨d, hd, i, hi, hends⟩
  · exact iff_of_true (modules_isOk h hline) fun hboth => hline hboth.1

/-- The edits of styles lie in the source. -/
theorem stylesEdits_isIn (h : s.IsOutlined items parts) :
    ∀ edit ∈ stylesEdits s line, edit.IsIn s.source.length := by
  rcases eq_or_ne line [] with rfl | hline
  · rw [stylesEdits_nil, ← List.map_append]
    exact h.removed_isIn []
  · exact (splice_isOk_iff.1 (modules_isOk h hline)).1

end LoadedSkin.IsOutlined

/-- The edits of styles have ranges in the source, and can be applied unless nothing is put in and
the import takes the end of the declaration for its `export`; only then do two of them overlap.  The
edits without a text are the removals of statements, which widen their ranges. -/
theorem stylesEdits_areRanges (line : Text) (h : Source.outline s.source parts = .ok s.outline) :
    (∀ edit ∈ stylesEdits s line, edit.IsIn s.source.length) ∧
      ((stylesEdits s line).Pairwise Edit.IsApart ↔ ¬(line = [] ∧ s.TakesExport)) ∧
      ((∃ t, splice s.source (stylesEdits s line) = .ok t) ↔ ¬(line = [] ∧ s.TakesExport)) ∧
      List.Forall₂ (fun d edit => ∃ a b : Nat, edit = ⟨a, b, []⟩ ∧ IsWidened s.source d a b)
        (s.removed line) ((stylesEdits s line).filter (·.text.isEmpty)) := by
  obtain ⟨items, hread, houtline⟩ := outline_eq_ok h
  have hs : s.IsOutlined items parts := ⟨hread, houtline⟩
  have hok := hs.stylesEdits_isOk_iff line
  refine ⟨hs.stylesEdits_isIn, ?_, hok, ?_⟩
  · rwa [splice_isOk_iff, and_iff_right hs.stylesEdits_isIn] at hok
  · rw [filter_stylesEdits, List.forall₂_map_right_iff, List.forall₂_same]
    intro d hd
    obtain ⟨hlt, hlength⟩ := hs.removed_lt hd
    exact ⟨_, _, rfl, removal_isWidened (Nat.le_of_lt hlt) hlength⟩

/-- A component whose declaration of styles ends in an `export`, before their import. -/
def exportedImport : Entry where
  path := "App.tsx"
  source := "let a=\x7b\x7das\nexport import a from'.css'\nlet f=()=><a/>"

theorem load_exportedImport : ((load exportedImport).toOption.map fun s =>
    (s.importSpan, s.declarationSpan)) = some (some ⟨18, 37⟩, some ⟨0, 17⟩) := by
  decide +kernel

/-- A line can be put in the place of the import of that component, but its styles cannot be taken
out. -/
theorem stylesEdits_areRanges_exportedImport : ∃ s, load exportedImport = .ok s ∧
    (∃ t, splice s.source (stylesEdits s "import'b'") = .ok t) ∧
    ¬∃ t, splice s.source (stylesEdits s []) = .ok t := by
  obtain ⟨s, hload, hspans⟩ := exists_eq_ok load_exportedImport
  obtain ⟨himport, hdeclaration⟩ := Prod.mk.inj hspans
  have houtline := outline_of_load hload
  obtain ⟨-, -, hsource⟩ := of_load hload
  have hexport : s.TakesExport := by
    refine ⟨_, hdeclaration, _, himport, "let a=\x7b\x7das\n".toList, [], " ".toList, ?_⟩
    rw [hsource]
    decide
  refine ⟨s, hload, ?_, ?_⟩
  · exact (stylesEdits_areRanges "import'b'" houtline).2.2.1.2 (by simp)
  · intro hok
    exact (stylesEdits_areRanges [] houtline).2.2.1.1 hok ⟨rfl, hexport⟩

/-- What is taken out with the import of that component overlaps what is taken out as the
declaration. -/
theorem stylesEdits_exportedImport : ∃ s, load exportedImport = .ok s ∧
    stylesEdits s [] = [⟨11, 38, []⟩, ⟨0, 17, []⟩] ∧
    ¬(stylesEdits s []).Pairwise Edit.IsApart ∧
    ∀ t, splice s.source (stylesEdits s []) ≠ .ok t := by
  obtain ⟨s, hload, hspans⟩ := exists_eq_ok load_exportedImport
  obtain ⟨himport, hdeclaration⟩ := Prod.mk.inj hspans
  obtain ⟨-, -, hsource⟩ := of_load hload
  have hedits : stylesEdits s [] = [⟨11, 38, []⟩, ⟨0, 17, []⟩] := by
    rw [stylesEdits_nil, himport, hdeclaration, hsource]
    decide +kernel
  have hoverlap : ¬(stylesEdits s []).Pairwise Edit.IsApart := by
    rw [hedits]
    simp [Edit.IsApart]
  refine ⟨s, hload, hedits, hoverlap, ?_⟩
  intro t ht
  exact hoverlap (splice_isOk_iff.1 ⟨t, ht⟩).2

end SkinCompiler.Skin
