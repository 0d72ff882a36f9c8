import SkinCompiler.Proofs.Candidate.Segment
import SkinCompiler.Proofs.Stylesheet.Declaration

/-!
# Blocks written and read

Which text fills a block up to its closing brace, and which declarations are read back from the body
of a block.

* `blockFrom_eq_iff` -- a block ends at a brace exactly when the text before it leaves nothing open;
* `declarations_lines_iff` -- the declarations of a block come back exactly when each of them is
  legible.

The mass of a text is the number of its characters besides blanks and semicolons.  Reading
declarations does not add to it, so a declaration that is lost is missed.
-/

namespace SkinCompiler

open Text Stylesheet

variable {a b t gap tail body rest : Text} {c : Char} {d : Declaration} {ds : List Declaration}

/-! ## The end of a block -/

/-- What is open after one more character; nothing if the character closes the block. -/
def braceStep (depth : Nat) (quote : Option Char) (before c : Char) : Option (Nat × Option Char) :=
  match quote with
  | some q => some (depth, if c == q && before != '\\' then none else some q)
  | none =>
    if c == '\'' || c == '"' then some (depth, some c)
    else if c == '\x7b' then some (depth + 1, none)
    else if c == '\x7d' then
      match depth with
      | 0 => none
      | depth + 1 => some (depth, none)
    else some (depth, none)

/-- What is open after a text inside a block, unless the text closes the block. -/
def skim (depth : Nat) (quote : Option Char) (before : Char) : Text → Option (Nat × Option Char)
  | [] => some (depth, quote)
  | c :: t => (braceStep depth quote before c).bind fun p => skim p.1 p.2 c t

/-- The text fills a block: a brace after it closes the block. -/
def FillsBlock (t : Text) : Prop := skim 0 none '\x7b' t = some (0, none)

instance decidableFillsBlock (t : Text) : Decidable (FillsBlock t) :=
  inferInstanceAs (Decidable (_ = _))

theorem blockFrom_cons (depth : Nat) (quote : Option Char) (before c : Char) (t : Text) :
    blockFrom depth quote before (c :: t) = match braceStep depth quote before c with
      | none => some ([], t)
      | some p => (blockFrom p.1 p.2 c t).map fun q => (c :: q.1, q.2) := by
  cases quote with
  | some q => rfl
  | none =>
    simp only [blockFrom, braceStep]
    split_ifs
    · rfl
    · rfl
    · cases depth <;> rfl
    · rfl

theorem eq_closing_of_braceStep {depth : Nat} {quote : Option Char} {before : Char}
    (h : braceStep depth quote before c = none) : c = '\x7d' ∧ depth = 0 ∧ quote = none := by
  cases quote with
  | some q => cases h
  | none =>
    simp only [braceStep] at h
    split_ifs at h with h₁ h₂ h₃
    cases depth with
    | zero => exact ⟨by simpa using h₃, rfl, rfl⟩
    | succ depth => cases h

theorem braceStep_closing (before : Char) : braceStep 0 none before '\x7d' = none := rfl

/-- A block and what comes after it make up the text with the brace between them. -/
theorem eq_of_blockFrom {depth : Nat} {quote : Option Char} {before : Char}
    (h : blockFrom depth quote before t = some (body, rest)) : t = body ++ '\x7d' :: rest := by
  induction t generalizing depth quote before body with
  | nil => cases h
  | cons c t ih =>
    rw [blockFrom_cons] at h
    split at h
    · rename_i hs
      cases h
      rw [(eq_closing_of_braceStep hs).1]
      rfl
    · obtain ⟨⟨body', rest'⟩, hq, h⟩ := Option.map_eq_some_iff.1 h
      cases h
      rw [ih hq]
      rfl

/-- The block ends at a brace exactly when the text before it leaves nothing open. -/
theorem blockFrom_eq_iff {depth : Nat} {quote : Option Char} {before : Char} :
    blockFrom depth quote before (a ++ '\x7d' :: rest) = some (a, rest)
      ↔ skim depth quote before a = some (0, none) := by
  induction a generalizing depth quote before with
  | nil =>
    rw [List.nil_append, blockFrom_cons, skim]
    cases hs : braceStep depth quote before '\x7d' with
    | none =>
      obtain ⟨-, rfl, rfl⟩ := eq_closing_of_braceStep hs
      simp
    | some p =>
      refine iff_of_false ?_ ?_
      · simp
      · rintro h
        cases h
        rw [braceStep_closing] at hs
        cases hs
  | cons c a ih =>
    rw [List.cons_append, blockFrom_cons, skim]
    cases hs : braceStep depth quote before c with
    | none => simp
    | some p =>
      rw [Option.bind_some, ← ih]
      simp

/-! ## The mass of a text -/

/-- The number of the characters of a text besides blanks and semicolons. -/
def Text.mass (t : Text) : Nat := (ink t).countP (· != ';')

@[simp] theorem mass_nil : mass [] = 0 := rfl

@[simp] theorem mass_append : mass (a ++ b) = mass a + mass b := by
  rw [mass, ink_append, List.countP_append, mass, mass]

theorem mass_of_ink (h : ink a = ink b) : mass a = mass b := by
  rw [mass, h, mass]

theorem mass_of_blank (h : isBlankText gap = true) : mass gap = 0 := by
  rw [mass, ink_of_blank h]
  rfl

theorem mass_cons_semicolon (t : Text) : mass (';' :: t) = mass t := by
  have h : mass [';'] = 0 := by decide
  rw [← List.singleton_append, mass_append, h, Nat.zero_add]

theorem mass_cons (hb : isBlank c = false) (hs : c ≠ ';') (t : Text) :
    mass (c :: t) = mass t + 1 := by
  rw [mass, ink_cons hb, List.countP_cons_of_pos (by simpa using hs), mass]

theorem mass_pos_of_mem (hc : c ∈ t) (hb : isBlank c = false) (hs : c ≠ ';') : 0 < mass t := by
  rw [mass, List.countP_pos_iff]
  exact ⟨c, List.mem_filter.2 ⟨hc, by rw [hb]; rfl⟩, by simpa using hs⟩

theorem mass_join (pieces : List Text) : mass (join ";" pieces) = mass pieces.flatten := by
  induction pieces with
  | nil => rfl
  | cons p pieces ih =>
    cases pieces with
    | nil => simp [join]
    | cons q pieces =>
      have hsep : mass ";" = 0 := by decide
      rw [join, mass_append, mass_append, ih, hsep, Nat.add_zero, List.flatten_cons (l := p),
        mass_append]

/-- Reading declarations adds nothing to the mass of a body. -/
theorem mass_declarations_le (body : Text) :
    mass ((declarations body).flatMap Declaration.text) ≤ mass body := by
  have hjoin : join ";" (segments [';'] body) = body := Scope.join_pieces ';' {} body
  rw [← hjoin, mass_join, declarations, hjoin]
  induction segments [';'] body with
  | nil => simp
  | cons p pieces ih =>
    rw [List.filterMap_cons, List.flatten_cons, mass_append]
    cases hd : declaration? p with
    | none => exact Nat.le_trans ih (Nat.le_add_left _ _)
    | some d =>
      dsimp only
      rw [List.flatMap_cons, mass_append, mass_of_ink (Declaration.ink_of_declaration? hd).1]
      exact Nat.add_le_add_left ih _

/-- Settling declarations leaves their mass. -/
theorem mass_settled (ds : List Declaration) :
    mass ((ds.map Declaration.settled).flatMap Declaration.text)
      = mass (ds.flatMap Declaration.text) := by
  induction ds with
  | nil => rfl
  | cons d ds ih =>
    rw [List.map_cons, List.flatMap_cons, List.flatMap_cons, mass_append, mass_append, ih,
      mass_of_ink (Declaration.ink_settled d)]

/-! ## Declarations in lines -/

/-- Declarations with a semicolon after each of them, all in blanks. -/
def linesText (gap tail : Text) (ds : List Declaration) : Text :=
  ds.flatMap (fun d => gap ++ d.text ++ [';']) ++ tail

/-- The declaration is a segment of its own and has a property and a value. -/
def Declaration.IsLegible (d : Declaration) : Prop :=
  IsProperty d.property ∧ d.settled.value ≠ [] ∧ IsClosed d.text ∧ Scope.Uncut ';' {} d.text

instance decidableIsLegible (d : Declaration) : Decidable d.IsLegible :=
  inferInstanceAs (Decidable (_ ∧ _))

theorem isPlain_of_isBlank (h : isBlank c = true) : Scope.isPlain c = true ∧ c ≠ ';' := by
  have hmarks : Scope.marks.all (fun x => !isBlank x) = true := by decide
  refine ⟨Scope.isPlain_iff.2 fun hm => ?_, ?_⟩
  · have := List.all_eq_true.1 hmarks c hm
    simp [h] at this
  · rintro rfl
    cases h

theorem isClosed_of_blank (h : isBlankText gap = true) : gap.IsClosed ∧ Scope.Uncut ';' {} gap := by
  rw [isBlankText_iff] at h
  have hplain : ∀ c ∈ gap, Scope.isPlain c = true := fun c hc => (isPlain_of_isBlank (h c hc)).1
  exact ⟨isClosed_of_plain hplain, uncut_of_plain hplain fun hm => (isPlain_of_isBlank (h _ hm)).2 rfl⟩

theorem linesText_cons (gap tail : Text) (d : Declaration) (ds : List Declaration) :
    linesText gap tail (d :: ds) = gap ++ d.text ++ ';' :: linesText gap tail ds := by
  simp [linesText]

theorem declarations_of_blank (h : isBlankText t = true) : declarations t = [] := by
  have hd : declaration? t = none := by
    have hl := trimLeft_of_blank h []
    rw [List.append_nil] at hl
    rw [declaration?, hl]
    rfl
  rw [declarations, segments_of_uncut (isClosed_of_blank h).2, List.filterMap_cons, hd]
  rfl

theorem declarations_append_cons (ha : a.IsClosed) (hu : Scope.Uncut ';' {} a) (b : Text) :
    declarations (a ++ ';' :: b) = (declaration? a).toList ++ declarations b := by
  rw [declarations, segments_append_cons (by decide) ha hu, List.filterMap_cons, declarations]
  cases declaration? a <;> rfl

theorem mass_linesText (hg : isBlankText gap = true) (ht : isBlankText tail = true)
    (ds : List Declaration) :
    mass (linesText gap tail ds) = mass (ds.flatMap Declaration.text) := by
  induction ds with
  | nil => simp [linesText, mass_of_blank ht]
  | cons d ds ih =>
    rw [linesText_cons, mass_append, mass_append, mass_of_blank hg, mass_cons_semicolon, ih,
      List.flatMap_cons, mass_append, Nat.zero_add]

/-- Texts before a semicolon that have the same ink are the same. -/
theorem append_semicolon_inj (h : a ++ ';' :: t = b ++ ';' :: rest) (hi : ink a = ink b) :
    a = b ∧ t = rest := by
  have hlonger : ∀ x y : Text, ink x = ink y → ∀ z, x ≠ y ++ ';' :: z := by
    rintro x y hxy z rfl
    have := congrArg List.length hxy
    rw [ink_append, List.length_append] at this
    simp [ink, show isBlank ';' = false by decide] at this
  rcases append_cons_cases h with ⟨ha, -, ht⟩ | ⟨m, hb, -⟩ | ⟨m, ha, -⟩
  · exact ⟨ha, ht⟩
  · exact absurd hb (hlonger _ _ hi.symm m)
  · exact absurd ha (hlonger _ _ hi m)

/-- Legible declarations are read back. -/
theorem declarations_linesText (hg : isBlankText gap = true) (ht : isBlankText tail = true)
    (h : ∀ d ∈ ds, d.IsLegible) :
    declarations (linesText gap tail ds) = ds.map Declaration.settled := by
  induction ds with
  | nil => exact declarations_of_blank ht
  | cons d ds ih =>
    obtain ⟨hp, hv, hc, hu⟩ := h d List.mem_cons_self
    obtain ⟨hgc, hgu⟩ := isClosed_of_blank hg
    rw [linesText_cons, declarations_append_cons ((isClosed_append hgc).2 hc)
      ((uncut_append_of_closed hgc).2 ⟨hgu, hu⟩), Declaration.declaration?_text hp hg, if_neg hv,
      ih fun x hx => h x (List.mem_cons_of_mem _ hx)]
    rfl

theorem isProperty_of_mem_declarations (h : d ∈ declarations body) :
    IsProperty d.property ∧ d.value ≠ [] := by
  obtain ⟨p, -, hp⟩ := List.mem_filterMap.1 h
  exact (Declaration.ink_of_declaration? hp).2

/-- A first segment without mass does not reach the property of the first declaration. -/
theorem mass_ne_zero_of_segment (hg : isBlankText gap = true) (hp : IsProperty d.property)
    (h : gap ++ d.text ++ rest = a ++ ';' :: t) : mass a ≠ 0 := by
  obtain ⟨c, name, hname⟩ := List.exists_cons_of_ne_nil hp.ne_nil
  have hc : isNamePart c = true := hp.isNamePart c (hname ▸ List.mem_cons_self)
  have hsemi : c ≠ ';' := by
    rintro rfl
    cases hc
  have htext : ∃ more, d.text ++ rest = c :: more := by
    rw [Declaration.text, hname]
    exact ⟨_, rfl⟩
  obtain ⟨more, hmore⟩ := htext
  rw [List.append_assoc, hmore] at h
  rcases append_cons_cases h with ⟨-, hx, -⟩ | ⟨m, ha, -⟩ | ⟨m, hgap, -⟩
  · exact absurd hx hsemi
  · refine Nat.ne_of_gt (mass_pos_of_mem (c := c) ?_ (isBlank_of_isNamePart hc) hsemi)
    rw [ha]
    simp
  · have := isBlankText_iff.1 hg ';' (by rw [hgap]; simp)
    exact absurd this (by decide)

/-- Declarations in lines are read back exactly when each of them is legible. -/
theorem declarations_lines_iff (hg : isBlankText gap = true) (ht : isBlankText tail = true) :
    declarations (linesText gap tail ds) = ds.map Declaration.settled
      ↔ ∀ d ∈ ds, d.IsLegible := by
  refine ⟨fun h => ?_, declarations_linesText hg ht⟩
  induction ds with
  | nil => simp
  | cons d ds ih =>
    have hmem : d.settled ∈ declarations (linesText gap tail (d :: ds)) := by
      rw [h]
      exact List.mem_cons_self
    obtain ⟨hp, hv⟩ := isProperty_of_mem_declarations hmem
    rw [Declaration.settled_property] at hp
    have hmass := mass_linesText hg ht (d :: ds)
    obtain ⟨p, others, hs⟩ := List.exists_cons_of_ne_nil
      (segments_ne_nil ';' (linesText gap tail (d :: ds)))
    cases others with
    | nil =>
      -- a single segment holds the semicolon after the declaration
      obtain ⟨rfl, -⟩ := segments_eq_singleton hs
      rw [declarations, hs, List.filterMap_cons, List.filterMap_nil, List.map_cons] at h
      cases hd : declaration? (linesText gap tail (d :: ds)) with
      | none =>
        rw [hd] at h
        cases h
      | some d' =>
        rw [hd, List.cons.injEq] at h
        have hink := (Declaration.ink_of_declaration? hd).1
        have hsemi : ink [';'] = [';'] := by decide
        rw [h.1, Declaration.ink_settled, linesText_cons, ← List.singleton_append, ink_append,
          ink_append, ink_append, ink_of_blank hg, hsemi] at hink
        simp at hink
    | cons q others =>
      obtain ⟨t, heq, hc, hu, hs'⟩ := segments_eq_cons_cons hs
      rw [heq, declarations_append_cons hc hu] at h
      rw [linesText_cons] at heq
      cases hd : declaration? p with
      | none =>
        rw [hd, Option.toList_none, List.nil_append] at h
        have hle := mass_declarations_le t
        rw [h, mass_settled, ← hmass, linesText_cons, heq, mass_append, mass_cons_semicolon] at hle
        exact absurd (by omega) (mass_ne_zero_of_segment hg hp heq)
      | some d' =>
        rw [hd, Option.toList_some, List.singleton_append, List.map_cons, List.cons.injEq] at h
        obtain ⟨rfl, hrest⟩ := h
        have hink := (Declaration.ink_of_declaration? hd).1
        rw [Declaration.ink_settled] at hink
        have hgap : ink (gap ++ d.text) = ink p := by
          rw [ink_append, ink_of_blank hg, List.nil_append, hink]
        obtain ⟨rfl, rfl⟩ := append_semicolon_inj heq hgap
        obtain ⟨hgc, hgu⟩ := isClosed_of_blank hg
        intro x hx
        rcases List.mem_cons.1 hx with rfl | hx
        · exact ⟨hp, hv, (isClosed_append hgc).1 hc, ((uncut_append_of_closed hgc).1 hu).2⟩
        · exact ih hrest x hx

end SkinCompiler
