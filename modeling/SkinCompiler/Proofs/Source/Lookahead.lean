import SkinCompiler.Proofs.Source.Gap
import SkinCompiler.Proofs.Source.Grammar
import SkinCompiler.Proofs.Text.Blank

/-!
# What terminals depend on

A terminal is measured with a look at what follows on it.  What follows may be changed behind a
character that no terminal goes on from, or to a text that begins as no terminal goes on.

* `seams`, `heads`, `IsCut` -- where a text may be changed;
* `Terminal.measure_cut` -- terminals measure the same then;
* `Terminal.run?_cut` -- so do runs of element text, if the character that ends them is left;
* `head_of_reads` -- nothing that is read begins with a blank.
-/

namespace SkinCompiler.Source

open Grammar Text

variable {s x x' t w : Text} {n k : Nat} {c : Char} {p : Char → Bool}

/-- The characters from which no terminal goes on. -/
def seams : List Char :=
  [' ', '\t', '\x0c', '\r', '\n', ';', ')', ']', '}', '"', '\'', '\x60', '/']

/-- The characters that no terminal goes on with. -/
def heads : List Char := ['"', '\x60', '\x7b']

/-- What stands behind `s` may become `x'`: that begins as no terminal goes on, or `s` ends with a
character from which none goes on. -/
def IsCut (s x' : Text) : Prop :=
  (∃ c ∈ heads, x'.head? = some c) ∨ ∃ c ∈ seams, s.getLast? = some c

/-- The characters of a kind of name or number are none at which a text may be changed. -/
def IsTight (p : Char → Bool) : Prop := ∀ c ∈ '\x7b' :: seams, p c = false

instance (p : Char → Bool) : Decidable (IsTight p) :=
  List.decidableBAll (fun c => p c = false) ('\x7b' :: seams)

theorem IsTight.or {q : Char → Bool} (hp : IsTight p) (hq : IsTight q) :
    IsTight fun c => p c || q c := fun c hc =>
  Bool.or_eq_false_iff.2 ⟨hp c hc, hq c hc⟩

theorem heads_subset : ∀ c ∈ heads, c ∈ '\x7b' :: seams := by simp [heads, seams]

theorem IsCut.drop (h : IsCut s x') (hk : ∀ c ∈ s.take k, c ∉ seams) : IsCut (s.drop k) x' := by
  rcases h with hhead | ⟨c, hc, hlast⟩
  · exact Or.inl hhead
  · refine Or.inr ⟨c, hc, ?_⟩
    rw [List.getLast?_drop]
    split
    · rename_i hle
      rw [List.take_of_length_le hle] at hk
      exact absurd hc (hk c (List.mem_of_getLast? hlast))
    · exact hlast

/-- What stands at the beginning of a text begins as no terminal goes on. -/
theorem IsCut.exists_cons (h : IsCut [] x') : ∃ c u, c ∈ heads ∧ x' = c :: u := by
  rcases h with ⟨c, hc, hhead⟩ | ⟨c, -, hlast⟩
  · obtain ⟨u, rfl⟩ := List.head?_eq_some_iff.1 hhead
    exact ⟨c, u, hc, rfl⟩
  · cases hlast

theorem IsCut.tail (h : IsCut (c :: s) x') (hc : c ∉ seams) : IsCut s x' :=
  h.drop (k := 1) (by simpa using hc)

theorem takeWhile_cut (hp : IsTight p) (h : IsCut s x')
    (hlength : ((s ++ x).takeWhile p).length ≤ s.length) :
    (s ++ x').takeWhile p = (s ++ x).takeWhile p := by
  rw [List.takeWhile_append, List.takeWhile_append] at *
  split
  · rename_i hall
    have hnone : ∀ y : Text, (∀ c, y.head? = some c → p c = false) → y.takeWhile p = [] := by
      intro y hy
      cases y with
      | nil => rfl
      | cons c y => rw [List.takeWhile_cons_of_neg (by simp [hy c rfl])]
    rw [if_pos hall, List.length_append] at hlength
    have hx : x.takeWhile p = [] := List.eq_nil_of_length_eq_zero (by omega)
    have hx' : x'.takeWhile p = [] := by
      refine hnone x' fun c hc => ?_
      rcases h with ⟨d, hd, hhead⟩ | ⟨d, hd, hlast⟩
      · obtain rfl : d = c := Option.some.inj (hhead.symm.trans hc)
        exact hp d (heads_subset d hd)
      · -- the last character would be one of the kind
        have hself := List.takeWhile_eq_self_iff.1 ((List.takeWhile_prefix p).eq_of_length hall)
        have hd' := hself d (List.mem_of_getLast? hlast)
        rw [hp d (List.mem_cons_of_mem _ hd)] at hd'
        cases hd'
    rw [hx, hx']
  · rfl

namespace Terminal

/-! ## Words and names -/

theorem isTight_isNamePart : IsTight isNamePart := by decide

theorem isTight_isDecimal : IsTight isDecimal := by decide

/-- A word is at the front just if it is the longest name there. -/
theorem word?_eq (hw : ∀ c ∈ w, isNamePart c = true) (t : Text) :
    word? w t = if t.takeWhile isNamePart = w then some w.length else none := by
  unfold word?
  cases hafter : after? w t with
  | none =>
    rw [if_neg]
    rintro heq
    have hsplit : t = w ++ t.dropWhile isNamePart := by
      rw [← heq, List.takeWhile_append_dropWhile]
    rw [after?_eq_some_iff.2 hsplit] at hafter
    cases hafter
  | some rest =>
    obtain rfl := after?_eq_some_iff.1 hafter
    rw [List.takeWhile_append_of_pos hw]
    cases rest with
    | nil => simp
    | cons c rest =>
      cases hc : isNamePart c <;> simp [hc]

theorem keywords_isNamePart : ∀ w ∈ keywords, ∀ c ∈ w, isNamePart c = true := by
  have hall : keywords.all (·.all isNamePart) = true := by decide
  exact fun w hw => List.all_eq_true.1 (List.all_eq_true.1 hall w hw)

theorem bindingWords_isNamePart :
    ∀ w ∈ ["const".toList, "let".toList, "var".toList], ∀ c ∈ w, isNamePart c = true := by
  have hwords : ∀ w ∈ ["const".toList, "let".toList, "var".toList], w ∈ keywords := by decide
  exact fun w hw => keywords_isNamePart w (hwords w hw)

/-- Which of some words is at the front depends on the longest name there. -/
theorem firstOf_word?_congr {words : List Text} (hwords : ∀ w ∈ words, ∀ c ∈ w, isNamePart c = true)
    (h : s.takeWhile isNamePart = t.takeWhile isNamePart) :
    firstOf (fun w => word? w s) words = firstOf (fun w => word? w t) words := by
  unfold firstOf
  induction words with
  | nil => rfl
  | cons w words ih =>
    have hw := hwords w List.mem_cons_self
    rw [List.findSome?_cons, List.findSome?_cons, word?_eq hw, word?_eq hw, h,
      ih fun v hv => hwords v (List.mem_cons_of_mem _ hv)]

theorem firstOf_word?_eq_some {words : List Text} (hwords : ∀ w ∈ words, ∀ c ∈ w, isNamePart c = true)
    (h : firstOf (fun w => word? w t) words = some n) : n = (t.takeWhile isNamePart).length := by
  obtain ⟨w, hw, hword⟩ := List.exists_of_findSome?_eq_some h
  rw [word?_eq (hwords w hw)] at hword
  split at hword
  · rename_i heq
    rw [heq]
    exact (Option.some.inj hword).symm
  · cases hword

theorem word?_cut (hw : ∀ c ∈ w, isNamePart c = true) (h : word? w (s ++ x) = some n)
    (hn : n ≤ s.length) (hcut : IsCut s x') : word? w (s ++ x') = some n := by
  rw [word?_eq hw] at *
  split at h
  · rename_i heq
    obtain rfl := Option.some.inj h
    rw [takeWhile_cut isTight_isNamePart hcut (by rw [heq]; exact hn), if_pos heq]
  · cases h

theorem firstOf_word?_cut {words : List Text} (hwords : ∀ w ∈ words, ∀ c ∈ w, isNamePart c = true)
    (h : firstOf (fun w => word? w (s ++ x)) words = some n) (hn : n ≤ s.length)
    (hcut : IsCut s x') : firstOf (fun w => word? w (s ++ x')) words = some n := by
  rw [← h]
  refine firstOf_word?_congr hwords (takeWhile_cut isTight_isNamePart hcut ?_)
  rw [← firstOf_word?_eq_some hwords h]
  exact hn

theorem not_mem_seams (hp : IsTight p) (hc : p c = true) : c ∉ seams := by
  intro hmem
  rw [hp c (List.mem_cons_of_mem _ hmem)] at hc
  cases hc

theorem isTight_isNameStart : IsTight isNameStart := by decide

theorem name?_cut (hp : IsTight p) (h : name? p (s ++ x) = some n) (hn : n ≤ s.length)
    (hcut : IsCut s x') : name? p (s ++ x') = some n := by
  cases s with
  | nil =>
    unfold name? at h
    split at h
    · split at h
      · rw [List.length_nil] at hn
        have hpos := Option.some.inj h
        omega
      · cases h
    · cases h
  | cons c s =>
    rw [List.cons_append, name?] at h ⊢
    split at h
    · rename_i hc
      obtain rfl := Option.some.inj h
      have hdrop : IsCut s x' := hcut.drop (k := 1) fun d hd => by
        obtain rfl : d = c := by simpa using hd
        exact not_mem_seams isTight_isNameStart hc
      rw [if_pos hc, takeWhile_cut hp hdrop]
      rw [List.length_cons] at hn
      omega
    · cases h

theorem name_cut (h : measure .name (s ++ x) = some n) (hn : n ≤ s.length) (hcut : IsCut s x') :
    measure .name (s ++ x') = some n := by
  cases s with
  | nil =>
    obtain rfl : n = 0 := Nat.le_zero.1 hn
    cases x with
    | nil => cases h
    | cons d x =>
      simp only [List.nil_append, measure, name?] at h
      split at h
      · rename_i hd
        rw [Bool.and_eq_true] at hd
        rw [if_pos hd.1] at h
        have hpos := Option.some.inj h
        omega
      · cases h
  | cons c s =>
    simp only [List.cons_append, measure] at h ⊢
    split at h
    · rename_i hc
      have hwhile : (((c :: s) ++ x).takeWhile isNamePart).length ≤ (c :: s).length := by
        refine Nat.le_trans ?_ hn
        rw [name?, if_pos (Bool.and_eq_true _ _ ▸ hc).1] at h
        obtain rfl := Option.some.inj h
        rw [List.cons_append, List.takeWhile_cons]
        split <;> simp [Nat.add_comm]
      have hsame := firstOf_word?_congr keywords_isNamePart
        (takeWhile_cut isTight_isNamePart hcut hwhile)
      rw [List.cons_append, List.cons_append] at hsame
      rw [hsame, if_pos hc]
      exact name?_cut (s := c :: s) isTight_isNamePart h hn hcut
    · cases h

/-- A name that does not go on is one. -/
theorem name_append (h : measure .name s = some s.length) (hc : isNamePart c = false) (t : Text) :
    measure .name (s ++ c :: t) = some s.length := by
  cases s with
  | nil => cases h
  | cons d s =>
    simp only [List.cons_append, measure] at h ⊢
    split at h
    · rename_i hd
      rw [name?, if_pos (Bool.and_eq_true _ _ ▸ hd).1] at h
      have hall : ∀ c ∈ s, isNamePart c = true := by
        refine List.takeWhile_eq_self_iff.1 ((List.takeWhile_sublist _).eq_of_length ?_)
        have hlength := Option.some.inj h
        rw [List.length_cons] at hlength
        omega
      have hwhile : (s ++ c :: t).takeWhile isNamePart = s := by
        rw [List.takeWhile_append_of_pos hall, List.takeWhile_cons_of_neg (by simp [hc]),
          List.append_nil]
      have hsame : (d :: (s ++ c :: t)).takeWhile isNamePart = (d :: s).takeWhile isNamePart := by
        rw [List.takeWhile_cons, List.takeWhile_cons, hwhile, List.takeWhile_eq_self_iff.2 hall]
      rw [firstOf_word?_congr keywords_isNamePart hsame, if_pos hd, name?,
        if_pos (Bool.and_eq_true _ _ ▸ hd).1, hwhile, List.length_cons, Nat.add_comm]
    · cases h

theorem isTight_tag : IsTight fun c => isNamePart c || c == '-' :=
  isTight_isNamePart.or (by decide)

theorem isTight_attribute : IsTight fun c => isNamePart c || c == '-' || c == ':' :=
  isTight_tag.or (by decide)

/-! ## Strings and template literals -/

/-- What is found behind a lead does not depend on what follows if nothing does behind the lead. -/
theorem map_add_cut {f : Text → Option Nat} (lead : Text)
    (ih : ∀ {m : Nat}, f (t ++ x) = some m → m ≤ t.length → f (t ++ x') = some m)
    (h : (f (t ++ x)).map (· + lead.length) = some n) (hn : n ≤ (lead ++ t).length) :
    (f (t ++ x')).map (· + lead.length) = some n := by
  obtain ⟨m, hm, rfl⟩ := Option.map_eq_some_iff.1 h
  rw [ih hm (by rw [List.length_append] at hn; omega)]
  rfl

theorem stringEnd?_cons {quote : Char} (hc : c ≠ '\\') (t : Text) : stringEnd? quote (c :: t) =
    if c == quote then some 1 else if c == '\n' then none
      else (stringEnd? quote t).map (· + 1) := by
  rw [stringEnd?]
  · simp [hc]
  · rintro d rest rfl
    exact absurd rfl hc

theorem stringEnd?_pos {quote : Char} (h : stringEnd? quote t = some n) : 0 < n := by
  obtain ⟨m, rfl, -⟩ := getElem?_stringEnd? h
  exact Nat.succ_pos m

/-- A backslash takes the next character with it. -/
theorem lt_of_stringEnd?_backslash {quote : Char} (hquote : quote ≠ '\\')
    (h : stringEnd? quote ('\\' :: t) = some n) : 1 < n := by
  cases t with
  | nil =>
    rw [stringEnd?] at h
    · simp [Ne.symm hquote] at h
    · simp
  | cons c t =>
    rw [stringEnd?] at h
    split at h
    · cases h
    · obtain ⟨m, -, rfl⟩ := Option.map_eq_some_iff.1 h
      omega

/-- A string that ends in a text ends there whatever follows. -/
theorem stringEnd?_cut {quote : Char} (hquote : quote ≠ '\\')
    (h : stringEnd? quote (s ++ x) = some n) (hn : n ≤ s.length) (x' : Text) :
    stringEnd? quote (s ++ x') = some n := by
  induction s using stringEnd?.induct quote generalizing n with
  | case1 =>
    have hpos := stringEnd?_pos h
    rw [List.length_nil] at hn
    omega
  | case2 c t hc =>
    rw [List.cons_append, List.cons_append, stringEnd?, if_pos hc] at h
    cases h
  | case3 c t hc ih =>
    rw [List.cons_append, List.cons_append, stringEnd?, if_neg hc] at h ⊢
    exact map_add_cut ['\\', c] ih h hn
  | case4 c t hnot hc =>
    have hne : c ≠ '\\' := by
      rw [eq_of_beq hc]
      exact hquote
    rw [List.cons_append, stringEnd?_cons hne, if_pos hc] at h ⊢
    exact h
  | case5 c t hnot hc hbad =>
    by_cases hne : c = '\\'
    · subst hne
      obtain rfl : t = [] := by
        cases t with
        | nil => rfl
        | cons d t => exact absurd rfl (hnot d t rfl)
      have hlt := lt_of_stringEnd?_backslash hquote h
      rw [List.length_singleton] at hn
      omega
    · have hfeed : (c == '\n') = true := by simpa [hne] using hbad
      rw [List.cons_append, stringEnd?_cons hne, if_neg hc, if_pos hfeed] at h
      cases h
  | case6 c t hnot hc hbad ih =>
    have hne : c ≠ '\\' ∧ c ≠ '\n' := by
      rw [Bool.or_eq_true, beq_iff_eq, beq_iff_eq, not_or] at hbad
      exact ⟨hbad.2, hbad.1⟩
    rw [List.cons_append, stringEnd?_cons hne.1, if_neg hc, if_neg (by simpa using hne.2)] at h ⊢
    exact map_add_cut [c] ih h hn

theorem templateEnd?_pos {region : Region} (h : templateEnd? region t = some n) : 0 < n := by
  obtain ⟨m, rfl, -⟩ := getElem?_templateEnd? h
  exact Nat.succ_pos m

/-- In the text of a template literal, anything but a backtick is followed by something. -/
theorem lt_of_templateEnd?_text (hc : c ≠ '\x60') (h : templateEnd? .text (c :: t) = some n) :
    1 < n := by
  -- what is found behind a lead of one character or two
  have hlead {region : Region} {t : Text} {k : Nat} (hk : 0 < k)
      (h : (templateEnd? region t).map (· + k) = some n) : 1 < n := by
    obtain ⟨m, hm, rfl⟩ := Option.map_eq_some_iff.1 h
    have hpos := templateEnd?_pos hm
    omega
  unfold templateEnd? at h
  split at h
  · cases ‹c :: t = []›
  · split at h
    · cases h
    · exact hlead (by decide) h
  · exact hlead (by decide) h
  · rename_i d u hescape hopen heq
    obtain ⟨rfl, rfl⟩ := List.cons.inj heq
    rw [if_neg (by simpa using hc)] at h
    split at h
    · cases h
    · exact hlead (by decide) h
  all_goals rename_i hregion _; cases hregion

/-- A template literal that ends in a text ends there whatever follows. -/
theorem templateEnd?_cut {region : Region} (h : templateEnd? region (s ++ x) = some n)
    (hn : n ≤ s.length) (x' : Text) : templateEnd? region (s ++ x') = some n := by
  induction region, s using templateEnd?.induct generalizing n with
  | case1 =>
    have hpos := templateEnd?_pos h
    rw [List.length_nil] at hn
    omega
  | case2 c t hfeed =>
    rw [List.cons_append, List.cons_append, templateEnd?, if_pos hfeed] at h
    cases h
  | case3 c t hfeed ih =>
    rw [List.cons_append, List.cons_append, templateEnd?, if_neg hfeed] at h ⊢
    exact map_add_cut ['\\', c] ih h hn
  | case4 t ih =>
    rw [List.cons_append, List.cons_append, templateEnd?] at h ⊢
    exact map_add_cut ['$', '\x7b'] ih h hn
  | case5 c t hescape hopen hclose =>
    obtain rfl : c = '\x60' := by simpa using hclose
    rw [List.cons_append, templateEnd?] at h ⊢ <;> simp_all
  | case6 c t hescape hopen hclose hslash =>
    have hlt := lt_of_templateEnd?_text (by simpa using hclose) h
    cases t with
    | nil =>
      rw [List.length_singleton] at hn
      omega
    | cons d t => exact absurd rfl (hescape d t (by simpa using hslash))
  | case7 c t hescape hopen hclose hslash ih =>
    have hlt := lt_of_templateEnd?_text (by simpa using hclose) h
    cases t with
    | nil =>
      rw [List.length_singleton] at hn
      omega
    | cons d t =>
      have hstep : ∀ y, templateEnd? .text (c :: d :: t ++ y) =
          (templateEnd? .text (d :: t ++ y)).map (· + 1) := by
        intro y
        rw [List.cons_append, templateEnd?, if_neg hclose, if_neg hslash]
        · intro e u hc
          simp [hc] at hslash
        · intro u hc hu
          obtain ⟨rfl, -⟩ := List.cons.inj hu
          exact hopen t hc rfl
      rw [hstep] at h ⊢
      exact map_add_cut [c] ih h hn
  | case8 c t hend ih | case12 c t hend ih =>
    rw [List.cons_append, templateEnd?, if_pos hend] at h ⊢
    exact map_add_cut [c] ih h hn
  | case9 c t hend hopen ih =>
    rw [List.cons_append, templateEnd?, if_neg hend, if_pos hopen] at h ⊢
    exact map_add_cut [c] ih h hn
  | case10 c t hend hopen hclose =>
    rw [List.cons_append, templateEnd?, if_neg hend, if_neg hopen, if_pos hclose] at h
    cases h
  | case11 c t hend hopen hclose ih =>
    rw [List.cons_append, templateEnd?, if_neg hend, if_neg hopen, if_neg hclose] at h ⊢
    exact map_add_cut [c] ih h hn
  | case13 c t hend hopen =>
    rw [List.cons_append, templateEnd?, if_neg hend, if_pos hopen] at h
    cases h
  | case14 c t hend hopen ih =>
    rw [List.cons_append, templateEnd?, if_neg hend, if_neg hopen] at h ⊢
    exact map_add_cut [c] ih h hn

theorem string?_cut (h : string? (s ++ x) = some n) (hn : n ≤ s.length) (x' : Text) :
    string? (s ++ x') = some n := by
  cases s with
  | nil =>
    obtain ⟨m, rfl, -⟩ := getElem?_string? h
    rw [List.length_nil] at hn
    omega
  | cons c s =>
    rw [List.cons_append] at h ⊢
    unfold string? at h
    split at h
    · rename_i t heq
      obtain ⟨rfl, rfl⟩ := List.cons.inj heq
      exact map_add_cut (f := stringEnd? '"') ['"']
        (fun h hn => stringEnd?_cut (by decide) h hn x') h hn
    · rename_i t heq
      obtain ⟨rfl, rfl⟩ := List.cons.inj heq
      exact map_add_cut (f := stringEnd? '\'') ['\'']
        (fun h hn => stringEnd?_cut (by decide) h hn x') h hn
    · cases h

theorem template?_cut (h : template? (s ++ x) = some n) (hn : n ≤ s.length) (x' : Text) :
    template? (s ++ x') = some n := by
  cases s with
  | nil =>
    obtain ⟨m, rfl, -⟩ := getElem?_template? h
    rw [List.length_nil] at hn
    omega
  | cons c s =>
    rw [List.cons_append] at h ⊢
    unfold template? at h
    split at h
    · rename_i t heq
      obtain ⟨rfl, rfl⟩ := List.cons.inj heq
      exact map_add_cut ['\x60'] (fun h hn => templateEnd?_cut h hn x') h hn
    · cases h

/-! ## Numbers -/

/-- The characters that no terminal goes on with belong to no number. -/
theorem of_mem_heads : ∀ c ∈ heads, (c == 'e' || c == 'E') = false ∧
    (c == '+' || c == '-') = false ∧ isDecimal c = false ∧ c ≠ '.' := by
  intro c hc
  have hdecimal := isTight_isDecimal c (heads_subset c hc)
  simp only [heads, List.mem_cons, List.not_mem_nil, or_false] at hc
  rcases hc with rfl | rfl | rfl <;> exact ⟨rfl, rfl, hdecimal, by decide⟩

/-- The digits behind the lead of an exponent. -/
theorem digits_cut (k : Nat) (h : (if ((s ++ x).takeWhile isDecimal).length == 0 then 0
      else k + ((s ++ x).takeWhile isDecimal).length) ≤ s.length + k) (hcut : IsCut s x') :
    (s ++ x').takeWhile isDecimal = (s ++ x).takeWhile isDecimal := by
  refine takeWhile_cut isTight_isDecimal hcut ?_
  split at h
  · rename_i hzero
    rw [eq_of_beq hzero]
    exact Nat.zero_le _
  · omega

/-- An exponent has a mark and digits. -/
theorem exponentLength_eq_zero (h : exponentLength t ≤ 1) : exponentLength t = 0 := by
  unfold exponentLength at h ⊢
  grind

theorem exponentLength_cons_cons {e : Char} (he : (e == 'e' || e == 'E') = true) (t : Text) :
    exponentLength (e :: c :: t) =
      if c == '+' || c == '-' then
        if (t.takeWhile isDecimal).length == 0 then 0 else 2 + (t.takeWhile isDecimal).length
      else if ((c :: t).takeWhile isDecimal).length == 0 then 0
        else 1 + ((c :: t).takeWhile isDecimal).length := by
  rw [exponentLength, if_pos he]

theorem exponentLength_cons_of_ne {e : Char} (he : (e == 'e' || e == 'E') = false) (t : Text) :
    exponentLength (e :: t) = 0 := by
  unfold exponentLength
  simp [he]

theorem exponentLength_cut (h : exponentLength (s ++ x) ≤ s.length) (hcut : IsCut s x') :
    exponentLength (s ++ x') = exponentLength (s ++ x) := by
  cases s with
  | nil =>
    obtain ⟨c, u, hc, rfl⟩ := hcut.exists_cons
    rw [List.nil_append] at h
    rw [List.nil_append, List.nil_append, Nat.le_zero.1 h,
      exponentLength_cons_of_ne (of_mem_heads c hc).1]
  | cons e s =>
    cases he : e == 'e' || e == 'E' with
    | false => rw [List.cons_append, List.cons_append, exponentLength_cons_of_ne he,
        exponentLength_cons_of_ne he]
    | true =>
      have hseam : e ∉ seams := by
        rw [Bool.or_eq_true, beq_iff_eq, beq_iff_eq] at he
        rcases he with rfl | rfl <;> decide
      have hcut' := hcut.tail hseam
      cases s with
      | nil =>
        obtain ⟨c, u, hc, rfl⟩ := hcut'.exists_cons
        obtain ⟨-, hsign, hdecimal, -⟩ := of_mem_heads c hc
        rw [exponentLength_eq_zero h, List.singleton_append, exponentLength_cons_cons he]
        simp [hsign, hdecimal]
      | cons c s =>
        rw [List.cons_append, List.cons_append, exponentLength_cons_cons he] at h ⊢
        rw [List.cons_append, List.cons_append, exponentLength_cons_cons he]
        cases hc : c == '+' || c == '-' with
        | true =>
          have hsign : c ∉ seams := by
            rw [Bool.or_eq_true, beq_iff_eq, beq_iff_eq] at hc
            rcases hc with rfl | rfl <;> decide
          rw [hc, if_pos rfl] at h
          rw [if_pos rfl, if_pos rfl, digits_cut 2 h (hcut'.tail hsign)]
        | false =>
          rw [hc, if_neg Bool.false_ne_true, ← List.cons_append] at h
          rw [if_neg Bool.false_ne_true, if_neg Bool.false_ne_true, ← List.cons_append,
            ← List.cons_append, digits_cut 1 h hcut']

/-- The length of a number before its exponent, given the digits before the point. -/
def pointLength (whole : Nat) : Text → Nat
  | '.' :: rest =>
    if whole == 0 && (rest.takeWhile isDecimal).length == 0 then 0
    else whole + 1 + (rest.takeWhile isDecimal).length
  | _ => whole

/-- The length of a number before its exponent. -/
def wholeLength (t : Text) : Nat :=
  pointLength (t.takeWhile isDecimal).length (t.dropWhile isDecimal)

theorem number?_eq (t : Text) : number? t = if wholeLength t == 0 then none else
    some (wholeLength t + exponentLength (t.drop (wholeLength t))) := by
  unfold number? wholeLength pointLength
  rfl

theorem pointLength_cons_of_ne (hc : c ≠ '.') (t : Text) : pointLength k (c :: t) = k := by
  rw [pointLength]
  rintro rest heq
  exact hc (List.cons.inj heq).1

/-- A point and what follows it make a number longer, unless it is none. -/
theorem pointLength_eq_of_le (h : pointLength k t ≤ k) : pointLength k t = k := by
  unfold pointLength at *
  split at h
  · split at h
    · rename_i hzero
      rw [Bool.and_eq_true, beq_iff_eq] at hzero
      rw [hzero.1]
      grind
    · omega
  · rfl

theorem pointLength_cut (h : pointLength k (s ++ x) ≤ k + s.length) (hcut : IsCut s x') :
    pointLength k (s ++ x') = pointLength k (s ++ x) := by
  cases s with
  | nil =>
    obtain ⟨c, u, hc, rfl⟩ := hcut.exists_cons
    rw [List.nil_append] at h
    rw [List.nil_append, List.nil_append, pointLength_eq_of_le h,
      pointLength_cons_of_ne (of_mem_heads c hc).2.2.2]
  | cons c s =>
    rw [List.cons_append] at h ⊢
    by_cases hc : c = '.'
    · subst hc
      rw [pointLength] at h
      have hplaces : ((s ++ x).takeWhile isDecimal).length ≤ s.length := by
        rw [List.length_cons] at h
        split at h
        · rename_i hzero
          rw [Bool.and_eq_true, beq_iff_eq, beq_iff_eq] at hzero
          omega
        · omega
      rw [List.cons_append, pointLength, pointLength,
        takeWhile_cut isTight_isDecimal (hcut.tail (by decide)) hplaces]
    · rw [List.cons_append, pointLength_cons_of_ne hc, pointLength_cons_of_ne hc]

theorem le_pointLength (t : Text) : k ≤ pointLength k t := by
  unfold pointLength
  split
  · split
    · rename_i hzero
      rw [Bool.and_eq_true, beq_iff_eq] at hzero
      omega
    · omega
  · exact Nat.le_refl _

/-- The characters of a kind at the front of a text, if they end in it. -/
theorem exists_takeWhile (h : ((s ++ x).takeWhile p).length ≤ s.length) :
    ∃ u v, s = u ++ v ∧ (∀ c ∈ u, p c = true) ∧ (v ++ x).takeWhile p = [] := by
  obtain ⟨v, hv⟩ := List.prefix_of_prefix_length_le (List.takeWhile_prefix p)
    (List.prefix_append s x) h
  have hall : ∀ c ∈ (s ++ x).takeWhile p, p c = true := fun c hc => List.mem_takeWhile_imp hc
  refine ⟨_, v, hv.symm, hall, ?_⟩
  have hself : (s ++ x).takeWhile p = (s ++ x).takeWhile p ++ (v ++ x).takeWhile p := by
    conv_lhs => rw [← hv, List.append_assoc, List.takeWhile_append_of_pos hall]
  exact List.self_eq_append_right.1 hself

theorem wholeLength_append (hs : ∀ c ∈ s, isDecimal c = true) (ht : t.takeWhile isDecimal = []) :
    wholeLength (s ++ t) = pointLength s.length t := by
  have hdrop : t.dropWhile isDecimal = t := by
    have hsplit := List.takeWhile_append_dropWhile (p := isDecimal) (l := t)
    rwa [ht] at hsplit
  unfold wholeLength
  rw [List.takeWhile_append_of_pos hs, List.dropWhile_append_of_pos hs, ht, List.append_nil, hdrop]

theorem wholeLength_cut (h : wholeLength (s ++ x) ≤ s.length) (hcut : IsCut s x') :
    wholeLength (s ++ x') = wholeLength (s ++ x) := by
  obtain ⟨u, v, rfl, hu, hv⟩ := exists_takeWhile (Nat.le_trans (le_pointLength _) h)
  have hcut' : IsCut v x' := by
    have hdrop : IsCut ((u ++ v).drop u.length) x' := by
      refine hcut.drop fun c hc => ?_
      rw [List.take_left] at hc
      exact not_mem_seams isTight_isDecimal (hu c hc)
    rwa [List.drop_left] at hdrop
  have hv' : (v ++ x').takeWhile isDecimal = [] := by
    rw [takeWhile_cut isTight_isDecimal hcut' (by rw [hv]; exact Nat.zero_le _), hv]
  rw [List.append_assoc, wholeLength_append hu hv, List.length_append] at h
  rw [List.append_assoc, List.append_assoc, wholeLength_append hu hv, wholeLength_append hu hv',
    pointLength_cut h hcut']

theorem mem_take_pointLength (hc : c ∈ t.take (pointLength k t - k)) :
    c = '.' ∨ isDecimal c = true := by
  unfold pointLength at hc
  split at hc
  · rename_i rest
    split at hc
    · rw [Nat.zero_sub] at hc
      cases hc
    · have hlength : k + 1 + (rest.takeWhile isDecimal).length - k =
          (rest.takeWhile isDecimal).length + 1 := by omega
      rw [hlength, List.take_succ_cons,
        List.prefix_iff_eq_take.1 (List.takeWhile_prefix isDecimal) |>.symm] at hc
      rcases List.mem_cons.1 hc with rfl | hc
      · exact Or.inl rfl
      · exact Or.inr (List.mem_takeWhile_imp hc)
  · rw [Nat.sub_self] at hc
    cases hc

/-- A number before its exponent is made of digits and a point. -/
theorem mem_take_wholeLength (hc : c ∈ t.take (wholeLength t)) : c = '.' ∨ isDecimal c = true := by
  have hc' : c ∈ (t.takeWhile isDecimal ++ t.dropWhile isDecimal).take (wholeLength t) := by
    rwa [List.takeWhile_append_dropWhile]
  rcases List.mem_append.1 (List.take_append ▸ hc') with hc' | hc'
  · exact Or.inr (List.mem_takeWhile_imp (List.mem_of_mem_take hc'))
  · exact mem_take_pointLength hc'

theorem number?_cut (h : number? (s ++ x) = some n) (hn : n ≤ s.length) (hcut : IsCut s x') :
    number? (s ++ x') = some n := by
  rw [number?_eq] at h ⊢
  split at h
  · cases h
  · rename_i hpos
    obtain rfl := Option.some.inj h
    have hle : wholeLength (s ++ x) ≤ s.length := by omega
    have hcut' : IsCut (s.drop (wholeLength (s ++ x))) x' := by
      refine hcut.drop fun c hc => ?_
      rw [← List.take_append_of_le_length hle] at hc
      rcases mem_take_wholeLength hc with rfl | hdecimal
      · decide
      · exact not_mem_seams isTight_isDecimal hdecimal
    rw [wholeLength_cut hle hcut, if_neg hpos, List.drop_append_of_le_length hle,
      List.drop_append_of_le_length hle, exponentLength_cut ?_ hcut']
    rw [List.drop_append_of_le_length hle] at hn
    rw [List.length_drop]
    omega

/-! ## Marks and operators -/

theorem spelling?_cut (h : spelling? w (s ++ x) = some n) (hn : n ≤ s.length) (x' : Text) :
    spelling? w (s ++ x') = some n := by
  obtain ⟨rfl, rest, hrest⟩ := spelling?_eq_some_iff.1 h
  obtain ⟨u, rfl⟩ := List.prefix_of_prefix_length_le ⟨rest, hrest.symm⟩ (List.prefix_append s x) hn
  exact spelling?_eq_some_iff.2 ⟨rfl, u ++ x', List.append_assoc _ _ _⟩

/-- A spelling that may stand among others: it goes on with no character that none goes on with,
and from none from which none goes on. -/
def isRegularSpelling (w : Text) : Bool :=
  w.all (fun c => !heads.contains c) && w.dropLast.all fun c => !seams.contains c

theorem spelling?_eq_none_cut (hw : isRegularSpelling w = true) (h : spelling? w (s ++ x) = none)
    (hcut : IsCut s x') : spelling? w (s ++ x') = none := by
  simp only [isRegularSpelling, Bool.and_eq_true, List.all_eq_true, Bool.not_eq_true',
    List.contains_eq_mem, decide_eq_false_iff_not] at hw
  obtain ⟨hheads, hseams⟩ := hw
  refine Option.eq_none_iff_forall_ne_some.2 ?_
  intro n hsome
  obtain ⟨rfl, rest, hrest⟩ := spelling?_eq_some_iff.1 hsome
  by_cases hle : w.length ≤ s.length
  · rw [spelling?_cut hsome hle x] at h
    cases h
  · -- the spelling goes on behind `s`
    obtain ⟨u, rfl⟩ := List.prefix_of_prefix_length_le (List.prefix_append s x') ⟨rest, hrest.symm⟩
      (by omega)
    have hx' : x' = u ++ rest := by
      rw [List.append_assoc] at hrest
      exact List.append_cancel_left hrest
    obtain ⟨c, u, rfl⟩ : ∃ c v, u = c :: v := by
      cases u with
      | nil => simp at hle
      | cons c v => exact ⟨c, v, rfl⟩
    rcases hcut with ⟨d, hd, hhead⟩ | ⟨d, hd, hlast⟩
    · rw [hx', List.cons_append] at hhead
      obtain rfl := Option.some.inj hhead
      exact hheads _ (by simp) hd
    · refine hseams d ?_ hd
      rw [List.dropLast_append_of_ne_nil (List.cons_ne_nil _ _)]
      exact List.mem_append_left _ (List.mem_of_getLast? hlast)

theorem firstOf_spelling?_cut {spellings : List Text}
    (hregular : ∀ w ∈ spellings, isRegularSpelling w = true)
    (h : firstOf (fun w => spelling? w (s ++ x)) spellings = some n) (hn : n ≤ s.length)
    (hcut : IsCut s x') : firstOf (fun w => spelling? w (s ++ x')) spellings = some n := by
  unfold firstOf at h ⊢
  induction spellings with
  | nil => cases h
  | cons w spellings ih =>
    rw [List.findSome?_cons] at h ⊢
    cases hw : spelling? w (s ++ x) with
    | some m =>
      rw [hw] at h
      obtain rfl := Option.some.inj h
      rw [spelling?_cut hw hn]
    | none =>
      rw [hw] at h
      rw [spelling?_eq_none_cut (hregular w List.mem_cons_self) hw hcut]
      exact ih (fun v hv => hregular v (List.mem_cons_of_mem _ hv)) h

/-! ## Runs of element text -/

theorem lt_trimRight_length (h : t[k]? = some c) (hc : isBlank c = false) :
    k < (trimRight isBlank t).length := by
  obtain ⟨gap, hgap, ht, -⟩ := exists_trimRight t
  by_contra hle
  rw [ht, List.getElem?_append_right (by omega)] at h
  rw [isBlankText_iff.1 hgap c (List.mem_of_getElem? h)] at hc
  cases hc

/-- A run of element text depends on what follows up to a character that is not blank or that ends
it. -/
theorem run?_cut (h : run? (s ++ x) = some n) (hn : n ≤ k) (hk : s[k]? = some c)
    (hc : isBlank c = false ∨ endsRun c = true) (x' : Text) : run? (s ++ x') = some n := by
  obtain ⟨hlt, -⟩ := List.getElem?_eq_some_iff.1 hk
  -- the run ends in `s`
  have hends : ∃ d ∈ s, endsRun d = true := by
    by_contra hnone
    have hall : ∀ d ∈ s, (!endsRun d) = true := by
      intro d hd
      rw [Bool.not_eq_true', ← Bool.not_eq_true]
      exact fun hd' => hnone ⟨d, hd, hd'⟩
    have hblank : isBlank c = false := by
      refine hc.resolve_right ?_
      simpa using hall c (List.mem_of_getElem? hk)
    have hlength : k < n := by
      unfold run? at h
      split at h
      · split at h
        · cases h
        · rename_i heq hif
          obtain rfl := Option.some.inj h
          rw [List.takeWhile_append_of_pos hall]
          refine lt_trimRight_length (c := c) ?_ hblank
          rw [List.getElem?_append_left hlt, hk]
      · cases h
    omega
  obtain ⟨d, hd, hends⟩ := hends
  have hwhile : ∀ y : Text, (s ++ y).takeWhile (fun c => !endsRun c) =
      s.takeWhile (fun c => !endsRun c) := by
    intro y
    rw [List.takeWhile_append, if_neg]
    intro hlength
    have hself := (List.takeWhile_prefix (fun c => !endsRun c) (l := s)).eq_of_length hlength
    have hnot := List.takeWhile_eq_self_iff.1 hself d hd
    rw [hends] at hnot
    cases hnot
  cases s with
  | nil => cases hd
  | cons e s =>
    rw [List.cons_append, run?] at h ⊢
    rw [← List.cons_append, hwhile] at h
    rw [← List.cons_append, hwhile]
    exact h

/-! ## All terminals -/

/-- A terminal as the grammar uses it: it begins with no gap, a word can be no part of a longer name
and an operator none of another one. -/
def isRegular : Terminal → Bool
  | .mark w => w.head?.any (!isGapChar ·)
  | .keyword w => w.head?.any (!isGapChar ·) && w.all isNamePart
  | .operator spellings => spellings.all fun w =>
    w.head?.any (!isGapChar ·) && isRegularSpelling w
  | _ => true

/-- A terminal that ends in a text ends there, unless what follows may be a part of it. -/
theorem measure_cut : ∀ {terminal : Terminal}, terminal.isRegular = true → terminal ≠ .run →
    terminal.measure (s ++ x) = some n → n ≤ s.length → IsCut s x' →
      terminal.measure (s ++ x') = some n
  | .mark _, _, _, h, hn, _ => spelling?_cut h hn x'
  | .keyword _, hregular, _, h, hn, hcut => by
    rw [isRegular, Bool.and_eq_true, List.all_eq_true] at hregular
    exact word?_cut hregular.2 h hn hcut
  | .bindingWord, _, _, h, hn, hcut => firstOf_word?_cut bindingWords_isNamePart h hn hcut
  | .name, _, _, h, hn, hcut => name_cut h hn hcut
  | .property, _, _, h, hn, hcut => name?_cut isTight_isNamePart h hn hcut
  | .tag, _, _, h, hn, hcut => name?_cut isTight_tag h hn hcut
  | .attribute, _, _, h, hn, hcut => name?_cut isTight_attribute h hn hcut
  | .string, _, _, h, hn, _ => string?_cut h hn x'
  | .template, _, _, h, hn, _ => template?_cut h hn x'
  | .number, _, _, h, hn, hcut => number?_cut h hn hcut
  | .run, _, hrun, _, _, _ => absurd rfl hrun
  | .operator spellings, hregular, _, h, hn, hcut => by
    rw [isRegular, List.all_eq_true] at hregular
    refine firstOf_spelling?_cut (fun w hw => ?_) h hn hcut
    exact (Bool.and_eq_true _ _ ▸ hregular w hw).2

/-! ## First characters -/

theorem mem_seams_of_isGapChar (h : isGapChar c = true) : c ∈ seams := by
  simp only [isGapChar, Bool.or_eq_true, beq_iff_eq] at h
  rcases h with (((rfl | rfl) | rfl) | rfl) | rfl <;> decide

theorem isGapChar_eq_false (h : c ∉ seams) : isGapChar c = false := by
  rw [← Bool.not_eq_true]
  exact fun hc => h (mem_seams_of_isGapChar hc)

theorem head_of_append (hw : w.head?.any (!isGapChar ·) = true) (h : ∃ rest, t = w ++ rest) :
    ∃ c, t.head? = some c ∧ isGapChar c = false := by
  obtain ⟨rest, rfl⟩ := h
  cases w with
  | nil => cases hw
  | cons c w => exact ⟨c, rfl, by simpa using hw⟩

theorem head_of_word? (hw : w.head?.any (!isGapChar ·) = true) (h : word? w t = some n) :
    ∃ c, t.head? = some c ∧ isGapChar c = false :=
  head_of_append hw (word?_eq_some h).2

theorem head_of_spelling? (hw : w.head?.any (!isGapChar ·) = true) (h : spelling? w t = some n) :
    ∃ c, t.head? = some c ∧ isGapChar c = false :=
  head_of_append hw (spelling?_eq_some_iff.1 h).2

theorem head_of_name? (h : name? p t = some n) :
    ∃ c, t.head? = some c ∧ isGapChar c = false := by
  unfold name? at h
  split at h
  · rename_i c rest
    split at h
    · rename_i hc
      exact ⟨c, rfl, isGapChar_eq_false (not_mem_seams isTight_isNameStart hc)⟩
    · cases h
  · cases h

theorem head_of_number? (h : number? t = some n) :
    ∃ c, t.head? = some c ∧ isGapChar c = false := by
  rw [number?_eq] at h
  split at h
  · cases h
  · rename_i hpos
    cases t with
    | nil => simp [wholeLength, pointLength] at hpos
    | cons c t =>
      refine ⟨c, rfl, isGapChar_eq_false fun hc => ?_⟩
      have hdecimal : isDecimal c = false := isTight_isDecimal c (List.mem_cons_of_mem _ hc)
      have hpoint : c ≠ '.' := by
        rintro rfl
        revert hc
        decide
      rw [wholeLength, List.takeWhile_cons_of_neg (by simp [hdecimal]),
        List.dropWhile_cons_of_neg (by simp [hdecimal]), pointLength_cons_of_ne hpoint] at hpos
      exact hpos rfl

theorem head_of_run? (h : run? t = some n) : ∃ c, t.head? = some c ∧ isGapChar c = false := by
  unfold run? at h
  split at h
  · rename_i c rest
    split at h
    · cases h
    · rename_i hc
      refine ⟨c, rfl, ?_⟩
      rw [Bool.or_eq_true, not_or] at hc
      rw [← Bool.not_eq_true]
      intro hgap
      simp only [isGapChar, Bool.or_eq_true, beq_iff_eq] at hgap
      rcases hgap with (((rfl | rfl) | rfl) | rfl) | rfl <;> exact hc.2 (by decide)
  · cases h

theorem head_bindingWords : ∀ w ∈ ["const".toList, "let".toList, "var".toList],
    w.head?.any (!isGapChar ·) = true := by
  decide

/-- A terminal begins with no gap. -/
theorem head_of_measure : ∀ {terminal : Terminal}, terminal.isRegular = true →
    terminal.measure t = some n → ∃ c, t.head? = some c ∧ isGapChar c = false
  | .mark _, hregular, h => head_of_spelling? hregular h
  | .keyword _, hregular, h => head_of_word? (Bool.and_eq_true _ _ ▸ hregular).1 h
  | .bindingWord, _, h => by
    obtain ⟨w, hw, hword⟩ := List.exists_of_findSome?_eq_some h
    exact head_of_word? (head_bindingWords w hw) hword
  | .name, _, h => by
    cases t with
    | nil => cases h
    | cons c t =>
      simp only [measure] at h
      split at h
      · exact head_of_name? h
      · cases h
  | .property, _, h => head_of_name? h
  | .tag, _, h => head_of_name? h
  | .attribute, _, h => head_of_name? h
  | .string, _, h => by
    have h : string? t = some n := h
    unfold string? at h
    split at h
    · exact ⟨'"', rfl, rfl⟩
    · exact ⟨'\'', rfl, rfl⟩
    · cases h
  | .template, _, h => by
    have h : template? t = some n := h
    unfold template? at h
    split at h
    · exact ⟨'\x60', rfl, rfl⟩
    · cases h
  | .number, _, h => head_of_number? h
  | .run, _, h => head_of_run? h
  | .operator spellings, hregular, h => by
    rw [isRegular, List.all_eq_true] at hregular
    obtain ⟨w, hw, hspelling⟩ := List.exists_of_findSome?_eq_some h
    exact head_of_spelling? (Bool.and_eq_true _ _ ▸ hregular w hw).1 hspelling

end Terminal

/-! ## The grammar -/

/-- The symbol is a category or a terminal as the grammar uses it. -/
def isRegularSymbol : Grammar.Symbol Terminal Category → Bool
  | .terminal t => t.isRegular
  | .category _ => true

theorem forall_symbols :
    ∀ rules ∈ grammar.rules.toList, ∀ r ∈ rules, ∀ s ∈ r.body, isRegularSymbol s = true := by
  decide

theorem isRegularSymbol_of_mem {r : Grammar.Rule Terminal Category Form} {category : Category}
    {symbol : Grammar.Symbol Terminal Category} (hr : r ∈ grammar.rulesOf category)
    (h : symbol ∈ r.body) : isRegularSymbol symbol = true := by
  obtain ⟨rules, hrules, hmem⟩ := exists_rules hr
  exact forall_symbols rules hrules r hmem _ h

mutual

/-- What is read begins with no gap. -/
theorem head_of_reads : ∀ {d : Derivation Terminal Category Form} {a b : Nat},
    isRegularSymbol d.symbol = true → Reads grammar t d a b →
      ∃ c, t[a]? = some c ∧ isGapChar c = false
  | _, a, _, hregular, .terminal _ hmeasure => by
    obtain ⟨c, hc, hgap⟩ := Terminal.head_of_measure hregular hmeasure
    rw [List.head?_drop] at hc
    exact ⟨c, hc, hgap⟩
  | _, _, _, _, .node rule_mem symbols row =>
    head_of_readsRow (fun _ hmem => isRegularSymbol_of_mem rule_mem (symbols ▸ hmem)) row

/-- What a row reads begins with no gap. -/
theorem head_of_readsRow : ∀ {ds : List (Derivation Terminal Category Form)} {a b : Nat},
    (∀ s ∈ ds.map Derivation.symbol, isRegularSymbol s = true) → ReadsRow grammar t ds a b →
      ∃ c, t[a]? = some c ∧ isGapChar c = false
  | _, _, _, hregular, .one first => head_of_reads (hregular _ List.mem_cons_self) first
  | _, _, _, hregular, .cons first _ _ => head_of_reads (hregular _ List.mem_cons_self) first

end

end SkinCompiler.Source
