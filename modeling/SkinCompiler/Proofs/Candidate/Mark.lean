import SkinCompiler.Proofs.Candidate.TopLevel

/-!
# Class tokens, part by part

A class token is read segment by segment, and its marks mean the same wherever they may stand.

* `Candidate.ofTexts?` -- the candidate that the texts of some variants, the text of a utility and
  two marks make;
* `Candidate.read?_of_parts` -- reading is taking the marks off, cutting, and `ofTexts?`;
* `Candidate.read?_marked` -- the candidate of an unmarked token is put together of those of its
  segments, and every place of a mark adds the same to it.

All of it holds in every design system.
-/

namespace SkinCompiler

open Text

variable {d : DesignSystem} {raw t u w : Text} {texts : List Text} {c : Candidate} {mark : Char}

namespace Candidate

/-! ## From texts to a candidate -/

/-- The candidate that the texts of variants, the text of a utility and two marks make. -/
def ofTexts? (d : DesignSystem) (texts : List Text) (u : Text) (important negative : Bool) :
    Option Candidate :=
  (texts.mapM (Variant.read? d)).bind fun variants =>
    (Utility.read? d u).bind fun utility =>
      if negative && !utility.isFunctional then none
      else some { utility, variants, important, negative }

/-- Reading takes the marks off in front of the token, cuts it, takes the marks off around its
utility, and makes a candidate of what is left. -/
theorem read?_of_parts {t₁ w₁ : Text} {i i' n n' : Bool} (hb : isBalanced raw = true)
    (h₁ : takeMark '!' raw = (i, t₁)) (h₂ : takeMark '-' t₁ = (n, t))
    (hs : segments [':'] t = texts ++ [w]) (hne : ∀ p ∈ texts ++ [w], p ≠ [])
    (h₃ : takeImportance w = (i', w₁)) (h₄ : takeMark '-' w₁ = (n', u)) (hu : u ≠ []) :
    read? d raw = ofTexts? d texts u (i || i') (n || n') := by
  have hempty : (texts ++ [w]).any (·.isEmpty) = false := by
    rw [List.any_eq_false]
    intro p hp
    simpa using hne p hp
  rw [read?, if_neg (by simp [hb]), h₁]
  dsimp only
  rw [h₂]
  dsimp only
  rw [hs, hempty, if_neg (by simp), List.getLastD_concat, List.dropLast_concat, h₃]
  dsimp only
  rw [h₄, ofTexts?]
  cases texts.mapM (Variant.read? d) with
  | none => rfl
  | some variants =>
    cases Utility.read? d u with
    | none => rfl
    | some utility => simp [hu]

/-- The variants of a candidate and its utility are found apart. -/
theorem ofTexts?_eq_some_iff : ofTexts? d texts u false false = some c ↔
    ∃ variants c', List.Forall₂ (fun p v => Variant.read? d p = some v) texts variants ∧
      ofTexts? d [] u false false = some c' ∧ c = { c' with variants } := by
  simp only [ofTexts?, Option.bind_eq_some_iff, mapM_eq_some_iff, List.forall₂_nil_left_iff]
  constructor
  · rintro ⟨variants, hv, utility, hu, hc⟩
    cases hc
    exact ⟨variants, _, hv, ⟨[], rfl, utility, hu, rfl⟩, rfl⟩
  · rintro ⟨variants, c', hv, ⟨_, rfl, utility, hu, hc⟩, rfl⟩
    cases hc
    exact ⟨variants, hv, utility, hu, rfl⟩

/-- The mark of importance changes nothing else. -/
theorem ofTexts?_important : ofTexts? d texts u true false =
    (ofTexts? d texts u false false).map fun c => { c with important := true } := by
  simp only [ofTexts?]
  cases texts.mapM (Variant.read? d) with
  | none => rfl
  | some variants => cases Utility.read? d u <;> rfl

/-- A sign is refused where there is no value, and changes nothing else. -/
theorem ofTexts?_negative : ofTexts? d texts u false true =
    (ofTexts? d texts u false false).bind fun c =>
      if c.utility.isFunctional then some { c with negative := true } else none := by
  simp only [ofTexts?]
  cases texts.mapM (Variant.read? d) with
  | none => rfl
  | some variants =>
    cases Utility.read? d u with
    | none => rfl
    | some utility => cases hf : utility.isFunctional <;> simp [hf]

/-! ## Taking marks off -/

theorem takeMark_of_head (h : ∀ e ∈ t.head?, e ≠ mark) : takeMark mark t = (false, t) :=
  takeMark_append (b := false) fun hh => h _ hh rfl

theorem takeMark_cons (mark : Char) (t : Text) : takeMark mark (mark :: t) = (true, t) := by
  simp [takeMark, after?]

/-- In front of a utility the mark of importance is found there. -/
theorem takeImportance_cons (u : Text) : takeImportance ('!' :: u) = (true, u) := by
  rw [takeImportance, takeMark_cons]

/-- Behind a utility the mark of importance is found where none stands in front. -/
theorem takeImportance_concat (hu : u ≠ []) (h : ∀ e ∈ u.head?, e ≠ '!') :
    takeImportance (u ++ ['!']) = (true, u) := by
  have hhead : ∀ e ∈ (u ++ ['!']).head?, e ≠ '!' := by
    rw [List.head?_append_of_ne_nil u hu]
    exact h
  rw [takeImportance, takeMark_of_head hhead]
  simp

/-! ## Tokens without marks -/

/-- A balanced token with the texts of its variants and of its utility, none of them empty, and with
no mark where one may stand. -/
structure HasNoMarks (t : Text) (texts : List Text) (u : Text) : Prop where
  /-- The token is balanced. -/
  balanced : isBalanced t = true
  /-- Its segments are the texts of the variants and of the utility. -/
  segments_eq : segments [':'] t = texts ++ [u]
  /-- No segment is empty. -/
  ne_nil : ∀ p ∈ texts ++ [u], p ≠ []
  /-- No mark stands in front of the token. -/
  head : ∀ e ∈ t.head?, e ≠ '!' ∧ e ≠ '-'
  /-- No mark stands in front of the utility. -/
  utility_head : ∀ e ∈ u.head?, e ≠ '!' ∧ e ≠ '-'
  /-- No mark stands behind the utility. -/
  utility_last : u.getLast? ≠ some '!'

namespace HasNoMarks

theorem spec (h : HasNoMarks t texts u) : t = terminated ':' texts ++ u ∧
    ∀ p ∈ texts, p.IsClosed ∧ Scope.Uncut ':' {} p := by
  obtain ⟨htext, -, hall⟩ := eq_terminated h.segments_eq
  exact ⟨htext, hall⟩

theorem utility_ne_nil (h : HasNoMarks t texts u) : u ≠ [] := h.ne_nil u (by simp)

theorem utility_uncut (h : HasNoMarks t texts u) : Scope.Uncut ':' {} u :=
  (eq_terminated h.segments_eq).2.1

/-- What stands in front of the utility leaves nothing open. -/
theorem isClosed (h : HasNoMarks t texts u) : (terminated ':' texts).IsClosed :=
  isClosed_terminated (by decide) fun p hp => (h.spec.2 p hp).1

theorem utility_balanced (h : HasNoMarks t texts u) : isBalanced u = true := by
  have hb := h.balanced
  rw [h.spec.1, isBalanced_append h.isClosed] at hb
  exact hb

/-- Where there are variants, the token begins as it did, whatever comes in front of its utility. -/
theorem head_append (h : HasNoMarks t texts u) (hn : texts ≠ []) (w : Text) :
    ∀ e ∈ (terminated ':' texts ++ w).head?, e ≠ '!' ∧ e ≠ '-' := by
  have hlead : terminated ':' texts ≠ [] := by
    obtain ⟨p, rest, rfl⟩ := List.exists_cons_of_ne_nil hn
    simp [terminated]
  have hhead := h.head
  rw [h.spec.1, List.head?_append_of_ne_nil _ hlead] at hhead
  rw [List.head?_append_of_ne_nil _ hlead]
  exact hhead

/-- The utility may be given a mark behind the texts of the variants: a text that is balanced and
that no colon cuts is the last segment again. -/
theorem read?_terminated (h : HasNoMarks t texts u) {i' n' : Bool} {w₁ u' : Text}
    (hhead : ∀ e ∈ (terminated ':' texts ++ w).head?, e ≠ '!' ∧ e ≠ '-')
    (hb : isBalanced w = true) (hc : Scope.Uncut ':' {} w) (hw : w ≠ [])
    (h₃ : takeImportance w = (i', w₁)) (h₄ : takeMark '-' w₁ = (n', u')) (hu : u' ≠ []) :
    read? d (terminated ':' texts ++ w) = ofTexts? d texts u' i' n' := by
  have hseg : segments [':'] (terminated ':' texts ++ w) = texts ++ [w] :=
    segments_terminated (by decide) h.spec.2 hc
  have hne : ∀ p ∈ texts ++ [w], p ≠ [] := by
    intro p hp
    rcases List.mem_append.1 hp with hp | hp
    · exact h.ne_nil p (List.mem_append_left _ hp)
    · rw [List.mem_singleton.1 hp]
      exact hw
  rw [read?_of_parts (by rw [isBalanced_append h.isClosed, hb])
    (takeMark_of_head fun e he => (hhead e he).1) (takeMark_of_head fun e he => (hhead e he).2)
    hseg hne h₃ h₄ hu]
  simp

theorem takeImportance_utility (h : HasNoMarks t texts u) : takeImportance u = (false, u) :=
  takeImportance_eq (fun hh => (h.utility_head _ hh).1 rfl) h.utility_last

theorem takeMark_utility (h : HasNoMarks t texts u) : takeMark '-' u = (false, u) :=
  takeMark_of_head fun e he => (h.utility_head e he).2

/-- The token itself. -/
theorem read?_eq (h : HasNoMarks t texts u) : read? d t = ofTexts? d texts u false false := by
  have hhead := h.head
  rw [h.spec.1] at hhead ⊢
  exact h.read?_terminated hhead h.utility_balanced h.utility_uncut h.utility_ne_nil
    h.takeImportance_utility h.takeMark_utility h.utility_ne_nil

/-- The utility alone is a token without marks. -/
theorem utility (h : HasNoMarks t texts u) : HasNoMarks u [] u where
  balanced := h.utility_balanced
  segments_eq := segments_of_uncut h.utility_uncut
  ne_nil := by simpa using h.utility_ne_nil
  head := h.utility_head
  utility_head := h.utility_head
  utility_last := h.utility_last

/-! ### Marks in front of the token -/

theorem read?_important (h : HasNoMarks t texts u) :
    read? d ('!' :: t) = ofTexts? d texts u true false := by
  rw [read?_of_parts (by rw [← h.balanced]; exact isBalanced_append (a := ['!']) rfl)
    (takeMark_cons ..) (takeMark_of_head fun e he => (h.head e he).2)
    h.segments_eq h.ne_nil h.takeImportance_utility h.takeMark_utility h.utility_ne_nil]
  simp

theorem read?_negative (h : HasNoMarks t texts u) :
    read? d ('-' :: t) = ofTexts? d texts u false true := by
  rw [read?_of_parts (by rw [← h.balanced]; exact isBalanced_append (a := ['-']) rfl)
    (takeMark_of_head (by simp)) (takeMark_cons ..)
    h.segments_eq h.ne_nil h.takeImportance_utility h.takeMark_utility h.utility_ne_nil]
  simp

/-! ### Marks around the utility -/

/-- A mark in front of the utility opens and cuts nothing. -/
theorem mark_utility (h : HasNoMarks t texts u) (mark : Char) (hm : mark = '!' ∨ mark = '-') :
    isBalanced (mark :: u) = true ∧ Scope.Uncut ':' {} (mark :: u) := by
  have hclosed : IsClosed [mark] ∧ Scope.Uncut ':' {} [mark] := by
    rcases hm with rfl | rfl <;> exact ⟨rfl, rfl⟩
  refine ⟨?_, (uncut_append_of_closed (b := u) hclosed.1).2 ⟨hclosed.2, h.utility_uncut⟩⟩
  rw [← h.utility_balanced]
  exact isBalanced_append hclosed.1

theorem read?_utility_important (h : HasNoMarks t texts u) :
    read? d (terminated ':' texts ++ '!' :: u) = ofTexts? d texts u true false := by
  by_cases hn : texts = []
  · -- in front of the utility is in front of the token
    have ht := h.spec.1
    subst hn
    subst ht
    exact h.read?_important
  · obtain ⟨hb, hc⟩ := h.mark_utility '!' (Or.inl rfl)
    exact h.read?_terminated (h.head_append hn _) hb hc (by simp)
      (takeImportance_cons u) h.takeMark_utility h.utility_ne_nil

theorem read?_utility_negative (h : HasNoMarks t texts u) :
    read? d (terminated ':' texts ++ '-' :: u) = ofTexts? d texts u false true := by
  by_cases hn : texts = []
  · have ht := h.spec.1
    subst hn
    subst ht
    exact h.read?_negative
  · obtain ⟨hb, hc⟩ := h.mark_utility '-' (Or.inr rfl)
    have hlast : ('-' :: u).getLast? ≠ some '!' := by
      rw [List.getLast?_cons_of_ne_nil h.utility_ne_nil]
      exact h.utility_last
    exact h.read?_terminated (h.head_append hn _) hb hc (by simp)
      (takeImportance_eq (by simp) hlast) (takeMark_cons ..)
      h.utility_ne_nil

/-- A mark behind the utility opens and cuts nothing, even where a backslash stands before it. -/
theorem utility_mark (h : HasNoMarks t texts u) :
    isBalanced (u ++ ['!']) = true ∧ Scope.Uncut ':' {} (u ++ ['!']) := by
  obtain ⟨escaped, hrun⟩ := isBalanced_iff.1 h.utility_balanced
  have hstep : ∀ b, Scope.run ⟨[], none, b⟩ ['!'] = some {} := by
    intro b
    cases b <;> rfl
  refine ⟨isBalanced_iff.2 ⟨false, ?_⟩, (Scope.uncut_append hrun).2 ⟨h.utility_uncut, ?_⟩⟩
  · rw [Scope.run_append, hrun, Option.bind_some, hstep]
  · exact Scope.uncut_of_not_mem (by decide) (by simp [hstep])

theorem read?_concat (h : HasNoMarks t texts u) :
    read? d (t ++ ['!']) = ofTexts? d texts u true false := by
  obtain ⟨hb, hc⟩ := h.utility_mark
  have hne : t ≠ [] := by
    rw [h.spec.1]
    simp [h.utility_ne_nil]
  have hhead : ∀ e ∈ (t ++ ['!']).head?, e ≠ '!' ∧ e ≠ '-' := by
    rw [List.head?_append_of_ne_nil t hne]
    exact h.head
  rw [h.spec.1, List.append_assoc] at hhead ⊢
  exact h.read?_terminated hhead hb hc (by simp)
    (takeImportance_concat h.utility_ne_nil fun e he => (h.utility_head e he).1)
    h.takeMark_utility h.utility_ne_nil

end HasNoMarks

/-! ## Tokens with marks -/

/-- A token without marks is read exactly where its variants and its utility are, and it is the
candidate of its utility under these variants.  The mark of importance adds the same in front of the
token, in front of its utility and at the end; the sign adds the same in front of the token and of
its utility, and is refused where there is no value. -/
theorem read?_marked (d : DesignSystem) (h : HasNoMarks t texts u) :
    t = terminated ':' texts ++ u ∧
    (∀ c, read? d t = some c ↔ ∃ variants c',
      List.Forall₂ (fun p v => Variant.read? d p = some v) texts variants ∧
        read? d u = some c' ∧ c = { c' with variants }) ∧
    (∀ marked ∈ ['!' :: t, terminated ':' texts ++ '!' :: u, t ++ ['!']],
      read? d marked = (read? d t).map fun c => { c with important := true }) ∧
    (∀ marked ∈ ['-' :: t, terminated ':' texts ++ '-' :: u],
      read? d marked = (read? d t).bind fun c =>
        if c.utility.isFunctional then some { c with negative := true } else none) := by
  refine ⟨h.spec.1, ?_, ?_, ?_⟩
  · intro c
    rw [h.read?_eq, h.utility.read?_eq]
    exact ofTexts?_eq_some_iff
  · rw [h.read?_eq, ← ofTexts?_important]
    intro marked hm
    simp only [List.mem_cons, List.not_mem_nil, or_false] at hm
    rcases hm with rfl | rfl | rfl
    · exact h.read?_important
    · exact h.read?_utility_important
    · exact h.read?_concat
  · rw [h.read?_eq, ← ofTexts?_negative]
    intro marked hm
    simp only [List.mem_cons, List.not_mem_nil, or_false] at hm
    rcases hm with rfl | rfl
    · exact h.read?_negative
    · exact h.read?_utility_negative

/-- Behind a variant with colons and a hyphen in its brackets, both marks are found at every place
where they may stand. -/
theorem read?_marked_bracketed :
    HasNoMarks "hover:data-[a:-b]:mt-2" ["hover", "data-[a:-b]"] "mt-2" ∧
    ∃ c, read? .builtIn "hover:data-[a:-b]:mt-2" = some c ∧
      read? .builtIn "hover:data-[a:-b]:!mt-2" = some { c with important := true } ∧
      read? .builtIn "hover:data-[a:-b]:mt-2!" = some { c with important := true } ∧
      read? .builtIn "-hover:data-[a:-b]:mt-2" = some { c with negative := true } ∧
      read? .builtIn "hover:data-[a:-b]:-mt-2" = some { c with negative := true } := by
  have h : HasNoMarks "hover:data-[a:-b]:mt-2" ["hover", "data-[a:-b]"] "mt-2" :=
    { balanced := by decide +kernel
      segments_eq := by decide +kernel
      ne_nil := by decide +kernel
      head := by simp
      utility_head := by simp
      utility_last := by decide +kernel }
  have hread : (read? .builtIn "hover:data-[a:-b]:mt-2").any (·.utility.isFunctional) = true := by
    decide +kernel
  obtain ⟨c, hc, hf⟩ := (Option.any_eq_true _ _).1 hread
  obtain ⟨-, -, himportant, hnegative⟩ := read?_marked .builtIn h
  rw [hc] at himportant hnegative
  simp only [Option.map_some, Option.bind_some, hf, if_true] at himportant hnegative
  exact ⟨h, c, hc, himportant _ (by decide), himportant _ (by decide), hnegative _ (by decide),
    hnegative _ (by decide)⟩

end Candidate

end SkinCompiler
