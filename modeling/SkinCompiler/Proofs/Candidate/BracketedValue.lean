import SkinCompiler.Proofs.Candidate.LongestRoot
import SkinCompiler.Proofs.Candidate.Mark

/-!
# Another value in the brackets

A class token is read from the outside: its marks and variants first, then the modifier, then the
root, and what stands in the brackets last.  So the brackets may be filled with another value, and
nothing else of what is read changes.

* `Candidate.Parts` -- a token taken apart, and the same with another last segment;
* `Candidate.exists_frame` -- around the text of a utility, a token is read in the same way whatever
  the utility is;
* `Utility.read?_bracketed` -- a root is read with any value in brackets behind it;
* `Candidate.exists_bracketed` -- hence a token is read with another value in its brackets;
* `Arbitrary.decode_bare` -- the same value is decoded behind a hint that is put in front of it.
-/

namespace SkinCompiler

open Text

/-! ## Hints -/

namespace Arbitrary

variable {content type : Text} {x : Decoded}

/-- The text between brackets without the hint in front of it, if there is one. -/
def bare (content : Text) : Text := ((hinted? content).map (·.2)).getD content

/-- With another hint in front of it, the same value is decoded and is of the type of that hint. -/
theorem decode_bare (h : decode content = some x) (hc : content.IsClosed)
    (htype : type ∈ typeHints) :
    decode (type ++ ':' :: bare content) = some { x with dataType := some type } ∧
      IsClosed (type ++ ':' :: bare content) := by
  obtain ⟨hblank, -, ⟨hint, v, rfl, hm, hv, rfl⟩ | ⟨hnone, rfl⟩⟩ := decode_eq_some h
  · have hbare : bare (hint ++ ':' :: v) = v := by
      rw [bare, hinted?_eq_some_iff.2 ⟨rfl, hm, hv⟩]
      rfl
    have hclosed := (isClosed_hint_append hm).1 hc
    rw [hbare]
    exact ⟨decode_hinted htype hv hclosed, (isClosed_hint_append htype).2 hclosed⟩
  · have hbare : bare content = content := by
      rw [bare, hnone]
      rfl
    have hne : content ≠ [] := by
      rintro rfl
      cases hblank
    rw [hbare]
    exact ⟨decode_hinted htype hne hc, (isClosed_hint_append htype).2 hc⟩

end Arbitrary

/-! ## Marks -/

section Marks

variable {mark : Char} {a t rest rest' : Text} {b : Bool}

theorem head?_append_congr (h : rest'.head? = rest.head?) :
    (a ++ rest').head? = (a ++ rest).head? := by
  rw [List.head?_append, List.head?_append, h]

theorem ne_nil_of_head? (h : rest'.head? = rest.head?) (hne : rest ≠ []) : rest' ≠ [] := by
  rintro rfl
  exact hne (List.head?_eq_none_iff.1 h.symm)

theorem head?_of_takeMark (h : takeMark mark t = (false, rest)) : t.head? ≠ some mark := by
  intro hmark
  obtain ⟨r, rfl⟩ := List.head?_eq_some_iff.1 hmark
  rw [Candidate.takeMark_cons] at h
  cases h

/-- Whether a mark is taken off depends on the first character only. -/
theorem takeMark_congr (h : takeMark mark t = (b, rest)) (hhead : rest'.head? = rest.head?) :
    takeMark mark (markText mark b ++ rest') = (b, rest') := by
  cases b with
  | true => exact Candidate.takeMark_cons mark rest'
  | false =>
    have ht : t = rest := takeMark_eq h
    refine takeMark_append (b := false) ?_
    rw [hhead, ← ht]
    exact head?_of_takeMark h

/-- The mark of importance stands in front or behind, and is found there whatever is marked. -/
theorem exists_takeImportance (h : takeImportance t = (b, rest)) (hne : rest ≠ []) :
    ∃ f g, t = markText '!' f ++ (rest ++ markText '!' g) ∧
      ∀ rest' : Text, rest'.head? = rest.head? → rest'.getLast? ≠ some '!' →
        takeImportance (markText '!' f ++ (rest' ++ markText '!' g)) = (b, rest') := by
  rw [takeImportance] at h
  rcases hmark : takeMark '!' t with ⟨b', t'⟩
  rw [hmark] at h
  cases b' with
  | true =>
    cases h
    refine ⟨true, false, by simpa [markText] using takeMark_eq hmark, fun rest' _ _ => ?_⟩
    simpa [markText] using Candidate.takeImportance_cons rest'
  | false =>
    obtain rfl : t = t' := takeMark_eq hmark
    have hhead := head?_of_takeMark hmark
    dsimp only at h
    split_ifs at h with hlast
    · cases h
      obtain ⟨rest, rfl⟩ := List.getLast?_eq_some_iff.1 hlast
      rw [List.dropLast_concat] at hne ⊢
      rw [List.head?_append_of_ne_nil _ hne] at hhead
      refine ⟨false, true, rfl, fun rest' hsame _ => ?_⟩
      refine Candidate.takeImportance_concat (ne_nil_of_head? hsame hne) ?_
      rintro e he rfl
      exact hhead (hsame ▸ he)
    · cases h
      refine ⟨false, false, by simp [markText], fun rest' hsame hlast' => ?_⟩
      simpa [markText] using takeImportance_eq (hsame ▸ hhead) hlast'

theorem isClosed_markText (hm : Scope.isPlain mark = true) (b : Bool) :
    (markText mark b).IsClosed := by
  cases b with
  | false => rfl
  | true => exact isClosed_of_plain (by simpa [markText] using hm)

theorem uncut_markText (hm : Scope.isPlain mark = true) (hc : mark ≠ ':') (b : Bool) :
    Scope.Uncut ':' {} (markText mark b) := by
  cases b with
  | false => rfl
  | true => exact uncut_of_plain (by simpa [markText] using hm) (by simpa [markText] using hc.symm)

/-- A balanced text is balanced without a mark behind it. -/
theorem isBalanced_of_markText (h : isBalanced (t ++ markText '!' b) = true) :
    isBalanced t = true := by
  cases b with
  | false => simpa [markText] using h
  | true => exact isBalanced_of_concat (by decide) h

end Marks

/-! ## A root with a value in brackets -/

/-- A root with a value in brackets behind it. -/
def bracketed (root content : Text) : Text := root ++ '-' :: '[' :: content ++ [']']

/-- No utility of the design system holds a bracket in its name. -/
def DesignSystem.HasPlainUtilities (d : DesignSystem) : Prop :=
  ∀ n ∈ d.staticUtilities ++ d.functionalUtilities, IsUnguarded n

instance decidableHasPlainUtilities (d : DesignSystem) : Decidable d.HasPlainUtilities :=
  List.decidableBAll IsUnguarded _

section Root

variable {d : DesignSystem} {root content tail u : Text} {m : Option Modifier}
  {x : Arbitrary.Decoded}

theorem bracketed_eq (root content : Text) :
    bracketed root content = (root ++ ['-']) ++ ('[' :: content ++ [']']) := by
  simp [bracketed]

theorem isWord_lead (hroot : IsWord root) : IsWord (root ++ ['-']) := hroot.append (by decide)

theorem isSolid_bracketed (hroot : IsWord root) (hc : content.IsClosed) :
    IsSolid (bracketed root content) := by
  rw [bracketed_eq]
  exact (isWord_lead hroot).isSolid.append (isSolid_bracket hc)

theorem isClosed_of_bracketed (hroot : IsWord root) (hx : Arbitrary.decode content = some x)
    (h : IsClosed (bracketed root content)) : content.IsClosed := by
  rw [bracketed_eq, isClosed_append (isWord_lead hroot).isClosed] at h
  exact isClosed_of_bracket (Arbitrary.decode_eq_some hx).2.1 rfl h.isBalanced

theorem getLast?_bracketed (h : Modifier.Tail tail m) (root content : Text) :
    ∃ c, (bracketed root content ++ tail).getLast? = some c ∧ c ≠ '\\' ∧ c ≠ '!' := by
  cases h with
  | absent =>
    refine ⟨']', ?_, by decide, by decide⟩
    rw [List.append_nil, bracketed, List.getLast?_concat]
  | present hr =>
    obtain ⟨c, hl, hc⟩ := hr.getLast?
    exact ⟨c, by simp [List.getLast?_append, List.getLast?_cons, hl], hc⟩

/-- A root is read with any value in brackets behind it, and with a modifier behind that. -/
theorem Utility.read?_bracketed (hd : d.HasPlainUtilities) (hroot : IsWord root) (hne : root ≠ [])
    (hmem : root ∈ d.functionalUtilities) (hx : Arbitrary.decode content = some x)
    (hc : content.IsClosed) (ht : Modifier.Tail tail m) :
    Utility.read? d (bracketed root content ++ tail) = some (.functional root (.arbitrary x) m) := by
  have hplain {n : Text} (hn : n ∈ d.staticUtilities ++ d.functionalUtilities) (y z : Text) :
      n ≠ y ++ '[' :: z := by
    rintro rfl
    exact hd _ hn '[' (by simp) (by decide)
  obtain ⟨hclosed, -, huncut⟩ := isSolid_bracketed hroot hc
  have hsplit : splitModifier? (bracketed root content ++ tail)
      = some (bracketed root content, m) :=
    splitModifier?_append hclosed huncut ht (by simp [bracketed])
  have hbetween : between? '[' ']' (bracketed root content) = none := by
    obtain ⟨c, name, rfl⟩ := List.exists_cons_of_ne_nil hne
    refine between?_of_head ?_
    rintro ⟨rfl⟩
    exact hroot _ List.mem_cons_self (by decide)
  have hstatic : bracketed root content ∉ d.staticUtilities := fun hs =>
    hplain (List.mem_append_left _ hs) (root ++ ['-']) (content ++ [']']) (by simp [bracketed])
  rw [Utility.read?_of_cuts hsplit hbetween fun h => hstatic h.1]
  have hcut : bracketed root content = root ++ '-' :: ('[' :: content ++ [']']) := by
    simp [bracketed]
  rw [hcut]
  refine findSome?_hyphenCuts hroot.isUnguarded hne (by simp) ?_ ?_
  · intro y z hyz
    cases y with
    | nil => simp at hyz
    | cons c y =>
      rw [List.cons_append, List.cons_append, List.cons.injEq] at hyz
      rw [← hyz.1, Utility.ofRoot?, if_neg]
      rw [List.contains_iff_mem]
      exact fun hf => hplain (List.mem_append_right _ hf) (root ++ ['-']) y (by simp)
  · rw [Utility.ofRoot?, if_pos (List.contains_iff_mem.2 hmem),
      Value.read?_eq_some_iff.2 (.bracketed hx)]
    rfl

theorem Utility.of_ofParts {value : Value} {m' : Option Modifier} {root' : Text}
    (h : Utility.ofParts root' value m' = .functional root (.arbitrary x) m) :
    root' = root ∧ value = .arbitrary x ∧ m' = m := by
  unfold Utility.ofParts at h
  split at h
  · split_ifs at h <;> cases h
  · cases h
    exact ⟨rfl, rfl, rfl⟩

/-- A utility with an arbitrary value is cut into its root and that value. -/
theorem Utility.exists_cut (h : Utility.read? d u = some (.functional root (.arbitrary x) m)) :
    ∃ r, splitModifier? u = some (root ++ '-' :: r, m) ∧ Value.Reads r (.arbitrary x) ∧
      root ≠ [] ∧ root ∈ d.functionalUtilities := by
  rw [Utility.read?] at h
  split at h
  · cases h
  · rename_i base m' hsplit
    split at h
    · obtain ⟨name, value, d', -, -, -, -, -, hu⟩ := readProperty?_eq_some h
      cases hu
    · split_ifs at h with hstatic
      · cases h
      · obtain ⟨⟨root', r⟩, hcut, hread⟩ := List.exists_of_findSome?_eq_some h
        dsimp only at hread
        split_ifs at hread with hmem
        obtain ⟨value, hvalue, hparts⟩ := Option.map_eq_some_iff.1 hread
        obtain ⟨rfl, rfl, rfl⟩ := Utility.of_ofParts hparts
        obtain rfl := eq_of_mem_hyphenCuts hcut
        exact ⟨r, hsplit, Value.read?_eq_some_iff.1 hvalue,
          (ne_nil_of_mem_hyphenCuts hcut).1, List.contains_iff_mem.1 hmem⟩

/-- What is read as a root with an arbitrary value is that root with brackets behind it, or a custom
property in round brackets. -/
theorem Utility.exists_bracketed (h : Utility.read? d u = some (.functional root (.arbitrary x) m))
    (hb : isBalanced u = true) (hu : Scope.Uncut ':' {} u) (hroot : IsWord root) :
    (∃ name, x = ⟨customProperty name, some "custom-property"⟩) ∨
      ∃ content tail, u = bracketed root content ++ tail ∧ Arbitrary.decode content = some x ∧
        content.IsClosed ∧ tail.IsClosed ∧ Scope.Uncut ':' {} tail ∧ Modifier.Tail tail m ∧
        root ≠ [] ∧ root ∈ d.functionalUtilities := by
  obtain ⟨r, hsplit, hvalue, hne, hmem⟩ := Utility.exists_cut h
  obtain ⟨tail, rfl, -, htail, hor⟩ := exists_of_splitModifier? hsplit
  cases hvalue with
  | custom => exact Or.inl ⟨_, rfl⟩
  | @bracketed content _ hx =>
    right
    have hcut : root ++ '-' :: ('[' :: content ++ [']']) = bracketed root content := by
      simp [bracketed]
    rw [hcut] at hb hu hor ⊢
    have hclosed : IsClosed (bracketed root content ++ tail) := by
      obtain ⟨c, hlast, hc, -⟩ := getLast?_bracketed htail root content
      exact isClosed_of_isBalanced hb (by simpa [hlast] using hc)
    have hclosed₁ : IsClosed (bracketed root content) := by
      rcases hor with rfl | ⟨hclosed₁, -⟩
      · simpa using hclosed
      · exact hclosed₁
    exact ⟨content, tail, rfl, hx, isClosed_of_bracketed hroot hx hclosed₁,
      (isClosed_append hclosed₁).1 hclosed, ((uncut_append_of_closed hclosed₁).1 hu).2, htail, hne,
      hmem⟩

end Root

/-! ## The text of a utility in its token -/

namespace Candidate

variable {d : DesignSystem} {raw : Text} {c : Candidate} {texts : List Text}

theorem of_ofTexts? {u : Text} {important negative : Bool}
    (h : ofTexts? d texts u important negative = some c) :
    c.important = important ∧ c.negative = negative ∧ Utility.read? d u = some c.utility := by
  rw [ofTexts?] at h
  obtain ⟨variants, -, h⟩ := Option.bind_eq_some_iff.1 h
  obtain ⟨utility, hu, h⟩ := Option.bind_eq_some_iff.1 h
  split_ifs at h
  cases h
  exact ⟨rfl, rfl, hu⟩

/-- Another utility with a value is read under the same variants and marks. -/
theorem ofTexts?_utility {u u' : Text} {important negative : Bool} {utility : Utility}
    (h : ofTexts? d texts u important negative = some c)
    (hu : Utility.read? d u' = some utility) (hf : utility.isFunctional = true) :
    ofTexts? d texts u' important negative = some { c with utility } := by
  rw [ofTexts?] at h ⊢
  obtain ⟨variants, hvariants, h⟩ := Option.bind_eq_some_iff.1 h
  obtain ⟨_, _, h⟩ := Option.bind_eq_some_iff.1 h
  split_ifs at h
  cases h
  simp [hvariants, hu, hf]

/-- A class token taken apart, from the outside to the text of its utility. -/
structure Parts (raw : Text) where
  /-- A mark of importance stands in front of the token. -/
  leadImportant : Bool
  /-- A hyphen stands in front of the token. -/
  leadNegative : Bool
  /-- The token behind its marks. -/
  body : Text
  /-- The texts of its variants. -/
  texts : List Text
  /-- Its last segment. -/
  segment : Text
  /-- The last segment has a mark of importance. -/
  important : Bool
  /-- The last segment has a hyphen in front. -/
  negative : Bool
  /-- The text of the utility. -/
  utility : Text
  /-- The token is balanced. -/
  balanced : isBalanced raw = true
  /-- The mark of importance is taken off. -/
  takeMark_raw : takeMark '!' raw = (leadImportant, markText '-' leadNegative ++ body)
  /-- The hyphen is taken off. -/
  takeMark_body : takeMark '-' (markText '-' leadNegative ++ body) = (leadNegative, body)
  /-- The rest is cut. -/
  segments_body : segments [':'] body = texts ++ [segment]
  /-- No segment is empty. -/
  ne_nil : ∀ t ∈ texts ++ [segment], t ≠ []
  /-- The mark of importance is taken off the last segment. -/
  takeImportance_segment : takeImportance segment = (important, markText '-' negative ++ utility)
  /-- The hyphen is taken off the last segment. -/
  takeMark_segment : takeMark '-' (markText '-' negative ++ utility) = (negative, utility)
  /-- Something is left of it. -/
  utility_ne_nil : utility ≠ []

namespace Parts

/-- The text in front of the last segment. -/
def lead (p : Parts raw) : Text :=
  markText '!' p.leadImportant ++ (markText '-' p.leadNegative ++ terminated ':' p.texts)

variable (p : Parts raw)

theorem read?_eq : read? d raw = ofTexts? d p.texts p.utility (p.leadImportant || p.important)
    (p.leadNegative || p.negative) :=
  read?_of_parts p.balanced p.takeMark_raw p.takeMark_body p.segments_body p.ne_nil
    p.takeImportance_segment p.takeMark_segment p.utility_ne_nil

theorem body_eq : p.body = terminated ':' p.texts ++ p.segment := (eq_terminated p.segments_body).1

theorem raw_eq : raw = p.lead ++ p.segment := by
  have hraw := takeMark_eq p.takeMark_raw
  rw [body_eq] at hraw
  simpa [lead] using hraw

theorem isClosed_lead : p.lead.IsClosed := by
  obtain ⟨-, -, htexts⟩ := eq_terminated p.segments_body
  exact (isClosed_append (isClosed_markText (by decide) _)).2 <|
    (isClosed_append (isClosed_markText (by decide) _)).2 <|
      isClosed_terminated (by decide) fun t ht => (htexts t ht).1

theorem isBalanced_segment : isBalanced p.segment = true := by
  have hb := p.balanced
  rw [p.raw_eq, isBalanced_append p.isClosed_lead] at hb
  exact hb

theorem uncut_segment : Scope.Uncut ':' {} p.segment := (eq_terminated p.segments_body).2.1

/-- The same token with another last segment, if that begins with the same character and is one
segment. -/
def withSegment {w u : Text} {i n : Bool} (hhead : w.head? = p.segment.head?)
    (hb : isBalanced w = true) (huncut : Scope.Uncut ':' {} w)
    (himportance : takeImportance w = (i, markText '-' n ++ u))
    (hmark : takeMark '-' (markText '-' n ++ u) = (n, u)) (hu : u ≠ []) :
    Parts (p.lead ++ w) where
  leadImportant := p.leadImportant
  leadNegative := p.leadNegative
  body := terminated ':' p.texts ++ w
  texts := p.texts
  segment := w
  important := i
  negative := n
  utility := u
  balanced := by rw [isBalanced_append p.isClosed_lead, hb]
  takeMark_raw := by
    rw [lead, List.append_assoc, List.append_assoc]
    refine takeMark_congr p.takeMark_raw ?_
    rw [body_eq]
    exact head?_append_congr (head?_append_congr hhead)
  takeMark_body := by
    refine takeMark_congr p.takeMark_body ?_
    rw [body_eq]
    exact head?_append_congr hhead
  segments_body := segments_terminated (by decide) (eq_terminated p.segments_body).2.2 huncut
  ne_nil := by
    intro t ht
    rcases List.mem_append.1 ht with ht | ht
    · exact p.ne_nil t (List.mem_append_left _ ht)
    · rw [List.mem_singleton.1 ht]
      exact ne_nil_of_head? hhead (p.ne_nil p.segment (by simp))
  takeImportance_segment := himportance
  takeMark_segment := hmark
  utility_ne_nil := hu

end Parts

/-- What was read as a candidate has its parts. -/
theorem exists_parts (h : read? d raw = some c) : Nonempty (Parts raw) := by
  rw [read?] at h
  split at h
  · cases h
  · rename_i hbalanced
    rcases h₁ : takeMark '!' raw with ⟨i, t₁⟩
    rcases h₂ : takeMark '-' t₁ with ⟨n, t⟩
    obtain rfl := takeMark_eq h₂
    rw [h₁] at h
    dsimp only at h
    rw [h₂] at h
    dsimp only at h
    split at h
    · cases h
    · rename_i hempty
      obtain ⟨texts, w, hsegments, -⟩ := segments_spec ':' t
      rw [hsegments, List.getLastD_concat] at h
      rcases h₃ : takeImportance w with ⟨i', w₁⟩
      rw [h₃] at h
      dsimp only at h
      rcases h₄ : takeMark '-' w₁ with ⟨n', u⟩
      obtain rfl := takeMark_eq h₄
      rw [h₄] at h
      dsimp only at h
      refine ⟨⟨i, n, t, texts, w, i', n', u, by simpa using hbalanced, h₁, h₂, hsegments, ?_, h₃,
        h₄, ?_⟩⟩
      · intro p hp
        rw [hsegments] at hempty
        simp only [List.any_eq_true, not_exists, not_and, List.isEmpty_iff] at hempty
        exact hempty p hp
      · rintro rfl
        split at h <;> simp at h

/-- Around the text of its utility a token is read in the same way, whatever the utility is, if that
begins with the same character, does not end in a mark and is one segment. -/
theorem exists_frame (h : read? d raw = some c) : ∃ lead u tail texts,
    raw = lead ++ (u ++ tail) ∧ isBalanced u = true ∧ Scope.Uncut ':' {} u ∧
      ofTexts? d texts u c.important c.negative = some c ∧
      ∀ u' : Text, u'.head? = u.head? → u'.getLast? ≠ some '!' → u'.IsClosed →
        Scope.Uncut ':' {} u' →
        read? d (lead ++ (u' ++ tail)) = ofTexts? d texts u' c.important c.negative := by
  obtain ⟨p⟩ := exists_parts h
  have hread := p.read?_eq.symm.trans h
  obtain ⟨himportant, hnegative, -⟩ := of_ofTexts? hread
  obtain ⟨f, g, hsegment, himportance⟩ :=
    exists_takeImportance p.takeImportance_segment (by simp [p.utility_ne_nil])
  have hfront : IsClosed (markText '!' f ++ markText '-' p.negative) :=
    (isClosed_append (isClosed_markText (by decide) f)).2 (isClosed_markText (by decide) _)
  have hassoc (u' : Text) : markText '!' f ++ ((markText '-' p.negative ++ u') ++ markText '!' g)
      = (markText '!' f ++ markText '-' p.negative) ++ (u' ++ markText '!' g) := by simp
  have hb := p.isBalanced_segment
  have huncut := p.uncut_segment
  rw [hsegment, hassoc] at hb huncut
  rw [isBalanced_append hfront] at hb
  rw [uncut_append_of_closed hfront] at huncut
  have hbalanced := isBalanced_of_markText hb
  refine ⟨p.lead ++ (markText '!' f ++ markText '-' p.negative), p.utility, markText '!' g, p.texts,
    ?_, hbalanced, ?_, by rw [himportant, hnegative, hread], ?_⟩
  · rw [List.append_assoc, ← hassoc, ← hsegment]
    exact p.raw_eq
  · obtain ⟨escaped, hrun⟩ := isBalanced_iff.1 hbalanced
    exact ((Scope.uncut_append hrun).1 huncut.2).1
  · intro u' hhead hlast hclosed huncut'
    have hne := ne_nil_of_head? hhead p.utility_ne_nil
    have hmarked : (markText '-' p.negative ++ u').head?
        = (markText '-' p.negative ++ p.utility).head? := head?_append_congr hhead
    have hlast' : (markText '-' p.negative ++ u').getLast? ≠ some '!' := by
      rwa [List.getLast?_append_of_ne_nil _ hne]
    have hhead' : ((markText '!' f ++ markText '-' p.negative) ++ (u' ++ markText '!' g)).head?
        = p.segment.head? := by
      rw [← hassoc, hsegment]
      simp only [List.head?_append, hmarked]
    have himportance' := himportance _ hmarked hlast'
    rw [hassoc] at himportance'
    rw [List.append_assoc, himportant, hnegative]
    refine (p.withSegment hhead' ?_ ?_ himportance' (takeMark_congr p.takeMark_segment hhead)
      hne).read?_eq
    · rw [isBalanced_append hfront, isBalanced_append hclosed]
      exact (isClosed_markText (by decide) g).isBalanced
    · rw [uncut_append_of_closed hfront, uncut_append_of_closed hclosed]
      exact ⟨huncut.1, huncut', uncut_markText (by decide) (by decide) g⟩

/-- A token with an arbitrary value, but for a custom property in round brackets, is a text with the
value in brackets behind its root, and is read with any other value in these brackets. -/
theorem exists_bracketed {root : Text} {x : Arbitrary.Decoded} {m : Option Modifier}
    (hd : d.HasPlainUtilities) (h : read? d raw = some c)
    (hc : c.utility = .functional root (.arbitrary x) m) (hroot : IsWord root)
    (hx : ∀ name, x ≠ ⟨customProperty name, some "custom-property"⟩) :
    ∃ lead content tail, raw = lead ++ (bracketed root content ++ tail) ∧
      Arbitrary.decode content = some x ∧ content.IsClosed ∧
      ∀ content' x', Arbitrary.decode content' = some x' → content'.IsClosed →
        read? d (lead ++ (bracketed root content' ++ tail))
          = some { c with utility := .functional root (.arbitrary x') m } := by
  obtain ⟨lead, u, tail, texts, hraw, hb, huncut, hread, hframe⟩ := exists_frame h
  obtain ⟨-, -, hu⟩ := of_ofTexts? hread
  rw [hc] at hu
  obtain ⟨name, hname⟩ | ⟨content, rest, rfl, hdecode, hclosed, hrest, huncut', htail, hne, hmem⟩ :=
    Utility.exists_bracketed hu hb huncut hroot
  · exact absurd hname (hx name)
  refine ⟨lead, content, rest ++ tail, by simpa using hraw, hdecode, hclosed, ?_⟩
  intro content' x' hdecode' hclosed'
  obtain ⟨hsolid, hcolon, -⟩ := isSolid_bracketed hroot hclosed'
  have hread' := Utility.read?_bracketed hd hroot hne hmem hdecode' hclosed' htail
  rw [← List.append_assoc (bracketed root content'), hframe]
  · exact ofTexts?_utility hread hread' rfl
  · obtain ⟨first, name, rfl⟩ := List.exists_cons_of_ne_nil hne
    rfl
  · obtain ⟨last, hlast, -, hmark⟩ := getLast?_bracketed htail root content'
    simpa [hlast] using hmark
  · exact (isClosed_append hsolid).2 hrest
  · exact (uncut_append_of_closed hsolid).2 ⟨hcolon, huncut'⟩

end Candidate

end SkinCompiler
