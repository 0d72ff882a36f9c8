import SkinCompiler.Candidate.Reader
import SkinCompiler.Proofs.Text.Basic
import SkinCompiler.Style.Selector

/-!
# Selectors as templates

Variants put a selector together around a base selector that they do not look at.  What they make is
a template: a text with places that the base is put into.

* `SelectorTemplate.fill_subst` -- a template around a filled template is one template, filled;
* `isUniform_applyVariant` -- a variant that was read fails for every base in the same way, or makes
  a template with a place in it;
* `isUniform_applyAll` -- so does a stack of such variants, by induction on the stack;
* `applyAll_eq` -- what a stack makes on top of another one depends on the selector of that one only;
* `applyVariants_uniform` -- both together.

A rule therefore never loses the class that it belongs to, and another name for the class changes
nothing else in it.
-/

namespace SkinCompiler

open Text

variable {d : DesignSystem} {raw : Text} {v : Variant}

/-! ## Fragments of selectors -/

theorem mem_underscoresToSpaces {t : Text} {c : Char} (hc : c ≠ '\\') (hc' : c ≠ '_') (h : c ∈ t) :
    c ∈ Arbitrary.underscoresToSpaces t := by
  induction t using Arbitrary.underscoresToSpaces.induct with
  | case1 t ih =>
    rw [Arbitrary.underscoresToSpaces]
    simp only [List.mem_cons, hc, hc', false_or] at h ⊢
    exact ih h
  | case2 x t hx ih =>
    rw [Arbitrary.underscoresToSpaces]
    · rcases List.mem_cons.1 h with rfl | h
      · simp [hc']
      · exact List.mem_cons_of_mem _ (ih h)
    · exact hx
  | case3 => cases h

theorem startsWith_underscoresToSpaces {t : Text} (h : startsWith t ['@'] = true) :
    startsWith (Arbitrary.underscoresToSpaces t) ['@'] = true := by
  obtain ⟨t, rfl⟩ := startsWith_iff.1 h
  exact startsWith_append ['@'] (Arbitrary.underscoresToSpaces t)

/-- A fragment in brackets that is an at-rule or says where the selector stands in it. -/
def Variant.NamesSelector : Variant → Prop
  | .arbitrary fragment => '&' ∈ fragment ∨ startsWith fragment ['@'] = true
  | _ => True

/-- Every variant that is read from a text is of this kind, in every design system. -/
theorem Variant.namesSelector_of_read? (h : Variant.read? d raw = some v) : v.NamesSelector := by
  rw [Variant.read?, Variant.readWithin] at h
  split at h
  · cases h
  · split at h
    · rename_i fragment _
      split_ifs at h with hf
      cases h
      rw [Bool.or_eq_true, List.contains_iff_mem] at hf
      exact hf
    · cases v with
      | arbitrary fragment =>
        -- nothing but a text in brackets is read as a fragment
        exfalso
        split_ifs at h
        · cases h
        · split at h
          · cases h
          · split_ifs at h
            · simp at h
            · obtain ⟨⟨root, rest⟩, -, hcut⟩ := List.exists_of_findSome?_eq_some h
              dsimp only at hcut
              split_ifs at hcut <;> simp at hcut
      | _ => trivial

namespace Style

/-! ## Templates -/

/-- A selector with places for a base selector: a character stands for itself, and `none` is a
place. -/
abbrev SelectorTemplate := List (Option Char)

namespace SelectorTemplate

/-- The selector with the base in every place. -/
def fill (t : SelectorTemplate) (base : Text) : Text := t.flatMap fun cell => match cell with
  | some c => [c]
  | none => base

/-- The template with another one in every place. -/
def subst (t u : SelectorTemplate) : SelectorTemplate := t.flatMap fun cell => match cell with
  | some c => [some c]
  | none => u

variable (t u : SelectorTemplate) (base a b : Text)

/-- The base between two texts. -/
def around : SelectorTemplate := a.map some ++ none :: b.map some

@[simp] theorem fill_around : (around a b).fill base = a ++ base ++ b := by
  have htext (x : Text) : SelectorTemplate.fill (x.map some) base = x := by
    simp [fill, List.flatMap_map]
  rw [fill, around, List.flatMap_append, List.flatMap_cons]
  simpa [fill] using congrArg₂ (fun x y => x ++ (base ++ y)) (htext a) (htext b)

theorem none_mem_around : none ∈ around a b := by simp [around]

/-- A template that is filled with a filled template is the one put into the other, filled. -/
theorem fill_subst : (t.subst u).fill base = t.fill (u.fill base) := by
  rw [fill, subst, List.flatMap_assoc, fill]
  congr 1
  funext cell
  cases cell with
  | some c => rfl
  | none => rfl

variable {t u} in
theorem none_mem_subst (ht : none ∈ t) (hu : none ∈ u) : none ∈ t.subst u :=
  List.mem_flatMap.2 ⟨none, ht, hu⟩

end SelectorTemplate

/-! ## Outcomes that do not look at the base -/

/-- What comes of a base selector: for every base the same error, or one template with a place for
it, under at-rules and with a pseudo-element that do not depend on it. -/
inductive IsUniform (f : Text → Except UnsupportedVariant Resolved) : Prop where
  | fails (e : UnsupportedVariant) (h : ∀ base, f base = .error e)
  | fills (t : SelectorTemplate) (atRules : List Text) (pseudoElement : Option Text)
      (ht : none ∈ t)
      (h : ∀ base, f base = .ok { selector := t.fill base, atRules, pseudoElement })

namespace IsUniform

variable {f : Text → Except UnsupportedVariant Resolved}

/-- What comes of the empty base, with the base put in front of its selector or behind it. -/
theorem of_around (before after : Text → Text) (h : ∀ s, f s = (f []).map fun r =>
    { r with selector := before r.selector ++ s ++ after r.selector }) : IsUniform f := by
  cases hf : f [] with
  | error e =>
    refine .fails e fun base => ?_
    rw [h, hf]
    rfl
  | ok r =>
    refine .fills (.around (before r.selector) (after r.selector)) r.atRules r.pseudoElement
      (SelectorTemplate.none_mem_around _ _) fun base => ?_
    rw [h, hf, SelectorTemplate.fill_around]
    rfl

/-- Text behind the base. -/
theorem of_behind
    (h : ∀ s, f s = (f []).map fun r => { r with selector := s ++ r.selector }) : IsUniform f :=
  of_around (fun _ => []) id h

/-- Text in front of the base. -/
theorem of_before
    (h : ∀ s, f s = (f []).map fun r => { r with selector := r.selector ++ s }) : IsUniform f := by
  refine of_around id (fun _ => []) fun s => ?_
  simpa using h s

end IsUniform

/-! ## Single variants -/

variable (context : SelectorContext)

/-- A variant that stands alone puts its text behind the selector. -/
theorem applyStatic_behind (root s : Text) : applyStatic context root s
    = (applyStatic context root []).map fun r => { r with selector := s ++ r.selector } := by
  unfold applyStatic
  split <;> simp [Except.map]

/-- A variant with a value puts its text behind the selector. -/
theorem applyFunctional_behind (root : Text) (value : Value) (modifier : Option Modifier)
    (s : Text) : applyFunctional context root value modifier s
      = (applyFunctional context root value modifier []).map fun r =>
        { r with selector := s ++ r.selector } := by
  unfold applyFunctional
  dsimp only
  split
  · simp [Except.map]
  · simp [Except.map]
  · split_ifs <;> simp [Except.map]
  · split_ifs <;> simp [Except.map]
  · simp [Except.map]
  · split <;> simp [Except.map]
  · split <;> simp [Except.map]
  · split <;> simp [Except.map]
  · simp [Except.map]

/-- The selector inside a negation is found without a base, and stands behind it. -/
theorem applyVariant_not (inner : Variant) (modifier : Option Modifier) (s : Text) :
    applyVariant context (.compound "not" inner modifier) s
      = (applyVariant context (.compound "not" inner modifier) []).map fun r =>
        { r with selector := s ++ r.selector } := by
  have hnot : String.ofList ("not" : Text) = "not" := String.ofList_toList
  simp only [applyVariant, hnot]
  cases applyVariant context inner [] with
  | error e => rfl
  | ok r =>
    show (if _ then _ else _) = Except.map _ (if _ then _ else _)
    split_ifs <;> simp [Except.map]

/-- The selector of a group or a peer is found without the base, and stands before it. -/
theorem applyVariant_compound {root : Text} (hroot : root ≠ "not") (inner : Variant)
    (modifier : Option Modifier) (s : Text) :
    applyVariant context (.compound root inner modifier) s
      = (applyVariant context (.compound root inner modifier) []).map fun r =>
        { r with selector := r.selector ++ s } := by
  rw [applyVariant, applyVariant]
  split
  · cases applyVariant context inner _ <;> simp [Except.map]
  · cases applyVariant context inner _ <;> simp [Except.map]
  · rename_i hs
    refine absurd ?_ hroot
    rw [← hs, String.toList_ofList]
  · rfl

/-- A fragment in brackets is a template itself, whose places are its ampersands. -/
theorem isUniform_applyArbitrary {fragment : Text}
    (h : '&' ∈ fragment ∨ startsWith fragment ['@'] = true) :
    IsUniform fun s => .ok (applyArbitrary fragment s) := by
  simp only [applyArbitrary]
  by_cases ha : startsWith (Arbitrary.underscoresToSpaces fragment) ['@'] = true
  · refine .fills (.around [] []) [tidyAtRule (Arbitrary.underscoresToSpaces fragment)] none
      (SelectorTemplate.none_mem_around _ _) fun base => ?_
    rw [if_pos ha, SelectorTemplate.fill_around, List.append_nil]
    rfl
  · have hmem : '&' ∈ Arbitrary.underscoresToSpaces fragment := by
      rcases h with h | h
      · exact mem_underscoresToSpaces (by decide) (by decide) h
      · exact absurd (startsWith_underscoresToSpaces h) ha
    refine .fills ((Arbitrary.underscoresToSpaces fragment).map fun c =>
      if c == '&' then none else some c) [] none ?_ fun base => ?_
    · exact List.mem_map.2 ⟨'&', hmem, rfl⟩
    · rw [if_neg ha, SelectorTemplate.fill, List.flatMap_map]
      congr 3
      funext c
      by_cases hc : c = '&' <;> simp [hc]

/-- A variant looks at no part of the selector that it is applied to, and keeps it. -/
theorem isUniform_applyVariant {v : Variant} (h : v.NamesSelector) :
    IsUniform (applyVariant context v) := by
  cases v with
  | static root => exact .of_behind fun s => applyStatic_behind context root s
  | functional root value modifier =>
    exact .of_behind fun s => applyFunctional_behind context root value modifier s
  | arbitrary fragment => exact isUniform_applyArbitrary h
  | other root value modifier => exact .fails _ fun _ => rfl
  | compound root inner modifier =>
    by_cases hroot : root = "not"
    · subst hroot
      exact .of_behind fun s => applyVariant_not context inner modifier s
    · exact .of_before fun s => applyVariant_compound context hroot inner modifier s

/-! ## Stacks of variants -/

/-- A stack of variants on a template makes a template, or fails at the same variant for every
base. -/
theorem isUniform_applyAll {vs : List Variant} (h : ∀ v ∈ vs, v.NamesSelector)
    {t : SelectorTemplate} (ht : none ∈ t) (atRules : List Text) (pseudoElement : Option Text) :
    IsUniform fun base =>
      applyAll context { selector := t.fill base, atRules, pseudoElement } vs := by
  induction vs generalizing t atRules pseudoElement with
  | nil => exact .fills t atRules pseudoElement ht fun _ => rfl
  | cons v vs ih =>
    cases isUniform_applyVariant context (h v List.mem_cons_self) with
    | fails e hv =>
      refine .fails e fun base => ?_
      rw [applyAll, hv]
      rfl
    | fills t' atRules' pseudoElement' ht' hv =>
      have hnext := ih (fun w hw => h w (List.mem_cons_of_mem _ hw))
        (SelectorTemplate.none_mem_subst ht' ht) (atRules ++ atRules')
        (pseudoElement'.or pseudoElement)
      have hstep (base : Text) :
          applyAll context { selector := t.fill base, atRules, pseudoElement } (v :: vs)
            = applyAll context { selector := (t'.subst t).fill base, atRules := atRules ++ atRules'
                                 pseudoElement := pseudoElement'.or pseudoElement } vs := by
        rw [applyAll, hv, SelectorTemplate.fill_subst]
        rfl
      simp only [hstep]
      exact hnext

/-- A resolved selector with what came of applying variants to it: their at-rules stand inside. -/
def Resolved.extend (r s : Resolved) : Resolved where
  selector := s.selector
  atRules := r.atRules ++ s.atRules
  pseudoElement := s.pseudoElement.or r.pseudoElement

/-- Of what was made so far, variants see the selector and nothing else. -/
theorem applyAll_eq (r : Resolved) (vs : List Variant) :
    applyAll context r vs = (applyVariants context r.selector vs).map r.extend := by
  induction vs generalizing r with
  | nil => simp [applyVariants, applyAll, Except.map, Resolved.extend]
  | cons v vs ih =>
    rw [applyVariants, applyAll, applyAll]
    cases applyVariant context v r.selector with
    | error e => rfl
    | ok next =>
      show applyAll context (r.extend next) vs
        = (applyAll context (Resolved.extend { selector := r.selector } next) vs).map r.extend
      rw [ih, ih (Resolved.extend { selector := r.selector } next)]
      cases hrest : applyVariants context next.selector vs with
      | error e => simp [Resolved.extend, hrest, Except.map]
      | ok s => simp [Resolved.extend, hrest, Except.map, Option.or_assoc]

theorem applyAll_append (r : Resolved) (vs ws : List Variant) :
    applyAll context r (vs ++ ws) = applyAll context r vs >>= fun s => applyAll context s ws := by
  induction vs generalizing r with
  | nil => rfl
  | cons v vs ih =>
    rw [List.cons_append, applyAll, applyAll]
    cases applyVariant context v r.selector with
    | error e => rfl
    | ok next => exact ih _

/-- Variants that were read treat every base selector alike: they fail for all of them with one
error, or they put each of them into the places of one template, of which there is at least one,
under at-rules and with a pseudo-element that do not depend on it.  More variants on top of them are
applied to the selector that they have made, with the at-rules of the lower ones outside. -/
theorem applyVariants_uniform (vs : List Variant)
    (h : ∀ v ∈ vs, ∃ d raw, Variant.read? d raw = some v) :
    ((∃ e, ∀ base, applyVariants context base vs = .error e) ∨
      ∃ (t : SelectorTemplate) (atRules : List Text) (pseudoElement : Option Text), none ∈ t ∧
        ∀ base, applyVariants context base vs
          = .ok { selector := t.fill base, atRules, pseudoElement }) ∧
    ∀ base ws, applyVariants context base (vs ++ ws) = do
      let r ← applyVariants context base vs
      let s ← applyVariants context r.selector ws
      return { selector := s.selector, atRules := r.atRules ++ s.atRules
               pseudoElement := s.pseudoElement.or r.pseudoElement } := by
  constructor
  · have hread : ∀ v ∈ vs, v.NamesSelector := by
      intro v hv
      obtain ⟨d, raw, hr⟩ := h v hv
      exact Variant.namesSelector_of_read? hr
    have hall := isUniform_applyAll context hread (SelectorTemplate.none_mem_around [] []) [] none
    simp only [SelectorTemplate.fill_around, List.nil_append, List.append_nil] at hall
    cases hall with
    | fails e hf => exact Or.inl ⟨e, hf⟩
    | fills t atRules pseudoElement ht hf => exact Or.inr ⟨t, atRules, pseudoElement, ht, hf⟩
  · intro base ws
    rw [applyVariants, applyAll_append]
    congr 1
    funext r
    rw [applyAll_eq]
    cases applyVariants context r.selector ws <;> rfl

/-- A group around the selector and a fragment that repeats it make a template with two places. -/
theorem applyVariants_group_repeated : ∃ t : SelectorTemplate, none ∈ t ∧
    (∀ base, applyVariants {} base [.compound "group".toList (.static "hover".toList)
        (some (.named "menu".toList)), .arbitrary "&_>_&".toList]
      = .ok { selector := t.fill base }) ∧
    t.fill ".a".toList
      = ".group\\/menu:hover .a > .group\\/menu:hover .a".toList := by
  have hread : ∀ v ∈ [Variant.compound "group".toList (.static "hover".toList)
        (some (.named "menu".toList)), .arbitrary "&_>_&".toList],
      ∃ d raw, Variant.read? d raw = some v := by
    intro v hv
    refine ⟨.builtIn, ?_⟩
    rcases List.mem_cons.1 hv with rfl | hv
    · exact ⟨"group-hover/menu".toList, by decide +kernel⟩
    · rw [List.mem_singleton.1 hv]
      exact ⟨"[&_>_&]".toList, by decide +kernel⟩
  have hrun : applyVariants {} ".a".toList [.compound "group".toList (.static "hover".toList)
      (some (.named "menu".toList)), .arbitrary "&_>_&".toList]
      = .ok { selector := ".group\\/menu:hover .a > .group\\/menu:hover .a".toList } := by
    decide +kernel
  obtain ⟨hfail | ⟨t, atRules, pseudoElement, ht, hfill⟩, -⟩ := applyVariants_uniform {} _ hread
  · obtain ⟨e, he⟩ := hfail
    rw [he] at hrun
    cases hrun
  · have hat := hfill ".a".toList
    rw [hrun] at hat
    injection hat with hat
    injection hat with hselector hatRules hpseudo
    subst hatRules hpseudo
    exact ⟨t, ht, hfill, hselector.symm⟩

end Style

end SkinCompiler
