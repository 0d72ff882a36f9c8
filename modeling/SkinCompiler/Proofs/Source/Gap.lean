import Mathlib.Data.List.TakeWhile
import SkinCompiler.Proofs.Grammar.Completeness
import SkinCompiler.Proofs.Grammar.Shift
import SkinCompiler.Source.Productions

/-!
# Gap texts

What stands between the terminals of a source: blanks and comments.  A gap that something else
follows holds the line feeds that end its line comments, so that gaps can be cut at blanks and put
together; only at the end of a source a line comment can be left open.

* `IsGapText`, `IsTailText` -- gaps between terminals and at the end of a source;
* `isGapText_of_isGap`, `IsGapText.isGap` -- what a derivation passes as a gap is such a text;
* `IsGapText.of_append_left`, `IsGapText.of_append_right` -- gaps that are cut.
-/

namespace SkinCompiler.Source

open Grammar

variable {u v w s t : Text} {n p q : Nat} {c : Char}

/-! ## Comments -/

theorem commentEnd?_append (h : commentEnd? u = some n) (v : Text) :
    commentEnd? (u ++ v) = some n := by
  induction u using commentEnd?.induct generalizing n with
  | case1 t => exact h
  | case2 c t hnot ih =>
    rw [commentEnd?] at h
    · obtain ⟨m, hm, rfl⟩ := Option.map_eq_some_iff.1 h
      rw [List.cons_append, commentEnd?, ih hm, Option.map_some]
      rintro rest rfl heq
      cases t with
      | nil => cases hm
      | cons d t =>
        obtain ⟨rfl, -⟩ := List.cons.inj heq
        exact hnot t rfl rfl
    · exact hnot
  | case3 => cases h

/-- A comment that ends does so with a slash. -/
theorem commentEnd?_eq_some (h : commentEnd? u = some n) :
    ∃ w, u = w ++ '/' :: u.drop n ∧ n = w.length + 1 ∧ commentEnd? (w ++ ['/']) = some n := by
  induction u using commentEnd?.induct generalizing n with
  | case1 t =>
    obtain rfl := Option.some.inj h
    exact ⟨['*'], rfl, rfl, rfl⟩
  | case2 c t hnot ih =>
    rw [commentEnd?] at h
    · obtain ⟨m, hm, rfl⟩ := Option.map_eq_some_iff.1 h
      obtain ⟨w, hw, rfl, hend⟩ := ih hm
      refine ⟨c :: w, ?_, rfl, ?_⟩
      · rw [List.drop_succ_cons, List.cons_append, ← hw]
      · rw [List.cons_append, commentEnd?, hend, Option.map_some]
        rintro rest rfl heq
        cases w with
        | nil => cases hend
        | cons d w =>
          obtain ⟨rfl, -⟩ := List.cons.inj heq
          exact hnot _ rfl (by rw [hw]; rfl)
    · exact hnot
  | case3 => cases h

/-! ## Gaps -/

/-- Blanks and comments; what follows on them is not in a comment. -/
inductive IsGapText : Text → Prop
  /-- Nothing at all. -/
  | nil : IsGapText []
  /-- A blank. -/
  | blank {c : Char} {u : Text} (blank : isGapChar c = true) (rest : IsGapText u) :
    IsGapText (c :: u)
  /-- A comment up to the end of its line. -/
  | line {w u : Text} (inside : '\n' ∉ w) (rest : IsGapText u) :
    IsGapText ('/' :: '/' :: (w ++ '\n' :: u))
  /-- A comment up to its end mark. -/
  | block {w u : Text} (inside : commentEnd? w = some w.length) (rest : IsGapText u) :
    IsGapText ('/' :: '*' :: (w ++ u))

/-- A gap at the end of a source, where a comment up to the end of the line needs no line feed. -/
def IsTailText (t : Text) : Prop :=
  ∃ u w, t = u ++ w ∧ IsGapText u ∧ (w = [] ∨ ∃ w', w = '/' :: '/' :: w' ∧ '\n' ∉ w')

theorem IsGapText.append (h : IsGapText u) (h' : IsGapText v) : IsGapText (u ++ v) := by
  induction h with
  | nil => exact h'
  | blank blank _ ih => exact .blank blank ih
  | line inside _ ih =>
    rw [List.cons_append, List.cons_append, List.append_assoc, List.cons_append]
    exact .line inside ih
  | block inside _ ih =>
    rw [List.cons_append, List.cons_append, List.append_assoc]
    exact .block inside ih

theorem IsGapText.of_blanks (h : ∀ c ∈ u, isGapChar c = true) : IsGapText u := by
  induction u with
  | nil => exact .nil
  | cons c u ih =>
    exact .blank (h c List.mem_cons_self) (ih fun d hd => h d (List.mem_cons_of_mem _ hd))

theorem IsGapText.append_tail (h : IsGapText u) (h' : IsTailText t) : IsTailText (u ++ t) := by
  obtain ⟨v, w, rfl, hv, hw⟩ := h'
  exact ⟨u ++ v, w, (List.append_assoc _ _ _).symm, h.append hv, hw⟩

theorem IsGapText.of_cons (h : IsGapText (c :: u)) (hc : c ≠ '/') :
    isGapChar c = true ∧ IsGapText u := by
  cases h with
  | blank blank rest => exact ⟨blank, rest⟩
  | line _ _ => exact absurd rfl hc
  | block _ _ => exact absurd rfl hc

theorem append_eq_cons_cons {a b : Char} (h : u ++ v = a :: b :: t) :
    u = [] ∨ (u = [a] ∧ v = b :: t) ∨ ∃ u', u = a :: b :: u' ∧ u' ++ v = t := by
  cases u with
  | nil => exact Or.inl rfl
  | cons x u =>
    obtain ⟨rfl, hrest⟩ := List.cons.inj h
    cases u with
    | nil => exact Or.inr (Or.inl ⟨rfl, hrest⟩)
    | cons y u =>
      obtain ⟨rfl, hrest'⟩ := List.cons.inj hrest
      exact Or.inr (Or.inr ⟨u, rfl, hrest'⟩)

/-- The beginning of a gap is a gap, if it does not end inside a comment. -/
theorem IsGapText.of_append_left (h : IsGapText (u ++ v)) (hslash : '/' ∉ v) (hline : '\n' ∉ v) :
    IsGapText u := by
  generalize ht : u ++ v = t at h
  induction h generalizing u with
  | nil =>
    obtain ⟨rfl, -⟩ := List.append_eq_nil_iff.1 ht
    exact .nil
  | blank blank rest ih =>
    cases u with
    | nil => exact .nil
    | cons d u =>
      obtain ⟨rfl, hrest⟩ := List.cons.inj ht
      exact .blank blank (ih hrest)
  | @line w rest inside _ ih =>
    rcases append_eq_cons_cons ht with rfl | ⟨-, rfl⟩ | ⟨u, rfl, hu⟩
    · exact .nil
    · exact absurd List.mem_cons_self hslash
    · rcases List.append_eq_append_iff.1 hu with ⟨x, rfl, rfl⟩ | ⟨x, rfl, hx⟩
      · exact absurd (List.mem_append_right _ List.mem_cons_self) hline
      · cases x with
        | nil =>
          rw [List.nil_append] at hx
          rw [← hx] at hline
          exact absurd List.mem_cons_self hline
        | cons d x =>
          obtain ⟨rfl, rfl⟩ := List.cons.inj hx
          exact .line inside (ih rfl)
  | @block w rest inside _ ih =>
    obtain ⟨w', hw', -⟩ := commentEnd?_eq_some inside
    rw [List.drop_length] at hw'
    rcases append_eq_cons_cons ht with rfl | ⟨-, rfl⟩ | ⟨u, rfl, hu⟩
    · exact .nil
    · rw [hw'] at hslash
      simp at hslash
    · rcases List.append_eq_append_iff.1 hu with ⟨x, hw, rfl⟩ | ⟨x, rfl, hx⟩
      · -- the end mark of the comment would be cut
        rcases List.eq_nil_or_concat x with rfl | ⟨x, d, rfl⟩
        · rw [List.append_nil] at hw
          subst hw
          have hend := IsGapText.block inside .nil
          rwa [List.append_nil] at hend
        · rw [hw', List.concat_eq_append, ← List.append_assoc] at hw
          obtain ⟨-, hlast⟩ := List.append_inj' hw rfl
          obtain ⟨rfl, -⟩ := List.cons.inj hlast
          simp at hslash
      · exact .block inside (ih hx.symm)

/-- The end of a gap is a gap, if only blanks are before it. -/
theorem IsGapText.of_append_right (h : IsGapText (v ++ w)) (hslash : '/' ∉ v) :
    (∀ c ∈ v, isGapChar c = true) ∧ IsGapText w := by
  induction v with
  | nil => exact ⟨fun c hc => absurd hc List.not_mem_nil, h⟩
  | cons c v ih =>
    rw [List.mem_cons, not_or] at hslash
    obtain ⟨hc, hrest⟩ := h.of_cons (Ne.symm hslash.1)
    obtain ⟨hv, hw⟩ := ih hrest hslash.2
    refine ⟨?_, hw⟩
    rintro d (_ | ⟨_, hd⟩)
    · exact hc
    · exact hv d hd

theorem takeWhile_line {w : Text} (hw : '\n' ∉ w) (hs : s.head? ∈ [none, some '\n']) :
    (w ++ s).takeWhile (· != '\n') = w := by
  have hnone : s.takeWhile (· != '\n') = [] := by
    cases s with
    | nil => rfl
    | cons d s =>
      obtain rfl : d = '\n' := by simpa using hs
      rfl
  rw [List.takeWhile_append_of_pos, hnone, List.append_nil]
  intro d hd
  simpa using ne_of_mem_of_not_mem hd hw

/-- What follows on a gap inside of a gap is one. -/
theorem IsGapText.of_append (h : IsGapText u) (h' : IsGapText (u ++ v)) : IsGapText v := by
  induction h with
  | nil => exact h'
  | @blank c u blank _ ih =>
    refine ih (h'.of_cons ?_).2
    rintro rfl
    cases blank
  | @line w u inside _ ih =>
    generalize ht : '/' :: '/' :: (w ++ '\n' :: u) ++ v = t at h'
    cases h' with
    | nil => cases ht
    | blank blank _ =>
      obtain ⟨rfl, -⟩ := List.cons.inj ht
      cases blank
    | @line w' u' inside' rest =>
      simp only [List.cons_append, List.append_assoc, List.cons.injEq, true_and] at ht
      -- the first line feed ends either comment
      have hw : w = w' := by
        rw [← takeWhile_line inside (s := '\n' :: (u ++ v)) (by simp), ht,
          takeWhile_line inside' (by simp)]
      subst hw
      obtain ⟨-, rfl⟩ := List.cons.inj (List.append_cancel_left ht)
      exact ih rest
    | block _ _ => simp at ht
  | @block w u inside _ ih =>
    generalize ht : '/' :: '*' :: (w ++ u) ++ v = t at h'
    cases h' with
    | nil => cases ht
    | blank blank _ =>
      obtain ⟨rfl, -⟩ := List.cons.inj ht
      cases blank
    | line _ _ => simp at ht
    | @block w' u' inside' rest =>
      simp only [List.cons_append, List.append_assoc, List.cons.injEq, true_and] at ht
      have hend := commentEnd?_append inside (u ++ v)
      rw [ht, commentEnd?_append inside' u'] at hend
      obtain ⟨rfl, rfl⟩ := List.append_inj ht (Option.some.inj hend).symm
      exact ih rest

theorem IsTailText.of_append_right (h : IsTailText (v ++ w)) (hslash : '/' ∉ v) :
    (∀ c ∈ v, isGapChar c = true) ∧ IsTailText w := by
  obtain ⟨u, x, ht, hu, hx⟩ := h
  rcases List.append_eq_append_iff.1 ht with ⟨y, rfl, rfl⟩ | ⟨y, rfl, hy⟩
  · obtain ⟨hv, hy⟩ := hu.of_append_right hslash
    exact ⟨hv, y, x, rfl, hy, hx⟩
  · -- then nothing of the open comment is in the first part
    obtain rfl : y = [] := by
      rcases hx with rfl | ⟨x', rfl, -⟩
      · exact (List.append_eq_nil_iff.1 hy.symm).1
      · cases y with
        | nil => rfl
        | cons c y =>
          obtain ⟨rfl, -⟩ := List.cons.inj hy
          exact absurd (List.mem_append_right _ List.mem_cons_self) hslash
    rw [List.append_nil] at hslash ⊢
    rw [List.nil_append] at hy
    rw [← List.append_nil u] at hu
    exact ⟨(hu.of_append_right hslash).1, [], x, hy.symm, .nil, hx⟩

/-! ## Gaps that derivations pass -/

theorem mem_gaps {gap : Text → Option Nat} : gap ∈ grammar.gaps ↔
    gap = blanks? ∨ gap = lineComment? ∨ gap = blockComment? := by
  simp [grammar, Grammar.ofProductions, gaps]

/-- What a single gap covers. -/
theorem gap_cases {gap : Text → Option Nat} (hgap : gap ∈ grammar.gaps) (h : gap t = some n) :
    (∃ u rest, t = u ++ rest ∧ u.length = n ∧ ∀ c ∈ u, isGapChar c = true) ∨
      (∃ w rest, t = '/' :: '/' :: (w ++ rest) ∧ w.length + 2 = n ∧ '\n' ∉ w ∧
        rest.head? ∈ [none, some '\n']) ∨
      ∃ w rest, t = '/' :: '*' :: (w ++ rest) ∧ w.length + 2 = n ∧
        commentEnd? w = some w.length := by
  rcases mem_gaps.1 hgap with rfl | rfl | rfl
  · left
    unfold blanks? at h
    split at h
    · rename_i c t
      split at h
      · rename_i hc
        obtain rfl := Option.some.inj h
        refine ⟨c :: t.takeWhile isGapChar, t.dropWhile isGapChar, ?_, ?_, ?_⟩
        · rw [List.cons_append, List.takeWhile_append_dropWhile]
        · rw [List.length_cons, Nat.add_comm]
        · rintro d (_ | ⟨_, hd⟩)
          · exact hc
          · exact List.mem_takeWhile_imp hd
      · cases h
    · cases h
  · right
    left
    unfold lineComment? at h
    split at h
    · rename_i t
      obtain rfl := Option.some.inj h
      refine ⟨t.takeWhile (· != '\n'), t.dropWhile (· != '\n'), ?_, Nat.add_comm _ _, ?_, ?_⟩
      · rw [List.takeWhile_append_dropWhile]
      · intro hmem
        simpa using List.mem_takeWhile_imp hmem
      · cases hrest : t.dropWhile (· != '\n') with
        | nil => simp
        | cons c rest =>
          have hc := List.head?_dropWhile_not (· != '\n') t
          rw [hrest] at hc
          simpa using hc
    · cases h
  · right
    right
    unfold blockComment? at h
    split at h
    · rename_i t
      obtain ⟨m, hm, rfl⟩ := Option.map_eq_some_iff.1 h
      obtain ⟨w, hw, rfl, hend⟩ := commentEnd?_eq_some hm
      refine ⟨w ++ ['/'], t.drop (w.length + 1), ?_, ?_, ?_⟩
      · rw [List.append_assoc]
        exact congrArg _ (congrArg _ hw)
      · simp
      · simpa using hend
    · cases h

/-- A gap in front of `s`: it is closed if something else follows, and may be open at the end of a
text. -/
def IsGapBefore (s u : Text) : Prop :=
  (∀ c rest, s = c :: rest → isGapChar c = false → IsGapText u) ∧ (s = [] → IsTailText u)

theorem isGapBefore_nil (s : Text) : IsGapBefore s [] :=
  ⟨fun _ _ _ _ => .nil, fun _ => ⟨[], [], rfl, .nil, Or.inl rfl⟩⟩

theorem IsGapText.isGapBefore (hu : IsGapText u) (h : IsGapBefore s v) : IsGapBefore s (u ++ v) :=
  ⟨fun c rest hs hc => hu.append (h.1 c rest hs hc), fun hs => hu.append_tail (h.2 hs)⟩

/-- A line comment in front of a gap, up to the end of its line. -/
theorem isGapBefore_line (hw : '\n' ∉ w) (hhead : (v ++ s).head? ∈ [none, some '\n'])
    (h : IsGapBefore s v) : IsGapBefore s ('/' :: '/' :: w ++ v) := by
  cases v with
  | nil =>
    rw [List.append_nil]
    refine ⟨?_, fun _ => ⟨[], _, rfl, .nil, Or.inr ⟨w, rfl, hw⟩⟩⟩
    rintro c rest rfl hc
    obtain rfl : c = '\n' := by simpa using hhead
    cases hc
  | cons d v =>
    obtain rfl : d = '\n' := by simpa using hhead
    constructor
    · intro c rest hs hc
      exact .line hw ((h.1 c rest hs hc).of_cons (by decide)).2
    · intro hs
      have hopen := (IsTailText.of_append_right (v := ['\n']) (h.2 hs) (by decide)).2
      have hcomment := (IsGapText.line hw .nil).append_tail hopen
      simpa using hcomment

/-- What gaps cover up to something else is closed, and at the end of a text it may be open. -/
theorem isGapText_of_gapCovers (fuel : Nat) (h : gapCovers grammar fuel (u ++ s) u.length = true) :
    IsGapBefore s u := by
  induction fuel generalizing u with
  | zero =>
    cases u with
    | nil => exact isGapBefore_nil s
    | cons c u => cases h
  | succ fuel ih =>
    cases hu : u.length with
    | zero =>
      obtain rfl := List.eq_nil_of_length_eq_zero hu
      exact isGapBefore_nil s
    | succ length =>
      rw [hu] at h
      unfold gapCovers at h
      obtain ⟨gap, hgap, hcovers⟩ := List.any_eq_true.1 h
      split at hcovers
      · rename_i n hn
        simp only [Bool.and_eq_true, decide_eq_true_eq] at hcovers
        obtain ⟨hle, hrest⟩ := hcovers
        -- what is left of the gap behind the first piece of it
        have hsplit : u = u.take (n + 1) ++ u.drop (n + 1) := (List.take_append_drop _ _).symm
        have hlength : (u.take (n + 1)).length = n + 1 := by
          rw [List.length_take]
          omega
        generalize hx : u.take (n + 1) = x at hsplit hlength
        generalize hy : u.drop (n + 1) = y at hsplit
        subst hsplit
        rw [List.append_assoc, List.drop_left' hlength] at hrest
        rw [List.append_assoc] at hn
        have hrestLength : length + 1 - (n + 1) = y.length := by
          rw [List.length_append] at hu
          omega
        rw [hrestLength] at hrest
        have hbefore := ih hrest
        rcases gap_cases hgap hn with ⟨v, rest, heq, hv, hblank⟩ |
          ⟨w, rest, heq, hw, hline, hhead⟩ | ⟨w, rest, heq, hw, hend⟩
        · obtain ⟨rfl, rfl⟩ := List.append_inj heq (hlength.trans hv.symm)
          exact (IsGapText.of_blanks hblank).isGapBefore hbefore
        · rw [← List.cons_append, ← List.cons_append] at heq
          obtain ⟨rfl, rfl⟩ := List.append_inj heq (by simp; omega)
          exact isGapBefore_line hline hhead hbefore
        · rw [← List.cons_append, ← List.cons_append] at heq
          obtain ⟨rfl, rfl⟩ := List.append_inj heq (by simp; omega)
          have hgapText : IsGapText ('/' :: '*' :: w) := by
            simpa using IsGapText.block hend .nil
          exact hgapText.isGapBefore hbefore
      · cases hcovers

/-- A piece of a gap in front of others. -/
theorem isGap_of_piece {g : Text → Option Nat} {x y : Text} (hgap : g ∈ grammar.gaps)
    (hx : g (x ++ (y ++ s)) = some x.length) (hpos : 0 < x.length)
    (hy : grammar.IsGap (y ++ s) 0 y.length) : grammar.IsGap (x ++ y ++ s) 0 (x ++ y).length := by
  rw [List.append_assoc, List.length_append]
  refine .cons hgap (n := x.length) hx hpos ?_
  rw [Nat.zero_add]
  have hshift := hy.shift x
  rwa [Nat.add_zero] at hshift

theorem blanks?_append {x : Text} (hx : ∀ c ∈ x, isGapChar c = true) (hne : x ≠ [])
    (hs : ∀ c, s.head? = some c → isGapChar c = false) : blanks? (x ++ s) = some x.length := by
  cases x with
  | nil => exact absurd rfl hne
  | cons c x =>
    have hnone : s.takeWhile isGapChar = [] := by
      cases s with
      | nil => rfl
      | cons d s => rw [List.takeWhile_cons_of_neg (by simp [hs d rfl])]
    have hwhile : (x ++ s).takeWhile isGapChar = x := by
      rw [List.takeWhile_append_of_pos fun d hd => hx d (List.mem_cons_of_mem _ hd), hnone,
        List.append_nil]
    rw [List.cons_append, blanks?, if_pos (hx c List.mem_cons_self), hwhile, List.length_cons,
      Nat.add_comm]

theorem lineComment?_append {w : Text} (hw : '\n' ∉ w) (hs : s.head? ∈ [none, some '\n']) :
    lineComment? ('/' :: '/' :: (w ++ s)) = some (w.length + 2) := by
  rw [lineComment?, takeWhile_line hw hs, Nat.add_comm]

/-- A gap text in front of something else is passed as a gap. -/
theorem IsGapText.isGap (h : IsGapText u) (hs : ∀ c, s.head? = some c → isGapChar c = false) :
    grammar.IsGap (u ++ s) 0 u.length := by
  obtain ⟨n, hn⟩ : ∃ n, u.length = n := ⟨_, rfl⟩
  induction n using Nat.strong_induction_on generalizing u with
  | _ n ih =>
    cases h with
    | nil => exact .refl 0
    | @blank c rest hc hrest =>
      -- all blanks at the front are one gap
      generalize hu : c :: rest = u at hn
      have h : IsGapText u := hu ▸ .blank hc hrest
      have hsplit : u.takeWhile isGapChar ++ u.dropWhile isGapChar = u :=
        List.takeWhile_append_dropWhile
      have hne : u.takeWhile isGapChar ≠ [] := by
        rw [← hu, List.takeWhile_cons_of_pos hc]
        exact List.cons_ne_nil _ _
      have hblank : ∀ d ∈ u.takeWhile isGapChar, isGapChar d = true := fun d hd =>
        List.mem_takeWhile_imp hd
      have hstop : ∀ d, (u.dropWhile isGapChar).head? = some d → isGapChar d = false := by
        intro d hd
        have hnot := List.head?_dropWhile_not isGapChar u
        rw [hd] at hnot
        simpa using hnot
      generalize u.takeWhile isGapChar = x at *
      generalize u.dropWhile isGapChar = y at *
      subst hsplit
      have hslash : '/' ∉ x := fun hmem => absurd (hblank _ hmem) (by decide)
      have hpos := List.length_pos_iff.2 hne
      have hy := (h.of_append_right hslash).2
      rw [List.length_append] at hn
      refine isGap_of_piece (g := blanks?) (mem_gaps.2 (Or.inl rfl)) ?_ hpos (ih _ (by omega) hy rfl)
      refine blanks?_append hblank hne ?_
      cases y with
      | nil => simpa using hs
      | cons d y => simpa using hstop
    | @line w rest hw hrest =>
      have hpiece := isGap_of_piece (x := '/' :: '/' :: w) (g := lineComment?)
        (y := '\n' :: rest) (s := s) ?_ ?_ (by simp) ?_
      · simpa using hpiece
      · exact mem_gaps.2 (Or.inr (Or.inl rfl))
      · exact lineComment?_append hw (by simp)
      · refine ih _ ?_ (.blank (by decide) hrest) rfl
        simp at hn ⊢
        omega
    | @block w rest hw hrest =>
      have hpiece := isGap_of_piece (x := '/' :: '*' :: w) (g := blockComment?)
        (y := rest) (s := s) ?_ ?_ (by simp) ?_
      · simpa using hpiece
      · exact mem_gaps.2 (Or.inr (Or.inr rfl))
      · show blockComment? ('/' :: '*' :: (w ++ (rest ++ s))) = _
        rw [blockComment?, commentEnd?_append hw]
        rfl
      · refine ih _ ?_ hrest rfl
        simp at hn
        omega

/-- A gap at the end of a source is passed as a gap. -/
theorem IsTailText.isGap (h : IsTailText t) : grammar.IsGap t 0 t.length := by
  obtain ⟨u, w, rfl, hu, rfl | ⟨w', rfl, hline⟩⟩ := h
  · have hgap := hu.isGap (s := []) (by simp)
    rwa [List.append_nil] at hgap ⊢
  · have hgap := hu.isGap (s := '/' :: '/' :: w') (by
      intro c hc
      obtain rfl : '/' = c := by simpa using hc
      decide)
    refine hgap.trans ?_
    have hcomment : grammar.IsGap ('/' :: '/' :: w') 0 ('/' :: '/' :: w').length := by
      have hpiece := isGap_of_piece (x := '/' :: '/' :: w') (g := lineComment?) (y := [])
        (s := []) ?_ ?_ (by simp) (.refl 0)
      · simpa using hpiece
      · exact mem_gaps.2 (Or.inr (Or.inl rfl))
      · exact lineComment?_append hline (by simp)
    have hshift := hcomment.shift u
    rwa [Nat.add_zero, ← List.length_append] at hshift

/-- What is passed as a gap is a gap text, if something else follows on it. -/
theorem isGapText_of_isGap (h : grammar.IsGap t p q) (hc : t[q]? = some c)
    (hblank : isGapChar c = false) : IsGapText (Text.slice t p q) := by
  obtain ⟨hq, rfl⟩ := List.getElem?_eq_some_iff.1 hc
  have hle := h.le
  have hlength : (Text.slice t p q).length = q - p := by
    rw [Text.slice, List.length_take, List.length_drop]
    omega
  have hdrop : t.drop p = Text.slice t p q ++ t.drop q := by
    have hsplit := List.take_append_drop (q - p) (t.drop p)
    rw [List.drop_drop, Nat.add_sub_cancel' hle] at hsplit
    exact hsplit.symm
  have hcovers := h.covers
  rw [hdrop, ← hlength] at hcovers
  refine (isGapText_of_gapCovers _ hcovers).1 t[q] (t.drop (q + 1)) ?_ hblank
  rw [List.drop_eq_getElem_cons hq]

theorem isTailText_of_isGap (h : grammar.IsGap t p t.length) : IsTailText (t.drop p) := by
  have hcovers := h.covers
  rw [← List.length_drop] at hcovers
  refine (isGapText_of_gapCovers (s := []) (t.drop p).length ?_).2 rfl
  rwa [List.append_nil]

end SkinCompiler.Source
