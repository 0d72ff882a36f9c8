import Mathlib.Data.List.TakeDrop
import Mathlib.Tactic.Common
import SkinCompiler.Text.Line

/-!
# Cutting and joining texts

What the searching and cutting operations find, as equations between texts.
-/

namespace SkinCompiler.Text

variable {a b t lead : Text} {c : Char}

/-! ## Searching -/

theorem after?_eq_some_iff : after? lead t = some b ↔ t = lead ++ b := by
  induction lead generalizing t with
  | nil => simp [after?, eq_comm]
  | cons x lead ih =>
    cases t with
    | nil => simp [after?]
    | cons y t =>
      by_cases h : x = y
      · subst h
        simp [after?, ih]
      · simp [after?, h, Ne.symm h]

theorem startsWith_iff : startsWith t lead = true ↔ ∃ b, t = lead ++ b := by
  simp [startsWith, Option.isSome_iff_exists, after?_eq_some_iff]

@[simp] theorem startsWith_append (lead b : Text) : startsWith (lead ++ b) lead = true :=
  startsWith_iff.2 ⟨b, rfl⟩

theorem startsWith_singleton : startsWith t [c] = true ↔ t.head? = some c := by
  cases t <;> simp [startsWith_iff]

theorem endsWith_iff {tail : Text} : endsWith t tail = true ↔ ∃ a, t = a ++ tail := by
  rw [endsWith, startsWith_iff]
  constructor
  · rintro ⟨b, hb⟩
    exact ⟨b.reverse, by rw [← List.reverse_reverse t, hb]; simp⟩
  · rintro ⟨a, rfl⟩
    exact ⟨a.reverse, by simp⟩

theorem getLast?_append_of (h : b.getLast? = some c) : (a ++ b).getLast? = some c := by
  rw [List.getLast?_append, h, Option.some_or]

/-- A text is taken as far as its characters satisfy `p`. -/
theorem span_eq_iff {p : Char → Bool} : t.span p = (a, b) ↔
    t = a ++ b ∧ (∀ x ∈ a, p x = true) ∧ ∀ x ∈ b.head?, p x = false := by
  rw [List.span_eq_takeWhile_dropWhile, Prod.mk.injEq]
  constructor
  · rintro ⟨rfl, rfl⟩
    refine ⟨(List.takeWhile_append_dropWhile).symm, fun x hx => ?_, fun x hx => ?_⟩
    · exact List.all_eq_true.1 List.all_takeWhile x hx
    · have := List.head?_dropWhile_not p t
      rw [Option.mem_def] at hx
      rw [hx] at this
      simpa using this
  · rintro ⟨rfl, ha, hb⟩
    rw [List.takeWhile_append_of_pos ha, List.dropWhile_append_of_pos ha]
    cases b with
    | nil => simp
    | cons x b => simp [hb x rfl]

/-- Two characters found in the same text are found at the same place, or one before the other. -/
theorem append_cons_cases {x y : Char} {a' b' : Text} (h : a ++ x :: b = a' ++ y :: b') :
    (a = a' ∧ x = y ∧ b = b') ∨ (∃ m, a' = a ++ x :: m ∧ b = m ++ y :: b') ∨
      ∃ m, a = a' ++ y :: m ∧ b' = m ++ x :: b := by
  rcases List.append_eq_append_iff.1 h with ⟨m, ha, hb⟩ | ⟨m, ha, hb⟩ <;> cases m with
  | nil =>
    simp only [List.append_nil, List.nil_append, List.cons.injEq] at ha hb
    exact Or.inl (by simp [ha, hb])
  | cons z m =>
    simp only [List.cons_append, List.cons.injEq] at ha hb
    obtain ⟨rfl, hb⟩ := hb
    first
    | exact Or.inr (Or.inl ⟨m, ha, hb⟩)
    | exact Or.inr (Or.inr ⟨m, ha, hb⟩)

/-- The first occurrence of a character is at one place only. -/
theorem append_cons_inj {a' b' : Text} (ha : c ∉ a) (ha' : c ∉ a')
    (h : a ++ c :: b = a' ++ c :: b') : a = a' ∧ b = b' := by
  rcases append_cons_cases h with ⟨h₁, -, h₂⟩ | ⟨m, rfl, -⟩ | ⟨m, rfl, -⟩
  · exact ⟨h₁, h₂⟩
  · exact absurd (by simp) ha'
  · exact absurd (by simp) ha

/-! ## Pieces -/

theorem cutWhere_ne_nil (p : Char → Bool) (t : Text) : cutWhere p t ≠ [] := by
  cases t with
  | nil => simp [cutWhere]
  | cons c t =>
    rw [cutWhere]
    repeat' split
    all_goals simp

theorem cutWhere_of_none {p : Char → Bool} (h : ∀ c ∈ t, p c = false) : cutWhere p t = [t] := by
  induction t with
  | nil => rfl
  | cons c t ih =>
    rw [cutWhere, ih fun x hx => h x (List.mem_cons_of_mem _ hx), h c List.mem_cons_self]
    rfl

/-- No piece holds a character at which the text is cut. -/
theorem of_mem_cutWhere {p : Char → Bool} {piece : Text} (h : piece ∈ cutWhere p t) :
    ∀ x ∈ piece, p x = false := by
  induction t generalizing piece with
  | nil =>
    obtain rfl := List.mem_singleton.1 h
    simp
  | cons x t ih =>
    obtain ⟨first, pieces, hcut⟩ := List.exists_cons_of_ne_nil (cutWhere_ne_nil p t)
    rw [cutWhere, hcut] at h
    rw [hcut] at ih
    split at h
    · rcases List.mem_cons.1 h with rfl | h
      · simp
      · exact ih h
    · rename_i hx
      rcases List.mem_cons.1 h with rfl | h
      · intro y hy
        rcases List.mem_cons.1 hy with rfl | hy
        · simpa using hx
        · exact ih List.mem_cons_self y hy
      · exact ih (List.mem_cons_of_mem _ h)

/-- A character at the end of a text goes to the end of the last piece. -/
theorem cutWhere_concat {p : Char → Bool} (h : p c = false) (t : Text) :
    ∃ pieces last, cutWhere p (t ++ [c]) = pieces ++ [last ++ [c]] := by
  induction t with
  | nil => exact ⟨[], [], by simp [cutWhere, h]⟩
  | cons x t ih =>
    obtain ⟨pieces, last, hcut⟩ := ih
    rw [List.cons_append, cutWhere, hcut]
    split
    · exact ⟨[] :: pieces, last, rfl⟩
    · cases pieces with
      | nil => exact ⟨[], x :: last, rfl⟩
      | cons piece pieces => exact ⟨(x :: piece) :: pieces, last, rfl⟩

theorem cut_ne_nil (c : Char) (t : Text) : cut c t ≠ [] := cutWhere_ne_nil (· == c) t

theorem cut_cons_self (c : Char) (t : Text) : cut c (c :: t) = [] :: cut c t := by
  simp [cut, cutWhere]

/-- Any other character goes to the front of the first piece. -/
theorem cut_cons_of_ne {x : Char} (h : x ≠ c) : ∃ piece pieces,
    cut c t = piece :: pieces ∧ cut c (x :: t) = (x :: piece) :: pieces := by
  obtain ⟨piece, pieces, hp⟩ := List.exists_cons_of_ne_nil (cut_ne_nil c t)
  refine ⟨piece, pieces, hp, ?_⟩
  rw [cut] at hp ⊢
  simp [cutWhere, h, hp]

theorem cutAtFrom_singleton (c : Char) (t : Text) : cutAtFrom [c] 0 t = cut c t := by
  induction t with
  | nil => rfl
  | cons x t ih =>
    have hx : startsWith (x :: t) [c] = (x == c) := by
      by_cases h : x = c
      · subst h
        simp [startsWith, after?]
      · simp [startsWith, after?, h, Ne.symm h]
    rw [cut] at ih ⊢
    simp only [cutAtFrom, cutWhere, hx, List.length_singleton, Nat.sub_self, ih]

theorem join_cons_of_ne_nil {sep piece : Text} {pieces : List Text} (h : pieces ≠ []) :
    join sep (piece :: pieces) = piece ++ sep ++ join sep pieces := by
  obtain ⟨next, rest, rfl⟩ := List.exists_cons_of_ne_nil h
  rfl

theorem join_append {sep : Text} {ps qs : List Text} (hp : ps ≠ []) (hq : qs ≠ []) :
    join sep (ps ++ qs) = join sep ps ++ sep ++ join sep qs := by
  induction ps with
  | nil => exact absurd rfl hp
  | cons p ps ih =>
    rcases eq_or_ne ps [] with rfl | hne
    · exact join_cons_of_ne_nil hq
    · rw [List.cons_append, join_cons_of_ne_nil (by simp [hne]), ih hne, join_cons_of_ne_nil hne]
      simp only [List.append_assoc]

theorem getLast?_join (sep : Text) {last : Text} (ps : List Text) (h : last ≠ []) :
    (join sep (ps ++ [last])).getLast? = last.getLast? := by
  rcases eq_or_ne ps [] with rfl | hps
  · rfl
  · have hlast := List.getLast?_eq_some_getLast h
    rw [join_append hps (List.cons_ne_nil _ _), join, getLast?_append_of hlast, hlast]

theorem join_newline (first last : Text) (lines : List Text) :
    join "\n" (first :: lines ++ [last]) = first ++ lines.flatMap ('\n' :: ·) ++ '\n' :: last := by
  induction lines generalizing first with
  | nil => simp [join]
  | cons line lines ih =>
    rw [List.cons_append, List.cons_append, join, ← List.cons_append, ih]
    simp

theorem join_cut (c : Char) (t : Text) : join [c] (cut c t) = t := by
  induction t with
  | nil => rfl
  | cons x t ih =>
    by_cases h : x = c
    · subst h
      rw [cut_cons_self, join_cons_of_ne_nil (cut_ne_nil x t), ih]
      rfl
    · obtain ⟨piece, pieces, hp, hc⟩ := cut_cons_of_ne (t := t) h
      rw [hp] at ih
      rw [hc]
      cases pieces with
      | nil => simpa [join] using ih
      | cons next rest =>
        rw [join] at ih ⊢
        rw [← ih]
        simp

/-- Text before a separator that does not hold it is the first piece. -/
theorem cut_append_cons (h : c ∉ a) : cut c (a ++ c :: b) = a :: cut c b := by
  induction a with
  | nil => exact cut_cons_self c b
  | cons x a ih =>
    simp only [List.mem_cons, not_or] at h
    obtain ⟨piece, pieces, hp, hc⟩ := cut_cons_of_ne (t := a ++ c :: b) (Ne.symm h.1)
    rw [ih h.2, List.cons.injEq] at hp
    rw [List.cons_append, hc, ← hp.1, ← hp.2]

theorem not_mem_of_cut_eq_cons {piece : Text} {pieces : List Text}
    (h : cut c t = piece :: pieces) : c ∉ piece := by
  induction t generalizing piece pieces with
  | nil =>
    simp only [cut, cutWhere, List.cons.injEq] at h
    simp [← h.1]
  | cons x t ih =>
    by_cases hx : x = c
    · subst hx
      rw [cut_cons_self, List.cons.injEq] at h
      simp [← h.1]
    · obtain ⟨piece', pieces', hp, hc⟩ := cut_cons_of_ne (t := t) hx
      rw [hc, List.cons.injEq] at h
      rw [← h.1, List.mem_cons, not_or]
      exact ⟨Ne.symm hx, ih hp⟩

/-- A character of a text is the separator or stands in a piece. -/
theorem mem_of_mem_cut {x : Char} (h : x ∈ t) : x = c ∨ ∃ piece ∈ cut c t, x ∈ piece := by
  induction t with
  | nil => cases h
  | cons y t ih =>
    by_cases hy : y = c
    · subst hy
      rw [cut_cons_self]
      rcases List.mem_cons.1 h with rfl | h
      · exact Or.inl rfl
      · refine (ih h).imp_right ?_
        rintro ⟨p, hp, hx⟩
        exact ⟨p, List.mem_cons_of_mem _ hp, hx⟩
    · obtain ⟨piece, pieces, hp, hc⟩ := cut_cons_of_ne (t := t) hy
      rw [hp] at ih
      rw [hc]
      rcases List.mem_cons.1 h with rfl | h
      · exact Or.inr ⟨x :: piece, by simp, by simp⟩
      · refine (ih h).imp_right ?_
        rintro ⟨p, hp, hx⟩
        rcases List.mem_cons.1 hp with rfl | hp
        · exact ⟨y :: p, by simp, by simp [hx]⟩
        · exact ⟨p, by simp [hp], hx⟩

theorem mem_of_mem_join {sep : Text} {pieces : List Text} (h : c ∈ join sep pieces) :
    c ∈ sep ∨ ∃ piece ∈ pieces, c ∈ piece := by
  induction pieces with
  | nil => cases h
  | cons piece pieces ih =>
    cases pieces with
    | nil => exact Or.inr ⟨piece, List.mem_cons_self, h⟩
    | cons next pieces =>
      rw [join, List.mem_append, List.mem_append] at h
      rcases h with (h | h) | h
      · exact Or.inr ⟨piece, List.mem_cons_self, h⟩
      · exact Or.inl h
      · refine (ih h).imp_right ?_
        rintro ⟨p, hp, hc⟩
        exact ⟨p, List.mem_cons_of_mem _ hp, hc⟩

theorem mem_join_of_mem {sep piece : Text} {pieces : List Text} (hp : piece ∈ pieces)
    (hc : c ∈ piece) : c ∈ join sep pieces := by
  induction pieces with
  | nil => cases hp
  | cons first pieces ih =>
    cases pieces with
    | nil =>
      rw [List.mem_singleton] at hp
      rwa [join, ← hp]
    | cons next pieces =>
      rw [join, List.mem_append, List.mem_append]
      rcases List.mem_cons.1 hp with rfl | hp
      · exact Or.inl (Or.inl hc)
      · exact Or.inr (ih hp)

/-- The halves around the first occurrence of a character. -/
theorem halves?_eq_some_iff : halves? [c] t = some (a, b) ↔ t = a ++ c :: b ∧ c ∉ a := by
  rw [halves?, cutAt, cutAtFrom_singleton]
  constructor
  · intro h
    split at h
    · rename_i first second rest hcut
      simp only [Option.some.injEq, Prod.mk.injEq] at h
      obtain ⟨rfl, rfl⟩ := h
      refine ⟨?_, not_mem_of_cut_eq_cons hcut⟩
      rw [← join_cut c t, hcut, join_cons_of_ne_nil (by simp)]
      simp
    · cases h
  · rintro ⟨rfl, ha⟩
    obtain ⟨second, rest, hb⟩ := List.exists_cons_of_ne_nil (cut_ne_nil c b)
    rw [cut_append_cons ha, hb]
    simp only [← hb, join_cut]

/-! ## Last halves -/

theorem eq_of_lastHalves? {sep : Char} (h : lastHalves? sep t = some (a, b)) :
    t = a ++ sep :: b := by
  rw [lastHalves?] at h
  split at h
  · cases h
  · rename_i last c first hspan
    cases h
    obtain ⟨htext, -, hstop⟩ := span_eq_iff.1 hspan
    have hc : c = sep := by simpa using hstop c rfl
    subst hc
    simpa using congrArg List.reverse htext

theorem lastHalves?_append {sep : Char} (h : sep ∉ b) :
    lastHalves? sep (a ++ sep :: b) = some (a, b) := by
  have hspan : (a ++ sep :: b).reverse.span (· != sep) = (b.reverse, sep :: a.reverse) := by
    refine span_eq_iff.2 ⟨by simp, fun x hx => ?_, by simp⟩
    rw [List.mem_reverse] at hx
    simpa using ne_of_mem_of_not_mem hx h
  rw [lastHalves?, hspan]
  simp

/-! ## Replacing -/

theorem join_cons_head (sep piece : Text) (pieces : List Text) {x : Char} :
    join sep ((x :: piece) :: pieces) = x :: join sep (piece :: pieces) := by
  cases pieces <;> rfl

/-- A single character is replaced wherever it stands. -/
theorem replace_singleton (c : Char) (new t : Text) :
    replace [c] new t = t.flatMap fun x => if x = c then new else [x] := by
  rw [replace, cutAt, cutAtFrom_singleton]
  induction t with
  | nil => rfl
  | cons x t ih =>
    rw [List.flatMap_cons]
    by_cases h : x = c
    · rw [h, cut_cons_self, join_cons_of_ne_nil (cut_ne_nil c t), ih, if_pos rfl]
      rfl
    · obtain ⟨piece, pieces, hp, hc⟩ := cut_cons_of_ne (t := t) h
      rw [hc, join_cons_head, ← hp, ih, if_neg h]
      rfl

theorem cutAtFrom_ne_nil (sep : Text) (n : Nat) (t : Text) : cutAtFrom sep n t ≠ [] := by
  fun_induction cutAtFrom sep n t <;> simp_all

theorem replace_cons_cons (a b : Char) (new t : Text) :
    replace [a, b] new (a :: b :: t) = new ++ replace [a, b] new t := by
  have hcut : cutAt [a, b] (a :: b :: t) = [] :: cutAt [a, b] t := by
    simp [cutAt, cutAtFrom, startsWith, after?]
  have hne : cutAt [a, b] t ≠ [] := cutAtFrom_ne_nil [a, b] 0 t
  rw [replace, hcut, join_cons_of_ne_nil hne, List.nil_append]
  rfl

theorem replace_cons {a b x : Char} {new : Text} (h : x = a → t.head? ≠ some b) :
    replace [a, b] new (x :: t) = x :: replace [a, b] new t := by
  have hstart : startsWith (x :: t) [a, b] = false := by
    rw [← Bool.not_eq_true, startsWith_iff]
    rintro ⟨t', ht⟩
    simp only [List.cons_append, List.nil_append, List.cons.injEq] at ht
    exact h ht.1 (ht.2 ▸ rfl)
  rw [replace, replace, cutAt, cutAtFrom, if_neg (by simp [hstart])]
  cases hcut : cutAtFrom [a, b] 0 t with
  | nil => exact absurd hcut (cutAtFrom_ne_nil _ _ _)
  | cons p ps =>
    rw [cutAt, hcut]
    exact join_cons_head new p ps

/-! ## The end of a line -/

/-- A text is itself without a line feed at its end, or with one. -/
theorem eq_chomp_or (t : Text) : t = chomp t ∨ t = chomp t ++ ['\n'] := by
  rw [chomp]
  split
  · rename_i before h
    right
    rw [← List.reverse_reverse t, h]
    simp
  · exact Or.inl rfl

end SkinCompiler.Text
