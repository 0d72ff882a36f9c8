import SkinCompiler.Path
import SkinCompiler.Proofs.Text.Blank

/-!
# Paths and their parts

A path that is put together from parts has these parts.  A file in the folder of a path is that path
just if it has its name.

* `parts_ofParts`, `parts_append` -- the parts of a path;
* `inside_parent`, `inside_parent_eq_iff` -- a file in the folder of a path;
* `stem_append_eq_iff`, `inside_stem_eq_iff` -- the stem of a name with its suffix;
* `getLast?_inside` -- the last character of a path in a folder.
-/

namespace SkinCompiler.Path

open Text

variable {p q s t : Text} {ps qs : List Text} {c : Char} {absolute : Bool}

/-! ## Parts -/

/-- A text that can be a part of a path. -/
structure IsPart (p : Text) : Prop where
  /-- It is not empty. -/
  ne_nil : p ≠ []
  /-- It does not stand for the folder itself. -/
  ne_point : p ≠ ['.']
  /-- There is no slash in it. -/
  slash : '/' ∉ p

theorem isPart_of_mem_parts (h : p ∈ parts t) : IsPart p := by
  obtain ⟨hmem, hkept⟩ := List.mem_filter.1 h
  have hkept' : p ≠ [] ∧ p ≠ ['.'] := by simpa using hkept
  refine ⟨hkept'.1, hkept'.2, fun hslash => ?_⟩
  have hne := of_mem_cutWhere hmem '/' hslash
  revert hne
  decide

theorem parts_append (a b : Text) : parts (a ++ '/' :: b) = parts a ++ parts b := by
  unfold parts cut
  rw [cutWhere_append_cons (by decide), List.filter_append]

/-- Parts with slashes between them are found again. -/
theorem parts_join (h : ∀ p ∈ ps, IsPart p) : parts (join "/" ps) = ps := by
  have hcut : (cut '/' (join "/" ps)).filter (!·.isEmpty) = ps := by
    refine filter_cutWhere_join (by decide) fun p hp => ⟨(h p hp).ne_nil, fun c hc => ?_⟩
    simpa using ne_of_mem_of_not_mem hc (h p hp).slash
  have hparts : parts (join "/" ps) =
      ((cut '/' (join "/" ps)).filter (!·.isEmpty)).filter (· != ['.']) := by
    rw [List.filter_filter]
    exact List.filter_congr fun p _ => Bool.and_comm _ _
  rw [hparts, hcut, List.filter_eq_self]
  intro p hp
  exact bne_iff_ne.2 (h p hp).ne_point

theorem parts_of_isPart (h : IsPart p) : parts p = [p] := by
  have hall : ∀ q ∈ [p], IsPart q := by simpa using h
  exact parts_join hall

/-- The parts that a path is put together from are its parts. -/
theorem parts_ofParts (absolute : Bool) (h : ∀ p ∈ ps, IsPart p) :
    parts (ofParts absolute ps) = ps := by
  unfold ofParts
  split
  · have hroot := parts_append [] (join "/" ps)
    rwa [parts_join h] at hroot
  · split
    · rename_i hempty
      rw [List.isEmpty_iff.1 hempty]
      decide
    · exact parts_join h

theorem isAbsolute_of_isPart (h : IsPart p) : isAbsolute p = false := by
  obtain ⟨c, t, rfl⟩ := List.exists_cons_of_ne_nil h.ne_nil
  have hc : c ≠ '/' := fun hc => h.slash (hc ▸ List.mem_cons_self)
  simpa [isAbsolute] using hc

theorem isAbsolute_append (h : p ≠ []) (t : Text) : isAbsolute (p ++ t) = isAbsolute p := by
  obtain ⟨c, p, rfl⟩ := List.exists_cons_of_ne_nil h
  rfl

theorem ofParts_ne_nil (absolute : Bool) (h : ∀ p ∈ ps, IsPart p) : ofParts absolute ps ≠ [] := by
  cases absolute with
  | true => exact List.cons_ne_nil _ _
  | false =>
    cases ps with
    | nil => exact List.cons_ne_nil _ _
    | cons p ps =>
      obtain ⟨c, t, rfl⟩ := List.exists_cons_of_ne_nil (h p List.mem_cons_self).ne_nil
      cases ps <;> exact List.cons_ne_nil _ _

theorem isAbsolute_ofParts (absolute : Bool) (h : ∀ p ∈ ps, IsPart p) :
    isAbsolute (ofParts absolute ps) = absolute := by
  cases absolute with
  | true => rfl
  | false =>
    cases ps with
    | nil => rfl
    | cons p ps =>
      have hp := h p List.mem_cons_self
      change isAbsolute (join "/" (p :: ps)) = false
      cases ps with
      | nil => exact isAbsolute_of_isPart hp
      | cons q ps =>
        rw [join_cons_of_ne_nil (List.cons_ne_nil q ps), List.append_assoc,
          isAbsolute_append hp.ne_nil, isAbsolute_of_isPart hp]

theorem ofParts_inj (hp : ∀ p ∈ ps, IsPart p) (hq : ∀ q ∈ qs, IsPart q) :
    ofParts absolute ps = ofParts absolute qs ↔ ps = qs := by
  constructor
  · intro h
    rw [← parts_ofParts absolute hp, h, parts_ofParts absolute hq]
  · rintro rfl
    rfl

theorem parts_tidy (t : Text) : parts (tidy t) = parts t :=
  parts_ofParts _ fun _ => isPart_of_mem_parts

theorem isAbsolute_tidy (t : Text) : isAbsolute (tidy t) = isAbsolute t :=
  isAbsolute_ofParts _ fun _ => isPart_of_mem_parts

@[simp] theorem tidy_tidy (t : Text) : tidy (tidy t) = tidy t := by
  rw [tidy, parts_tidy, isAbsolute_tidy]
  rfl

@[simp] theorem name_tidy (t : Text) : name (tidy t) = name t := by
  rw [name, parts_tidy, name]

@[simp] theorem stem_tidy (t : Text) : stem (tidy t) = stem t := by
  rw [stem, name_tidy, stem]

/-! ## Files in the folder of a path -/

/-- A file in the folder of a path has the parts of the path but for the last one. -/
theorem inside_parent (t : Text) (hq : IsPart q) :
    inside (parent t) q = ofParts (isAbsolute t) ((parts t).dropLast ++ [q]) := by
  have hparts : ∀ p ∈ (parts t).dropLast, IsPart p :=
    fun p hp => isPart_of_mem_parts (List.dropLast_subset _ hp)
  have hne : parent t ≠ [] := ofParts_ne_nil _ hparts
  have habsolute : isAbsolute (parent t) = isAbsolute t := isAbsolute_ofParts _ hparts
  have hfolder : (parent t).isEmpty = false := by simpa using hne
  rw [inside, isAbsolute_of_isPart hq, hfolder]
  change tidy (parent t ++ '/' :: q) = _
  rw [tidy, parts_append, isAbsolute_append hne, habsolute, parts_of_isPart hq, parent,
    parts_ofParts _ hparts]

/-- The name is the last one of the parts. -/
theorem parts_eq (ht : parts t ≠ []) : parts t = (parts t).dropLast ++ [name t] := by
  rw [name, List.getLastD_eq_getLast?, List.getLast?_eq_some_getLast ht, Option.getD_some,
    List.dropLast_concat_getLast]

theorem isPart_name (ht : parts t ≠ []) : IsPart (name t) := by
  refine isPart_of_mem_parts (t := t) ?_
  rw [parts_eq ht]
  exact List.mem_append_right _ (List.mem_singleton_self _)

/-- A file in the folder of a path is that path just if it has its name. -/
theorem inside_parent_eq_iff (ht : parts t ≠ []) (hq : IsPart q) :
    inside (parent t) q = tidy t ↔ q = name t := by
  have hparts : ∀ p ∈ (parts t).dropLast ++ [q], IsPart p := by
    intro p hp
    rcases List.mem_append.1 hp with hp | hp
    · exact isPart_of_mem_parts (List.dropLast_subset _ hp)
    · rwa [List.mem_singleton.1 hp]
  rw [inside_parent t hq, tidy, ofParts_inj hparts fun _ => isPart_of_mem_parts]
  conv_lhs => rhs; rw [parts_eq ht]
  simp

/-! ## Stems -/

/-- The characters of a stem are those of the name. -/
theorem mem_of_mem_stem (h : c ∈ stem t) : c ∈ name t := by
  unfold stem at h
  split at h
  · rename_i m u hcut
    split at h
    · exact h
    · rw [eq_of_lastHalves? hcut]
      exact List.mem_append_left _ h
  · exact h

theorem isPart_stem_append (ht : parts t ≠ []) (hs : s ≠ []) (hslash : '/' ∉ s) :
    IsPart (stem t ++ '.' :: s) := by
  refine ⟨by simp, fun hpoint => ?_, fun hmem => ?_⟩
  · have hlength := congrArg List.length hpoint
    have hpos := List.length_pos_iff.2 hs
    simp only [List.length_append, List.length_cons, List.length_nil] at hlength
    omega
  · simp only [List.mem_append, List.mem_cons, hslash, or_false] at hmem
    rcases hmem with hmem | hmem
    · exact (isPart_name ht).slash (mem_of_mem_stem hmem)
    · cases hmem

/-- The stem of a name with its suffix is the name, unless there is nothing but the suffix. -/
theorem stem_append_eq_iff (hs : s ≠ []) (hpoint : '.' ∉ s)
    (h : endsWith (name t) ('.' :: s) = true) :
    stem t ++ '.' :: s = name t ↔ name t ≠ '.' :: s := by
  obtain ⟨m, hm⟩ := endsWith_iff.1 h
  have hstem : stem t = if m.isEmpty then name t else m := by
    have hsuffix : s.isEmpty = false := by simpa using hs
    rw [stem, hm, lastHalves?_append hpoint]
    dsimp only
    rw [hsuffix, Bool.or_false]
  rw [hstem]
  cases m with
  | nil => simp [hm]
  | cons c m =>
    rw [hm]
    refine iff_of_true rfl fun heq => ?_
    have hlength := congrArg List.length heq
    simp at hlength
    omega

/-- In the folder of a path, the stem with its suffix is that path, unless there is nothing but the
suffix. -/
theorem inside_stem_eq_iff (ht : parts t ≠ []) (hs : s ≠ []) (hpoint : '.' ∉ s) (hslash : '/' ∉ s)
    (h : endsWith (name t) ('.' :: s) = true) :
    inside (parent t) (stem t ++ '.' :: s) = tidy t ↔ name t ≠ '.' :: s :=
  (inside_parent_eq_iff ht (isPart_stem_append ht hs hslash)).trans (stem_append_eq_iff hs hpoint h)

/-! ## The ends of paths -/

/-- A path that is put together ends as its last part. -/
theorem getLast?_ofParts (absolute : Bool) (ps : List Text) (hp : p ≠ []) :
    (ofParts absolute (ps ++ [p])).getLast? = p.getLast? := by
  have hlast := List.getLast?_eq_some_getLast hp
  have hjoin := getLast?_join "/" ps hp
  unfold ofParts
  split
  · rw [List.getLast?_cons, hjoin, hlast]
    rfl
  · rw [if_neg (by simp), hjoin]

theorem getLast?_tidy_eq (ht : parts t ≠ []) : (tidy t).getLast? = (name t).getLast? := by
  rw [tidy, parts_eq ht, getLast?_ofParts _ _ (isPart_name ht).ne_nil]

/-- A path ends as it is written, unless that means nothing. -/
theorem getLast?_tidy (h : t.getLast? = some c) (hslash : c ≠ '/') (hpoint : c ≠ '.') :
    (tidy t).getLast? = some c := by
  obtain ⟨u, rfl⟩ := List.getLast?_eq_some_iff.1 h
  obtain ⟨pieces, last, hcut⟩ := cutWhere_concat (p := (· == '/')) (by simpa using hslash) u
  have hlast : (last ++ [c]).getLast? = some c := by simp
  have hkept : last ++ [c] ≠ [] ∧ last ++ [c] ≠ ['.'] := by
    refine ⟨by simp, fun heq => hpoint ?_⟩
    rw [heq] at hlast
    exact (Option.some.inj hlast).symm
  have hparts : parts (u ++ [c]) =
      (pieces.filter fun p => !p.isEmpty && p != ['.']) ++ [last ++ [c]] := by
    rw [parts, cut, hcut, List.filter_append]
    congr 1
    refine List.filter_eq_self.2 fun p hp => ?_
    rw [List.mem_singleton.1 hp]
    simpa using hkept
  rw [tidy, hparts, getLast?_ofParts _ _ hkept.1, hlast]

/-- A path in a folder ends as it is written, unless that means nothing. -/
theorem getLast?_inside (folder : Text) (h : t.getLast? = some c) (hslash : c ≠ '/')
    (hpoint : c ≠ '.') : (inside folder t).getLast? = some c := by
  have hfull : (folder ++ '/' :: t).getLast? = some c := by
    rw [List.getLast?_append, List.getLast?_cons, h]
    rfl
  unfold inside
  split
  · exact getLast?_tidy h hslash hpoint
  · split
    · exact getLast?_tidy h hslash hpoint
    · exact getLast?_tidy hfull hslash hpoint

end SkinCompiler.Path
