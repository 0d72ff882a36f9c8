import SkinCompiler.Proofs.Candidate.Variant

/-!
# Utilities written and read

Which utilities of the built-in design system are read back from the text that is written for them.

* `Utility.exists_of_ofBase?` -- the forms of a utility without its modifier: a declaration in
  brackets, a root with a value in brackets, or a text that is written as it was;
* `Utility.read?_write` -- a utility that reads back is read from what is written;
* `Utility.readsBack_or_weight_lt` -- any other utility is written with less than was read.
-/

namespace SkinCompiler

open Text Arbitrary DesignSystem

variable {base t root rest tail : Text} {u : Utility} {m : Option Modifier}

/-! ## Reading without the modifier -/

/-- What comes of a cut into a root and its value. -/
def Utility.ofRoot? (d : DesignSystem) (m : Option Modifier) : Text × Text → Option Utility
  | (root, rest) =>
    if d.functionalUtilities.contains root then
      (Value.read? rest).map fun value => Utility.ofParts root value m
    else none

/-- What is read before a modifier. -/
def Utility.ofBase? (base : Text) (m : Option Modifier) : Option Utility :=
  match between? '[' ']' base with
  | some inner => readProperty? inner m
  | none =>
    if staticUtilityNames.contains base && (m.isNone || builtIn.takesModifier base) then
      some (.static base m)
    else (hyphenCuts base).findSome? (Utility.ofRoot? builtIn m)

theorem Utility.read?_eq (t : Text) : Utility.read? builtIn t
    = (splitModifier? t).bind fun p => Utility.ofBase? p.1 p.2 := by
  rw [Utility.read?]
  cases splitModifier? t <;> rfl

/-! ## The built-in names -/

theorem staticUtilityNames_small : staticUtilityNames.all isSmallName = true := by
  decide +kernel

theorem functionalUtilityNames_small : functionalUtilityNames.all isSmallName = true := by
  decide +kernel

theorem staticUtilityNames_isWord {n : Text} (h : n ∈ staticUtilityNames) :
    IsWord n ∧ n ≠ [] ∧ ∀ c ∈ n.head?, c ≠ '!' ∧ c ≠ '-' :=
  isWord_of_isSmallName (List.all_eq_true.1 staticUtilityNames_small n h)

theorem functionalUtilityNames_isWord {n : Text} (h : n ∈ functionalUtilityNames) :
    IsWord n ∧ n ≠ [] ∧ ∀ c ∈ n.head?, c ≠ '!' ∧ c ≠ '-' :=
  isWord_of_isSmallName (List.all_eq_true.1 functionalUtilityNames_small n h)

/-! ## Declarations -/

/-- The utility is read back from the text written for it. -/
def Utility.ReadsBack : Utility → Prop
  | .static _ m => ∀ x ∈ m, x.ReadsBack
  | .functional _ value m => value.ReadsBack ∧ ∀ x ∈ m, x.ReadsBack
  | .property _ d m =>
    (StandsBare d.value ∧ d.dataType = classify d.value) ∧ ∀ x ∈ m, x.ReadsBack
  | .other _ _ _ => True

instance decidableUtilityReadsBack : (u : Utility) → Decidable u.ReadsBack
  | .static _ m => inferInstanceAs (Decidable (∀ x ∈ m, x.ReadsBack))
  | .functional _ _ _ => inferInstanceAs (Decidable (_ ∧ _))
  | .property _ _ _ => inferInstanceAs (Decidable (_ ∧ _))
  | .other _ _ _ => inferInstanceAs (Decidable True)

theorem readProperty?_eq_some {inner : Text} (h : readProperty? inner m = some u) :
    ∃ name value d, inner = name ++ ':' :: value ∧ isPropertyName name = true ∧ name.IsClosed ∧
      Scope.Uncut ':' {} name ∧ decode value = some d ∧ u = .property name d m := by
  rw [readProperty?] at h
  split at h
  · rename_i name first others hs
    obtain ⟨value, rfl, hc, hu, hrest⟩ := segments_eq_cons_cons hs
    have hjoin : join ":" (first :: others) = value := by
      rw [← hrest]
      exact Scope.join_pieces ':' {} value
    dsimp only at h
    rw [hjoin] at h
    split_ifs at h with hn
    obtain ⟨d, hd, rfl⟩ := Option.map_eq_some_iff.1 h
    rw [Bool.and_eq_true] at hn
    exact ⟨name, value, d, rfl, hn.1, hc, hu, hd, rfl⟩
  · cases h

theorem readProperty?_append {name value : Text} {d : Decoded} (hn : isPropertyName name = true)
    (hc : name.IsClosed) (hu : Scope.Uncut ':' {} name) (hv : value ≠ [])
    (hd : decode value = some d) : readProperty? (name ++ ':' :: value) m
      = some (.property name d m) := by
  obtain ⟨first, others, hs⟩ := List.exists_cons_of_ne_nil (segments_ne_nil ':' value)
  have hjoin : join ":" (first :: others) = value := by
    rw [← hs]
    exact Scope.join_pieces ':' {} value
  have hseg : segments [':'] (name ++ ':' :: value) = name :: first :: others := by
    rw [← hs]
    exact segments_append_cons (by decide) hc hu
  rw [readProperty?, hseg]
  dsimp only
  rw [hjoin, hn, hd, List.isEmpty_eq_false_iff.2 hv]
  rfl

/-! ## The forms of a utility -/

theorem Utility.write_ofParts (root name : Text) (m : Option Modifier) :
    (Utility.ofParts root (.named name none) m).write = root ++ '-' :: name ++ Modifier.write m ∧
      ((Utility.ofParts root (.named name none) m).ReadsBack ↔ ∀ x ∈ m, x.ReadsBack) := by
  unfold Utility.ofParts
  split
  · rename_i n fraction k hn
    cases hn
    split_ifs
    · simp [Utility.write, Value.write, Modifier.write, Utility.ReadsBack, Value.ReadsBack,
        Modifier.ReadsBack]
    · simp [Utility.write, Value.write, Utility.ReadsBack, Value.ReadsBack]
  · simp [Utility.write, Value.write, Utility.ReadsBack, Value.ReadsBack]

/-- A utility without its modifier is a declaration in brackets, a root with a value in brackets,
or a word that stays as it is. -/
theorem Utility.exists_of_ofBase? (h : Utility.ofBase? base m = some u) :
    (∃ inner, base = '[' :: inner ++ [']'] ∧ readProperty? inner m = some u) ∨
      (∃ root r d, base = root ++ '-' :: r ∧ root ∈ functionalUtilityNames ∧
        Value.Reads r (.arbitrary d) ∧ u = .functional root (.arbitrary d) m) ∨
      IsWord base ∧ base ≠ [] ∧ (∀ c ∈ base.head?, c ≠ '!' ∧ c ≠ '-') ∧
        u.write = base ++ Modifier.write m ∧ (u.ReadsBack ↔ ∀ x ∈ m, x.ReadsBack) := by
  rw [Utility.ofBase?] at h
  split at h
  · rename_i inner hb
    exact Or.inl ⟨inner, between?_eq_some_iff.1 hb, h⟩
  · right
    split_ifs at h with hs
    · right
      cases h
      rw [Bool.and_eq_true, List.contains_iff_mem] at hs
      have hw := staticUtilityNames_isWord hs.1
      exact ⟨hw.1, hw.2.1, hw.2.2, rfl, Iff.rfl⟩
    · obtain ⟨⟨root, r⟩, hmem, hcut⟩ := List.exists_of_findSome?_eq_some h
      obtain rfl := eq_of_mem_hyphenCuts hmem
      rw [Utility.ofRoot?] at hcut
      split_ifs at hcut with hf
      rw [List.contains_iff_mem] at hf
      obtain ⟨value, hv, rfl⟩ := Option.map_eq_some_iff.1 hcut
      rw [Value.read?_eq_some_iff] at hv
      cases value with
      | arbitrary d => exact Or.inl ⟨root, r, d, rfl, hf, hv, rfl⟩
      | named name fraction =>
        right
        cases hv
        rename_i hn
        have hw := functionalUtilityNames_isWord hf
        have hmark := hw.2.2
        have hwrite := Utility.write_ofParts root r m
        refine ⟨hw.1.append (IsWord.append (a := ['-']) (by decide) (isWord_of_isValueName hn)),
          by simp, ?_, hwrite⟩
        obtain ⟨c, name, rfl⟩ := List.exists_cons_of_ne_nil hw.2.1
        exact hmark

/-- A root is read with the value in brackets after it. -/
theorem Utility.ofBase?_bracket {inner : Text} {d : Decoded} (h : root ∈ functionalUtilityNames)
    (hv : Value.Reads ('[' :: inner) (.arbitrary d)) :
    Utility.ofBase? (root ++ '-' :: '[' :: inner) m
      = some (.functional root (.arbitrary d) m) := by
  have hw := functionalUtilityNames_isWord h
  have hno : ∀ n, IsWord n → ∀ x, n ≠ root ++ '-' :: '[' :: x := by
    rintro n hn x rfl
    exact hn '[' (by simp) (by decide)
  have hbetween : between? '[' ']' (root ++ '-' :: '[' :: inner) = none := by
    obtain ⟨c, name, rfl⟩ := List.exists_cons_of_ne_nil hw.2.1
    refine between?_of_head ?_
    rintro ⟨rfl⟩
    exact hw.1 _ List.mem_cons_self (by decide)
  have hstatic : staticUtilityNames.contains (root ++ '-' :: '[' :: inner) = false := by
    rw [← Bool.not_eq_true, List.contains_iff_mem]
    exact fun hs => hno _ (staticUtilityNames_isWord hs).1 inner rfl
  rw [Utility.ofBase?, hbetween, hstatic]
  refine findSome?_hyphenCuts hw.1.isUnguarded hw.2.1 (by simp) ?_ ?_
  · intro x y hxy
    cases x with
    | nil => simp at hxy
    | cons c x =>
      rw [List.cons_append, List.cons.injEq] at hxy
      rw [← hxy.1, Utility.ofRoot?, if_neg]
      rw [List.contains_iff_mem]
      exact fun hf => hno _ (functionalUtilityNames_isWord hf).1 x rfl
  · have hroot : root ∈ builtIn.functionalUtilities := h
    rw [Utility.ofRoot?, if_pos (List.contains_iff_mem.2 hroot), Value.read?_eq_some_iff.2 hv]
    rfl

theorem Utility.getLast?_of_ofBase? (h : Utility.ofBase? base m = some u) :
    ∃ c, base.getLast? = some c ∧ c ≠ '\\' ∧ c ≠ '!' := by
  rcases Utility.exists_of_ofBase? h with ⟨inner, rfl, -⟩ | ⟨root, r, d, rfl, -, hv, -⟩ | hw
  · exact ⟨']', List.getLast?_concat, by decide, by decide⟩
  · obtain ⟨c, hl, hc⟩ := hv.getLast?
    refine ⟨c, ?_, hc⟩
    rw [List.getLast?_append, List.getLast?_cons, hl]
    rfl
  · exact hw.1.getLast? hw.2.1

theorem Utility.head?_of_ofBase? (h : Utility.ofBase? base m = some u) :
    base ≠ [] ∧ ∀ c ∈ base.head?, c ≠ '!' ∧ c ≠ '-' := by
  rcases Utility.exists_of_ofBase? h with ⟨inner, rfl, -⟩ | ⟨root, r, d, rfl, hf, -⟩ | hw
  · simp
  · obtain ⟨c, name, rfl⟩ := List.exists_cons_of_ne_nil (functionalUtilityNames_isWord hf).2.1
    have hmark := (functionalUtilityNames_isWord hf).2.2
    exact ⟨by simp, hmark⟩
  · exact ⟨hw.2.1, hw.2.2.1⟩

/-! ## Reading what is written -/

/-- A utility that was read from `base` in front of a modifier is written as `base'` in front of it,
and `p` is what that text needs to read back. -/
structure Utility.IsWritten (u : Utility) (m : Option Modifier) (base base' : Text) (p : Prop) :
    Prop where
  /-- The modifier is written behind it. -/
  write_eq : u.write = base' ++ Modifier.write m
  /-- The utility reads back if this text and the modifier do. -/
  readsBack_iff : u.ReadsBack ↔ p ∧ ∀ x ∈ m, x.ReadsBack
  /-- It is the text that was read, or a lighter one. -/
  eq_or_weight_lt : (base' = base ∧ p) ∨ weight base' < weight base
  /-- If it reads back, the utility is read from it. -/
  read : p → IsSolid base' ∧ Utility.ofBase? base' m = some u

theorem Utility.exists_isWritten_property {inner : Text} (hc : IsClosed ('[' :: inner ++ [']']))
    (h : readProperty? inner m = some u) :
    ∃ base' p, u.IsWritten m ('[' :: inner ++ [']']) base' p := by
  obtain ⟨name, value, d, rfl, hn, hcn, hun, hd, rfl⟩ := readProperty?_eq_some h
  have hname : IsClosed (name ++ [':']) := (isClosed_append hcn).2 rfl
  have hassoc : ∀ v, name ++ ':' :: v = (name ++ [':']) ++ v := by simp
  have hvalue : IsClosed value := by
    refine (isClosed_append hname).1 (isClosed_of_bracket (o := '[') (c := ']') ?_ rfl ?_)
    · rw [isBalanced_append hname]
      exact (decode_eq_some hd).2.1
    · rw [← hassoc]
      exact hc.isBalanced
  refine ⟨'[' :: (name ++ ':' :: d.value) ++ [']'],
    StandsBare d.value ∧ d.dataType = classify d.value, by simp [Utility.write], Iff.rfl, ?_, ?_⟩
  · rcases standsBare_or_weight_lt hd hvalue with ⟨rfl, hs, ht⟩ | hlt
    · exact Or.inl ⟨rfl, hs, ht⟩
    · right
      simp only [weight_append, weight_cons, List.cons_append]
      omega
  · rintro ⟨hs, ht⟩
    refine ⟨isSolid_bracket ?_, ?_⟩
    · rw [hassoc]
      exact (isClosed_append hname).2 hs.1.1
    · have hv : d.value ≠ [] := by
        intro hv
        rw [hv] at hs
        exact absurd hs.2.1 (by decide)
      rw [Utility.ofBase?, between?_eq_some_iff.2 rfl]
      refine readProperty?_append hn hcn hun hv ?_
      rw [decode_of_standsBare hs, ← ht]

theorem Utility.isWritten_bracket {d : Decoded} (hf : root ∈ functionalUtilityNames)
    (hc : IsClosed (root ++ '-' :: rest)) (hv : Value.Reads rest (.arbitrary d)) :
    Utility.IsWritten (.functional root (.arbitrary d) m) m (root ++ '-' :: rest)
      (root ++ '-' :: d.write) d.ReadsBack := by
  have hw := functionalUtilityNames_isWord hf
  have hlead : IsWord (root ++ ['-']) := hw.1.append (by decide)
  have hassoc : ∀ v, root ++ '-' :: v = (root ++ ['-']) ++ v := by simp
  have hr : IsClosed rest := by
    rw [hassoc] at hc
    exact (isClosed_append hlead.isClosed).1 hc
  refine ⟨by simp [Utility.write, Value.write], Iff.rfl, ?_, ?_⟩
  · rcases hv.readsBack_or_weight_lt hr with ⟨rfl, hb⟩ | hlt
    · exact Or.inl ⟨rfl, hb⟩
    · right
      simpa [Value.write] using hlt
  · intro hb
    have hwrite := hv.write hb
    refine ⟨?_, ?_⟩
    · rw [hassoc]
      exact hlead.isSolid.append (hv.isSolid_write hb)
    · rw [Value.write, Decoded.write_eq] at hwrite
      rw [Decoded.write_eq]
      exact Utility.ofBase?_bracket hf hwrite

/-- Without its modifier, a utility is written as it was or with a lighter text; and if it reads
back, it is read from that text. -/
theorem Utility.exists_isWritten_of_ofBase? (hc : base.IsClosed)
    (h : Utility.ofBase? base m = some u) : ∃ base' p, u.IsWritten m base base' p := by
  rcases Utility.exists_of_ofBase? h with
    ⟨inner, rfl, hp⟩ | ⟨root, r, d, rfl, hf, hv, rfl⟩ | ⟨hw, -, -, hwrite, hback⟩
  · exact Utility.exists_isWritten_property hc hp
  · exact ⟨_, _, Utility.isWritten_bracket hf hc hv⟩
  · exact ⟨base, True, hwrite, by simp [hback], Or.inl ⟨rfl, trivial⟩, fun _ => ⟨hw.isSolid, h⟩⟩

theorem Utility.getLast?_of_read? (h : Utility.read? builtIn t = some u) :
    ∃ c, t.getLast? = some c ∧ c ≠ '\\' ∧ c ≠ '!' := by
  rw [Utility.read?_eq] at h
  obtain ⟨⟨base, m⟩, hm, hu⟩ := Option.bind_eq_some_iff.1 h
  obtain ⟨tail, rfl, -, ht, -⟩ := exists_of_splitModifier? hm
  cases ht with
  | absent =>
    rw [List.append_nil]
    exact Utility.getLast?_of_ofBase? hu
  | present hr =>
    obtain ⟨c, hl, hc⟩ := hr.getLast?
    refine ⟨c, ?_, hc⟩
    rw [List.getLast?_append, List.getLast?_cons, hl]
    rfl

theorem Utility.head?_of_read? (h : Utility.read? builtIn t = some u) :
    t ≠ [] ∧ ∀ c ∈ t.head?, c ≠ '!' ∧ c ≠ '-' := by
  rw [Utility.read?_eq] at h
  obtain ⟨⟨base, m⟩, hm, hu⟩ := Option.bind_eq_some_iff.1 h
  obtain ⟨tail, rfl, -, -, -⟩ := exists_of_splitModifier? hm
  obtain ⟨hne, hmark⟩ := Utility.head?_of_ofBase? hu
  obtain ⟨c, base, rfl⟩ := List.exists_cons_of_ne_nil hne
  exact ⟨by simp, hmark⟩

/-- A balanced text that is read as a utility is closed. -/
theorem Utility.isClosed_of_read? (h : Utility.read? builtIn t = some u)
    (hb : isBalanced t = true) : t.IsClosed := by
  obtain ⟨c, hl, hc, -⟩ := Utility.getLast?_of_read? h
  exact isClosed_of_isBalanced hb (by simpa [hl] using hc)

section

variable (h : Utility.read? builtIn t = some u) (hc : t.IsClosed)

include h hc

theorem Utility.exists_isWritten : ∃ base tail base' p m, t = base ++ tail ∧ base.IsClosed ∧
    Modifier.Tail tail m ∧ u.IsWritten m base base' p := by
  rw [Utility.read?_eq] at h
  obtain ⟨⟨base, m⟩, hm, hu⟩ := Option.bind_eq_some_iff.1 h
  obtain ⟨tail, rfl, -, ht, hb⟩ := exists_of_splitModifier? hm
  have hbase : base.IsClosed := by
    rcases hb with rfl | hb
    · simpa using hc
    · exact hb.1
  obtain ⟨base', p, hwritten⟩ := Utility.exists_isWritten_of_ofBase? hbase hu
  exact ⟨base, tail, base', p, m, rfl, hbase, ht, hwritten⟩

/-- A utility that reads back is read from the text written for it, and no colon cuts that text. -/
theorem Utility.read?_write (hb : u.ReadsBack) : Utility.read? builtIn u.write = some u ∧
    u.write.IsClosed ∧ Scope.Uncut ':' {} u.write := by
  obtain ⟨base, tail, base', p, m, rfl, -, ht, hwritten⟩ := Utility.exists_isWritten h hc
  obtain ⟨hp, hm⟩ := hwritten.readsBack_iff.1 hb
  obtain ⟨hsolid, hbase⟩ := hwritten.read hp
  have htail := ht.isClosed_write hm
  rw [hwritten.write_eq]
  refine ⟨?_, (isClosed_append hsolid.1).2 htail.1,
    (uncut_append_of_closed hsolid.1).2 ⟨hsolid.2.1, htail.2⟩⟩
  rw [Utility.read?_eq, splitModifier?_append hsolid.1 hsolid.2.2 (ht.write hm)
    (Utility.head?_of_ofBase? hbase).1]
  exact hbase

/-- A utility reads back and was read from the text written for it, or that text is lighter. -/
theorem Utility.readsBack_or_weight_lt :
    (u.write = t ∧ u.ReadsBack) ∨ weight u.write < weight t := by
  obtain ⟨base, tail, base', p, m, rfl, hbase, ht, hwritten⟩ := Utility.exists_isWritten h hc
  have htail := ht.readsBack_or_weight_lt ((isClosed_append hbase).1 hc)
  rw [hwritten.write_eq, hwritten.readsBack_iff]
  exact eq_or_weight_lt_of_parts (a := []) hwritten.eq_or_weight_lt htail

end

end SkinCompiler
