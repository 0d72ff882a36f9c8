import SkinCompiler.Proofs.Candidate.HyphenCut
import SkinCompiler.Proofs.Candidate.Value

/-!
# Variants written and read

Which variants of the built-in design system are read back from the text that is written for them.

* `Variant.read?_eq_some_iff` -- the forms of a variant are what is read as one;
* `Variant.Reads.write` -- a variant that reads back is a form of variant as it is written;
* `Variant.Reads.readsBack_or_weight_lt` -- any other variant is written with less than was read.
-/

namespace SkinCompiler

open Text Arbitrary DesignSystem

variable {raw root tail : Text} {v : Variant} {m : Option Modifier}

/-! ## The built-in names -/

theorem IsWord.isUnguarded {t : Text} (h : IsWord t) : IsUnguarded t := by
  intro c hc hguard
  refine h c hc ?_
  simp only [hyphenGuards, List.mem_cons, List.not_mem_nil, or_false] at hguard
  rcases hguard with rfl | rfl | rfl | rfl <;> decide

/-- Small letters, digits, hyphens and the at sign. -/
def isSmall (c : Char) : Bool := isAsciiLower c || isAsciiDigit c || c == '-' || c == '@'

/-- A name of such characters that does not begin with a hyphen. -/
def isSmallName (n : Text) : Bool := n.all isSmall && n.head?.any (· != '-')

theorem isWord_of_isSmallName {n : Text} (h : isSmallName n = true) :
    IsWord n ∧ n ≠ [] ∧ ∀ c ∈ n.head?, c ≠ '!' ∧ c ≠ '-' := by
  rw [isSmallName, Bool.and_eq_true] at h
  have hw : IsWord n := isWord_of_all (by decide) h.1
  cases n with
  | nil => simp at h
  | cons c n =>
    refine ⟨hw, by simp, ?_⟩
    rintro x ⟨rfl⟩
    refine ⟨?_, by simpa using h.2⟩
    rintro rfl
    exact hw '!' List.mem_cons_self (by decide)

/-- The names of variants that take something after them. -/
def variantRoots : List Text := functionalVariantNames ++ compoundVariantNames

theorem staticVariantNames_spec : ∀ n ∈ staticVariantNames, isSmallName n = true ∧
    n.head? ≠ some '@' ∧ ∀ root ∈ variantRoots, startsWith n (root ++ ['-']) = false := by
  decide +kernel

theorem staticVariantNames_isWord {n : Text} (h : n ∈ staticVariantNames) :
    IsWord n ∧ n ≠ [] ∧ ∀ c ∈ n.head?, c ≠ '!' ∧ c ≠ '-' :=
  isWord_of_isSmallName (staticVariantNames_spec n h).1

theorem variantRoots_spec : ∀ n ∈ variantRoots, isSmallName n = true ∧ '-' ∉ n ∧
    (n ≠ ['@'] → n.head? ≠ some '@') := by decide

theorem variantRoots_isWord {n : Text} (h : n ∈ variantRoots) :
    IsWord n ∧ n ≠ [] ∧ ∀ c ∈ n.head?, c ≠ '!' ∧ c ≠ '-' :=
  isWord_of_isSmallName (variantRoots_spec n h).1

theorem functionalVariantNames_compound :
    ∀ n ∈ functionalVariantNames, n ∉ compoundVariantNames := by decide

theorem compoundVariantNames_at : ∀ n ∈ compoundVariantNames, n ≠ ['@'] := by decide

theorem variantKind_at (r : Text) : builtIn.variantKind ('@' :: r) = .functional := by
  have hs : staticVariantNames.contains ('@' :: r) = false := by
    rw [← Bool.not_eq_true, List.contains_iff_mem]
    exact fun h => (staticVariantNames_spec _ h).2.1 rfl
  have hc : compoundVariantNames.contains ('@' :: r) = false := by
    rw [← Bool.not_eq_true, List.contains_iff_mem]
    intro h
    refine (variantRoots_spec _ (List.mem_append_right _ h)).2.2 ?_ rfl
    exact compoundVariantNames_at _ h
  have hb : startsWith ('@' :: r) ['['] = false := rfl
  have ha : startsWith ('@' :: r) ['@'] = true := rfl
  have hf : functionalVariantNames.contains ['@'] = true := by decide
  rw [variantKind, hb, if_neg (by simp)]
  simp only [builtIn, hs, hc, ha, hf]
  simp

/-! ## The forms of a variant -/

/-- A root with the hyphen that stands before its value; the at sign has none. -/
def variantLead (root : Text) : Text := if root = ['@'] then root else root ++ ['-']

/-- The forms of a variant of the built-in design system. -/
inductive Variant.Reads : Text → Variant → Prop where
  | arbitrary {selector : Text}
      (h : (selector.contains '&' || startsWith selector ['@']) = true) :
      Reads ('[' :: selector ++ [']']) (.arbitrary selector)
  | static {root : Text} (h : root ∈ staticVariantNames) : Reads root (.static root)
  | functional {root r tail : Text} {value : Value} {m : Option Modifier}
      (h : root ∈ functionalVariantNames) (hv : Value.Reads r value) (hc : r.IsClosed)
      (hu : Scope.Uncut '/' {} r) (ht : Modifier.Tail tail m) :
      Reads (variantLead root ++ r ++ tail) (.functional root value m)
  | compound {root r tail : Text} {inner : Variant} {m : Option Modifier}
      (h : root ∈ compoundVariantNames) (hv : Reads r inner) (hc : r.IsClosed)
      (hu : Scope.Uncut '/' {} r) (ht : Modifier.Tail tail m) :
      Reads (variantLead root ++ r ++ tail) (.compound root inner m)

/-- The variant is read back from the text written for it. -/
def Variant.ReadsBack : Variant → Prop
  | .static _ | .arbitrary _ | .other _ _ _ => True
  | .functional _ value m => value.ReadsBack ∧ ∀ x ∈ m, x.ReadsBack
  | .compound _ inner m => inner.ReadsBack ∧ ∀ x ∈ m, x.ReadsBack

instance decidableVariantReadsBack : (v : Variant) → Decidable v.ReadsBack
  | .static _ | .arbitrary _ | .other _ _ _ => inferInstanceAs (Decidable True)
  | .functional _ _ _ => inferInstanceAs (Decidable (_ ∧ _))
  | .compound _ inner _ =>
    have := decidableVariantReadsBack inner
    inferInstanceAs (Decidable (_ ∧ _))

theorem variantLead_isWord (h : root ∈ variantRoots) :
    IsWord (variantLead root) ∧ variantLead root ≠ [] := by
  have hw := variantRoots_isWord h
  rw [variantLead]
  split_ifs
  · exact ⟨hw.1, hw.2.1⟩
  · exact ⟨hw.1.append (by decide), by simp⟩

theorem variantLead_mark (h : root ∈ variantRoots) (rest : Text) :
    ∀ c ∈ (variantLead root ++ rest).head?, c ≠ '!' ∧ c ≠ '-' := by
  have hm := (variantRoots_isWord h).2.2
  obtain ⟨c, name, rfl⟩ := List.exists_cons_of_ne_nil (variantRoots_isWord h).2.1
  rw [variantLead]
  split_ifs <;> exact hm

theorem mem_variantRoots_of_functional (h : root ∈ functionalVariantNames) : root ∈ variantRoots :=
  List.mem_append_left _ h

theorem mem_variantRoots_of_compound (h : root ∈ compoundVariantNames) : root ∈ variantRoots :=
  List.mem_append_right _ h

theorem Variant.Reads.ne_nil (h : Variant.Reads raw v) : raw ≠ [] := by
  cases h with
  | arbitrary => simp
  | static h => exact (staticVariantNames_isWord h).2.1
  | functional h => simp [(variantLead_isWord (mem_variantRoots_of_functional h)).2]
  | compound h => simp [(variantLead_isWord (mem_variantRoots_of_compound h)).2]

/-- A variant does not begin with a mark. -/
theorem Variant.Reads.head? (h : Variant.Reads raw v) : ∀ c ∈ raw.head?, c ≠ '!' ∧ c ≠ '-' := by
  cases h with
  | arbitrary => simp
  | static h => exact (staticVariantNames_isWord h).2.2
  | functional h =>
    rw [List.append_assoc]
    exact variantLead_mark (mem_variantRoots_of_functional h) _
  | compound h =>
    rw [List.append_assoc]
    exact variantLead_mark (mem_variantRoots_of_compound h) _

/-! ## Reading -/

/-- What follows a root, up to the modifier: the same conditions as for the whole text. -/
theorem isPart_of_append {a b : Text} (ha : IsWord a) (hc : IsClosed (a ++ b))
    (hu : Scope.Uncut '/' {} (a ++ b)) : b.IsClosed ∧ Scope.Uncut '/' {} b :=
  ⟨(isClosed_append ha.isClosed).1 hc, ((uncut_append_of_closed ha.isClosed).1 hu).2⟩

/-- What comes of a cut into a root and the rest, where `read` reads inner variants. -/
def Variant.ofRoot? (d : DesignSystem) (m : Option Modifier) (read : Text → Option Variant) :
    Text × Text → Option Variant
  | (root, rest) =>
    if d.compoundVariants.contains root then (read rest).map fun v => .compound root v m
    else if d.functionalVariants.contains root then
      (Value.read? rest).map fun v => .functional root v m
    else none

/-- What comes of a cut is a form of variant if what `read` reads is one. -/
theorem Variant.reads_of_ofRoot? {rest : Text} {read : Text → Option Variant}
    (hc : IsClosed (root ++ '-' :: rest)) (hu : Scope.Uncut '/' {} (root ++ '-' :: rest))
    (ht : Modifier.Tail tail m) (hne : root ≠ ['@'])
    (hread : ∀ {r v}, r.IsClosed → read r = some v → Variant.Reads r v)
    (h : Variant.ofRoot? builtIn m read (root, rest) = some v) :
    Variant.Reads (root ++ '-' :: rest ++ tail) v := by
  have hlead : root ++ '-' :: rest = variantLead root ++ rest := by
    simp [variantLead, hne]
  rw [hlead] at hc hu ⊢
  have hpart (hroot : root ∈ variantRoots) :=
    isPart_of_append (variantLead_isWord hroot).1 hc hu
  rw [Variant.ofRoot?] at h
  split_ifs at h with hcom hfun
  · rw [List.contains_iff_mem] at hcom
    obtain ⟨hrest, huncut⟩ := hpart (mem_variantRoots_of_compound hcom)
    obtain ⟨inner, hi, rfl⟩ := Option.map_eq_some_iff.1 h
    exact .compound hcom (hread hrest hi) hrest huncut ht
  · rw [List.contains_iff_mem] at hfun
    obtain ⟨hrest, huncut⟩ := hpart (mem_variantRoots_of_functional hfun)
    obtain ⟨value, hv, rfl⟩ := Option.map_eq_some_iff.1 h
    exact .functional hfun (Value.read?_eq_some_iff.1 hv) hrest huncut ht

theorem Variant.reads_of_readWithin {depth : Nat} (hc : raw.IsClosed)
    (h : Variant.readWithin builtIn depth raw = some v) : Variant.Reads raw v := by
  induction depth generalizing raw v with
  | zero => cases h
  | succ depth ih =>
    rw [Variant.readWithin] at h
    split at h
    · cases h
    · split at h
      · rename_i hb
        split_ifs at h with hs
        cases h
        rw [between?_eq_some_iff.1 hb]
        exact .arbitrary hs
      · split at h
        · rename_i hs
          cases h
          exact .static (List.contains_iff_mem.1 hs)
        · split at h
          · cases h
          · rename_i base m hm
            obtain ⟨tail, rfl, hu, ht, hb⟩ := exists_of_splitModifier? hm
            have hbase : base.IsClosed := by
              rcases hb with rfl | hb
              · simpa using hc
              · exact hb.1
            split at h
            · rename_i hat
              obtain ⟨value, hv, rfl⟩ := Option.map_eq_some_iff.1 h
              rw [Bool.and_eq_true] at hat
              obtain ⟨r, rfl⟩ := startsWith_iff.1 hat.1
              have hpart := isPart_of_append (by decide) hbase hu
              have hroot : ['@'] ∈ functionalVariantNames := by decide
              exact .functional hroot (Value.read?_eq_some_iff.1 hv) hpart.1 hpart.2 ht
            · rename_i hat
              obtain ⟨⟨root, rest⟩, hmem, hcut⟩ := List.exists_of_findSome?_eq_some h
              obtain rfl := eq_of_mem_hyphenCuts hmem
              refine Variant.reads_of_ofRoot? hbase hu ht ?_ (fun hr hv => ih hr hv) hcut
              rintro rfl
              simp [variantKind_at, startsWith_singleton] at hat

/-- A root with something after it is no variant that stands alone. -/
theorem variantLead_append_not_static (h : root ∈ variantRoots) (rest : Text) :
    variantLead root ++ rest ∉ staticVariantNames := by
  intro hs
  rw [variantLead] at hs
  split_ifs at hs with hat
  · rw [hat] at hs
    exact (staticVariantNames_spec _ hs).2.1 rfl
  · have := (staticVariantNames_spec _ hs).2.2 root h
    rw [startsWith_append] at this
    cases this

/-- Longer roots hold a hyphen, and no root does. -/
theorem ofRoot?_of_hyphen (m : Option Modifier) (read : Text → Option Variant) (x y : Text) :
    Variant.ofRoot? builtIn m read (root ++ '-' :: x, y) = none := by
  have hno : ∀ n ∈ variantRoots, root ++ '-' :: x ≠ n := by
    rintro n hn rfl
    exact (variantRoots_spec _ hn).2.1 (by simp)
  have hcom : builtIn.compoundVariants.contains (root ++ '-' :: x) = false := by
    rw [← Bool.not_eq_true, List.contains_iff_mem]
    exact fun h => hno _ (mem_variantRoots_of_compound h) rfl
  have hfun : builtIn.functionalVariants.contains (root ++ '-' :: x) = false := by
    rw [← Bool.not_eq_true, List.contains_iff_mem]
    exact fun h => hno _ (mem_variantRoots_of_functional h) rfl
  rw [Variant.ofRoot?, hcom, hfun]
  rfl

/-- A root with a value or a variant after it is read as what comes of the cut between them. -/
theorem readWithin_of_root {depth : Nat} {r : Text} (h : root ∈ variantRoots) (hr : r ≠ [])
    (hc : r.IsClosed) (hu : Scope.Uncut '/' {} r) (ht : Modifier.Tail tail m)
    (hraw : IsClosed (variantLead root ++ r ++ tail))
    (hcut : Variant.ofRoot? builtIn m (Variant.readWithin builtIn depth) (root, r) = some v) :
    Variant.readWithin builtIn (depth + 1) (variantLead root ++ r ++ tail) = some v := by
  have hlead := variantLead_isWord h
  have hsplit : splitModifier? (variantLead root ++ r ++ tail)
      = some (variantLead root ++ r, m) :=
    splitModifier?_append ((isClosed_append hlead.1.isClosed).2 hc)
      ((uncut_append_of_closed hlead.1.isClosed).2 ⟨hlead.1.uncut (by decide), hu⟩) ht
      (by simp [hlead.2])
  have hbetween : between? '[' ']' (variantLead root ++ r ++ tail) = none := by
    obtain ⟨c, lead, hl⟩ := List.exists_cons_of_ne_nil hlead.2
    have hbracket := hlead.1 c (by simp [hl])
    refine between?_of_head ?_
    rw [hl]
    rintro ⟨rfl⟩
    exact hbracket (by decide)
  rw [Variant.readWithin, if_neg (by rw [hraw.isBalanced]; simp [hlead.2]), hbetween]
  simp only
  rw [if_neg, hsplit]
  · simp only
    by_cases hat : root = ['@']
    · subst hat
      rw [variantLead, if_pos rfl, List.singleton_append, variantKind_at,
        if_pos (by simp [startsWith_singleton])]
      exact hcut
    · have hhead : startsWith (variantLead root ++ r) ['@'] = false := by
        obtain ⟨c, name, rfl⟩ := List.exists_cons_of_ne_nil (variantRoots_isWord h).2.1
        rw [← Bool.not_eq_true, startsWith_singleton, variantLead, if_neg hat]
        have hhead := (variantRoots_spec _ h).2.2 hat
        exact hhead
      rw [hhead, variantLead, if_neg hat, List.append_assoc]
      exact findSome?_hyphenCuts (variantRoots_isWord h).1.isUnguarded (variantRoots_isWord h).2.1 hr
        (fun x y _ => ofRoot?_of_hyphen m _ x y) hcut
  · rw [List.contains_iff_mem, List.append_assoc]
    exact variantLead_append_not_static h _

theorem Variant.Reads.readWithin (h : Variant.Reads raw v) (hc : raw.IsClosed) {depth : Nat}
    (hd : raw.length < depth) : Variant.readWithin builtIn depth raw = some v := by
  induction h generalizing depth with
  | arbitrary h =>
    obtain ⟨depth, rfl⟩ := Nat.exists_eq_succ_of_ne_zero (Nat.ne_zero_of_lt hd)
    rw [Variant.readWithin, if_neg (by rw [hc.isBalanced]; simp), between?_eq_some_iff.2 rfl]
    exact if_pos h
  | @static root h =>
    obtain ⟨depth, rfl⟩ := Nat.exists_eq_succ_of_ne_zero (Nat.ne_zero_of_lt hd)
    have hw := staticVariantNames_isWord h
    rw [Variant.readWithin, if_neg (by simp [hc.isBalanced, hw.2]), hw.1.between? (by decide)]
    exact if_pos (List.contains_iff_mem.2 h)
  | @functional root r tail value m h hv hcr hu ht =>
    obtain ⟨depth, rfl⟩ := Nat.exists_eq_succ_of_ne_zero (Nat.ne_zero_of_lt hd)
    have hr : r ≠ [] := by
      obtain ⟨c, hl, -⟩ := hv.getLast?
      rintro rfl
      cases hl
    refine readWithin_of_root (mem_variantRoots_of_functional h) hr hcr hu ht hc ?_
    have hcom : builtIn.compoundVariants.contains root = false := by
      rw [← Bool.not_eq_true, List.contains_iff_mem]
      exact functionalVariantNames_compound root h
    have hfun : root ∈ builtIn.functionalVariants := h
    rw [Variant.ofRoot?, hcom, List.contains_iff_mem.2 hfun, Value.read?_eq_some_iff.2 hv]
    rfl
  | @compound root r tail inner m h hv hcr hu ht ih =>
    obtain ⟨depth, rfl⟩ := Nat.exists_eq_succ_of_ne_zero (Nat.ne_zero_of_lt hd)
    refine readWithin_of_root (mem_variantRoots_of_compound h) hv.ne_nil hcr hu ht hc ?_
    have hlen : 0 < (variantLead root).length :=
      List.length_pos_iff.2 (variantLead_isWord (mem_variantRoots_of_compound h)).2
    have hdepth : r.length < depth := by
      simp only [List.length_append] at hd
      omega
    have hcom : root ∈ builtIn.compoundVariants := h
    rw [Variant.ofRoot?, List.contains_iff_mem.2 hcom, ih hcr hdepth]
    rfl

/-- What is read as a variant is one of its forms. -/
theorem Variant.read?_eq_some_iff (hc : raw.IsClosed) :
    Variant.read? builtIn raw = some v ↔ Variant.Reads raw v :=
  ⟨Variant.reads_of_readWithin hc, fun h => h.readWithin hc (Nat.lt_succ_self _)⟩

/-! ## Writing -/

theorem write_functional (root : Text) (value : Value) (m : Option Modifier) :
    (Variant.functional root value m).write = variantLead root ++ value.write ++ Modifier.write m := by
  rw [Variant.write, writeRoot, variantLead]
  split_ifs <;> simp

theorem write_compound (h : root ∈ compoundVariantNames) (inner : Variant) (m : Option Modifier) :
    (Variant.compound root inner m).write = variantLead root ++ inner.write ++ Modifier.write m := by
  rw [Variant.write, variantLead, if_neg (compoundVariantNames_at root h)]
  simp

/-- A text put together of a word, a part and a modifier, with the part and the modifier written
anew. -/
theorem isClosed_uncut_of_parts {lead r r' : Text} (hw : IsWord lead) (hr : r.IsClosed)
    (hr' : r'.IsClosed) (hu : ∀ sep, sep = ':' ∨ sep = '/' → Scope.Uncut sep {} r → Scope.Uncut sep {} r')
    (ht : Modifier.Tail tail m) (hb : ∀ x ∈ m, x.ReadsBack) :
    IsClosed (lead ++ r' ++ Modifier.write m) ∧ ∀ sep, sep = ':' ∨ sep = '/' →
      Scope.Uncut sep {} (lead ++ r ++ tail) →
        Scope.Uncut sep {} (lead ++ r' ++ Modifier.write m) := by
  have hlead := (isClosed_append (b := r) hw.isClosed).2 hr
  have hlead' := (isClosed_append (b := r') hw.isClosed).2 hr'
  refine ⟨(isClosed_append hlead').2 (ht.isClosed_write hb).1, fun sep hs h => ?_⟩
  rw [uncut_append_of_closed hlead, uncut_append_of_closed hw.isClosed] at h
  rw [uncut_append_of_closed hlead', uncut_append_of_closed hw.isClosed]
  exact ⟨⟨h.1.1, hu sep hs h.1.2⟩, ht.uncut_write hb hs h.2⟩

/-- Two parts that are the same or lighter make a text that is the same or lighter. -/
theorem eq_or_weight_lt_of_parts {a r r' tail tail' : Text} {p q : Prop}
    (hr : (r' = r ∧ p) ∨ weight r' < weight r)
    (ht : (tail' = tail ∧ q) ∨ weight tail' < weight tail) :
    (a ++ r' ++ tail' = a ++ r ++ tail ∧ p ∧ q) ∨
      weight (a ++ r' ++ tail') < weight (a ++ r ++ tail) := by
  simp only [weight_append]
  rcases hr with ⟨rfl, hp⟩ | hr
  · rcases ht with ⟨rfl, hq⟩ | ht
    · exact Or.inl ⟨rfl, hp, hq⟩
    · right
      omega
  · right
    rcases ht with ⟨rfl, -⟩ | ht <;> omega

/-- A variant that reads back is a form of variant as it is written, and it is cut nowhere where
the text it was read from is not. -/
theorem Variant.Reads.write (h : Variant.Reads raw v) (hc : raw.IsClosed) (hb : v.ReadsBack) :
    Variant.Reads v.write v ∧ v.write.IsClosed ∧
      ∀ sep, sep = ':' ∨ sep = '/' → Scope.Uncut sep {} raw → Scope.Uncut sep {} v.write := by
  induction h with
  | arbitrary h => exact ⟨.arbitrary h, hc, fun _ _ hu => hu⟩
  | static h => exact ⟨.static h, hc, fun _ _ hu => hu⟩
  | @functional root r tail value m h hv hcr hu ht =>
    have hlead := (variantLead_isWord (mem_variantRoots_of_functional h)).1
    have hsolid := hv.isSolid_write hb.1
    rw [write_functional]
    refine ⟨.functional h (hv.write hb.1) hsolid.1 hsolid.2.2 (ht.write hb.2), ?_⟩
    refine isClosed_uncut_of_parts hlead hcr hsolid.1 (fun sep hs _ => ?_) ht hb.2
    rcases hs with rfl | rfl
    · exact hsolid.2.1
    · exact hsolid.2.2
  | @compound root r tail inner m h hv hcr hu ht ih =>
    have hlead := (variantLead_isWord (mem_variantRoots_of_compound h)).1
    obtain ⟨hi, hci, hui⟩ := ih hcr hb.1
    rw [write_compound h]
    exact ⟨.compound h hi hci (hui '/' (Or.inr rfl) hu) (ht.write hb.2),
      isClosed_uncut_of_parts hlead hcr hci hui ht hb.2⟩

/-- A variant reads back and was read from the text written for it, or that text is lighter. -/
theorem Variant.Reads.readsBack_or_weight_lt (h : Variant.Reads raw v) (hc : raw.IsClosed) :
    (v.write = raw ∧ v.ReadsBack) ∨ weight v.write < weight raw := by
  induction h with
  | arbitrary h => exact Or.inl ⟨rfl, trivial⟩
  | static h => exact Or.inl ⟨rfl, trivial⟩
  | @functional root r tail value m h hv hcr hu ht =>
    have hlead := (variantLead_isWord (mem_variantRoots_of_functional h)).1.isClosed
    have htail := (isClosed_append ((isClosed_append hlead).2 hcr)).1 hc
    rw [write_functional]
    exact eq_or_weight_lt_of_parts (hv.readsBack_or_weight_lt hcr) (ht.readsBack_or_weight_lt htail)
  | @compound root r tail inner m h hv hcr hu ht ih =>
    have hlead := (variantLead_isWord (mem_variantRoots_of_compound h)).1.isClosed
    have htail := (isClosed_append ((isClosed_append hlead).2 hcr)).1 hc
    rw [write_compound h]
    exact eq_or_weight_lt_of_parts (ih hcr) (ht.readsBack_or_weight_lt htail)

end SkinCompiler
