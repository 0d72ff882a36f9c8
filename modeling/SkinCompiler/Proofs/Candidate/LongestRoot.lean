import SkinCompiler.Proofs.Candidate.Utility

/-!
# The longest root

A utility and a variant are a root, a hyphen and something that is read.  Where a text can be taken
apart in several such ways, the longest root decides.

* `findSome?_hyphenCuts_iff` -- the first cut that works is the one with the longest root;
* `Variant.read?_eq` -- a variant is read by reading shorter ones;
* `DesignSystem.HasPlainRoots.read?_iff` -- what utilities and variants are read as, in every design
  system whose roots hold no brackets.
-/

namespace SkinCompiler

open Text DesignSystem

variable {d : DesignSystem} {base raw root rest t : Text} {m : Option Modifier} {α : Type}

/-! ## The longest root -/

/-- Something comes of a root, and of no longer one. -/
def IsLongest (comes : Text → α → Prop) (root : Text) (a : α) : Prop :=
  comes root a ∧ ∀ root' a', comes root' a' → root'.length ≤ root.length

/-- Where what comes of a root is made of something else, that is what is looked for. -/
theorem isLongest_iff {β : Type} {comes : Text → α → Prop} {comes' : Text → β → Prop}
    {make : Text → β → α} (h : ∀ root a, comes root a ↔ ∃ b, comes' root b ∧ a = make root b)
    {a : α} : IsLongest comes root a ↔ ∃ b, IsLongest comes' root b ∧ a = make root b := by
  constructor
  · rintro ⟨ha, hmax⟩
    obtain ⟨b, hb, rfl⟩ := (h root a).1 ha
    exact ⟨b, ⟨hb, fun root' b' hb' => hmax root' _ ((h root' _).2 ⟨b', hb', rfl⟩)⟩, rfl⟩
  · rintro ⟨b, ⟨hb, hmax⟩, rfl⟩
    refine ⟨(h root _).2 ⟨b, hb, rfl⟩, ?_⟩
    intro root' a' ha'
    obtain ⟨b', hb', -⟩ := (h root' a').1 ha'
    exact hmax root' b' hb'

/-- What comes of a root in a text: of the root, a hyphen and the rest. -/
def ComesOf (f : Text × Text → Option α) (base root : Text) (a : α) : Prop :=
  root ≠ [] ∧ ∃ rest, base = root ++ '-' :: rest ∧ f (root, rest) = some a

section

variable {f : Text × Text → Option α}
  (hf : ∀ root rest, f (root, rest) ≠ none → IsUnguarded root ∧ rest ≠ [])

include hf

theorem comesOf_iff {a : α} : ComesOf f base root a ↔
    ∃ rest, (root, rest) ∈ hyphenCuts base ∧ f (root, rest) = some a := by
  constructor
  · rintro ⟨hroot, rest, hbase, ha⟩
    obtain ⟨hu, hrest⟩ := hf root rest (by simp [ha])
    exact ⟨rest, (mem_hyphenCuts_iff hu).2 ⟨hroot, hrest, hbase⟩, ha⟩
  · rintro ⟨rest, hmem, ha⟩
    obtain ⟨hu, -⟩ := hf root rest (by simp [ha])
    obtain ⟨hroot, -, hbase⟩ := (mem_hyphenCuts_iff hu).1 hmem
    exact ⟨hroot, rest, hbase, ha⟩

/-- The cuts are tried until one works, so what is found comes of the longest root. -/
theorem findSome?_hyphenCuts_iff {a : α} : (hyphenCuts base).findSome? f = some a ↔
    ∃ root, IsLongest (ComesOf f base) root a := by
  rw [(hyphenCuts_sorted base).findSome?_eq_some_iff]
  constructor
  · rintro ⟨⟨root, rest⟩, hmem, ha, hmax⟩
    refine ⟨root, (comesOf_iff hf).2 ⟨rest, hmem, ha⟩, ?_⟩
    intro root' a' h'
    obtain ⟨rest', hmem', ha'⟩ := (comesOf_iff hf).1 h'
    exact hmax (root', rest') hmem' (by simp [ha'])
  · rintro ⟨root, hcomes, hmax⟩
    obtain ⟨rest, hmem, ha⟩ := (comesOf_iff hf).1 hcomes
    refine ⟨(root, rest), hmem, ha, ?_⟩
    rintro ⟨root', rest'⟩ hmem' hne
    obtain ⟨a', ha'⟩ := Option.ne_none_iff_exists'.1 hne
    exact hmax root' a' ((comesOf_iff hf).2 ⟨rest', hmem', ha'⟩)

/-- Nothing is found only where nothing comes of any root. -/
theorem findSome?_hyphenCuts_eq_none_iff : (hyphenCuts base).findSome? f = none ↔
    ∀ root a, ¬ComesOf f base root a := by
  rw [List.findSome?_eq_none_iff]
  constructor
  · intro hnone root a hcomes
    obtain ⟨rest, hmem, ha⟩ := (comesOf_iff hf).1 hcomes
    rw [hnone _ hmem] at ha
    cases ha
  · rintro hno ⟨root, rest⟩ hmem
    by_contra hne
    obtain ⟨a, ha⟩ := Option.ne_none_iff_exists'.1 hne
    exact hno root a ((comesOf_iff hf).2 ⟨rest, hmem, ha⟩)

end

/-! ## Reading variants without a bound -/

theorem findSome?_congr {β : Type} {l : List α} {f g : α → Option β} (h : ∀ x ∈ l, f x = g x) :
    l.findSome? f = l.findSome? g := by
  induction l with
  | nil => rfl
  | cons x l ih =>
    rw [List.findSome?_cons, List.findSome?_cons, h x List.mem_cons_self,
      ih fun y hy => h y (List.mem_cons_of_mem _ hy)]

namespace Variant

/-- Read a variant, where `read` reads those inside it. -/
def readUsing (d : DesignSystem) (read : Text → Option Variant) (raw : Text) : Option Variant :=
  if raw.isEmpty || !isBalanced raw then none
  else match between? '[' ']' raw with
    | some selector =>
      if selector.contains '&' || startsWith selector ['@'] then some (.arbitrary selector)
      else none
    | none =>
      if d.staticVariants.contains raw then some (.static raw)
      else match splitModifier? raw with
        | none => none
        | some (base, m) =>
          if startsWith base ['@'] && d.variantKind base = .functional then
            (Value.read? (base.drop 1)).map fun v => .functional ['@'] v m
          else (hyphenCuts base).findSome? (ofRoot? d m read)

theorem readWithin_succ (d : DesignSystem) (depth : Nat) :
    readWithin d (depth + 1) = readUsing d (readWithin d depth) := rfl

/-- What is cut off behind a root is shorter than the whole variant. -/
theorem length_lt_of_mem_hyphenCuts (hs : splitModifier? raw = some (base, m))
    (h : (root, rest) ∈ hyphenCuts base) : rest.length < raw.length := by
  obtain ⟨tail, rfl, -⟩ := exists_of_splitModifier? hs
  obtain rfl := eq_of_mem_hyphenCuts h
  simp only [List.length_append, List.length_cons]
  omega

/-- Only shorter texts are read as inner variants. -/
theorem readUsing_congr {f g : Text → Option Variant}
    (h : ∀ rest : Text, rest.length < raw.length → f rest = g rest) :
    readUsing d f raw = readUsing d g raw := by
  unfold readUsing
  split
  · rfl
  · split
    · rfl
    · split
      · rfl
      · split
        · rfl
        · rename_i base m hs
          split
          · rfl
          · refine findSome?_congr ?_
            rintro ⟨root, rest⟩ hmem
            rw [ofRoot?, ofRoot?, h rest (length_lt_of_mem_hyphenCuts hs hmem)]

/-- A bound beyond the length of the text changes nothing. -/
theorem readWithin_congr {depth depth' : Nat} (h : raw.length < depth) (h' : raw.length < depth') :
    readWithin d depth raw = readWithin d depth' raw := by
  induction depth generalizing raw depth' with
  | zero => omega
  | succ depth ih =>
    obtain ⟨depth', rfl⟩ := Nat.exists_eq_succ_of_ne_zero (Nat.ne_zero_of_lt h')
    rw [readWithin_succ, Nat.succ_eq_add_one, readWithin_succ]
    refine readUsing_congr ?_
    intro rest hrest
    exact ih (by omega) (by omega)

/-- A variant is read by reading shorter ones. -/
theorem read?_eq (d : DesignSystem) (raw : Text) :
    Variant.read? d raw = readUsing d (Variant.read? d) raw := by
  rw [Variant.read?, readWithin_succ]
  refine readUsing_congr ?_
  intro rest hrest
  exact readWithin_congr hrest (Nat.lt_succ_self _)

/-- A balanced text that is no fragment in brackets, does not stand alone and does not begin with
the at sign is read at its cuts. -/
theorem read?_of_cuts (hb : isBalanced raw = true) (hbr : between? '[' ']' raw = none)
    (hst : raw ∉ d.staticVariants) (hs : splitModifier? raw = some (base, m))
    (hat : startsWith raw ['@'] = false) : Variant.read? d raw
      = (hyphenCuts base).findSome? (ofRoot? d m (Variant.read? d)) := by
  obtain ⟨tail, htail, -⟩ := exists_of_splitModifier? hs
  have hbase : startsWith base ['@'] = false := by
    rw [← Bool.not_eq_true]
    intro h
    obtain ⟨r, rfl⟩ := startsWith_iff.1 h
    rw [htail] at hat
    exact absurd hat (by simp [startsWith_singleton])
  by_cases hne : raw = []
  · subst hne
    obtain ⟨rfl, -⟩ := List.append_eq_nil_iff.1 htail.symm
    rw [read?_eq]
    rfl
  · have hempty : raw.isEmpty = false := List.isEmpty_eq_false_iff.2 hne
    have hstatic : d.staticVariants.contains raw = false := by
      rw [← Bool.not_eq_true, List.contains_iff_mem]
      exact hst
    rw [read?_eq, readUsing, hempty, hb, hbr]
    simp [hst, hs, hbase]

end Variant

/-! ## Roots of a design system -/

/-- No root that something stands behind holds a bracket in which no hyphen is cut at. -/
def DesignSystem.HasPlainRoots (d : DesignSystem) : Prop :=
  ∀ root ∈ d.functionalUtilities ++ d.functionalVariants ++ d.compoundVariants, IsUnguarded root

instance decidableHasPlainRoots (d : DesignSystem) : Decidable d.HasPlainRoots :=
  List.decidableBAll IsUnguarded _

/-- The text is a root of a utility, a hyphen and what is read as the value. -/
def Utility.TakesRoot (d : DesignSystem) (base root : Text) (value : Value) : Prop :=
  root ≠ [] ∧ root ∈ d.functionalUtilities ∧
    ∃ rest, base = root ++ '-' :: rest ∧ Value.read? rest = some value

/-- The text is a root of a variant, a hyphen and what is read as a variant inside it or as its
value.  A root of both kinds takes variants only. -/
def Variant.TakesRoot (d : DesignSystem) (base : Text) (m : Option Modifier) (root : Text)
    (v : Variant) : Prop :=
  root ≠ [] ∧ ∃ rest, base = root ++ '-' :: rest ∧
    ((root ∈ d.compoundVariants ∧
        ∃ inner, Variant.read? d rest = some inner ∧ v = .compound root inner m) ∨
      (root ∉ d.compoundVariants ∧ root ∈ d.functionalVariants ∧
        ∃ value, Value.read? rest = some value ∧ v = .functional root value m))

theorem ne_nil_of_value (h : Value.read? rest ≠ none) : rest ≠ [] := by
  rintro rfl
  exact h rfl

theorem Variant.ne_nil_of_read? (h : Variant.read? d rest ≠ none) : rest ≠ [] := by
  rintro rfl
  exact h rfl

theorem Utility.comesOf_ofRoot?_iff {u : Utility} : ComesOf (Utility.ofRoot? d m) base root u ↔
    ∃ value, Utility.TakesRoot d base root value ∧ u = Utility.ofParts root value m := by
  constructor
  · rintro ⟨hroot, rest, hbase, hu⟩
    rw [Utility.ofRoot?] at hu
    split_ifs at hu with hmem
    obtain ⟨value, hv, rfl⟩ := Option.map_eq_some_iff.1 hu
    exact ⟨value, ⟨hroot, List.contains_iff_mem.1 hmem, rest, hbase, hv⟩, rfl⟩
  · rintro ⟨value, ⟨hroot, hmem, rest, hbase, hv⟩, rfl⟩
    refine ⟨hroot, rest, hbase, ?_⟩
    rw [Utility.ofRoot?, if_pos (List.contains_iff_mem.2 hmem), hv]
    rfl

theorem Variant.comesOf_ofRoot?_iff {v : Variant} :
    ComesOf (Variant.ofRoot? d m (Variant.read? d)) base root v ↔ Variant.TakesRoot d base m root v := by
  refine and_congr_right fun _ => exists_congr fun rest => and_congr_right fun _ => ?_
  rw [Variant.ofRoot?]
  by_cases hc : root ∈ d.compoundVariants
  · rw [if_pos (List.contains_iff_mem.2 hc), Option.map_eq_some_iff]
    simp [hc, eq_comm]
  · rw [if_neg (by rwa [List.contains_iff_mem])]
    by_cases hf : root ∈ d.functionalVariants
    · rw [if_pos (List.contains_iff_mem.2 hf), Option.map_eq_some_iff]
      simp [hc, hf, eq_comm]
    · rw [if_neg (by rwa [List.contains_iff_mem])]
      simp [hc, hf]

/-- A text that is no declaration in brackets and does not stand alone is read at the cuts of what
the modifier is taken off. -/
theorem Utility.read?_of_cuts (hs : splitModifier? t = some (base, m))
    (hbr : between? '[' ']' base = none)
    (hst : ¬(base ∈ d.staticUtilities ∧ (m = none ∨ d.takesModifier base = true))) :
    Utility.read? d t = (hyphenCuts base).findSome? (Utility.ofRoot? d m) := by
  have hstatic : ¬(d.staticUtilities.contains base && (m.isNone || d.takesModifier base)) = true := by
    simpa [List.contains_iff_mem] using hst
  rw [Utility.read?, hs]
  dsimp only
  rw [hbr]
  dsimp only
  rw [if_neg hstatic]
  rfl

theorem Utility.ofParts_none (root : Text) (value : Value) :
    Utility.ofParts root value none = .functional root value none := by
  cases value <;> rfl

namespace DesignSystem.HasPlainRoots

variable (h : d.HasPlainRoots)

include h

theorem unguarded_of_utility (hne : Utility.ofRoot? d m (root, rest) ≠ none) :
    IsUnguarded root ∧ rest ≠ [] := by
  rw [Utility.ofRoot?] at hne
  split_ifs at hne with hmem
  · refine ⟨h root ?_, ne_nil_of_value ?_⟩
    · simp [List.contains_iff_mem.1 hmem]
    · simpa using hne
  · exact absurd rfl hne

theorem unguarded_of_variant (hne : Variant.ofRoot? d m (Variant.read? d) (root, rest) ≠ none) :
    IsUnguarded root ∧ rest ≠ [] := by
  rw [Variant.ofRoot?] at hne
  split_ifs at hne with hc hf
  · refine ⟨h root ?_, Variant.ne_nil_of_read? (d := d) ?_⟩
    · simp [List.contains_iff_mem.1 hc]
    · simpa using hne
  · refine ⟨h root ?_, ne_nil_of_value ?_⟩
    · simp [List.contains_iff_mem.1 hf]
    · simpa using hne
  · exact absurd rfl hne

section

variable (hs : splitModifier? t = some (base, m)) (hbr : between? '[' ']' base = none)
  (hst : ¬(base ∈ d.staticUtilities ∧ (m = none ∨ d.takesModifier base = true)))

include hs hbr hst

theorem utility_iff (u : Utility) : Utility.read? d t = some u ↔
    ∃ root value, IsLongest (Utility.TakesRoot d base) root value ∧
      u = Utility.ofParts root value m := by
  rw [Utility.read?_of_cuts hs hbr hst,
    findSome?_hyphenCuts_iff fun root rest => unguarded_of_utility h]
  have hcomes : ∀ root u, ComesOf (Utility.ofRoot? d m) base root u ↔
      ∃ value, Utility.TakesRoot d base root value ∧ u = Utility.ofParts root value m :=
    fun root u => Utility.comesOf_ofRoot?_iff
  exact exists_congr fun root => isLongest_iff hcomes

theorem utility_none_iff : Utility.read? d t = none ↔
    ∀ root value, ¬Utility.TakesRoot d base root value := by
  rw [Utility.read?_of_cuts hs hbr hst,
    findSome?_hyphenCuts_eq_none_iff fun root rest => unguarded_of_utility h]
  constructor
  · intro hno root value htakes
    exact hno root _ (Utility.comesOf_ofRoot?_iff.2 ⟨value, htakes, rfl⟩)
  · intro hno root u hcomes
    obtain ⟨value, htakes, -⟩ := Utility.comesOf_ofRoot?_iff.1 hcomes
    exact hno root value htakes

end

section

variable (hb : isBalanced raw = true) (hbr : between? '[' ']' raw = none)
  (hst : raw ∉ d.staticVariants) (hs : splitModifier? raw = some (base, m))
  (hat : startsWith raw ['@'] = false)

include hb hbr hst hs hat

theorem variant_iff (v : Variant) : Variant.read? d raw = some v ↔
    ∃ root, IsLongest (Variant.TakesRoot d base m) root v := by
  rw [Variant.read?_of_cuts hb hbr hst hs hat,
    findSome?_hyphenCuts_iff fun root rest => unguarded_of_variant h]
  simp only [IsLongest, Variant.comesOf_ofRoot?_iff]

theorem variant_none_iff : Variant.read? d raw = none ↔
    ∀ root v, ¬Variant.TakesRoot d base m root v := by
  rw [Variant.read?_of_cuts hb hbr hst hs hat,
    findSome?_hyphenCuts_eq_none_iff fun root rest => unguarded_of_variant h]
  simp only [Variant.comesOf_ofRoot?_iff]

end

/-- In every design system whose roots hold no brackets, a utility that is no declaration in
brackets and does not stand alone has the longest root with a hyphen and a value behind it, and a
variant of which the same can be said has the longest root with a hyphen and an inner variant or a
value behind it.  Neither is read only where there is no such root at all. -/
theorem read?_iff :
    (∀ t base m, splitModifier? t = some (base, m) → between? '[' ']' base = none →
      ¬(base ∈ d.staticUtilities ∧ (m = none ∨ d.takesModifier base = true)) →
      (∀ u, Utility.read? d t = some u ↔ ∃ root value,
        IsLongest (Utility.TakesRoot d base) root value ∧ u = Utility.ofParts root value m) ∧
      (m = none → ∀ root value, Utility.read? d t = some (.functional root value none) ↔
        IsLongest (Utility.TakesRoot d base) root value) ∧
      (Utility.read? d t = none ↔ ∀ root value, ¬Utility.TakesRoot d base root value)) ∧
    (∀ raw base m, isBalanced raw = true → between? '[' ']' raw = none →
      raw ∉ d.staticVariants → splitModifier? raw = some (base, m) →
      startsWith raw ['@'] = false →
      (∀ v, Variant.read? d raw = some v ↔
        ∃ root, IsLongest (Variant.TakesRoot d base m) root v) ∧
      (Variant.read? d raw = none ↔ ∀ root v, ¬Variant.TakesRoot d base m root v)) := by
  constructor
  · intro t base m hs hbr hst
    refine ⟨h.utility_iff hs hbr hst, ?_, h.utility_none_iff hs hbr hst⟩
    rintro rfl root value
    rw [h.utility_iff hs hbr hst]
    constructor
    · rintro ⟨root', value', hlongest, heq⟩
      rw [Utility.ofParts_none] at heq
      cases heq
      exact hlongest
    · intro hlongest
      exact ⟨root, value, hlongest, (Utility.ofParts_none root value).symm⟩
  · intro raw base m hb hbr hst hs hat
    exact ⟨h.variant_iff hb hbr hst hs hat, h.variant_none_iff hb hbr hst hs hat⟩

end DesignSystem.HasPlainRoots

/-- Of the roots `rounded` and `rounded-t` the longer one is taken, and a variant around another one
leaves everything behind its root to that. -/
theorem DesignSystem.builtIn_longestRoot : builtIn.HasPlainRoots ∧
    IsLongest (Utility.TakesRoot builtIn "rounded-t-1".toList) "rounded-t".toList
      (.named "1".toList none) ∧
    IsLongest (Variant.TakesRoot builtIn "group-data-[a-b]".toList (some (.named "menu".toList)))
      "group".toList (.compound "group".toList
        (.functional "data".toList (.arbitrary ⟨"a-b".toList, none⟩) none)
        (some (.named "menu".toList))) := by
  have hplain : builtIn.HasPlainRoots := by decide +kernel
  obtain ⟨hutility, hvariant⟩ := hplain.read?_iff
  refine ⟨hplain, ?_, ?_⟩
  · obtain ⟨-, hiff, -⟩ := hutility "rounded-t-1".toList "rounded-t-1".toList none
      (by decide +kernel) (by decide +kernel) (by decide +kernel)
    exact (hiff rfl _ _).1 (by decide +kernel)
  · obtain ⟨hiff, -⟩ := hvariant "group-data-[a-b]/menu".toList "group-data-[a-b]".toList
      (some (.named "menu".toList)) (by decide +kernel) (by decide +kernel) (by decide +kernel)
      (by decide +kernel) (by decide +kernel)
    obtain ⟨root, htakes, hmax⟩ := (hiff (.compound "group".toList
      (.functional "data".toList (.arbitrary ⟨"a-b".toList, none⟩) none)
      (some (.named "menu".toList)))).1 (by decide +kernel)
    obtain ⟨hne, rest, hbase, hform⟩ := htakes
    obtain rfl : root = "group".toList := by
      rcases hform with ⟨-, inner, -, hv⟩ | ⟨-, -, value, -, hv⟩
      · cases hv
        rfl
      · cases hv
    exact ⟨⟨hne, rest, hbase, hform⟩, hmax⟩

end SkinCompiler
