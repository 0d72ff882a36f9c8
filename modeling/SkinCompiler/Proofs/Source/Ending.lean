import SkinCompiler.Proofs.Source.Grammar
import SkinCompiler.Proofs.Text.Blank

/-!
# How what is read ends

Blanks are gaps between terminals.  No terminal ends with one, and so nothing that is read does:
the last character of a construct is that of its last terminal.

* `Terminal.isSolidAt` -- no terminal ends with a blank;
* `readsRow_isSolidAt` -- no construct does.
-/

namespace SkinCompiler.Source

open Grammar Text

namespace Terminal

variable {s t w : Text} {n : Nat}

/-! ## Spellings -/

/-- A text does not end with a blank. -/
def endsSolid (t : Text) : Bool := t.getLast?.all fun c => !isBlank c

/-- What the terminal is spelled with does not end with a blank. -/
def isSolid : Terminal → Bool
  | .mark s => endsSolid s
  | .keyword w => endsSolid w
  | .operator spellings => spellings.all endsSolid
  | _ => true

theorem isSolidAt_append (h : endsSolid s = true) (hs : s ≠ []) (t : Text) :
    IsSolidAt (s ++ t) s.length := by
  have hlast := List.getLast?_eq_some_getLast hs
  have hlt : s.length - 1 < s.length := Nat.sub_lt (List.length_pos_iff.2 hs) Nat.one_pos
  refine ⟨s.getLast hs, ?_, ?_⟩
  · rw [List.getElem?_append_left hlt, ← List.getLast?_eq_getElem?, hlast]
  · rw [endsSolid, hlast] at h
    simpa using h

theorem isSolidAt_spelling? (h : spelling? s t = some n) (hs : endsSolid s = true) (hn : 0 < n) :
    IsSolidAt t n := by
  obtain ⟨rfl, rest, rfl⟩ := spelling?_eq_some_iff.1 h
  exact isSolidAt_append hs (List.length_pos_iff.1 hn) rest

theorem isSolidAt_word? (h : word? w t = some n) (hw : endsSolid w = true) (hn : 0 < n) :
    IsSolidAt t n := by
  obtain ⟨rfl, rest, rfl⟩ := word?_eq_some h
  exact isSolidAt_append hw (List.length_pos_iff.1 hn) rest

/-! ## Names and numbers -/

/-- A text of characters of a class without blanks. -/
theorem isSolidAt_of_all {p : Char → Bool} (hp : ∀ c, p c = true → isBlank c = false)
    (h : (t.take n).all p = true) (hn : 0 < n) (hlength : n ≤ t.length) : IsSolidAt t n := by
  have hlt : n - 1 < t.length := by omega
  refine ⟨t[n - 1], List.getElem?_eq_getElem hlt, hp _ (List.all_eq_true.1 h _ ?_)⟩
  exact List.mem_take_iff_getElem.2 ⟨n - 1, by omega, rfl⟩

theorem take_length_takeWhile (p : Char → Bool) (t : Text) :
    t.take (t.takeWhile p).length = t.takeWhile p :=
  (List.prefix_iff_eq_take.1 (List.takeWhile_prefix p)).symm

theorem isSolidAt_name? {part : Char → Bool}
    (hpart : ∀ n ∈ blankPoints, part (Char.ofNat n) = false) (h : name? part t = some n) : IsSolidAt t n := by
  have hlength := length_le_of_name? h
  have hstart : ∀ n ∈ blankPoints, isNameStart (Char.ofNat n) = false := by decide
  unfold name? at h
  split at h
  · rename_i c rest
    split at h
    · rename_i hc
      obtain rfl := Option.some.inj h
      refine isSolidAt_of_all (p := fun c => isNameStart c || part c) ?_ ?_ (by omega) hlength
      · intro c
        refine isBlank_eq_false (p := fun c => isNameStart c || part c) fun n hn => ?_
        rw [hstart n hn, hpart n hn]
        rfl
      · rw [Nat.add_comm, List.take_succ_cons, take_length_takeWhile, List.all_cons, hc,
          List.all_eq_true.2 fun x hx => by rw [List.mem_takeWhile_imp hx, Bool.or_true]]
        rfl
    · cases h
  · cases h

/-- The characters of numbers. -/
def isNumeral (c : Char) : Bool :=
  isDecimal c || c == '.' || c == 'e' || c == 'E' || c == '+' || c == '-'

theorem all_take_add {p : Char → Bool} {m k : Nat} (h : (t.take m).all p = true)
    (h' : ((t.drop m).take k).all p = true) : (t.take (m + k)).all p = true := by
  rw [List.take_add, List.all_append, h, h']
  rfl

theorem all_take_digits (t : Text) :
    (t.take (t.takeWhile isDecimal).length).all isNumeral = true := by
  rw [take_length_takeWhile, List.all_eq_true]
  intro c hc
  simp [isNumeral, List.mem_takeWhile_imp hc]

theorem all_take_exponentLength (t : Text) :
    (t.take (exponentLength t)).all isNumeral = true := by
  unfold exponentLength
  dsimp only
  split
  · rename_i e u
    split
    · rename_i he
      have hmark : isNumeral e = true := by
        rcases Bool.or_eq_true _ _ ▸ he with he | he <;> simp [isNumeral, he]
      split
      · rename_i s v
        split
        · rename_i hs
          have hsign : isNumeral s = true := by
            rcases Bool.or_eq_true _ _ ▸ hs with hs | hs <;> simp [isNumeral, hs]
          split
          · rfl
          · refine all_take_add ?_ (all_take_digits v)
            simp [hmark, hsign]
        · split
          · rfl
          · refine all_take_add ?_ (all_take_digits (s :: v))
            simp [hmark]
      · rfl
    · rfl
  · rfl

theorem all_take_number? (h : number? t = some n) : (t.take n).all isNumeral = true := by
  -- the digits before and after the point, and then the exponent
  have key : ∀ length : Nat, (t.take length).all isNumeral = true →
      (if (length == 0) = true then none else some (length + exponentLength (t.drop length))) =
        some n → (t.take n).all isNumeral = true := by
    intro length hlength hsome
    split at hsome
    · cases hsome
    · obtain rfl := Option.some.inj hsome
      exact all_take_add hlength (all_take_exponentLength _)
  have hdrop : t.drop (t.takeWhile isDecimal).length = t.dropWhile isDecimal := by
    have happend := List.takeWhile_append_dropWhile (p := isDecimal) (l := t)
    nth_rewrite 2 [← happend]
    exact List.drop_left
  unfold number? at h
  dsimp only at h
  split at h
  · rename_i rest hrest
    refine key _ ?_ h
    split
    · rfl
    · rw [Nat.add_assoc]
      refine all_take_add (all_take_digits t) ?_
      rw [hdrop, hrest]
      exact all_take_add (by simp [isNumeral]) (all_take_digits rest)
  · exact key _ (all_take_digits t) h

/-! ## Runs -/

theorem isSolidAt_run? (h : run? t = some n) (hn : 0 < n) : IsSolidAt t n := by
  unfold run? at h
  split at h
  · rename_i c rest
    split at h
    · cases h
    · obtain rfl := Option.some.inj h
      obtain ⟨gap, -, hgap, hlast⟩ := exists_trimRight ((c :: rest).takeWhile fun c => !endsRun c)
      have hsolid := isSolidAt_append (Option.all_eq_true _ _ |>.2 fun x hx => by simp [hlast x hx])
        (List.length_pos_iff.1 hn) (gap ++ (c :: rest).dropWhile fun c => !endsRun c)
      rwa [← List.append_assoc, ← hgap, List.takeWhile_append_dropWhile] at hsolid
  · cases h

/-! ## All terminals -/

/-- No terminal ends with a blank. -/
theorem isSolidAt : ∀ terminal : Terminal, terminal.isSolid = true →
    terminal.measure t = some n → 0 < n → IsSolidAt t n
  | .mark _, hsolid, h, hn => isSolidAt_spelling? h hsolid hn
  | .keyword _, hsolid, h, hn => isSolidAt_word? h hsolid hn
  | .bindingWord, _, h, hn => by
    obtain ⟨w, hw, hword⟩ := List.exists_of_findSome?_eq_some h
    have hsolid : ∀ w ∈ ["const".toList, "let".toList, "var".toList], endsSolid w = true := by
      decide
    exact isSolidAt_word? hword (hsolid w hw) hn
  | .name, _, h, _ => by
    cases t with
    | nil => cases h
    | cons c t =>
      simp only [measure] at h
      split at h
      · exact isSolidAt_name? (by decide +kernel) h
      · cases h
  | .property, _, h, _ | .tag, _, h, _ | .attribute, _, h, _ =>
    isSolidAt_name? (by decide +kernel) h
  | .string, _, h, _ => by
    obtain ⟨m, rfl, hm⟩ := getElem?_string? h
    rcases hm with hm | hm
    · exact ⟨'"', hm, by decide⟩
    · exact ⟨'\'', hm, by decide⟩
  | .template, _, h, _ => by
    obtain ⟨m, rfl, hm⟩ := getElem?_template? h
    exact ⟨'\x60', hm, by decide⟩
  | .number, _, h, hn =>
    isSolidAt_of_all (fun _ => isBlank_eq_false (by decide)) (all_take_number? h) hn
      (length_le_of_number? h)
  | .run, _, h, hn => isSolidAt_run? h hn
  | .operator _, hsolid, h, hn => by
    obtain ⟨s, hs, hspelling⟩ := List.exists_of_findSome?_eq_some h
    exact isSolidAt_spelling? hspelling (List.all_eq_true.1 hsolid s hs) hn

end Terminal

/-! ## Constructs -/

variable {text : Text}

/-- What the symbol is spelled with, if it is a terminal, does not end with a blank. -/
def isSolid : Grammar.Symbol Terminal Category → Bool
  | .terminal t => t.isSolid
  | .category _ => true

/-- Every terminal of the grammar is spelled without a blank at its end. -/
theorem isSolid_of_mem_rulesOf {c : Category} {r : Grammar.Rule Terminal Category Form}
    (hr : r ∈ grammar.rulesOf c) : ∀ s ∈ r.body, ∀ t, s = .terminal t → t.isSolid = true := by
  have hrules : ∀ rules ∈ grammar.rules.toList, ∀ r ∈ rules, r.body.all isSolid = true := by
    decide
  obtain ⟨rules, hmem, hr⟩ := exists_rules hr
  rintro s hs t rfl
  exact List.all_eq_true.1 (hrules rules hmem r hr) _ hs

mutual

theorem reads_isSolidAt : ∀ {d : Derivation Terminal Category Form} {a b : Nat},
    (∀ t, d.symbol = .terminal t → t.isSolid = true) → Reads grammar text d a b →
      IsSolidAt text b
  | _, a, b, hsolid, .terminal lt hmeasure => by
    obtain ⟨c, hc, hblank⟩ := Terminal.isSolidAt _ (hsolid _ rfl) hmeasure (Nat.sub_pos_of_lt lt)
    rw [List.getElem?_drop, show a + (b - a - 1) = b - 1 by omega] at hc
    exact ⟨c, hc, hblank⟩
  | _, _, _, _, .node rule_mem symbols row => by
    refine readsRow_isSolidAt_of_forall ?_ row
    intro d hd
    refine isSolid_of_mem_rulesOf rule_mem d.symbol ?_
    rw [← symbols]
    exact List.mem_map_of_mem hd

theorem readsRow_isSolidAt_of_forall :
    ∀ {ds : List (Derivation Terminal Category Form)} {a b : Nat},
      (∀ d ∈ ds, ∀ t, d.symbol = .terminal t → t.isSolid = true) →
        ReadsRow grammar text ds a b → IsSolidAt text b
  | _, _, _, hsolid, .one first => reads_isSolidAt (hsolid _ List.mem_cons_self) first
  | _, _, _, hsolid, .cons _ _ rest =>
    readsRow_isSolidAt_of_forall (fun d hd => hsolid d (List.mem_cons_of_mem _ hd)) rest

end

/-- What a rule reads does not end with a blank. -/
theorem readsRow_isSolidAt {c : Category} {r : Grammar.Rule Terminal Category Form}
    {ds : List (Derivation Terminal Category Form)} {a b : Nat} (hr : r ∈ grammar.rulesOf c)
    (hsymbols : ds.map Derivation.symbol = r.body) (hrow : ReadsRow grammar text ds a b) :
    IsSolidAt text b := by
  refine readsRow_isSolidAt_of_forall ?_ hrow
  intro d hd
  refine isSolid_of_mem_rulesOf hr d.symbol ?_
  rw [← hsymbols]
  exact List.mem_map_of_mem hd

end SkinCompiler.Source
