import SkinCompiler.Proofs.Style.TokenReport
import SkinCompiler.Proofs.Text.Blank

/-!
# Styles with another token

One token of a key is replaced by another.  What is found in the new token is among the findings;
and if the new token does the same as the old one, the rules stay as they are.

* `mem_diagnostics_iff` -- the findings of styles are those of their tokens;
* `mem_diagnostics_replaceToken` -- what is found in the new token is reported;
* `rules_replaceToken` -- a token that does the same leaves the rules as they are.
-/

namespace SkinCompiler.Style

open Text

variable {o : Options} {styles : Table Text} {key token token' classes : Text} {x : Diagnostic}

/-! ## Replacing a token -/

/-- The tokens of a row with another token in place of one of them. -/
def replaceInRow (token token' classes : Text) : Text :=
  join " " ((words classes).map fun t => if t = token then token' else t)

/-- Styles with another token in place of one of a key. -/
def replaceToken (key token token' : Text) (styles : Table Text) : Table Text :=
  styles.map fun (k, classes) =>
    (k, if k = key then replaceInRow token token' classes else classes)

/-- A text that is one class token. -/
def IsToken (t : Text) : Prop := t ≠ [] ∧ ∀ c ∈ t, isBlank c = false

theorem words_replaceInRow (h : IsToken token') : words (replaceInRow token token' classes)
    = (words classes).map fun t => if t = token then token' else t := by
  refine words_join fun w hw => ?_
  obtain ⟨t, ht, rfl⟩ := List.mem_map.1 hw
  split_ifs
  · exact h
  · exact of_mem_words ht

theorem mem_replaceToken (h : (key, classes) ∈ styles) :
    (key, replaceInRow token token' classes) ∈ replaceToken key token token' styles :=
  List.mem_map.2 ⟨_, h, by simp⟩

/-! ## Findings -/

/-- The findings of styles are those of their tokens. -/
theorem mem_diagnostics_iff : x ∈ (compile o styles).diagnostics ↔ ∃ e ∈ entries o styles,
    ∃ p ∈ e.tokens, x ∈ findings (selectorContext o.theme (entries o styles)) e.selector e.key p := by
  have hblock (e : Entry) := (block_isOf (selectorContext o.theme (entries o styles)) e).diagnostics
  simp only [Compiled.diagnostics, compile, List.mem_flatMap, List.mem_map, exists_exists_and_eq_and,
    hblock]

theorem of_mem_entries {e : Entry} (h : e ∈ entries o styles) : ∃ classes,
    (e.key, classes) ∈ styles ∧
      e.tokens = (words classes).map fun t => (t, Candidate.read? o.designSystem t) := by
  obtain ⟨⟨k, classes⟩, hrow, rfl⟩ := List.mem_map.1 h
  exact ⟨classes, hrow, rfl⟩

/-- What is found in the new token, wherever it stands, is reported. -/
theorem mem_diagnostics_replaceToken (hrow : (key, classes) ∈ styles) (htoken : token ∈ words classes)
    (hword : IsToken token')
    (hx : ∀ context selector, context.theme = o.theme →
      x ∈ findings context selector key (token', Candidate.read? o.designSystem token')) :
    x ∈ (compile o (replaceToken key token token' styles)).diagnostics := by
  refine mem_diagnostics_iff.2 ⟨_, List.mem_map.2 ⟨_, mem_replaceToken hrow, rfl⟩,
    (token', Candidate.read? o.designSystem token'), ?_, hx _ _ rfl⟩
  refine List.mem_map.2 ⟨token', ?_, rfl⟩
  rw [words_replaceInRow hword]
  exact List.mem_map.2 ⟨token, htoken, if_pos rfl⟩

/-! ## Rules -/

theorem isRule_rightUnique (context : SelectorContext) (selector : Text) (ems : List Emission) :
    Relator.RightUnique (IsRule context selector ems) := by
  rintro vs rule rule' ⟨r, hr, rfl⟩ ⟨r', hr', rfl⟩
  cases hr.symm.trans hr'
  rfl

/-- The rules of a key depend on what its tokens emit. -/
theorem Block.IsOf.rules_eq {context : SelectorContext} {e e' : Entry} {b b' : Block}
    (h : b.IsOf context e) (h' : b'.IsOf context e') (hselector : e'.selector = e.selector)
    (hemissions : emissions context e'.selector e'.tokens
      = emissions context e.selector e.tokens) : b'.rules = b.rules := by
  have hrules := h'.rules
  rw [hemissions, hselector] at hrules
  exact (isRule_rightUnique ..).forall₂ hrules h.rules

/-- Both candidates mark their element and declare in the same way. -/
structure DoesSame (theme : Theme) (c c' : Candidate) : Prop where
  marker : isMarker c' = isMarker c
  marks : ∀ marker, markedName? marker c' = markedName? marker c
  declarations : declarationsOf? theme c' = declarationsOf? theme c
  variants : c'.variants = c.variants

theorem DoesSame.emission?_eq {context : SelectorContext} {c c' : Candidate}
    (h : DoesSame context.theme c c') (selector : Text) :
    emission? context selector c' = emission? context selector c := by
  rw [emission?, emission?, h.marker, h.declarations, h.variants]

/-- The entry of a key with another token in place of one of its tokens. -/
def Entry.replaceToken (o : Options) (key token token' : Text) (e : Entry) : Entry :=
  if e.key = key then
    { e with tokens := e.tokens.map fun p =>
        if p.1 = token then (token', Candidate.read? o.designSystem token') else p }
  else e

/-- Where the class names are the keys, the entries stay as they are but for that token. -/
theorem entries_replaceToken (hpattern : present o.pattern = none) (hword : IsToken token') :
    entries o (replaceToken key token token' styles)
      = (entries o styles).map (Entry.replaceToken o key token token') := by
  have hname (k classes : Text) : className o.pattern k classes = k := by
    rw [className, hpattern]
  rw [entries, entries, replaceToken, List.map_map, List.map_map]
  refine List.map_congr_left fun row _ => ?_
  obtain ⟨k, classes⟩ := row
  simp only [Function.comp_apply, hname, Entry.replaceToken]
  split_ifs with hk
  · rw [words_replaceInRow hword, List.map_map, List.map_map]
    congr 1
    refine List.map_congr_left fun t _ => ?_
    simp only [Function.comp_apply]
    split_ifs <;> rfl
  · rfl

@[simp] theorem Entry.key_replaceToken (e : Entry) :
    (e.replaceToken o key token token').key = e.key := by
  rw [Entry.replaceToken]
  split_ifs <;> rfl

@[simp] theorem Entry.selector_replaceToken (e : Entry) :
    (e.replaceToken o key token token').selector = e.selector := by
  rw [Entry.replaceToken]
  split_ifs <;> rfl

section

variable {c c' : Candidate} (hread : Candidate.read? o.designSystem token = some c)
  (hread' : Candidate.read? o.designSystem token' = some c')

include hread hread'

/-- What is made of the tokens of an entry is the same, if the same is made of the new token. -/
theorem filterMap_replaceToken {α : Type} {f : Candidate → Option α} (hf : f c' = f c) {e : Entry}
    (he : e ∈ entries o styles) :
    (e.replaceToken o key token token').tokens.filterMap (fun p => p.2.bind f)
      = e.tokens.filterMap fun p => p.2.bind f := by
  rw [Entry.replaceToken]
  split_ifs
  · dsimp only
    rw [List.filterMap_map]
    refine List.filterMap_congr fun p hp => ?_
    have hp' := snd_eq_of_mem_tokens he hp
    simp only [Function.comp_apply]
    split_ifs with ht
    · rw [hp', ht, hread, hread', Option.bind_some, Option.bind_some, hf]
    · rfl
  · rfl

/-- The elements are marked in the same way. -/
theorem selectorContext_replaceToken (h : DoesSame o.theme c c') :
    selectorContext o.theme ((entries o styles).map (Entry.replaceToken o key token token'))
      = selectorContext o.theme (entries o styles) := by
  have hanchors (marker : Text) :
      anchors marker ((entries o styles).map (Entry.replaceToken o key token token'))
        = anchors marker (entries o styles) := by
    have hmarks (e : Entry) (he : e ∈ entries o styles) :
        (e.replaceToken o key token token').marks marker = e.marks marker :=
      filterMap_replaceToken hread hread' (h.marks marker) he
    rw [anchors, anchors, List.flatMap_map]
    congr 1
    refine List.flatMap_congr fun e he => ?_
    rw [hmarks e he, Entry.selector_replaceToken]
  rw [selectorContext, selectorContext, hanchors, hanchors]

/-- A token that does the same as another one leaves the rules as they are in its place. -/
theorem rules_replaceToken (h : DoesSame o.theme c c') (hpattern : present o.pattern = none)
    (hword : IsToken token') :
    (compile o (replaceToken key token token' styles)).rules = (compile o styles).rules := by
  simp only [Compiled.rules, compile]
  rw [entries_replaceToken hpattern hword, selectorContext_replaceToken hread hread' h,
    List.map_map, List.flatMap_map, List.flatMap_map]
  refine List.flatMap_congr fun e he => ?_
  refine (block_isOf _ e).rules_eq (block_isOf _ _) (Entry.selector_replaceToken e) ?_
  rw [Entry.selector_replaceToken]
  exact filterMap_replaceToken hread hread' (DoesSame.emission?_eq h e.selector) he

end

end SkinCompiler.Style
