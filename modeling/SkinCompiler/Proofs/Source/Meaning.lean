import Mathlib.Data.List.Infix
import SkinCompiler.Proofs.Source.Face
import SkinCompiler.Proofs.Source.Spelling

/-!
# Texts that have a meaning whichever way they are read

Building a construct fails only at the placeholders of a template literal and at a closing tag that
does not repeat the opening one.  A text without these terminals has a meaning by every derivation.

* `Lacks` -- a text in which a terminal stands nowhere;
* `isInvariant_tags` -- tags are read from tag names alone;
* `exists_phrases_of_lacks` -- texts without template literals and closing tags.
-/

namespace SkinCompiler.Source

open Grammar

variable {r : Reader} {form : Form} {span : Span} {ps qs : List Phrase} {text : Text}
  {d : Derivation Terminal Category Form} {ds : List (Derivation Terminal Category Form)}
  {a b m : Nat} {x : Terminal} {c : Category}

/-! ## Missing terminals -/

/-- The terminal stands nowhere in the text. -/
def Lacks (x : Terminal) (text : Text) : Prop := ∀ t ∈ text.tails, x.measure t = none

instance (x : Terminal) (text : Text) : Decidable (Lacks x text) :=
  inferInstanceAs (Decidable (∀ t ∈ _, _))

/-- What is read from a text has no terminals that it lacks. -/
theorem Lacks.not_mem (h : Lacks x text) (hrow : ReadsRow grammar text ds a b) :
    .terminal x ∉ ds.map Derivation.symbol := by
  intro hmem
  obtain ⟨d, hd, hsymbol⟩ := List.mem_map.1 hmem
  obtain ⟨m, n, -, -, hreads⟩ := hrow.exists_reads hd
  have hmeasure : x.measure (text.drop m) = some (n - m) := hreads.of_terminal hsymbol
  rw [h _ ((List.mem_tails _ _).2 (List.drop_suffix m text))] at hmeasure
  cases hmeasure

/-! ## Tags -/

/-- The names of the tags among phrases. -/
def tags (ps : List Phrase) : List Text := ps.filterMap Phrase.tag?

theorem tags_append (ps qs : List Phrase) : tags (ps ++ qs) = tags ps ++ tags qs :=
  List.filterMap_append

/-- Where tag names stand: they are tags, and nothing else is.  An element that closes itself has one,
and no other construct has any but an element with a closing tag, which has the mark of one. -/
def PlacesTags (r : Grammar.Rule Terminal Category Form) : Prop :=
  (r.head = .tagName ↔ r.form = .tag) ∧
    (r.form = .element → .terminal (.mark "</") ∈ r.body) ∧
    (r.form ≠ .element → r.body.count (.category .tagName) = if r.form = .selfClosing then 1 else 0)

instance (r : Grammar.Rule Terminal Category Form) : Decidable (PlacesTags r) :=
  inferInstanceAs (Decidable ((_ ↔ _) ∧ _ ∧ _))

theorem forall_placesTags : ∀ rules ∈ grammar.rules.toList, ∀ r ∈ rules, PlacesTags r := by
  decide +kernel

theorem placesTags {r : Grammar.Rule Terminal Category Form} (hr : r ∈ grammar.rulesOf c) :
    PlacesTags r := by
  obtain ⟨rules, hrules, hmem⟩ := exists_rules hr
  exact forall_placesTags rules hrules r hmem

theorem mem_tags_iff {name : Text} : name ∈ tags ps ↔ .tag name ∈ ps := by
  rw [tags, List.mem_filterMap]
  constructor
  · rintro ⟨p, hp, hname⟩
    cases p <;> simp_all [Phrase.tag?]
  · intro h
    exact ⟨_, h, rfl⟩

/-- Nothing but the construct of a tag makes tags. -/
theorem tags_of_build (hform : form ≠ .tag) (hps : form.isElement = false → tags ps = [])
    (h : r.build form span ps = .ok qs) : tags qs = [] := by
  by_cases helement : form.isElement = true
  · rw [build_of_isTree r span ps (Form.isTree_of_isElement helement),
      buildElement_of_isElement r span ps helement] at h
    split at h
    · cases h
    · rw [← Except.ok.inj h]
      rfl
  · by_cases hmarkup : form.isMarkup = true
    · -- an attribute or a text is a node
      cases form
      all_goals first
        | exact absurd hmarkup (by decide)
        | exact absurd rfl helement
        | rw [← Except.ok.inj h]
          rfl
    · have hplain := isPlainOver_build h (by simpa using hmarkup) hform
      refine List.eq_nil_iff_forall_not_mem.2 fun name hname => ?_
      have hmem := mem_tags_iff.2 (hplain.2 name (mem_tags_iff.1 hname))
      rw [hps (by simpa using helement)] at hmem
      cases hmem

/-- Phrases have no more tags than there are tag names among the symbols that they are read from. -/
theorem isInvariant_tags (r : Reader) : IsInvariant r
    (fun d _ _ qs => (tags qs).length ≤ [d.symbol].count (.category .tagName))
    (fun ds _ _ qs => (tags qs).length ≤ (ds.map Derivation.symbol).count (.category .tagName)) where
  terminal _ _ := by
    split <;> exact Nat.zero_le _
  node {rule ds a b ps qs} hmem hsymbols _ _ htags hbuild := by
    obtain ⟨hhead, -, hbody⟩ := placesTags hmem
    rw [hsymbols] at htags
    by_cases htag : rule.form = .tag
    · rw [htag] at hbuild
      obtain rfl := Except.ok.inj hbuild
      rw [Derivation.symbol, hhead.2 htag, List.count_singleton_self]
      exact Nat.le_refl 1
    · rw [tags_of_build htag ?_ hbuild]
      · exact Nat.zero_le _
      · intro hplain
        rw [hbody (by rintro heq; rw [heq] at hplain; cases hplain), if_neg] at htags
        · exact List.length_eq_zero_iff.1 (Nat.le_zero.1 htags)
        · intro heq
          rw [heq] at hplain
          cases hplain
  one h := h
  cons {d ds a m n b ps qs} _ hps _ _ hqs := by
    rw [tags_append, List.length_append, List.map_cons, ← List.singleton_append, List.count_append]
    exact Nat.add_le_add hps hqs

/-! ## Building -/

/-- What cannot fail to be built. -/
theorem exists_build_of_plain (r : Reader) (span : Span) (ps : List Phrase)
    (hform : form ≠ .template) (hplain : form.isElement = false) :
    ∃ qs, r.build form span ps = .ok qs := by
  cases form
  case template => exact absurd rfl hform
  case selfClosing | element => cases hplain
  all_goals exact ⟨_, rfl⟩

/-- An element with a single tag can be built. -/
theorem exists_build_of_tags (r : Reader) (span : Span) (hform : form.isElement = true)
    (htags : (tags ps).length ≤ 1) : ∃ qs, r.build form span ps = .ok qs := by
  have hsame : (ps.filterMap Phrase.tag?).getLast?.getD ((ps.filterMap Phrase.tag?).headD []) =
      (ps.filterMap Phrase.tag?).headD [] := by
    have hlength : (ps.filterMap Phrase.tag?).length ≤ 1 := htags
    match ps.filterMap Phrase.tag?, hlength with
    | [], _ | [_], _ => rfl
  rw [build_of_isTree r span ps (Form.isTree_of_isElement hform),
    buildElement_of_isElement r span ps hform, hsame, if_neg (by simp)]
  exact ⟨_, rfl⟩

mutual

/-- A text without template literals and closing tags has a meaning by every derivation. -/
theorem exists_phrases_of_lacks (htemplate : Lacks .template r.text)
    (hclosing : Lacks (.mark "</") r.text) :
    ∀ {d : Derivation Terminal Category Form} {a b : Nat},
      Reads grammar r.text d a b → ∃ qs, r.phrases d = .ok qs
  | .terminal _ _ _, _, _, _ => ⟨_, rfl⟩
  | .node rule ds, _, _, .node hmem hsymbols hrow => by
    obtain ⟨ps, hps⟩ := exists_phrasesOfRow_of_lacks htemplate hclosing hrow
    suffices hbuild : ∃ qs, r.build rule.form (r.spanOf ds) ps = .ok qs by
      obtain ⟨qs, hqs⟩ := hbuild
      exact ⟨qs, phrases_node_iff.2 ⟨ps, hps, hqs⟩⟩
    have hnot := htemplate.not_mem hrow
    have hnot' := hclosing.not_mem hrow
    have htags := (isInvariant_tags r).of_readsRow hrow hps
    rw [hsymbols] at hnot hnot' htags
    obtain ⟨-, helement, hbody⟩ := placesTags hmem
    by_cases hform : rule.form.isElement = true
    · refine exists_build_of_tags r _ hform (Nat.le_trans htags ?_)
      rw [hbody fun heq => hnot' (helement heq)]
      split <;> decide
    · refine exists_build_of_plain r _ ps ?_ (by simpa using hform)
      intro heq
      rw [(isolatesTerminals hmem).1 heq] at hnot
      exact hnot List.mem_cons_self

/-- So does a row. -/
theorem exists_phrasesOfRow_of_lacks (htemplate : Lacks .template r.text)
    (hclosing : Lacks (.mark "</") r.text) :
    ∀ {ds : List (Derivation Terminal Category Form)} {a b : Nat},
      ReadsRow grammar r.text ds a b → ∃ qs, r.phrasesOfRow ds = .ok qs
  | [_], _, _, .one first => by
    obtain ⟨ps, hps⟩ := exists_phrases_of_lacks htemplate hclosing first
    exact ⟨_, phrasesOfRow_cons_iff.2 ⟨ps, [], hps, rfl, rfl⟩⟩
  | _ :: _, _, _, .cons first _ rest => by
    obtain ⟨ps, hps⟩ := exists_phrases_of_lacks htemplate hclosing first
    obtain ⟨qs, hqs⟩ := exists_phrasesOfRow_of_lacks htemplate hclosing rest
    exact ⟨_, phrasesOfRow_cons_iff.2 ⟨ps, qs, hps, hqs, rfl⟩⟩

end

end SkinCompiler.Source
