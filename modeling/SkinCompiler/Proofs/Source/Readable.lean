import SkinCompiler.Proofs.Except
import SkinCompiler.Proofs.Source.Face
import SkinCompiler.Proofs.Source.Placeholder

/-!
# What can be read as an expression

Whether the placeholders of a template literal can be read depends on their codes alone: not on
where the literal stands, nor on how deep it stands in others.

* `placeholderCodes` -- the codes of a template literal;
* `exists_readExpressionAt` -- a code that can be read somewhere can be read anywhere;
* `exists_buildTemplate` -- a template literal has a meaning if its codes can be read.
-/

namespace SkinCompiler.Source

open Grammar

variable {r r' : Reader} {text source code : Text} {d : Derivation Terminal Category Form}
  {ds : List (Derivation Terminal Category Form)} {ps qs : List Phrase} {span : Span}
  {a b k p start : Nat}

/-! ## Codes -/

/-- The codes of the placeholders of a template literal. -/
def placeholderCodes (literal : Text) : List Text :=
  (templateCodes (templatePieces 0 0 (literal.drop 1))).map Prod.fst

/-- Where a template literal stands does not matter to the codes of its placeholders. -/
theorem map_fst_templateCodes (k p p' : Nat) (t : Text) :
    (templateCodes (templatePieces k p t)).map Prod.fst =
      (templateCodes (templatePieces k p' t)).map Prod.fst := by
  induction k, p, t using templatePieces.induct generalizing p' with
  | case1 | case2 => simp [templatePieces, templateCodes]
  | case3 k p c t hne ih =>
    rw [templatePieces, templatePieces]
    · exact ih (p' + 1)
    all_goals exact hne
  | case4 p c d t hescape ih =>
    rw [templatePieces, if_pos hescape]
    conv_rhs => rw [templatePieces, if_pos hescape]
    exact ih (p' + 1)
  | case5 p c d t hescape hopen length ih =>
    rw [templatePieces, if_neg hescape, if_pos hopen]
    conv_rhs => rw [templatePieces, if_neg hescape, if_pos hopen]
    dsimp only
    rw [templateCodes_placeholder, templateCodes_placeholder, List.map_cons, List.map_cons,
      ih (p' + 1)]
  | case6 p c d t hescape hopen ih =>
    rw [templatePieces, if_neg hescape, if_neg hopen]
    conv_rhs => rw [templatePieces, if_neg hescape, if_neg hopen]
    exact ih (p' + 1)

theorem map_fst_templateCodes_eq (p : Nat) (literal : Text) :
    (templateCodes (templatePieces 0 p (literal.drop 1))).map Prod.fst =
      placeholderCodes literal := map_fst_templateCodes 0 p 0 _

/-- A code is shorter than the literal that it stands in. -/
theorem length_lt_of_mem_placeholderCodes {literal : Text} (h : code ∈ placeholderCodes literal) :
    code.length < literal.length := by
  obtain ⟨x, hx, rfl⟩ := List.mem_map.1 h
  obtain ⟨-, hstop, -⟩ := isPlaceholder_of_mem hx
  have hne : 0 < literal.length := by
    refine List.length_pos_iff.2 ?_
    rintro rfl
    simp [templatePieces, templateCodes] at hx
  rw [List.length_drop] at hstop
  omega

/-- A template literal has a meaning, which is a node, if all its codes can be read. -/
theorem exists_buildTemplate (r : Reader) (span : Span) (text : Text) (t : Terminal) (start : Nat)
    (h : ∀ code ∈ placeholderCodes text, ∀ position, ∃ n, r.placeholder code position = .ok n) :
    ∃ n, r.buildTemplate span [.token t text start] = .ok [.node n] := by
  unfold Reader.buildTemplate
  dsimp only
  split
  · exact ⟨_, rfl⟩
  · rename_i e hread
    obtain ⟨x, hx, herror⟩ := exists_of_mapM_eq_error hread
    have hcode : x.1 ∈ placeholderCodes text := by
      rw [← map_fst_templateCodes_eq (r.offset + start + 1)]
      exact List.mem_map_of_mem hx
    obtain ⟨n, hn⟩ := h x.1 hcode x.2
    cases hn.symm.trans herror

/-- All codes of a template literal that has a meaning can be read. -/
theorem of_buildTemplate {t : Terminal}
    (h : r.buildTemplate span [.token t text start] = .ok qs) :
    (∃ n, qs = [.node n]) ∧
      ∀ code ∈ placeholderCodes text, ∃ position n, r.placeholder code position = .ok n := by
  unfold Reader.buildTemplate at h
  dsimp only at h
  split at h
  · rename_i placeholders hread
    refine ⟨⟨_, (Except.ok.inj h).symm⟩, fun code hcode => ?_⟩
    rw [← map_fst_templateCodes_eq (r.offset + start + 1)] at hcode
    obtain ⟨x, hx, rfl⟩ := List.mem_map.1 hcode
    obtain ⟨n, hn⟩ := exists_eq_ok_of_mapM_eq_ok hread hx
    exact ⟨x.2, n, hn⟩
  · cases h

/-! ## Readers -/

/-- A reader reads all placeholders that another one reads, wherever these stand. -/
def Reader.Follows (r' r : Reader) : Prop := ∀ code position position' n,
  code.length < r.text.length → r.placeholder code position = .ok n →
    ∃ n', r'.placeholder code position' = .ok n'

/-- A template literal is a construct of its own. -/
theorem exists_template {rule : Grammar.Rule Terminal Category Form} {c : Category}
    (hmem : rule ∈ grammar.rulesOf c) (hsymbols : ds.map Derivation.symbol = rule.body)
    (hform : rule.form = .template) : ∃ m n, ds = [.terminal .template m n] := by
  rw [(isolatesTerminals hmem).1 hform] at hsymbols
  obtain ⟨d, rfl, hd⟩ := List.map_eq_singleton_iff.1 hsymbols
  cases d with
  | terminal t m n =>
    obtain rfl : t = .template := by simpa [Derivation.symbol] using hd
    exact ⟨m, n, rfl⟩
  | node _ _ => cases hd

theorem slice_length_le (text : Text) (m n : Nat) : (Text.slice text m n).length ≤ text.length := by
  rw [Text.slice, List.length_take, List.length_drop]
  omega

theorem phrases_template_iff {rule : Grammar.Rule Terminal Category Form} {m n : Nat}
    (hform : rule.form = .template) :
    r.phrases (.node rule [.terminal .template m n]) = .ok qs ↔
      r.buildTemplate (r.spanOf [.terminal .template m n])
        [.token .template (Text.slice r.text m n) m] = .ok qs := by
  rw [phrases_node_iff, hform]
  constructor
  · rintro ⟨ps, hps, hbuild⟩
    obtain rfl := Except.ok.inj hps
    exact hbuild
  · intro hbuild
    exact ⟨_, rfl, hbuild⟩

mutual

/-- What one reader gives a meaning, a reader that follows it gives one with the same faces. -/
theorem exists_phrases (hfollows : r'.Follows r) (htext : r'.text = r.text) :
    ∀ {d : Derivation Terminal Category Form} {a b : Nat} {qs : List Phrase},
      Reads grammar r.text d a b → r.phrases d = .ok qs →
        ∃ qs', r'.phrases d = .ok qs' ∧ faces qs' = faces qs
  | .terminal t m n, _, _, _, _, h => by
    obtain rfl := Except.ok.inj h
    refine ⟨_, rfl, ?_⟩
    rw [htext]
  | .node rule ds, a, b, qs, .node hmem hsymbols hrow, h => by
    by_cases hform : rule.form = .template
    · obtain ⟨m, n, rfl⟩ := exists_template hmem hsymbols hform
      obtain ⟨⟨node, rfl⟩, hcodes⟩ := of_buildTemplate ((phrases_template_iff hform).1 h)
      obtain ⟨node', hnode'⟩ := exists_buildTemplate r'
        (r'.spanOf [.terminal .template m n]) (Text.slice r.text m n) .template m fun code hcode position' => by
          obtain ⟨position, n, hn⟩ := hcodes code hcode
          refine hfollows code position position' n ?_ hn
          exact Nat.lt_of_lt_of_le (length_lt_of_mem_placeholderCodes hcode) (slice_length_le _ _ _)
      rw [← htext] at hnode'
      exact ⟨_, (phrases_template_iff hform).2 hnode', rfl⟩
    · obtain ⟨ps, hps, hbuild⟩ := phrases_node_iff.1 h
      obtain ⟨ps', hps', hfaces⟩ := exists_phrasesOfRow hfollows htext hrow hps
      obtain ⟨qs', hqs', hfaces'⟩ := exists_build r' (r'.spanOf ds) hform hbuild hfaces
      exact ⟨qs', phrases_node_iff.2 ⟨ps', hps', hqs'⟩, hfaces'⟩

/-- So do rows. -/
theorem exists_phrasesOfRow (hfollows : r'.Follows r) (htext : r'.text = r.text) :
    ∀ {ds : List (Derivation Terminal Category Form)} {a b : Nat} {qs : List Phrase},
      ReadsRow grammar r.text ds a b → r.phrasesOfRow ds = .ok qs →
        ∃ qs', r'.phrasesOfRow ds = .ok qs' ∧ faces qs' = faces qs
  | [d], _, _, _, .one first, h => by
    obtain ⟨ps, rest, hps, hrest, rfl⟩ := phrasesOfRow_cons_iff.1 h
    obtain ⟨ps', hps', hfaces⟩ := exists_phrases hfollows htext first hps
    obtain rfl := Except.ok.inj hrest
    refine ⟨_, phrasesOfRow_cons_iff.2 ⟨ps', [], hps', rfl, rfl⟩, ?_⟩
    rw [List.append_nil, List.append_nil, hfaces]
  | d :: ds, _, _, _, .cons first _ others, h => by
    obtain ⟨ps, rest, hps, hrest, rfl⟩ := phrasesOfRow_cons_iff.1 h
    obtain ⟨ps', hps', hfaces⟩ := exists_phrases hfollows htext first hps
    obtain ⟨rest', hrest', hfaces'⟩ := exists_phrasesOfRow hfollows htext others hrest
    refine ⟨_, phrasesOfRow_cons_iff.2 ⟨ps', rest', hps', hrest', rfl⟩, ?_⟩
    rw [faces_append, faces_append, hfaces, hfaces']

end

/-! ## Reading anywhere -/

/-- A code that can be read somewhere can be read anywhere. -/
theorem exists_readExpressionAt {source' : Text} {depth depth' offset : Nat} {n : Node}
    (h : readExpressionAt source depth code offset = .ok n) (hdepth : code.length < depth')
    (offset' : Nat) : ∃ n', readExpressionAt source' depth' code offset' = .ok n' := by
  induction depth generalizing depth' code offset n offset' with
  | zero => cases h
  | succ depth ih =>
    obtain ⟨depth', rfl⟩ : ∃ m, depth' = m + 1 := ⟨depth' - 1, by omega⟩
    rw [readExpressionAt] at h ⊢
    split at h
    · cases h
    · rename_i d hd
      dsimp only at h ⊢
      split at h
      · cases h
      · rename_i ps hps
        obtain ⟨a, b, -, hreads, -, -⟩ := derive_reads grammar_isProper hd
        have hfollows : Reader.Follows
            ⟨source', code, offset', readExpressionAt source' depth'⟩
            ⟨source, code, offset, readExpressionAt source depth⟩ := by
          intro inner position position' n hlength hn
          exact ih hn (by dsimp only at hlength; omega) position'
        obtain ⟨ps', hps', hfaces⟩ := exists_phrases hfollows rfl hreads hps
        rw [hps']
        dsimp only
        split at h
        · rename_i m rest hm
          split
          · exact ⟨_, rfl⟩
          · rename_i hnil
            rw [(nodes_eq_nil_iff hfaces).1 hnil] at hm
            cases hm
        · cases h

/-- The text can be read as an expression. -/
def IsReadable (code : Text) : Prop := ∃ n, readExpression code = .ok n

/-- The reader of a whole source. -/
def Reader.whole (source : Text) : Reader :=
  ⟨source, source, 0, readExpressionAt source (source.length + 1)⟩

/-- A placeholder of a source is read if its code can be read. -/
theorem placeholder_whole_iff {position : Nat} (hlength : code.length ≤ source.length) :
    (∃ n, (Reader.whole source).placeholder code position = .ok n) ↔ IsReadable code := by
  constructor
  · rintro ⟨n, hn⟩
    exact exists_readExpressionAt hn (Nat.lt_succ_self _) 0
  · rintro ⟨n, hn⟩
    exact exists_readExpressionAt hn (Nat.lt_succ_of_le hlength) position

end SkinCompiler.Source
