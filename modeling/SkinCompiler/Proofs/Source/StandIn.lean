import SkinCompiler.Proofs.Source.Binding
import SkinCompiler.Proofs.Source.Readable

/-!
# Derivations of different texts that mean the same to a module

A derivation of one text is like a derivation of another one if both read the same terminals by the
same rules, wherever these stand, except that an expression or the value of an attribute may stand
in for another one.  Such derivations bind and export the same names, and if the first one has a
meaning, so has the other one.

* `StandIn`, `Alike` -- when derivations are alike;
* `Alike.shift` -- text in front changes nothing;
* `Alike.bound_eq`, `Alike.exported_eq` -- they bind and export the same;
* `Alike.exists_phrases` -- they have a meaning alike.
-/

namespace SkinCompiler.Source

open Grammar

variable {source text : Text} {d d' : Derivation Terminal Category Form}
  {ds ds' : List (Derivation Terminal Category Form)} {ps qs : List Phrase} {a b a' b' : Nat}

/-! ## Positions -/

theorem slice_append_add (lead text : Text) (a b : Nat) :
    Text.slice (lead ++ text) (lead.length + a) (lead.length + b) = Text.slice text a b := by
  rw [Text.slice, drop_append_add, Nat.add_sub_add_left, Text.slice]

/-! ## Alike -/

/-- A derivation of a part that binds nothing, and that is read as a node, takes the place of
another such one. -/
structure StandIn (source : Text) (d : Derivation Terminal Category Form) (text : Text)
    (d' : Derivation Terminal Category Form) : Prop where
  /-- They read the same symbol. -/
  symbol : d'.symbol = d.symbol
  /-- It is one of those that replaced parts have. -/
  closed : ∃ c ∈ [Category.chain, .primary, .attributeValue], d.symbol = .category c
  /-- The first one is read as a node. -/
  node : ∃ n, (Reader.whole source).phrases d = .ok [.node n]
  /-- The other one is read as a node, also behind other text. -/
  node' : ∀ lead : Text, ∃ n,
    (Reader.whole (lead ++ text)).phrases (d'.shift lead.length) = .ok [.node n]
  /-- The first one is no name. -/
  lone : loneName source d = []
  /-- Neither is the other one. -/
  lone' : ∀ (k : Nat) (t : Text), loneName t (d'.shift k) = []

mutual

/-- Derivations of two texts are alike. -/
inductive Alike (source text : Text) :
    Derivation Terminal Category Form → Derivation Terminal Category Form → Prop
  /-- Terminals are alike if their texts are the same. -/
  | terminal {t : Terminal} {a b a' b' : Nat}
    (same : Text.slice text a' b' = Text.slice source a b) :
    Alike source text (.terminal t a b) (.terminal t a' b')
  /-- Constructs are alike if their parts are. -/
  | node {rule : Grammar.Rule Terminal Category Form}
    {ds ds' : List (Derivation Terminal Category Form)} (row : AlikeRow source text ds ds') :
    Alike source text (.node rule ds) (.node rule ds')
  /-- One takes the place of the other. -/
  | standIn {d d' : Derivation Terminal Category Form} (h : StandIn source d text d') :
    Alike source text d d'

/-- Rows of derivations of two texts are alike. -/
inductive AlikeRow (source text : Text) :
    List (Derivation Terminal Category Form) → List (Derivation Terminal Category Form) → Prop
  /-- Empty rows are. -/
  | nil : AlikeRow source text [] []
  /-- Rows are if their members are. -/
  | cons {d d' : Derivation Terminal Category Form}
    {ds ds' : List (Derivation Terminal Category Form)} (first : Alike source text d d')
    (rest : AlikeRow source text ds ds') : AlikeRow source text (d :: ds) (d' :: ds')

end

mutual

/-- A derivation is like itself. -/
theorem Alike.refl (text : Text) : ∀ d : Derivation Terminal Category Form, Alike text text d d
  | .terminal _ _ _ => .terminal rfl
  | .node _ ds => .node (AlikeRow.refl text ds)

/-- So is a row. -/
theorem AlikeRow.refl (text : Text) :
    ∀ ds : List (Derivation Terminal Category Form), AlikeRow text text ds ds
  | [] => .nil
  | d :: ds => .cons (Alike.refl text d) (AlikeRow.refl text ds)

end

theorem Alike.symbol_eq (h : Alike source text d d') : d'.symbol = d.symbol := by
  cases h with
  | terminal _ => rfl
  | node _ => rfl
  | standIn h => exact h.symbol

theorem AlikeRow.map_symbol : ∀ {ds ds' : List (Derivation Terminal Category Form)},
    AlikeRow source text ds ds' → ds'.map Derivation.symbol = ds.map Derivation.symbol
  | _, _, .nil => rfl
  | _, _, .cons first rest => by
    rw [List.map_cons, List.map_cons, first.symbol_eq, rest.map_symbol]

/-! ## Other text in front -/

theorem StandIn.shift (h : StandIn source d text d') (lead : Text) :
    StandIn source d (lead ++ text) (d'.shift lead.length) where
  symbol := (Derivation.symbol_shift _ _).trans h.symbol
  closed := h.closed
  node := h.node
  node' lead' := by
    have hnode := h.node' (lead' ++ lead)
    rwa [List.append_assoc, List.length_append, ← Derivation.shift_shift] at hnode
  lone := h.lone
  lone' k t := by
    rw [Derivation.shift_shift]
    exact h.lone' _ t

mutual

theorem Alike.shift (lead : Text) : ∀ {d d' : Derivation Terminal Category Form},
    Alike source text d d' → Alike source (lead ++ text) d (d'.shift lead.length)
  | _, _, .terminal same => .terminal ((slice_append_add lead text _ _).trans same)
  | _, _, .node row => .node (row.shift lead)
  | _, _, .standIn h => .standIn (h.shift lead)

theorem AlikeRow.shift (lead : Text) : ∀ {ds ds' : List (Derivation Terminal Category Form)},
    AlikeRow source text ds ds' → AlikeRow source (lead ++ text) ds (shiftRow lead.length ds')
  | _, _, .nil => .nil
  | _, _, .cons first rest => .cons (first.shift lead) (rest.shift lead)

end

/-! ## Names -/

/-- The parts that one derivation can take the place of another one in bind and export nothing. -/
theorem of_mem_replaced : ∀ c ∈ [Category.chain, .primary, .attributeValue],
    c.isOpen = false ∧ c ≠ .exportSpecifier ∧ c ≠ .moreExportSpecifiers ∧ c ≠ .exportDeclaration ∧
      [Category.module, .items, .item].contains c = false := by
  decide

theorem StandIn.exists_node (h : StandIn source d text d') : ∃ rule ds rule' ds',
    d = .node rule ds ∧ d' = .node rule' ds' ∧ rule'.head = rule.head ∧
      rule.head ∈ [Category.chain, .primary, .attributeValue] := by
  obtain ⟨c, hc, hd⟩ := h.closed
  have hd' := h.symbol.trans hd
  cases d with
  | terminal _ _ _ => cases hd
  | node rule ds =>
    cases d' with
    | terminal _ _ _ => cases hd'
    | node rule' ds' =>
      obtain rfl : rule.head = c := by simpa [Derivation.symbol] using hd
      exact ⟨rule, ds, rule', ds', rfl, rfl, by simpa [Derivation.symbol] using hd', hc⟩

theorem AlikeRow.properties_eq : ∀ {ds ds' : List (Derivation Terminal Category Form)},
    AlikeRow source text ds ds' → properties text ds' = properties source ds
  | _, _, .nil => rfl
  | d :: ds, d' :: ds', .cons first rest => by
    have ih := rest.properties_eq
    cases first with
    | @terminal t a b a' b' same =>
      cases t <;> simp_all [properties]
    | node _ => exact ih
    | standIn h =>
      obtain ⟨_, _, _, _, rfl, rfl, -⟩ := h.exists_node
      exact ih

mutual

/-- Derivations that are alike bind the same names. -/
theorem Alike.bound_eq : ∀ {d d' : Derivation Terminal Category Form},
    Alike source text d d' → bound text d' = bound source d
  | _, _, .terminal same => by rw [bound, bound, same]
  | _, _, .node row => by rw [bound, bound, row.boundOfRow_eq, row.properties_eq]
  | _, _, .standIn h => by
    obtain ⟨rule, ds, rule', ds', rfl, rfl, hhead, hmem⟩ := h.exists_node
    rw [bound, bound, hhead, (of_mem_replaced _ hmem).1]
    rfl

theorem AlikeRow.boundOfRow_eq : ∀ {ds ds' : List (Derivation Terminal Category Form)},
    AlikeRow source text ds ds' → boundOfRow text ds' = boundOfRow source ds
  | _, _, .nil => rfl
  | _, _, .cons first rest => by rw [boundOfRow, boundOfRow, first.bound_eq, rest.boundOfRow_eq]

end

mutual

theorem Alike.listed_eq : ∀ {d d' : Derivation Terminal Category Form},
    Alike source text d d' → listed text d' = listed source d
  | _, _, .terminal _ => rfl
  | _, _, .node row => by rw [listed, listed, row.listedOfRow_eq, row.properties_eq]
  | _, _, .standIn h => by
    obtain ⟨rule, ds, rule', ds', rfl, rfl, hhead, hmem⟩ := h.exists_node
    obtain ⟨-, hspecifier, hmore, -⟩ := of_mem_replaced _ hmem
    rw [listed, listed, hhead, if_neg hspecifier, if_neg hspecifier, if_neg hmore, if_neg hmore]

theorem AlikeRow.listedOfRow_eq : ∀ {ds ds' : List (Derivation Terminal Category Form)},
    AlikeRow source text ds ds' → listedOfRow text ds' = listedOfRow source ds
  | _, _, .nil => rfl
  | _, _, .cons first rest => by
    rw [listedOfRow, listedOfRow, first.listed_eq, rest.listedOfRow_eq]

end

theorem Alike.loneName_eq {d d' : Derivation Terminal Category Form}
    (h : Alike source text d d') : loneName text d' = loneName source d := by
  cases h with
  | terminal same => rw [loneName, loneName, same]
  | node row =>
    cases row with
    | nil => rw [loneName, loneName] <;> simp
    | cons first rest =>
      cases rest with
      | nil => rw [loneName, loneName, first.loneName_eq]
      | cons _ _ => rw [loneName, loneName] <;> simp
  | standIn h =>
    have hlone := h.lone' 0 text
    rw [Derivation.shift_zero] at hlone
    rw [hlone, h.lone]

theorem AlikeRow.flatMap_loneName (h : AlikeRow source text ds ds') :
    ds'.flatMap (loneName text) = ds.flatMap (loneName source) := by
  induction ds generalizing ds' with
  | nil => cases h; rfl
  | cons d ds ih =>
    cases h with
    | cons first rest => rw [List.flatMap_cons, List.flatMap_cons, first.loneName_eq, ih rest]

theorem AlikeRow.exportedBy_eq (h : AlikeRow source text ds ds') :
    exportedBy text ds' = exportedBy source ds := by
  rw [exportedBy, exportedBy, h.boundOfRow_eq, h.flatMap_loneName, h.map_symbol, h.listedOfRow_eq]

mutual

/-- Derivations that are alike export the same names. -/
theorem Alike.exported_eq : ∀ {d d' : Derivation Terminal Category Form},
    Alike source text d d' → exported text d' = exported source d
  | _, _, .terminal _ => rfl
  | _, _, .node row => by rw [exported, exported, row.exportedBy_eq, row.exportedOfRow_eq]
  | _, _, .standIn h => by
    obtain ⟨rule, ds, rule', ds', rfl, rfl, hhead, hmem⟩ := h.exists_node
    obtain ⟨-, -, -, hexport, hspine⟩ := of_mem_replaced _ hmem
    rw [exported, exported, hhead, if_neg hexport, if_neg hexport, hspine]
    rfl

theorem AlikeRow.exportedOfRow_eq : ∀ {ds ds' : List (Derivation Terminal Category Form)},
    AlikeRow source text ds ds' → exportedOfRow text ds' = exportedOfRow source ds
  | _, _, .nil => rfl
  | _, _, .cons first rest => by
    rw [exportedOfRow, exportedOfRow, first.exported_eq, rest.exportedOfRow_eq]

end

/-! ## Meanings -/

/-- A template literal whose codes can be read has a meaning. -/
theorem exists_phrases_template {rule : Grammar.Rule Terminal Category Form} {m n : Nat}
    (hform : rule.form = .template)
    (h : ∀ code ∈ placeholderCodes (Text.slice text m n), IsReadable code) :
    ∃ node, (Reader.whole text).phrases (.node rule [.terminal .template m n]) =
      .ok [.node node] := by
  obtain ⟨node, hnode⟩ := exists_buildTemplate (Reader.whole text)
    ((Reader.whole text).spanOf [.terminal .template m n]) (Text.slice text m n) .template m
    fun code hcode position => by
      refine (placeholder_whole_iff ?_).2 (h code hcode)
      exact Nat.le_of_lt (Nat.lt_of_lt_of_le (length_lt_of_mem_placeholderCodes hcode)
        (slice_length_le _ _ _))
  exact ⟨node, (phrases_template_iff hform).2 hnode⟩

/-- The codes of a template literal that has a meaning can be read. -/
theorem of_phrases_template {rule : Grammar.Rule Terminal Category Form} {m n : Nat}
    (hform : rule.form = .template)
    (h : (Reader.whole source).phrases (.node rule [.terminal .template m n]) = .ok qs) :
    (∃ node, qs = [.node node]) ∧
      ∀ code ∈ placeholderCodes (Text.slice source m n), IsReadable code := by
  obtain ⟨hnode, hcodes⟩ := of_buildTemplate ((phrases_template_iff hform).1 h)
  refine ⟨hnode, fun code hcode => ?_⟩
  obtain ⟨position, hread⟩ := hcodes code hcode
  refine (placeholder_whole_iff ?_).1 hread
  exact Nat.le_of_lt (Nat.lt_of_lt_of_le (length_lt_of_mem_placeholderCodes hcode)
    (slice_length_le _ _ _))

/-- What is like a single terminal is one with the same text. -/
theorem AlikeRow.exists_terminal {t : Terminal} (h : AlikeRow source text [.terminal t a b] ds') :
    ∃ a' b', ds' = [.terminal t a' b'] ∧ Text.slice text a' b' = Text.slice source a b := by
  cases h with
  | cons first rest =>
    cases rest
    cases first with
    | terminal same => exact ⟨_, _, rfl, same⟩
    | standIn hstand =>
      obtain ⟨_, _, _, _, heq, -⟩ := hstand.exists_node
      cases heq

mutual

/-- What is like a derivation that has a meaning has one with the same faces. -/
theorem Alike.exists_phrases : ∀ {d d' : Derivation Terminal Category Form} {a b : Nat}
    {qs : List Phrase}, Alike source text d d' → Reads grammar source d a b →
      (Reader.whole source).phrases d = .ok qs →
        ∃ qs', (Reader.whole text).phrases d' = .ok qs' ∧ faces qs' = faces qs
  | _, _, _, _, _, .terminal same, _, h => by
    obtain rfl := Except.ok.inj h
    refine ⟨_, rfl, ?_⟩
    rw [Reader.whole, Reader.whole, same]
    split <;> rfl
  | _, _, _, _, qs, @Alike.node _ _ rule ds ds' row, hreads, h => by
    cases hreads with
    | node hmem hsymbols hrow =>
      by_cases hform : rule.form = .template
      · obtain ⟨m, n, rfl⟩ := exists_template hmem hsymbols hform
        obtain ⟨⟨node, rfl⟩, hcodes⟩ := of_phrases_template hform h
        obtain ⟨m', n', rfl, same⟩ := row.exists_terminal
        rw [← same] at hcodes
        obtain ⟨node', hnode'⟩ := exists_phrases_template hform hcodes
        exact ⟨_, hnode', rfl⟩
      · obtain ⟨ps, hps, hbuild⟩ := phrases_node_iff.1 h
        obtain ⟨ps', hps', hfaces⟩ := row.exists_phrasesOfRow hrow hps
        obtain ⟨qs', hqs', hfaces'⟩ :=
          exists_build (Reader.whole text) ((Reader.whole text).spanOf ds') hform hbuild hfaces
        exact ⟨qs', phrases_node_iff.2 ⟨ps', hps', hqs'⟩, hfaces'⟩
  | _, _, _, _, _, .standIn hstand, _, h => by
    obtain ⟨n, hn⟩ := hstand.node
    obtain ⟨n', hn'⟩ := hstand.node' []
    obtain rfl := Except.ok.inj (hn.symm.trans h)
    rw [List.length_nil, Derivation.shift_zero] at hn'
    exact ⟨_, hn', rfl⟩

/-- What is like a row that has a meaning has one with the same faces. -/
theorem AlikeRow.exists_phrasesOfRow : ∀ {ds ds' : List (Derivation Terminal Category Form)}
    {a b : Nat} {qs : List Phrase}, AlikeRow source text ds ds' → ReadsRow grammar source ds a b →
      (Reader.whole source).phrasesOfRow ds = .ok qs →
        ∃ qs', (Reader.whole text).phrasesOfRow ds' = .ok qs' ∧ faces qs' = faces qs
  | _, _, _, _, _, .nil, hrow, _ => absurd rfl hrow.ne_nil
  | _, _, _, _, _, .cons first rest, hrow, h => by
    obtain ⟨ps, qs, hps, hqs, rfl⟩ := phrasesOfRow_cons_iff.1 h
    cases hrow with
    | one hfirst =>
      obtain ⟨ps', hps', hfaces⟩ := first.exists_phrases hfirst hps
      cases rest
      obtain rfl := Except.ok.inj hqs
      refine ⟨_, phrasesOfRow_cons_iff.2 ⟨ps', [], hps', rfl, rfl⟩, ?_⟩
      rw [List.append_nil, List.append_nil, hfaces]
    | cons hfirst _ hothers =>
      obtain ⟨ps', hps', hfaces⟩ := first.exists_phrases hfirst hps
      obtain ⟨qs', hqs', hfaces'⟩ := rest.exists_phrasesOfRow hothers hqs
      refine ⟨_, phrasesOfRow_cons_iff.2 ⟨ps', qs', hps', hqs', rfl⟩, ?_⟩
      rw [faces_append, faces_append, hfaces, hfaces']

end

end SkinCompiler.Source
