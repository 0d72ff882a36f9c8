import SkinCompiler.Proofs.Skin.InlinedClasses
import SkinCompiler.Proofs.Source.Literal

/-!
# What takes the place of references

The classes that take the place of a reference are a string that is read wherever the reference was:
as an expression, as the value of an attribute, or in braces as that.

* `string?_textLiteral` -- a written string is one string, whatever follows on it;
* `exists_isReadAs_referenceText` -- it is read as what the reference was read as;
* `isSpot_referenceEdit` -- a reference is a part of what its element is read from.
-/

namespace SkinCompiler.Skin

open Source Text

variable {stylesName : Option Text} {source classes u : Text} {root n : Node} {r : Reference}
  {d : Grammar.Derivation Terminal Category Form} {qs : List Phrase} {a b : Nat} {c : Char}

/-! ## Written strings -/

theorem stringEnd?_append (hu : ∀ c ∈ u, c ∉ ['"', '\n', '\\']) (t : Text) :
    Terminal.stringEnd? '"' (u ++ t) = (Terminal.stringEnd? '"' t).map (· + u.length) := by
  induction u with
  | nil => simp
  | cons c u ih =>
    obtain ⟨hquote, hfeed, hslash⟩ : c ≠ '"' ∧ c ≠ '\n' ∧ c ≠ '\\' := by
      simpa using hu c List.mem_cons_self
    rw [List.cons_append, Terminal.stringEnd?_cons hslash, if_neg (by simpa using hquote),
      if_neg (by simpa using hfeed), ih fun c hc => hu c (List.mem_cons_of_mem _ hc),
      Option.map_map, List.length_cons]
    rfl

theorem stringEnd?_backslash (hc : c ≠ '\n') (t : Text) :
    Terminal.stringEnd? '"' ('\\' :: c :: t) = (Terminal.stringEnd? '"' t).map (· + 2) := by
  rw [Terminal.stringEnd?, if_neg (by simpa using hc)]

/-- An escape by number does not end a string. -/
theorem stringEnd?_unit (n : Nat) (t : Text) : Terminal.stringEnd? '"' ("\\u".toList ++ hex 4 n ++ t) =
    (Terminal.stringEnd? '"' t).map (· + ("\\u".toList ++ hex 4 n).length) := by
  have hdigits : ∀ c ∈ hex 4 n, c ∉ ['"', '\n', '\\'] := by
    intro c hc
    have hsome := AttributeValue.isSome_hexDigit?_of_hexValue? (AttributeValue.hexValue?_hex 4 n) c hc
    simp only [List.mem_cons, List.not_mem_nil, or_false, not_or]
    refine ⟨?_, ?_, ?_⟩ <;> rintro rfl <;> revert hsome <;> decide
  have htext : "\\u".toList ++ hex 4 n ++ t = '\\' :: 'u' :: (hex 4 n ++ t) := rfl
  rw [htext, stringEnd?_backslash (by decide), stringEnd?_append hdigits, Option.map_map,
    List.length_append]
  congr 1
  funext k
  simp only [Function.comp_apply]
  have hlength : ("\\u".toList : Text).length = 2 := rfl
  omega

/-- Nor do two of them. -/
theorem stringEnd?_units (m n : Nat) (t : Text) :
    Terminal.stringEnd? '"' ("\\u".toList ++ hex 4 m ++ "\\u".toList ++ hex 4 n ++ t) =
      (Terminal.stringEnd? '"' t).map
        (· + ("\\u".toList ++ hex 4 m ++ "\\u".toList ++ hex 4 n).length) := by
  have htext : "\\u".toList ++ hex 4 m ++ "\\u".toList ++ hex 4 n =
      ("\\u".toList ++ hex 4 m) ++ ("\\u".toList ++ hex 4 n) := List.append_assoc _ _ _
  rw [htext, List.append_assoc, stringEnd?_unit, stringEnd?_unit, Option.map_map]
  have hlength (a b : Text) (k : Nat) : k + b.length + a.length = k + (a ++ b).length := by
    rw [List.length_append]
    omega
  congr 1
  funext k
  exact hlength _ _ k

/-- What is written for a character does not end a string. -/
theorem stringEnd?_escapeChar (c : Char) (t : Text) :
    Terminal.stringEnd? '"' (Json.escapeChar c ++ t) =
      (Terminal.stringEnd? '"' t).map (· + (Json.escapeChar c).length) := by
  by_cases hmark : c ∈ AttributeValue.marks
  · simp only [AttributeValue.marks, List.mem_cons, List.not_mem_nil, or_false] at hmark
    rcases hmark with rfl | rfl | rfl | rfl | rfl | rfl | rfl <;>
      exact stringEnd?_backslash (by decide) t
  · rw [AttributeValue.escapeChar_of_not_mem hmark]
    split
    · refine stringEnd?_append (u := [c]) (fun x hx => ?_) t
      obtain rfl := List.mem_singleton.1 hx
      simp only [AttributeValue.marks, List.mem_cons, List.not_mem_nil, or_false, not_or] at hmark ⊢
      exact ⟨hmark.1, hmark.2.2.1, hmark.2.1⟩
    · unfold Json.escapeUnits
      dsimp only
      split
      · exact stringEnd?_unit _ t
      · exact stringEnd?_units _ _ t

/-- A written string is one string. -/
theorem string?_textLiteral (classes : Text) :
    Terminal.string? (Json.textLiteral classes) = some (Json.textLiteral classes).length := by
  have hinner : ∀ t : Text, Terminal.stringEnd? '"' (t.flatMap Json.escapeChar ++ ['"']) =
      some ((t.flatMap Json.escapeChar).length + 1) := by
    intro t
    induction t with
    | nil => rfl
    | cons c t ih =>
      rw [List.flatMap_cons, List.append_assoc, stringEnd?_escapeChar, ih, Option.map_some,
        List.length_append]
      congr 1
      omega
  have htext : Json.textLiteral classes = '"' :: (classes.flatMap Json.escapeChar ++ ['"']) := rfl
  rw [htext, Terminal.string?, hinner, Option.map_some, List.length_cons, List.length_append,
    List.length_singleton]

/-! ## References -/

theorem head?_referenceText (classes : Text) (whole : Bool) :
    ∃ x ∈ heads, (referenceText classes whole).head? = some x := by
  unfold referenceText
  dsimp only
  split
  · exact ⟨'\x7b', by decide, rfl⟩
  · exact ⟨'"', by decide, rfl⟩

/-- Classes are read as what the reference was read as: the value of an attribute if that is what
they take the place of, an expression else. -/
theorem exists_isReadAs_referenceText (classes : Text) (whole : Bool) :
    ∃ d, IsReadAs (if whole then .attributeValue else .chain) (referenceText classes whole) d := by
  have hpos : 0 < (Json.textLiteral classes).length := Nat.succ_pos _
  have hstring := string?_textLiteral classes
  cases whole with
  | false => exact exists_isReadAs_chain hpos hstring
  | true =>
    rw [if_pos rfl]
    unfold referenceText
    dsimp only
    split
    · exact exists_isReadAs_braces hpos hstring
    · exact exists_isReadAs_attributeValue hpos hstring

/-- A reference in an element tree is a part of what the tree is read from, and its classes can take
its place. -/
theorem isSpot_referenceEdit (hroot : root.IsPlaced source) (styles : Table Text)
    (hr : r ∈ references stylesName root) (hd : Grammar.Reads grammar source d a b)
    (hqs : (Reader.whole source).phrases d = .ok qs) (hn : n ∈ qs.flatMap Phrase.held)
    (hmem : root ∈ n.all) : IsSpot source d (referenceEdit styles r) := by
  obtain ⟨d', hd'⟩ :=
    exists_isReadAs_referenceText ((Table.get? r.key styles).getD []) r.braces.isSome
  have hhead := head?_referenceText ((Table.get? r.key styles).getD []) r.braces.isSome
  cases hbraces : r.braces with
  | some braces =>
    obtain ⟨a', name, m, hattribute, -⟩ := exists_bracedAttribute hroot hr hbraces
    have hwritten := isWritten_of_phrases hd hqs hn (Node.mem_all_trans hattribute hmem) rfl
    rw [hbraces, Option.isSome_some, if_pos rfl] at hd'
    refine isSpot_of_isWritten (d := d') hwritten (by decide) ?_ hhead ?_ ?_
    · rwa [referenceEdit, hbraces]
    · rw [referenceEdit, hbraces]
      rfl
    · rw [referenceEdit, hbraces]
      rfl
  | none =>
    obtain ⟨b', n', m, hat⟩ := of_mem_references hr
    obtain ⟨s, s', name, computed, rfl, -⟩ := eq_of_styleKey? hat.member_key
    have hwritten := isWritten_of_phrases hd hqs hn
      (Node.mem_all_trans hat.member_mem_root hmem) rfl
    have hspan : s = r.span := hat.member_span
    rw [hbraces, Option.isSome_none, if_neg Bool.false_ne_true] at hd'
    refine isSpot_of_isWritten (d := d') hwritten (by decide) ?_ hhead ?_ ?_
    · rwa [referenceEdit, hbraces]
    · rw [referenceEdit, hbraces]
      exact congrArg (fun s : Span => (s.start : Int)) hspan.symm
    · rw [referenceEdit, hbraces]
      exact congrArg (fun s : Span => (s.stop : Int)) hspan.symm

end SkinCompiler.Skin
