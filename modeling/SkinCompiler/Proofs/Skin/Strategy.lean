import SkinCompiler.Proofs.Skin.ElementModule
import SkinCompiler.Skin.Pipeline

/-!
# Styles in place and styles in a stylesheet

A skin that is compiled to a custom element with its styles in place and the same skin compiled with
them in a stylesheet come out the same but for where the styles stand.

* `unescapeTemplate_escapeTemplate` -- escaping can be undone;
* `write_eq_styles` -- a module around its styles, which alone depend on where the styles go;
* `compile_webComponent` -- both compilations, side by side.
-/

namespace SkinCompiler.Skin

namespace ElementModule

variable {margin t : Text}

/-! ## Lines of a style block -/

/-- The text without the backslashes that escape what follows them. -/
def unescapeTemplate : Text → Text
  | '\\' :: c :: t => c :: unescapeTemplate t
  | c :: t => c :: unescapeTemplate t
  | [] => []

theorem unescapeTemplate_cons {c : Char} (h : c ≠ '\\') :
    unescapeTemplate (c :: t) = c :: unescapeTemplate t := by
  rw [unescapeTemplate]
  rintro d t' hc
  exact absurd hc h

theorem unescapeTemplate_escapeTemplate (t : Text) :
    unescapeTemplate (escapeTemplate t) = t := by
  induction t using templateInduction with
  | nil => rfl
  | brace t ih =>
    rw [escapeTemplate_brace, unescapeTemplate, unescapeTemplate_cons (by decide), ih]
  | cons c t h ih =>
    rw [escapeTemplate_cons h, escape]
    split
    · rw [List.cons_append, List.singleton_append, unescapeTemplate, ih]
    · rename_i hc
      rw [Bool.or_eq_true_iff, not_or, beq_iff_eq] at hc
      rw [List.singleton_append, unescapeTemplate_cons hc.1, ih]

/-- The lines of a text that are not blank. -/
def inkedLines (t : Text) : List Text := (Text.lines t).filter (!Text.isBlankText ·)

/-- The line without its margin and its escapes. -/
def plainLine? (margin l : Text) : Option Text := (Text.after? margin l).map unescapeTemplate

/-- The lines of a text in a template are its lines that are not blank. -/
theorem map_plainLine?_templateLines (margin t : Text) :
    (templateLines margin t).map (plainLine? margin) = (inkedLines t).map some := by
  rw [templateLines_eq, List.map_map, inkedLines]
  refine List.map_congr_left fun l _ => ?_
  rw [Function.comp_apply, plainLine?, Text.after?_eq_some_iff.2 rfl, Option.map_some,
    unescapeTemplate_escapeTemplate]

/-- No line of a text in a template holds the end of a line. -/
theorem isLineEnd_of_mem_templateLines {l : Text} {c : Char}
    (hm : ∀ c ∈ margin, Text.isLineEnd c = false) (hl : l ∈ templateLines margin t) (hc : c ∈ l) :
    Text.isLineEnd c = false := by
  obtain ⟨line, hline, rfl⟩ := List.mem_map.1 hl
  rcases List.mem_append.1 hc with hc | hc
  · exact hm c hc
  · exact (Text.of_mem_lines (List.mem_filter.1 hline).1 hc).2

/-! ## A module around its styles -/

/-- A module up to its styles. -/
def beforeStyles (m : ElementModule) (o : Options) : Text :=
  terminated (("import \x7b MediaSkin \x7d from '" ++ o.baseImport ++ "';") ::
    o.formatImports m.imports ++ openingLines (unit o))

/-- A module behind its styles. -/
def afterStyles (m : ElementModule) (o : Options) : Text :=
  terminated (templateLines (unit o ++ unit o) (o.formatHtml m.html)
    ++ closingLines (unit o) m.className m.elementName)

/-- The line that links a stylesheet. -/
def linkLine (unit address : Text) : Text :=
  unit ++ unit ++ "<link rel=\"stylesheet\" href=\"" ++ address ++ "\">"

/-- A style block with these lines between its tags. -/
def styleBlock (unit : Text) (shown : List Text) : List Text :=
  (unit ++ unit ++ "<style>") :: shown ++ [unit ++ unit ++ "</style>"]

/-- The margin of the lines in a style block: three levels of indentation. -/
def styleMargin (unit : Text) : Text := unit ++ unit ++ unit

theorem styleLines_none (unit styles : Text) : styleLines unit none styles =
    if Text.isBlankText styles then []
    else styleBlock unit (templateLines (styleMargin unit) styles) := rfl

theorem styleLines_some {address : Text} (h : address ≠ []) (unit styles : Text) :
    styleLines unit (some address) styles = [linkLine unit address] := by
  rw [styleLines, Option.filter_some_pos (by simp [h])]
  rfl

theorem write_eq_styles (m : ElementModule) (o : Options) : m.write o = beforeStyles m o
    ++ terminated (styleLines (unit o) m.stylesheet (o.formatStyles m.styles))
    ++ afterStyles m o := by
  rw [write, join_append_newline (by simp [lines])]
  simp [lines, beforeStyles, afterStyles, unit]

end ElementModule

namespace Pipeline

open ElementModule

variable {c : Config} {e : Entry} {s : LoadedSkin}

/-! ## The two compilations -/

/-- A custom element fails in the same way, or it is made of the same parts, wherever its styles
go. -/
theorem exists_of_compileElement (c : Config) (s : LoadedSkin) :
    (∃ f, ∀ linked, (compileElement c linked s).result = .error f) ∨
      ∃ html css imports warnings, ∀ linked, (compileElement c linked s).result =
        .ok { files := elementFiles c linked s html css imports, warnings } := by
  simp only [compileElement]
  cases elementStyles c _ _ with
  | error f => exact Or.inl ⟨f, fun _ => rfl⟩
  | ok css =>
    dsimp only
    split_ifs
    · exact Or.inl ⟨.noPackages, fun _ => rfl⟩
    · exact Or.inr ⟨_, css, _, _, fun _ => rfl⟩

theorem exists_of_compile_webComponent (c : Config) (e : Entry) :
    (∃ f, ∀ linked, (compile (.webComponent linked) c e).result = .error f) ∨
      ∃ s html css imports warnings, ∀ linked, (compile (.webComponent linked) c e).result =
        .ok { files := elementFiles c linked s html css imports, warnings } := by
  simp only [compile]
  cases load e with
  | error f => exact Or.inl ⟨f, fun _ => rfl⟩
  | ok s =>
    rcases exists_of_compileElement c s with hf | ⟨html, css, imports, warnings, h⟩
    · exact Or.inl hf
    · exact Or.inr ⟨s, html, css, imports, warnings, h⟩

/-- A skin compiled with its styles in place and in a stylesheet: both compilations fail with the
same error, or they warn of the same things and make modules that are the same text before and
behind the styles.  The lines of the style block, without margin and escapes, are the lines of the
stylesheet that are not blank. -/
theorem compile_webComponent (c : Config) (e : Entry) :
    (∃ f, (compile (.webComponent false) c e).result = .error f ∧
        (compile (.webComponent true) c e).result = .error f) ∨
      ∃ base css warnings before after shown,
        let unit := Text.spaces c.indent
        let block := if Text.isBlankText css then [] else styleBlock unit shown
        (compile (.webComponent false) c e).result = .ok {
          files := [{
            path := base ++ ".ts", type := .module
            content := before ++ ElementModule.terminated block ++ after }]
          warnings } ∧
        (compile (.webComponent true) c e).result = .ok {
          files := [{
            path := base ++ ".ts", type := .module
            content := before
              ++ ElementModule.terminated [linkLine unit ("./" ++ base ++ ".css")] ++ after }, {
            path := base ++ ".css", type := .stylesheet, content := css }]
          warnings } ∧
        (∀ l ∈ shown, ∀ x ∈ l, Text.isLineEnd x = false) ∧
        shown.map (plainLine? (styleMargin unit)) = (inkedLines css).map some := by
  rcases exists_of_compile_webComponent c e with ⟨f, h⟩ | ⟨s, html, css, imports, warnings, h⟩
  · exact Or.inl ⟨f, h false, h true⟩
  · right
    let base := Markup.kebabCase (Path.stem s.path)
    let o : ElementModule.Options := { indent := c.indent, baseImport := c.baseImport.asText }
    let placed : ElementModule := {
      imports, html, className := s.componentName
      elementName := Markup.elementName s.componentName, styles := css }
    let linked : ElementModule := { placed with
      styles := [], stylesheet := some ("./" ++ base ++ ".css") }
    have hplaced : elementFiles c false s html css imports =
        [{ path := base ++ ".ts", type := .module, content := placed.write o }] := rfl
    have hlinked : elementFiles c true s html css imports =
        [{ path := base ++ ".ts", type := .module, content := linked.write o },
          { path := base ++ ".css", type := .stylesheet, content := css }] := rfl
    refine ⟨base, css, warnings, beforeStyles placed o, afterStyles placed o,
      templateLines (styleMargin (unit o)) css, ?_, ?_, ?_, map_plainLine?_templateLines _ css⟩
    · rw [h false, hplaced, write_eq_styles, styleLines_none]
      rfl
    · rw [h true, hlinked, write_eq_styles, styleLines_some (by simp)]
      rfl
    · intro l hl x hx
      refine isLineEnd_of_mem_templateLines (fun y hy => ?_) hl hx
      rw [styleMargin, unit, Text.spaces] at hy
      simp only [List.mem_append, List.mem_replicate] at hy
      obtain rfl : y = ' ' := by tauto
      rfl

end Pipeline

end SkinCompiler.Skin
