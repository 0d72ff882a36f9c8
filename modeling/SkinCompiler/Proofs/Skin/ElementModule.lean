import Mathlib.Data.List.Forall2
import SkinCompiler.Proofs.Skin.TemplateLiteral
import SkinCompiler.Proofs.Text.Blank

/-!
# The template of a module

Whatever the styles and the markup of a module hold, its template literal ends where the module
closes it and has the placeholder of the base class only.

* `contentLines` -- the lines that the template shows;
* `read_template` -- what the template literal of a module denotes.
-/

namespace SkinCompiler.Skin.ElementModule

open TemplateLiteral

variable {m : ElementModule} {o : Options} {a b t rest : Text} {ls ls' : List Text}

/-! ## Lines of a literal -/

/-- Lines, each with its line feed. -/
def terminated (ls : List Text) : Text := ls.flatMap (· ++ ['\n'])

@[simp] theorem terminated_nil : terminated [] = [] := rfl

@[simp] theorem terminated_cons (l : Text) (ls : List Text) :
    terminated (l :: ls) = l ++ '\n' :: terminated ls := by
  simp [terminated]

@[simp] theorem terminated_append (ls ls' : List Text) :
    terminated (ls ++ ls') = terminated ls ++ terminated ls' := List.flatMap_append

theorem join_append_newline (h : ls ≠ []) : Text.join "\n" ls ++ ['\n'] = terminated ls := by
  induction ls with
  | nil => exact absurd rfl h
  | cons l ls ih =>
    rcases eq_or_ne ls [] with rfl | hne
    · simp [Text.join]
    · rw [Text.join_cons_of_ne_nil hne, List.append_assoc, ih hne, terminated_cons]
      simp

/-- The line `a` of a literal denotes the line `b`. -/
def Denotes (a b : Text) : Prop :=
  ∀ rest, read (a ++ '\n' :: rest) = (read ('\n' :: rest)).map (prepend b)

theorem read_newline (rest : Text) : read ('\n' :: rest) = (read rest).map (prepend ['\n']) :=
  read_plain (a := ['\n']) (List.forall_iff_forall_mem.1 (by decide))

theorem denotes_plain (h : ∀ c ∈ a, IsPlain c) : Denotes a a := fun _ => read_plain h

theorem denotes_escapeTemplate (h : ∀ c ∈ t, c ≠ '\r') : Denotes (escapeTemplate t) t :=
  fun _ => read_escapeTemplate h (by simp)

theorem Denotes.append_plain (h : ∀ c ∈ a, IsPlain c) {l l' : Text} (hl : Denotes l l') :
    Denotes (a ++ l) (a ++ l') := by
  intro rest
  rw [List.append_assoc, read_plain h, hl rest, Option.map_map, prepend_comp]

theorem read_terminated (h : List.Forall₂ Denotes ls ls') :
    read (terminated ls ++ rest) = (read rest).map (prepend (terminated ls')) := by
  induction h with
  | nil =>
    rw [terminated_nil, prepend_nil, Option.map_id]
    rfl
  | cons hl hls ih =>
    rw [terminated_cons, List.append_assoc, List.cons_append, hl, read_newline, ih,
      Option.map_map, Option.map_map, prepend_comp, prepend_comp, terminated_cons]
    simp

/-! ## What the template shows -/

/-- One level of indentation. -/
def unit (o : Options) : Text := Text.spaces o.indent

theorem isPlain_spaces (n : Nat) : ∀ c ∈ Text.spaces n, IsPlain c := by
  intro c hc
  rw [List.eq_of_mem_replicate hc]
  decide

/-- The lines of a text that are not blank, behind a margin. -/
def shownLines (margin t : Text) : List Text :=
  ((Text.lines t).filter (!Text.isBlankText ·)).map (margin ++ ·)

theorem templateLines_eq (margin t : Text) : templateLines margin t =
    ((Text.lines t).filter (!Text.isBlankText ·)).map (margin ++ escapeTemplate ·) := by
  have hblank : (fun l => !Text.isBlankText l) ∘ escapeTemplate = fun l => !Text.isBlankText l :=
    funext fun l => congrArg (!·) (isBlankText_escapeTemplate l)
  rw [templateLines, lines_escapeTemplate, List.filter_map, hblank, List.map_map]
  rfl

/-- The lines of a text stand in a template as they are. -/
theorem denotes_templateLines {margin : Text} (h : ∀ c ∈ margin, IsPlain c) (t : Text) :
    List.Forall₂ Denotes (templateLines margin t) (shownLines margin t) := by
  rw [templateLines_eq, shownLines, List.forall₂_map_left_iff, List.forall₂_map_right_iff,
    List.forall₂_same]
  intro l hl
  refine Denotes.append_plain h (denotes_escapeTemplate fun c hc => ?_)
  have hend := (Text.of_mem_lines (List.mem_filter.1 hl).1 hc).2
  rintro rfl
  simp [Text.isLineEnd] at hend

/-- The lines that the template of a module shows behind its placeholder: the styles, unless they
are blank, and the markup. -/
def contentLines (m : ElementModule) (o : Options) : List Text :=
  let styles := o.formatStyles m.styles
  (if Text.isBlankText styles then []
    else (unit o ++ unit o ++ "<style>") :: shownLines (unit o ++ unit o ++ unit o) styles
      ++ [unit o ++ unit o ++ "</style>"])
    ++ shownLines (unit o ++ unit o) (o.formatHtml m.html)

theorem denotes_contentLines (h : m.stylesheet.getD [] = []) :
    List.Forall₂ Denotes
      (styleLines (unit o) m.stylesheet (o.formatStyles m.styles)
        ++ templateLines (unit o ++ unit o) (o.formatHtml m.html))
      (contentLines m o) := by
  have hunit : ∀ c ∈ unit o, IsPlain c := isPlain_spaces o.indent
  have htwo : ∀ c ∈ unit o ++ unit o, IsPlain c := by
    intro c hc
    exact (List.mem_append.1 hc).elim (hunit c) (hunit c)
  have hthree : ∀ c ∈ unit o ++ unit o ++ unit o, IsPlain c := by
    intro c hc
    exact (List.mem_append.1 hc).elim (htwo c) (hunit c)
  have hfilter : m.stylesheet.filter (!·.isEmpty) = none := by
    cases hm : m.stylesheet with
    | none => rfl
    | some a =>
      rw [hm, Option.getD_some] at h
      rw [h]
      rfl
  refine List.rel_append ?_ (denotes_templateLines htwo _)
  rw [styleLines, hfilter]
  dsimp only
  split
  · exact List.Forall₂.nil
  · have hopen : Denotes (unit o ++ unit o ++ "<style>") (unit o ++ unit o ++ "<style>") :=
      Denotes.append_plain htwo (denotes_plain (List.forall_iff_forall_mem.1 (by decide)))
    have hclose : Denotes (unit o ++ unit o ++ "</style>") (unit o ++ unit o ++ "</style>") :=
      Denotes.append_plain htwo (denotes_plain (List.forall_iff_forall_mem.1 (by decide)))
    exact List.rel_append (List.Forall₂.cons hopen (denotes_templateLines hthree _))
      (List.Forall₂.cons hclose List.Forall₂.nil)

theorem newline_not_mem_shownLines {margin l : Text} (h : '\n' ∉ margin)
    (hl : l ∈ shownLines margin t) : '\n' ∉ l := by
  obtain ⟨shown, hshown, rfl⟩ := List.mem_map.1 hl
  rw [List.mem_append, not_or]
  refine ⟨h, fun hmem => ?_⟩
  have hend := (Text.of_mem_lines (List.mem_filter.1 hshown).1 hmem).2
  simp [Text.isLineEnd] at hend

theorem newline_not_mem_unit (o : Options) : '\n' ∉ unit o := by
  intro h
  simpa using List.eq_of_mem_replicate h

theorem newline_not_mem_contentLines {l : Text} (hl : l ∈ contentLines m o) : '\n' ∉ l := by
  have hunit := newline_not_mem_unit o
  rcases List.mem_append.1 hl with hl | hl
  · split at hl
    · cases hl
    · rcases List.mem_append.1 hl with hl | hl
      · rcases List.mem_cons.1 hl with rfl | hl
        · simp [hunit]
        · exact newline_not_mem_shownLines (by simp [hunit]) hl
      · rw [List.mem_singleton.1 hl]
        simp [hunit]
  · exact newline_not_mem_shownLines (by simp [hunit]) hl

theorem cut_terminated (hls : ∀ l ∈ ls, '\n' ∉ l) (ha : '\n' ∉ a) :
    Text.cut '\n' (terminated ls ++ a) = ls ++ [a] := by
  induction ls with
  | nil => exact Text.cutWhere_of_none fun c hc => beq_false_of_ne fun h => ha (h ▸ hc)
  | cons l ls ih =>
    rw [terminated_cons, List.append_assoc, List.cons_append,
      Text.cut_append_cons (hls l List.mem_cons_self),
      ih fun x hx => hls x (List.mem_cons_of_mem _ hx)]
    rfl

/-! ## The template of a module -/

/-- A module up to and including the backquote that opens its template. -/
def opening (m : ElementModule) (o : Options) : Text :=
  terminated (("import \x7b MediaSkin \x7d from '" ++ o.baseImport ++ "';") ::
      o.formatImports m.imports ++ ([[], "export function getTemplateHTML() \x7b"] : List Text))
    ++ unit o ++ "return /*html*/ \x60"

/-- A module from behind the backquote that closes its template. -/
def closing (m : ElementModule) (o : Options) : Text :=
  terminated (";" :: (closingLines (unit o) m.className m.elementName).tail)

theorem write_eq (m : ElementModule) (o : Options) : m.write o = opening m o ++
    ('\n' :: unit o ++ unit o ++ '$' :: '\x7b' :: ("MediaSkin.getTemplateHTML()" ++ '\x7d' :: '\n' ::
      (terminated (styleLines (unit o) m.stylesheet (o.formatStyles m.styles)
        ++ templateLines (unit o ++ unit o) (o.formatHtml m.html)) ++
        (unit o ++ '\x60' :: closing m o)))) := by
  rw [write, join_append_newline (by simp [lines])]
  simp [lines, openingLines, closingLines, opening, closing, unit]

/-- The template literal of a module ends where the module closes it.  It holds the placeholder of
the base class and no other, and behind that it denotes the styles and the markup, line by line,
whatever characters they hold. -/
theorem read_template (m : ElementModule) (o : Options) (h : m.stylesheet.getD [] = []) :
    ∃ body behind, m.write o = opening m o ++ body ∧
      read body = some (⟨'\n' :: unit o ++ unit o, [("MediaSkin.getTemplateHTML()", behind)]⟩,
        closing m o) ∧
      Text.cut '\n' behind = [] :: contentLines m o ++ [unit o] := by
  refine ⟨_, '\n' :: terminated (contentLines m o) ++ unit o, write_eq m o, ?_, ?_⟩
  · have hunit : ∀ c ∈ unit o, IsPlain c := isPlain_spaces o.indent
    have hmargin : ∀ c ∈ '\n' :: unit o ++ unit o, IsPlain c := by
      intro c hc
      rcases List.mem_append.1 hc with hc | hc
      · rcases List.mem_cons.1 hc with rfl | hc
        · decide
        · exact hunit c hc
      · exact hunit c hc
    rw [read_plain hmargin, read_placeholder (List.forall_iff_forall_mem.1 (by decide)),
      read_newline, read_terminated (denotes_contentLines h), read_plain hunit]
    simp [TemplateLiteral.read, prepend]
  · rw [List.cons_append, Text.cut_cons_self,
      cut_terminated (fun l hl => newline_not_mem_contentLines hl) (newline_not_mem_unit o)]
    rfl

/-- A module whose styles and markup hold everything that means something in a template literal. -/
def unruly : ElementModule where
  imports := []
  html := "\x60;\r\n \n$\x7ba\x7d\\"
  className := "UnrulySkin"
  elementName := "media-skin-unruly"
  styles := "$\x60\x7b\\$\x7b\x0cb"

/-- Its template shows them as they are. -/
theorem read_template_unruly : ∃ body behind, unruly.write {} = opening unruly {} ++ body ∧
    read body = some (⟨"\n    ", [("MediaSkin.getTemplateHTML()", behind)]⟩, closing unruly {}) ∧
    Text.cut '\n' behind = ["".toList, "    <style>".toList, "      $\x60\x7b\\$\x7b".toList,
      "      b".toList, "    </style>".toList, "    \x60;".toList, "    $\x7ba\x7d\\".toList,
      "  ".toList] := by
  obtain ⟨body, behind, hwrite, hread, hcut⟩ := read_template unruly {} rfl
  exact ⟨body, behind, hwrite, hread, hcut.trans (by decide)⟩

end SkinCompiler.Skin.ElementModule
