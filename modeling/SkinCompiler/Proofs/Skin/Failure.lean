import Mathlib.Data.List.TakeWhile
import SkinCompiler.Proofs.Skin.Removal
import SkinCompiler.Proofs.Stylesheet.RoundTrip
import SkinCompiler.Proofs.Stylesheet.Unterminated
import SkinCompiler.Skin.Registry

/-!
# Why a compilation fails

A compilation can fail because of its source or its configuration, which is foreseen, or because a
later part of the pipeline does not take what an earlier one made.  The second kind is ruled out by
a condition on the loaded skin for each pipeline.

* `Failure.isForeseen` -- failures that tell what is wrong with an entry or a configuration;
* `Pipeline.CanFinish` -- what a pipeline needs of a loaded skin;
* `Pipeline.compileSkin_isOk_iff` -- a loaded skin is compiled just if the pipeline can finish;
* `Registry.compile_isForeseen_iff` -- when all failures of a compilation are foreseen.
-/

namespace SkinCompiler.Skin

variable {e : Entry} {c : Config} {s : LoadedSkin} {p : Pipeline} {f : Failure}
  {items : List Source.ModuleItem}

/-- The failure tells what is wrong with a source, or that there is no pipeline. -/
def Failure.isForeseen : Failure → Bool
  | .unreadable _ _ | .noComponent _ | .noPipeline _ _ => true
  | .stylesheet _ | .edits _ | .noPackages => false

/-! ## Loading -/

theorem isForeseen_of_readOutline {path source : Text} {parts : Source.Parts}
    (h : readOutline path source parts = .error f) : f.isForeseen = true := by
  unfold readOutline at h
  cases houtline : Source.outline source parts with
  | ok o =>
    rw [houtline] at h
    cases h
  | error e =>
    rw [houtline] at h
    obtain rfl := Except.error.inj h
    rfl

theorem isForeseen_of_stylesValue {o : Source.Outline} (h : stylesValue e o = .error f) :
    f.isForeseen = true := by
  unfold stylesValue at h
  split at h
  · cases h
  · rename_i source _ _
    exact isForeseen_of_readOutline (bind_pure_eq_error_iff.1 h)
  · cases h
  · cases h

/-- Failures to load a skin are foreseen. -/
theorem isForeseen_of_load (h : load e = .error f) : f.isForeseen = true := by
  unfold load at h
  rcases bind_eq_error_iff.1 h with hread | ⟨o, -, h⟩
  · exact isForeseen_of_readOutline hread
  · split at h
    · exact isForeseen_of_stylesValue (bind_pure_eq_error_iff.1 h)
    · obtain rfl := Except.error.inj h
      rfl

/-! ## Pipelines -/

/-- The stylesheet of the compiled styles closes all its blocks. -/
def LoadedSkin.HasClosedStyles (c : Config) (s : LoadedSkin) : Prop :=
  ¬Stylesheet.LeavesOpen
    (Stylesheet.stripComments (Style.compile { designSystem := c.designSystem } s.styles).css)

/-- There are packages to look an import up in, or there is no import to look up. -/
def LoadedSkin.HasPackages (c : Config) (s : LoadedSkin) : Prop :=
  c.packageMappings.isSome = true ∨ ∀ i ∈ s.outline.imports, c.importMapping.looksUp i = false

/-- What a pipeline needs of a loaded skin to make an output. -/
def Pipeline.CanFinish (c : Config) (s : LoadedSkin) : Pipeline → Prop
  | .webComponent _ => s.HasClosedStyles c ∧ s.HasPackages c
  | .reactModules => True
  | .reactInline => s.IsDetachable

theorem rulesOf_isOk_iff {t : Text} :
    (∃ rules, Stylesheet.rulesOf t = .ok rules) ↔ ¬Stylesheet.LeavesOpen t := by
  rw [← Stylesheet.rulesOf_eq_error_iff]
  cases Stylesheet.rulesOf t <;> simp

theorem not_leavesOpen_of_blank {css : Text} (h : Text.isBlankText css = true) :
    ¬Stylesheet.LeavesOpen (Stylesheet.stripComments css) := by
  have hmass : Text.mass css = 0 := mass_of_blank h
  have hstrip : Stylesheet.stripComments css = css := by
    rcases Stylesheet.stripComments_eq_or css with heq | hlt
    · exact heq
    · omega
  rw [hstrip, ← rulesOf_isOk_iff]
  exact ⟨[], Rule.rulesOf_of_blank h⟩

namespace Pipeline

/-- Styles can be written for elements if their blocks are closed. -/
theorem elementStyles_isOk_iff (components : Table Text) (compiled : Style.Compiled) :
    (∃ css, elementStyles c components compiled = .ok css) ↔
      ¬Stylesheet.LeavesOpen (Stylesheet.stripComments compiled.css) := by
  unfold elementStyles
  dsimp only
  by_cases hblank : Text.isBlankText compiled.css = true
  · rw [if_pos hblank]
    exact iff_of_true ⟨[], rfl⟩ (not_leavesOpen_of_blank hblank)
  · rw [if_neg hblank, ← rulesOf_isOk_iff]
    unfold ClassReplacement.stylesheet
    rw [Stylesheet.read_eq]
    cases Stylesheet.rulesOf (Stylesheet.stripComments compiled.css) <;>
      simp [bind, Except.bind, pure, Except.pure]

theorem reachedImports_length_lt_iff :
    (reachedImports c s.outline.imports).length < s.outline.imports.length ↔
      ¬s.HasPackages c := by
  unfold reachedImports LoadedSkin.HasPackages
  cases c.packageMappings.isSome with
  | true => simp
  | false =>
    have hreached := List.takeWhile_prefix (!c.importMapping.looksUp ·) (l := s.outline.imports)
    have hle := hreached.length_le
    have heq : s.outline.imports.takeWhile (!c.importMapping.looksUp ·) = s.outline.imports ↔
        ∀ i ∈ s.outline.imports, c.importMapping.looksUp i = false := by
      rw [List.takeWhile_eq_self_iff]
      simp
    simp only [Bool.false_eq_true, if_false, false_or]
    rw [← heq]
    constructor
    · intro hlt hall
      rw [hall] at hlt
      omega
    · intro hne
      exact Nat.lt_of_le_of_ne hle fun hlength => hne (hreached.eq_of_length hlength)

theorem compileElement_isOk_iff {linked : Bool} :
    (∃ o, (compileElement c linked s).result = .ok o) ↔ s.HasClosedStyles c ∧ s.HasPackages c := by
  have hstyles := elementStyles_isOk_iff (c := c)
    (Markup.componentMap s.outline.stylesName s.root)
    (Style.compile { designSystem := c.designSystem } s.styles)
  have hpackages := reachedImports_length_lt_iff (c := c) (s := s)
  unfold LoadedSkin.HasClosedStyles compileElement
  rw [← hstyles]
  dsimp only
  cases elementStyles c (Markup.componentMap s.outline.stylesName s.root)
      (Style.compile { designSystem := c.designSystem } s.styles) with
  | error e => simp
  | ok css =>
    dsimp only
    split
    · rename_i hlt
      simp [hpackages.1 hlt]
    · rename_i hlt
      have hall : s.HasPackages c := by
        rwa [hpackages, not_not] at hlt
      simp [hall]

theorem compileModules_isOk (h : s.IsOf items) : ∃ o, (compileModules c s).result = .ok o := by
  have hline : ∀ name base : Text, "import ".toList ++ name ++ " from './".toList ++ base ++
      ".module.css';".toList ≠ [] := by simp
  have hedited : ∀ {line}, line ≠ [] → ∃ t, edited s (stylesEdits s line) = .ok t := by
    intro line hne
    obtain ⟨t, ht⟩ := modules_isOk h.toIsOutlined hne
    exact ⟨t, by rw [edited, ht]⟩
  obtain ⟨t, ht⟩ := hedited (hline ((s.outline.stylesName.filter (!·.isEmpty)).getD "styles")
    (Path.stem s.path))
  unfold compileModules
  dsimp only
  rw [ht]
  exact ⟨_, rfl⟩

theorem compileInline_isOk_iff (h : s.IsOf items) :
    (∃ o, (compileInline c s).result = .ok o) ↔ s.IsDetachable := by
  have hedits : stylesEdits s [] ++
      (references s.outline.stylesName s.root).map (referenceEdit s.styles) = s.inlineEdits := rfl
  rw [← inline_isOk_iff h]
  unfold compileInline edited
  dsimp only
  rw [hedits]
  cases Text.splice s.source s.inlineEdits <;> simp

/-- A loaded skin is compiled just if the pipeline can finish. -/
theorem compileSkin_isOk_iff (h : load e = .ok s) :
    (∃ o, (p.compileSkin c s).result = .ok o) ↔ p.CanFinish c s := by
  obtain ⟨items, hitems⟩ := load_items h
  cases p with
  | webComponent linked => exact compileElement_isOk_iff
  | reactModules => exact iff_of_true (compileModules_isOk hitems) trivial
  | reactInline => exact compileInline_isOk_iff hitems

/-! ## Failures -/

theorem isForeseen_of_elementStyles {components : Table Text} {compiled : Style.Compiled}
    (h : elementStyles c components compiled = .error f) : f.isForeseen = false := by
  unfold elementStyles at h
  dsimp only at h
  split at h
  · cases h
  · split at h
    · cases h
    · obtain rfl := Except.error.inj h
      rfl

theorem isForeseen_of_edited {edits : List Text.Edit} (h : edited s edits = .error f) :
    f.isForeseen = false := by
  unfold edited at h
  split at h
  · cases h
  · obtain rfl := Except.error.inj h
    rfl

/-- Failures to compile a loaded skin are not foreseen. -/
theorem isForeseen_of_compileSkin (h : (p.compileSkin c s).result = .error f) :
    f.isForeseen = false := by
  cases p with
  | webComponent linked =>
    unfold compileSkin compileElement at h
    dsimp only at h
    split at h
    · rename_i hstyles
      obtain rfl := Except.error.inj h
      exact isForeseen_of_elementStyles hstyles
    · split at h
      · obtain rfl := Except.error.inj h
        rfl
      · cases h
  | reactModules =>
    unfold compileSkin compileModules at h
    dsimp only at h
    split at h
    · rename_i hedited
      obtain rfl := Except.error.inj h
      exact isForeseen_of_edited hedited
    · cases h
  | reactInline =>
    unfold compileSkin compileInline at h
    dsimp only at h
    split at h
    · rename_i hedited
      obtain rfl := Except.error.inj h
      exact isForeseen_of_edited hedited
    · cases h

/-- The failures to compile a loaded skin are foreseen just if there are none. -/
theorem compileSkin_isForeseen_iff :
    (∀ f, (p.compileSkin c s).result = .error f → f.isForeseen = true) ↔
      ∃ o, (p.compileSkin c s).result = .ok o := by
  cases hresult : (p.compileSkin c s).result with
  | ok o => simp
  | error f =>
    have hforeseen := isForeseen_of_compileSkin hresult
    simp [hforeseen]

end Pipeline

/-- A skin that is loaded is compiled with the pipeline that the configuration chooses. -/
theorem Registry.result_compile {r : Registry} (hget : r.get c.key = .ok p)
    (hload : load e = .ok s) : (r.compile c e).result = (p.compileSkin c s).result := by
  unfold Registry.compile Pipeline.compile
  rw [hget]
  dsimp only
  rw [hload]

theorem isForeseen_of_get {r : Registry} {key : PipelineKey} (h : r.get key = .error f) :
    f.isForeseen = true := by
  unfold Registry.get at h
  split at h
  · cases h
  · obtain rfl := Except.error.inj h
    rfl

/-- The failures of a compilation are foreseen just if the pipeline that the configuration chooses
can finish with the skin that was loaded. -/
theorem Registry.compile_isForeseen_iff (r : Registry) (c : Config) (e : Entry) :
    (∀ f, (r.compile c e).result = .error f → f.isForeseen = true) ↔
      ∀ p s, r.get c.key = .ok p → load e = .ok s → p.CanFinish c s := by
  cases hget : r.get c.key with
  | error f =>
    have hresult : (r.compile c e).result = .error f := by
      unfold Registry.compile
      rw [hget]
    simp [hresult, isForeseen_of_get hget]
  | ok p =>
    cases hload : load e with
    | error f =>
      have hresult : (r.compile c e).result = .error f := by
        unfold Registry.compile Pipeline.compile
        rw [hget]
        dsimp only
        rw [hload]
      simp [hresult, isForeseen_of_load hload]
    | ok s =>
      rw [Registry.result_compile hget hload, Pipeline.compileSkin_isForeseen_iff,
        Pipeline.compileSkin_isOk_iff hload]
      simp

/-- A component in the same declaration as its styles. -/
def sharedDeclaration : Entry where
  path := "App.tsx"
  source := "const styles=\x7b\x7d,A=()=><a b=\x7bstyles.k\x7d/>"

theorem load_sharedDeclaration : ((load sharedDeclaration).toOption.map fun s =>
    (s.declarationSpan, s.references.map (·.span))) = some (some ⟨0, 39⟩, [⟨28, 36⟩]) := by
  decide +kernel

/-- The classes of that component cannot be put in place. -/
theorem compile_sharedDeclaration : ∃ f,
    (Registry.builtIn.compile { outputFormat := .react } sharedDeclaration).result = .error f ∧
      f.isForeseen = false := by
  obtain ⟨s, hload, hspans⟩ := exists_eq_ok load_sharedDeclaration
  obtain ⟨hdeclaration, hreferences⟩ := Prod.mk.inj hspans
  obtain ⟨r, hr, hspan⟩ := List.mem_map.1 (hreferences ▸ List.mem_singleton_self _)
  have hinside : ¬s.IsDetachable := by
    intro hdetach
    refine hdetach.outside _ hdeclaration r hr ?_
    rw [hspan]
    constructor <;> decide
  have hnone : ¬∃ o, (Pipeline.reactInline.compileSkin { outputFormat := .react } s).result =
      .ok o := fun hok => hinside ((Pipeline.compileSkin_isOk_iff hload).1 hok)
  have hrun : (Registry.builtIn.compile { outputFormat := .react } sharedDeclaration).result =
      (Pipeline.reactInline.compileSkin { outputFormat := .react } s).result :=
    Registry.result_compile rfl hload
  rw [hrun]
  cases hresult : (Pipeline.reactInline.compileSkin { outputFormat := .react } s).result with
  | ok o => exact absurd ⟨o, hresult⟩ hnone
  | error f => exact ⟨f, rfl, Pipeline.isForeseen_of_compileSkin hresult⟩

end SkinCompiler.Skin
