import SkinCompiler.CommandLine.Run
import SkinCompiler.Proofs.Path
import SkinCompiler.Proofs.Skin.OutputFile

/-!
# The files that a compilation writes

A compilation that ends well has written the files that it has made into one folder, and nothing
else.  Without a folder of their own they go beside the source, where the file of a component has
the name of the source.

* `FileAccess.noted`, `written` -- the paths at which a compilation writes;
* `runCompilation_noted` -- noting them changes nothing else, and they are those of the output;
* `entry_mem_written_iff` -- when the source is among the files that are written.
-/

namespace SkinCompiler.CommandLine

open Skin Text

variable {σ α β : Type} {fs : FileAccess (StateM σ)} {r : CompileRequest} {w : σ}
  {notes log : List Text} {files : List File} {c : Config} {o : Output}

/-! ## Notes -/

/-- A step of a command with notes on the side. -/
def beside (x : StateM σ α) : StateM (σ × List Text) α := fun s =>
  let (a, w) := x s.1
  (a, w, s.2)

/-- Access to files that notes the paths at which files are written. -/
def FileAccess.noted (fs : FileAccess (StateM σ)) : FileAccess (StateM (σ × List Text)) where
  kind path := beside (fs.kind path)
  read path := beside (fs.read path)
  makeFolder path := beside (fs.makeFolder path)
  write path content := fun s =>
    let (done, w) := fs.write path content s.1
    (done, w, s.2 ++ [path])

/-- The paths at which a compilation writes files. -/
def written (fs : FileAccess (StateM σ)) (r : CompileRequest) (w : σ) : List Text :=
  (runCompilation fs.noted r (w, [])).2.2

theorem bind_apply (x : StateM σ α) (f : α → StateM σ β) (w : σ) :
    (x >>= f) w = f (x w).1 (x w).2 := rfl

theorem beside_bind (x : StateM σ α) (f : α → StateM σ β) :
    beside (x >>= f) = beside x >>= fun a => beside (f a) := rfl

/-! ## Reading -/

theorem readText_noted (path : Text) : readText fs.noted path = beside (readText fs path) := rfl

theorem readFirst_noted (paths : List Text) :
    readFirst fs.noted paths = beside (readFirst fs paths) := by
  induction paths with
  | nil => rfl
  | cons path paths ih =>
    unfold readFirst
    rw [beside_bind]
    refine bind_congr fun kind => ?_
    split
    · rfl
    · exact ih

theorem isFileIfGiven_noted (path : Option Text) :
    isFileIfGiven fs.noted path = beside (isFileIfGiven fs path) := by
  cases path <;> rfl

theorem isNoFileIfGiven_noted (path : Option Text) :
    isNoFileIfGiven fs.noted path = beside (isNoFileIfGiven fs path) := by
  cases path <;> rfl

theorem pathsFit_noted (r : CompileRequest) : pathsFit fs.noted r = beside (pathsFit fs r) := by
  unfold pathsFit
  simp only [isFileIfGiven_noted, isNoFileIfGiven_noted]
  rfl

theorem requestConfig_noted (r : CompileRequest) :
    requestConfig fs.noted r = beside (requestConfig fs r) := by
  unfold requestConfig
  split <;> rfl

theorem stylesText_noted (r : CompileRequest) (path source : Text) :
    stylesText fs.noted r path source = beside (stylesText fs r path source) := by
  unfold stylesText
  split
  · rfl
  · exact readFirst_noted _

/-! ## What there is to write -/

section

variable {m : Type → Type} [Monad m]

/-- What a compilation has made before it writes anything, with its configuration and the lines of
its log; or how it ends before. -/
def prepare (fs : FileAccess m) (r : CompileRequest) :
    m (Except Outcome (Config × List Text × Output)) := do
  if !(← pathsFit fs r) then return .error misused
  match ← requestConfig fs r with
  | .error message => return .error (badConfig message)
  | .ok c =>
    let path := Path.tidy r.entry
    let source ← readText fs path
    let stylesSource ← stylesText fs r path source
    let run := Registry.builtIn.compile c { path, source, stylesSource }
    let log := if r.verbose then run.events.map (·.line) else []
    match run.result with
    | .error f =>
      let lines : List Text := if isForeseen f then ["Error: " ++ f.message] else []
      return .error { exitCode := 1, err := unlines (log ++ lines) }
    | .ok o => return .ok (c, log, o)

/-- The folder that the files of a request go to. -/
def CompileRequest.folder (r : CompileRequest) : Text :=
  match r.outDir with
  | some d => if d.isEmpty then Path.parent (Path.tidy r.entry) else d
  | none => Path.parent (Path.tidy r.entry)

/-- A compilation writes what it has prepared. -/
theorem runCompilation_eq [LawfulMonad m] (fs : FileAccess m) (r : CompileRequest) :
    runCompilation fs r = prepare fs r >>= fun
      | .error o => pure o
      | .ok (_, log, o) => writeOutput fs r.folder log o := by
  unfold runCompilation prepare
  rw [bind_assoc]
  refine bind_congr fun fit => ?_
  split
  · rw [pure_bind]
  · rw [bind_assoc]
    refine bind_congr fun config => ?_
    cases config with
    | error message => rw [pure_bind]
    | ok c =>
      simp only [bind_assoc]
      refine bind_congr fun source => bind_congr fun stylesSource => ?_
      cases (Registry.builtIn.compile c ⟨Path.tidy r.entry, source, stylesSource⟩).result with
      | error f => rw [pure_bind]
      | ok o =>
        rw [pure_bind]
        rfl

end

/-- The configuration that a compilation has, if the paths of its request are such as they have to
be. -/
def configAt (fs : FileAccess (StateM σ)) (r : CompileRequest) (w : σ) : Except Text Config :=
  (requestConfig fs r (pathsFit fs r w).2).1

/-- A compilation that writes nothing does not end well.  Any other has made an output of its source
with its configuration. -/
theorem prepare_cases (fs : FileAccess (StateM σ)) (r : CompileRequest) (w : σ) :
    (∃ e, (prepare fs r w).1 = .error e ∧ e.exitCode ≠ 0) ∨
      ∃ c log o, (prepare fs r w).1 = .ok (c, log, o) ∧ configAt fs r w = .ok c ∧
        ∃ source stylesSource, (Registry.builtIn.compile c
          { path := Path.tidy r.entry, source, stylesSource }).result = .ok o := by
  unfold prepare configAt
  rw [bind_apply]
  generalize pathsFit fs r w = fit
  rcases fit with ⟨fit, w⟩
  cases fit with
  | false => exact Or.inl ⟨_, rfl, by decide⟩
  | true =>
    dsimp only
    rw [Bool.not_true, if_neg Bool.false_ne_true, bind_apply]
    generalize requestConfig fs r w = config
    rcases config with ⟨config, w⟩
    cases config with
    | error message => exact Or.inl ⟨_, rfl, Nat.one_ne_zero⟩
    | ok c =>
      dsimp only
      rw [bind_apply, bind_apply]
      generalize readText fs (Path.tidy r.entry) w = source
      rcases source with ⟨source, w⟩
      generalize stylesText fs r (Path.tidy r.entry) source w = styles
      rcases styles with ⟨styles, w⟩
      dsimp only
      cases hresult : (Registry.builtIn.compile c ⟨Path.tidy r.entry, source, styles⟩).result with
      | error f => exact Or.inl ⟨_, rfl, Nat.one_ne_zero⟩
      | ok o => exact Or.inr ⟨c, _, o, rfl, rfl, source, styles, hresult⟩

theorem prepare_noted (r : CompileRequest) : prepare fs.noted r = beside (prepare fs r) := by
  unfold prepare
  rw [beside_bind, pathsFit_noted]
  refine bind_congr fun fit => ?_
  split
  · rfl
  · rw [beside_bind, requestConfig_noted]
    refine bind_congr fun config => ?_
    cases config with
    | error message => rfl
    | ok c =>
      dsimp only
      rw [beside_bind, readText_noted]
      refine bind_congr fun source => ?_
      rw [beside_bind, stylesText_noted]
      refine bind_congr fun stylesSource => ?_
      split <;> rfl

/-! ## Writing -/

/-- A file is written before those behind it, which are written only if it can be. -/
theorem writeFiles_cons (fs : FileAccess (StateM σ)) (folder : Text) (f : File) (files : List File)
    (w : σ) : writeFiles fs folder (f :: files) w =
      match fs.write (Path.inside folder f.path) f.content w with
      | (true, w) =>
        ((("Wrote " ++ Path.inside folder f.path) :: (writeFiles fs folder files w).1.1,
          (writeFiles fs folder files w).1.2), (writeFiles fs folder files w).2)
      | (false, w) => (([], false), w) := by
  rw [writeFiles, bind_apply]
  rcases fs.write (Path.inside folder f.path) f.content w with ⟨done, w⟩
  cases done <;> rfl

/-- Writing files notes their paths, and all of them if all can be written. -/
theorem writeFiles_noted (fs : FileAccess (StateM σ)) (folder : Text) (files : List File) (w : σ)
    (notes : List Text) :
    ∃ paths, writeFiles fs.noted folder files (w, notes) =
        ((writeFiles fs folder files w).1, (writeFiles fs folder files w).2, notes ++ paths) ∧
      ((writeFiles fs folder files w).1.2 = true →
        paths = files.map fun f => Path.inside folder f.path) := by
  induction files generalizing w notes with
  | nil =>
    refine ⟨[], ?_, fun _ => rfl⟩
    rw [List.append_nil]
    rfl
  | cons f files ih =>
    have hnoted : fs.noted.write (Path.inside folder f.path) f.content (w, notes) =
        ((fs.write (Path.inside folder f.path) f.content w).1,
          (fs.write (Path.inside folder f.path) f.content w).2,
          notes ++ [Path.inside folder f.path]) := rfl
    rw [writeFiles_cons, writeFiles_cons, hnoted]
    rcases fs.write (Path.inside folder f.path) f.content w with ⟨done, w'⟩
    cases done with
    | false => exact ⟨[Path.inside folder f.path], rfl, fun h => by cases h⟩
    | true =>
      obtain ⟨paths, hrun, hall⟩ := ih w' (notes ++ [Path.inside folder f.path])
      refine ⟨Path.inside folder f.path :: paths, ?_, fun h => ?_⟩
      · dsimp only
        rw [hrun, ← List.append_cons]
      · rw [hall h]
        rfl

/-- How a compilation ends after writing files, given the lines that tell of them and whether they
are all. -/
def concluded (log : List Text) (o : Output) : List Text × Bool → Outcome
  | (lines, false) => { exitCode := 1, out := unlines lines, err := unlines log }
  | (lines, true) =>
    let gap : List Text := if o.warnings.isEmpty then [] else [[]]
    let summary : Text := "Summary: " ++ ofNat o.files.length ++ " file(s), "
      ++ ofNat o.warnings.length ++ " warning(s)"
    { exitCode := 0, out := unlines (lines ++ gap ++ [summary]),
      err := unlines (log ++ o.warnings) }

theorem concluded_eq_zero {x : List Text × Bool} (h : (concluded log o x).exitCode = 0) :
    x.2 = true := by
  rcases x with ⟨lines, _ | _⟩
  · cases h
  · rfl

/-- What a compilation has made is written if there is a folder for it. -/
theorem writeOutput_eq (fs : FileAccess (StateM σ)) (folder : Text) (log : List Text) (o : Output)
    (w : σ) : writeOutput fs folder log o w =
      match fs.makeFolder folder w with
      | (true, w) =>
        (concluded log o (writeFiles fs folder o.files w).1, (writeFiles fs folder o.files w).2)
      | (false, w) => ({ exitCode := 1, err := unlines log }, w) := by
  unfold writeOutput
  dsimp only
  rw [bind_apply]
  rcases fs.makeFolder folder w with ⟨made, w⟩
  cases made with
  | false => rfl
  | true =>
    dsimp only
    rw [Bool.not_true, if_neg Bool.false_ne_true, bind_apply]
    rcases writeFiles fs folder o.files w with ⟨⟨lines, all⟩, w⟩
    cases all <;> rfl

/-- Writing what a compilation has made notes the paths of all files if it ends well. -/
theorem writeOutput_noted (fs : FileAccess (StateM σ)) (folder : Text) (log : List Text) (o : Output)
    (w : σ) (notes : List Text) :
    ∃ paths, writeOutput fs.noted folder log o (w, notes) =
        ((writeOutput fs folder log o w).1, (writeOutput fs folder log o w).2, notes ++ paths) ∧
      ((writeOutput fs folder log o w).1.exitCode = 0 →
        paths = o.files.map fun f => Path.inside folder f.path) := by
  have hnoted : fs.noted.makeFolder folder (w, notes) =
      ((fs.makeFolder folder w).1, (fs.makeFolder folder w).2, notes) := rfl
  rw [writeOutput_eq, writeOutput_eq, hnoted]
  rcases fs.makeFolder folder w with ⟨made, w'⟩
  cases made with
  | false =>
    refine ⟨[], ?_, fun h => by cases h⟩
    rw [List.append_nil]
  | true =>
    obtain ⟨paths, hrun, hall⟩ := writeFiles_noted fs folder o.files w' notes
    refine ⟨paths, ?_, fun h => hall (concluded_eq_zero h)⟩
    dsimp only
    rw [hrun]

/-! ## Compilations -/

/-- Noting what is written changes nothing else.  A compilation that ends well has made an output of
its source, and the paths at which it writes are those of the files of this output in the folder of
the request. -/
theorem runCompilation_noted (fs : FileAccess (StateM σ)) (r : CompileRequest) (w : σ) :
    runCompilation fs.noted r (w, []) =
        ((runCompilation fs r w).1, (runCompilation fs r w).2, written fs r w) ∧
      ((runCompilation fs r w).1.exitCode = 0 →
        ∃ c o, configAt fs r w = .ok c ∧
          (∃ source stylesSource, (Registry.builtIn.compile c
            { path := Path.tidy r.entry, source, stylesSource }).result = .ok o) ∧
          written fs r w = o.files.map fun f => Path.inside r.folder f.path) := by
  have hbeside : beside (prepare fs r) (w, []) =
      ((prepare fs r w).1, (prepare fs r w).2, []) := rfl
  have hcases := prepare_cases fs r w
  unfold written
  rw [runCompilation_eq, runCompilation_eq, prepare_noted, bind_apply, bind_apply, hbeside]
  generalize prepare fs r w = made at hcases
  rcases made with ⟨made, w'⟩
  rcases hcases with ⟨e, rfl, hcode⟩ | ⟨c, log, o, rfl, hconfig, hsource⟩
  · exact ⟨rfl, fun h => absurd h hcode⟩
  · obtain ⟨paths, hrun, hall⟩ := writeOutput_noted fs r.folder log o w' []
    dsimp only
    rw [hrun]
    exact ⟨rfl, fun h => ⟨c, o, hconfig, hsource, hall h⟩⟩

/-! ## The source -/

/-- A compilation without a folder for its files writes at the path of its source just if it makes a
component, unless the name of the source is nothing but the suffix. -/
theorem entry_mem_written_iff (fs : FileAccess (StateM σ)) (w : σ) (hdir : r.outDir = none)
    (hname : endsWith (Path.name r.entry) ".tsx" = true)
    (hok : (runCompilation fs r w).1.exitCode = 0) :
    ∃ c, configAt fs r w = .ok c ∧ (Path.tidy r.entry ∈ written fs r w ↔
      c.outputFormat = .react ∧ Path.name r.entry ≠ ".tsx") := by
  obtain ⟨c, o, hconfig, ⟨source, stylesSource, hresult⟩, hwritten⟩ :=
    (runCompilation_noted fs r w).2 hok
  obtain ⟨hfiles, htsx⟩ := Registry.exists_component_iff hresult
  dsimp only at hfiles htsx
  rw [Path.stem_tidy] at hfiles htsx
  have hfolder : r.folder = Path.parent (Path.tidy r.entry) := by rw [CompileRequest.folder, hdir]
  obtain ⟨m, hm⟩ := endsWith_iff.1 hname
  have hlast : (Path.name r.entry).getLast? = some 'x' := by
    rw [hm]
    exact getLast?_append_of (by decide)
  have hparts : Path.parts r.entry ≠ [] := by
    intro hnil
    rw [Path.name, hnil] at hlast
    cases hlast
  have hsuffix : ".tsx".toList = '.' :: "tsx".toList := by decide
  have hsame : Path.inside (Path.parent (Path.tidy r.entry)) (Path.stem r.entry ++ ".tsx") =
      Path.tidy r.entry ↔ Path.name r.entry ≠ ".tsx" := by
    have hstem := Path.inside_stem_eq_iff (t := Path.tidy r.entry) (s := "tsx")
      (by rwa [Path.parts_tidy]) (by decide) (by decide) (by decide)
    rw [Path.tidy_tidy, Path.name_tidy, Path.stem_tidy, ← hsuffix] at hstem
    exact hstem hname
  refine ⟨c, hconfig, ?_⟩
  rw [hwritten, hfolder, List.mem_map, ← htsx]
  constructor
  · rintro ⟨f, hf, hinside⟩
    rcases hfiles f hf with hother | hpath
    · -- the path of the source ends in another letter
      have hend := Path.getLast?_inside (Path.parent (Path.tidy r.entry)) hother (by decide)
        (by decide)
      rw [hinside, Path.getLast?_tidy_eq hparts, hlast] at hend
      cases hend
    · rw [hpath] at hinside
      exact ⟨⟨f, hf, hpath⟩, hsame.1 hinside⟩
  · rintro ⟨⟨f, hf, hpath⟩, hne⟩
    refine ⟨f, hf, ?_⟩
    rw [hpath]
    exact hsame.2 hne

/-- A folder with a component and its styles. -/
def componentFolder : Folder where
  files := [("Skin.tsx", "let styles=\x7b\x7d;let f=()=><a/>")]

/-- A compilation of that component to a custom element leaves it as it is. -/
theorem entry_not_mem_written :
    (runCompilation Folder.access { entry := "Skin.tsx" } componentFolder).1.exitCode = 0 ∧
      Path.tidy "Skin.tsx" ∉ written Folder.access { entry := "Skin.tsx" } componentFolder := by
  have hok : (runCompilation Folder.access { entry := "Skin.tsx" }
      componentFolder).1.exitCode = 0 := by
    decide +kernel
  have hformat : (configAt Folder.access { entry := "Skin.tsx" } componentFolder).toOption.map
      (·.outputFormat) = some .webComponent := by
    decide +kernel
  obtain ⟨c, hconfig, hiff⟩ := entry_mem_written_iff Folder.access componentFolder
    (r := { entry := "Skin.tsx" }) rfl (by decide) hok
  rw [hconfig] at hformat
  have helement : c.outputFormat = .webComponent := Option.some.inj hformat
  refine ⟨hok, fun hmem => ?_⟩
  have hreact := (hiff.1 hmem).1
  rw [helement] at hreact
  cases hreact

/-- A compilation to a component writes at the path of that component, whose styles are lost. -/
theorem entry_mem_written_component :
    let r : CompileRequest := { entry := "Skin.tsx", outputFormat := some .react }
    (runCompilation Folder.access r componentFolder).1.exitCode = 0 ∧
      Path.tidy r.entry ∈ written Folder.access r componentFolder ∧
      (runCompilation Folder.access r componentFolder).2.files =
        [("Skin.tsx".toList, "let f=()=><a/>".toList)] := by
  decide +kernel

end SkinCompiler.CommandLine
