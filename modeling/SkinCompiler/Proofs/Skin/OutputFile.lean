import SkinCompiler.Proofs.Skin.Frame

/-!
# The files that pipelines make

The file of a component keeps the name of its source, while modules and stylesheets have names of
their own.

* `Registry.of_compile` -- what is compiled is a loaded skin, with the pipeline of its key;
* `Pipeline.path_of_mem_files` -- the names of the files of a pipeline;
* `Registry.exists_component_iff` -- when there is the file of a component.
-/

namespace SkinCompiler.Skin

open Text

variable {c : Config} {e : Entry} {s : LoadedSkin} {p : Pipeline} {registry : Registry} {o : Output}
  {f : File}

/-! ## The names of the files -/

/-- The file of a component has the stem of its source as its name, with `.tsx` behind.  The names
of all other files end in another letter. -/
theorem Pipeline.path_of_mem_files (h : (p.compileSkin c s).result = .ok o) (hf : f ∈ o.files) :
    f.path.getLast? = some 's' ∨
      p.key.outputFormat = .react ∧ f.path = Path.stem s.path ++ ".tsx" := by
  cases p with
  | webComponent linked =>
    unfold compileSkin compileElement at h
    dsimp only at h
    split at h
    · cases h
    · split at h
      · cases h
      · obtain rfl := Except.ok.inj h
        left
        rcases List.mem_cons.1 hf with rfl | hf
        · exact getLast?_append_of (by decide)
        · cases linked with
          | false => cases hf
          | true =>
            obtain rfl := List.mem_singleton.1 hf
            exact getLast?_append_of (by decide)
  | reactModules =>
    unfold compileSkin compileModules at h
    dsimp only at h
    split at h
    · cases h
    · obtain rfl := Except.ok.inj h
      simp only [List.mem_cons, List.not_mem_nil, or_false] at hf
      rcases hf with rfl | rfl | rfl
      · exact Or.inr ⟨rfl, rfl⟩
      · exact Or.inl (getLast?_append_of (by decide))
      · exact Or.inl (getLast?_append_of (by decide))
  | reactInline =>
    unfold compileSkin compileInline at h
    dsimp only at h
    split at h
    · cases h
    · obtain rfl := Except.ok.inj h
      obtain rfl := List.mem_singleton.1 hf
      exact Or.inr ⟨rfl, rfl⟩

/-- A pipeline that is found has the key that it is looked up by. -/
theorem Registry.key_of_get {key : PipelineKey} (h : registry.get key = .ok p) : p.key = key := by
  unfold Registry.get at h
  split at h
  · rename_i q hq
    obtain rfl := Except.ok.inj h
    have hkey := List.find?_some hq
    simpa using hkey
  · cases h

/-- What is compiled is a skin that has been loaded, with the pipeline that the configuration
chooses. -/
theorem Registry.of_compile (h : (registry.compile c e).result = .ok o) :
    ∃ p s, registry.get c.key = .ok p ∧ load e = .ok s ∧ (p.compileSkin c s).result = .ok o := by
  cases hget : registry.get c.key with
  | error f =>
    unfold Registry.compile at h
    rw [hget] at h
    cases h
  | ok p =>
    cases hload : load e with
    | error f =>
      unfold Registry.compile Pipeline.compile at h
      rw [hget] at h
      dsimp only at h
      rw [hload] at h
      cases h
    | ok s =>
      rw [Registry.result_compile hget hload] at h
      exact ⟨p, s, rfl, rfl, h⟩

/-- There is the file of a component just if components are to be made. -/
theorem Registry.exists_component_iff (h : (registry.compile c e).result = .ok o) :
    (∀ f ∈ o.files, f.path.getLast? = some 's' ∨ f.path = Path.stem e.path ++ ".tsx") ∧
      ((∃ f ∈ o.files, f.path = Path.stem e.path ++ ".tsx") ↔ c.outputFormat = .react) := by
  obtain ⟨p, s, hget, hload, hok⟩ := Registry.of_compile h
  have hformat : p.key.outputFormat = c.outputFormat :=
    congrArg PipelineKey.outputFormat (Registry.key_of_get hget)
  have hpath := path_of_load hload
  refine ⟨?_, ?_, ?_⟩
  · intro f hf
    rw [← hpath]
    exact (Pipeline.path_of_mem_files hok hf).imp_right And.right
  · rintro ⟨f, hf, hname⟩
    rcases Pipeline.path_of_mem_files hok hf with hlast | ⟨hreact, -⟩
    · rw [hname, getLast?_append_of (c := 'x') (by decide)] at hlast
      cases hlast
    · rwa [← hformat]
  · intro hreact
    obtain ⟨t, rest, -, hfiles⟩ := Pipeline.exists_splice (hformat.trans hreact) hok
    rw [hfiles, ← hpath]
    exact ⟨_, List.mem_cons_self, rfl⟩

end SkinCompiler.Skin
