import SkinCompiler.Skin.Pipeline

/-!
# Registries

A registry holds pipelines, no two of them for the same key, and finds the one that a configuration
chooses.
-/

namespace SkinCompiler.Skin

/-- Pipelines in the order in which they were registered. -/
structure Registry where
  /-- The pipelines. -/
  pipelines : List Pipeline := []

/-- A pipeline that cannot be registered. -/
inductive RegistrationFault where
  /-- There is one for its key already. -/
  | taken (key : PipelineKey)
  /-- There are no custom elements with that strategy. -/
  | unsupported (strategy : CssStrategy)
  deriving DecidableEq

/-- The text of a fault. -/
def RegistrationFault.message : RegistrationFault → Text
  | .taken key => "a pipeline is already registered for " ++ key.text
  | .unsupported strategy =>
    "web components do not support the " ++ strategy.word ++ " strategy"

/-- The pipeline that makes custom elements with a strategy. -/
def Pipeline.ofStrategy : CssStrategy → Except RegistrationFault Pipeline
  | .inline => .ok (.webComponent false)
  | .vanilla => .ok (.webComponent true)
  | .cssModules => .error (.unsupported .cssModules)

namespace Registry

/-- The keys of the pipelines. -/
def keys (r : Registry) : List PipelineKey := r.pipelines.map (·.key)

/-- The pipeline of a key. -/
def get? (r : Registry) (key : PipelineKey) : Option Pipeline :=
  r.pipelines.find? fun p => p.key = key

/-- Add a pipeline. -/
def register (r : Registry) (p : Pipeline) : Except RegistrationFault Registry :=
  if r.keys.contains p.key then .error (.taken p.key) else .ok ⟨r.pipelines ++ [p]⟩

/-- The pipeline of a key, or the reason why there is none. -/
def get (r : Registry) (key : PipelineKey) : Except Failure Pipeline :=
  match r.get? key with
  | some p => .ok p
  | none => .error (.noPipeline key r.keys)

/-- The registry of all pipelines. -/
def builtIn : Registry := ⟨[.webComponent false, .webComponent true, .reactModules, .reactInline]⟩

/-- Compile an entry with the pipeline that its configuration chooses. -/
def compile (r : Registry) (c : Config) (e : Entry) : Run Output :=
  match r.get c.key with
  | .error f => { events := [], result := .error f }
  | .ok p =>
    let run := p.compile c e
    { run with events := .started e.path p.key.text :: run.events }

end Registry

end SkinCompiler.Skin
