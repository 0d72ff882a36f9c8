import SkinCompiler.Text.Quoted

/-!
# Logs

The events of a compilation, in the order in which they happen, and the lines that report them.
-/

namespace SkinCompiler

/-- Something that happens during a compilation. -/
inductive Event where
  /-- A pipeline begins with an entry. -/
  | started (entry pipeline : Text)
  /-- An entry has been read. -/
  | loaded (entry component : Text) (keys : Nat)
  /-- An element tree has been written; so many diagnostics are known by then. -/
  | serialised (tag : Text) (diagnostics : Nat)
  /-- A class token makes no sense. -/
  | unparseable (token key : Text)
  /-- Nothing is known about the type of a value, and it is accepted. -/
  | unverified (value type : Text)
  /-- All style keys have become rules. -/
  | stylesCompiled (keys rules : Nat)
  /-- An import is left out. -/
  | importExcluded (source : Text)
  /-- A component of its own has been made of an entry. -/
  | componentCompiled (entry pipeline : Text) (files : Nat)
  /-- A source with its styles in a separate file has been made of an entry. -/
  | modulesCompiled (entry pipeline : Text) (files : Nat)
  /-- A source with its classes in place has been made of an entry. -/
  | inlineCompiled (entry pipeline : Text)
  deriving DecidableEq

namespace Event

/-- The level of an event. -/
def level : Event → Text
  | .started _ _ | .componentCompiled _ _ _ | .modulesCompiled _ _ _ | .inlineCompiled _ _ => "INFO"
  | _ => "DEBUG"

/-- The part of the program that reports an event. -/
def reporter : Event → Text
  | .started _ _ => "tailskin.pipelines.registry"
  | .loaded _ _ _ => "tailskin.pipelines.base"
  | .serialised _ _ => "tailskin.generator.serializer"
  | .unparseable _ _ | .stylesCompiled _ _ => "tailskin.css.modules"
  | .unverified _ _ => "tailskin.candidate.arbitrary"
  | .importExcluded _ => "tailskin.transforms.imports"
  | .componentCompiled _ _ _ => "tailskin.pipelines.web_component"
  | .modulesCompiled _ _ _ | .inlineCompiled _ _ => "tailskin.pipelines.react"

/-- What an event is reported as. -/
def message : Event → Text
  | .started entry pipeline => "compiling " ++ entry ++ " with pipeline " ++ pipeline
  | .loaded entry component keys =>
    "loaded " ++ entry ++ ": component " ++ component ++ ", " ++ Text.ofNat keys ++ " style keys"
  | .serialised tag diagnostics =>
    "serialised <" ++ tag ++ "> with " ++ Text.ofNat diagnostics ++ " diagnostics"
  | .unparseable token key => "unparseable class " ++ Text.quoted token ++ " in " ++ key
  | .unverified value type =>
    "arbitrary value " ++ Text.quoted value ++ " accepted unverified as " ++ type
  | .stylesCompiled keys rules =>
    "compiled " ++ Text.ofNat keys ++ " style keys into " ++ Text.ofNat rules ++ " rules"
  | .importExcluded source => "excluding import " ++ Text.quoted source
  | .componentCompiled entry pipeline files | .modulesCompiled entry pipeline files =>
    "compiled " ++ entry ++ " with " ++ pipeline ++ " into " ++ Text.ofNat files ++ " file(s)"
  | .inlineCompiled entry pipeline => "compiled " ++ entry ++ " with " ++ pipeline ++ " into 1 file"

/-- The line of an event. -/
def line (e : Event) : Text := e.level ++ " " ++ e.reporter ++ ": " ++ e.message

end Event

end SkinCompiler
