import SkinCompiler.Text.Basic

/-!
# Diagnostics

What a compilation has to say about its input.  Diagnostics stop nothing: they are collected and
handed to the caller.
-/

namespace SkinCompiler

/-- How serious a diagnostic is. -/
inductive Severity where
  /-- Something is wrong. -/
  | error
  /-- Something may be wrong. -/
  | warning
  /-- Nothing is wrong. -/
  | info
  deriving DecidableEq

/-- The word for a severity. -/
def Severity.word : Severity → Text
  | .error => "ERROR"
  | .warning => "WARNING"
  | .info => "INFO"

/-- Something found during a compilation. -/
structure Diagnostic where
  /-- The name of the check. -/
  rule : Text
  /-- How serious it is. -/
  severity : Severity := .warning
  /-- What was found. -/
  message : Text
  /-- The key of the styles where it was found. -/
  styleKey : Option Text := none
  /-- The class token or the piece of the source where it was found. -/
  token : Option Text := none
  /-- What can be done about it. -/
  fix : Option Text := none
  deriving DecidableEq

namespace Diagnostic

/-- The key and the token, as far as they are known. -/
def location (d : Diagnostic) : Text :=
  Text.join ": " ([d.styleKey, d.token].filterMap fun part => part.filter (!·.isEmpty))

/-- A text between two others, or nothing at all if it is empty. -/
def enclosed (before after t : Text) : Text := if t.isEmpty then [] else before ++ t ++ after

/-- The text of a diagnostic. -/
def text (d : Diagnostic) : Text :=
  d.severity.word ++ enclosed " [" "]" d.location ++ ": " ++ d.message
    ++ enclosed " (" ")" (d.fix.getD [])

end Diagnostic

end SkinCompiler
