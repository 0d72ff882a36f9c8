import SkinCompiler.Text.Basic

/-!
# Arguments

The arguments of a command are options, flags or with a value, and operands.  After two hyphens on
their own everything is an operand.
-/

namespace SkinCompiler.CommandLine

/-- An option of a command. -/
structure OptionSpec where
  /-- How it can be written; the first spelling is its name. -/
  spellings : List Text
  /-- A value follows. -/
  hasValue : Bool := false

/-- The name of an option. -/
def OptionSpec.name (o : OptionSpec) : Text := o.spellings.headD []

/-- Arguments sorted out. -/
structure Arguments where
  /-- The options in order, with their values; flags have the empty value. -/
  given : List (Text × Text) := []
  /-- The operands in order. -/
  operands : List Text := []

namespace Arguments

/-- The value of an option; the last one counts. -/
def value? (a : Arguments) (name : Text) : Option Text :=
  (a.given.reverse.find? (·.1 = name)).map (·.2)

/-- The option is given. -/
def has (a : Arguments) (name : Text) : Bool := a.given.any (·.1 = name)

/-- What an argument that begins with a hyphen says. -/
inductive Word where
  /-- Flags. -/
  | flags (names : List Text)
  /-- An option with its value. -/
  | valued (name value : Text)
  /-- An option whose value is the next argument. -/
  | expecting (name : Text)
  /-- Nothing known. -/
  | unknown

/-- The flag of a letter. -/
def letterFlag? (options : List OptionSpec) (c : Char) : Option Text :=
  (options.find? fun o => !o.hasValue && o.spellings.contains ['-', c]).map (·.name)

/-- What an argument that begins with a hyphen says. -/
def Word.read (options : List OptionSpec) (t : Text) : Word :=
  let (long, value) := match Text.halves? "=" t with
    | some (long, value) => (long, some value)
    | none => (t, none)
  let option := if Text.startsWith long "--" then
      options.find? fun o => o.spellings.contains long
    else none
  match option, value with
  | some o, some v => if o.hasValue then .valued o.name v else .unknown
  | some o, none => if o.hasValue then .expecting o.name else .flags [o.name]
  | none, _ =>
    if Text.startsWith t "--" then .unknown
    else match (t.drop 1).mapM (letterFlag? options) with
      | some names => .flags names
      | none => .unknown

/-- The arguments with an option in front. -/
def giving (name value : Text) (a : Arguments) : Arguments :=
  { a with given := (name, value) :: a.given }

/-- Sort arguments out; nothing comes of an unknown option or of one without its value.  If operands
stand last, everything from the first one on is an operand. -/
def sort (options : List OptionSpec) (operandsLast : Bool) : List Text → Option Arguments
  | [] => some {}
  | t :: rest =>
    if t = "--".toList then some { operands := rest }
    else if t.head? = some '-' && 1 < t.length then
      match Word.read options t with
      | .flags names => (sort options operandsLast rest).map fun a =>
        { a with given := names.map (fun n => (n, [])) ++ a.given }
      | .valued name value => (sort options operandsLast rest).map (giving name value)
      | .expecting name =>
        match rest with
        | [] => none
        | value :: rest => (sort options operandsLast rest).map (giving name value)
      | .unknown => none
    else if operandsLast then some { operands := t :: rest }
    else (sort options operandsLast rest).map fun a => { a with operands := t :: a.operands }

end Arguments

end SkinCompiler.CommandLine
