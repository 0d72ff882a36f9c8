import SkinCompiler.Text.Basic

/-!
# Paths

Paths of files and folders, with slashes between their parts.  Empty parts and parts that stand for
the folder itself mean nothing; two points stand for the folder around.
-/

namespace SkinCompiler.Path

/-- The parts of a path that mean something. -/
def parts (t : Text) : List Text := (Text.cut '/' t).filter fun p => !p.isEmpty && p != ['.']

/-- The path begins at the root. -/
def isAbsolute (t : Text) : Bool := t.head? = some '/'

/-- The path with the given parts. -/
def ofParts (absolute : Bool) (parts : List Text) : Text :=
  if absolute then '/' :: Text.join "/" parts
  else if parts.isEmpty then ['.'] else Text.join "/" parts

/-- The path with only the parts that mean something. -/
def tidy (t : Text) : Text := ofParts (isAbsolute t) (parts t)

/-- The last part of a path. -/
def name (t : Text) : Text := (parts t).getLastD []

/-- The last part of a path without its suffix; a point at either end of it begins no suffix. -/
def stem (t : Text) : Text :=
  match Text.lastHalves? '.' (name t) with
  | some (stem, suffix) => if stem.isEmpty || suffix.isEmpty then name t else stem
  | none => name t

/-- The folder of a path. -/
def parent (t : Text) : Text := ofParts (isAbsolute t) (parts t).dropLast

/-- A path inside a folder; one that begins at the root stays as it is. -/
def inside (folder t : Text) : Text :=
  if isAbsolute t then tidy t
  else if folder.isEmpty then tidy t
  else tidy (folder ++ '/' :: t)

/-- The parts of a path with the folders around taken literally.  `before` holds the parts so far,
the last one first. -/
def collapseParts (before : List Text) : List Text → List Text
  | [] => before.reverse
  | p :: ps =>
    if p = "..".toList then
      match before with
      | [] => collapseParts [p] ps
      | q :: rest =>
        if q = "..".toList then collapseParts (p :: before) ps else collapseParts rest ps
    else collapseParts (p :: before) ps

/-- The path without turning back, as if there were all folders on it. -/
def collapse (t : Text) : Text := ofParts (isAbsolute t) (collapseParts [] (parts t))

end SkinCompiler.Path
