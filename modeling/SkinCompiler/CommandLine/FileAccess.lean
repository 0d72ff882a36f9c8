import SkinCompiler.Path
import SkinCompiler.Table

/-!
# Access to files

What a command can do with files, whatever holds them, and a folder held in memory.
-/

namespace SkinCompiler.CommandLine

/-- What is found at a path. -/
inductive PathKind where
  /-- Nothing. -/
  | absent
  /-- A file. -/
  | file
  /-- A folder. -/
  | folder
  deriving DecidableEq

/-- What a command can do with files. -/
structure FileAccess (m : Type → Type) where
  /-- What is found at a path. -/
  kind : Text → m PathKind
  /-- The content of a file. -/
  read : Text → m Text
  /-- Make a folder and those around it; tells whether it is there then. -/
  makeFolder : Text → m Bool
  /-- Write a file; tells whether it could be written. -/
  write : Text → Text → m Bool

/-- A folder held in memory: files and further folders by their paths from it. -/
structure Folder where
  /-- The files. -/
  files : Table Text := []
  /-- The folders. -/
  folders : List Text := []

namespace Folder

/-- The path of a place, given by its parts, the last one first. -/
def pathOf (place : List Text) : Text := Text.join "/" place.reverse

/-- What is found at a place. -/
def kindAt (f : Folder) (place : List Text) : PathKind :=
  if f.files.has (pathOf place) then .file
  else if place.isEmpty || f.folders.contains (pathOf place) then .folder
  else .absent

/-- The place that the parts of a path lead to from a place.  Only folders lead anywhere, and
nothing leads out of the folder in memory. -/
def place? (f : Folder) (place : List Text) : List Text → Option (List Text)
  | [] => some place
  | p :: ps =>
    if f.kindAt place != .folder then none
    else if p.isEmpty || p = ['.'] then f.place? place ps
    else if p = "..".toList then
      match place with
      | [] => none
      | _ :: above => f.place? above ps
    else f.place? (p :: place) ps

/-- What is found at a path. -/
def kind (f : Folder) (path : Text) : PathKind :=
  if path.isEmpty || Path.isAbsolute path then .absent
  else match f.place? [] (Text.cut '/' path) with
    | some place => f.kindAt place
    | none => .absent

/-- The content of the file at a path. -/
def read (f : Folder) (path : Text) : Text :=
  ((f.place? [] (Text.cut '/' path)).bind fun place =>
    Table.get? (pathOf place) f.files).getD []

/-- Make the folders that the parts of a path lead through. -/
def makeFolders (f : Folder) (place : List Text) : List Text → Option Folder
  | [] => some f
  | p :: ps =>
    if p = "..".toList then
      match place with
      | [] => none
      | _ :: above => f.makeFolders above ps
    else
      match f.kindAt (p :: place) with
      | .file => none
      | .folder => f.makeFolders (p :: place) ps
      | .absent =>
        let made : Folder := { f with folders := f.folders ++ [pathOf (p :: place)] }
        made.makeFolders (p :: place) ps

/-- The folder with a file written; nothing, if there is no place for the file. -/
def write? (f : Folder) (path content : Text) : Option Folder :=
  match f.place? [] (Path.parts path) with
  | some place =>
    if f.kindAt place = .folder || f.kindAt (place.drop 1) != .folder then none
    else some { f with files := f.files.set (pathOf place) content }
  | none => none

/-- A folder with files at paths from it. -/
def ofFiles (files : List (Text × Text)) : Folder :=
  files.foldl (fun f (path, content) =>
    let parts := Path.parts path
    let f := (f.makeFolders [] parts.dropLast).getD f
    (f.write? path content).getD f) {}

/-- The files that are not the same in an older folder. -/
def changesFrom (f old : Folder) : List (Text × Text) :=
  (f.files.filter fun (path, content) => Table.get? path old.files != some content).mergeSort
    fun a b => !(b.1 < a.1)

/-- Access to a folder held in memory. -/
def access : FileAccess (StateM Folder) where
  kind path := return (← get).kind path
  read path := return (← get).read path
  makeFolder path := do
    if Path.isAbsolute path then return false
    match (← get).makeFolders [] (Path.parts path) with
    | some f => set f; return true
    | none => return false
  write path content := do
    if Path.isAbsolute path then return false
    match (← get).write? path content with
    | some f => set f; return true
    | none => return false

end Folder

end SkinCompiler.CommandLine
