import SkinCompiler.CommandLine.Run

/-!
# The program

The command line on the files of the machine.
-/

namespace SkinCompiler.CommandLine

/-- Whether an action succeeds. -/
def isDone (action : IO Unit) : IO Bool := do
  try
    action
    return true
  catch _ => return false

/-- What is found at a path of the machine: a folder can be opened like a file, but not read. -/
def machineKind (path : String) : IO PathKind := do
  if ← isDone (do let _ ← IO.FS.Handle.mk path .read) then
    if ← isDone (do let _ ← IO.FS.readBinFile path) then return .file
    else return .folder
  else return .absent

/-- Access to the files of the machine. -/
def machineFiles : FileAccess IO where
  kind path := machineKind (String.ofList path)
  read path := return (← IO.FS.readFile (String.ofList path)).toList
  makeFolder path := isDone (IO.FS.createDirAll (String.ofList path))
  write path content := isDone (IO.FS.writeFile (String.ofList path) (String.ofList content))

end SkinCompiler.CommandLine

open SkinCompiler.CommandLine

/-- Run the command line. -/
def main (arguments : List String) : IO UInt32 := do
  let outcome ← run machineFiles (arguments.map String.toList)
  IO.print (String.ofList outcome.out)
  IO.eprint (String.ofList outcome.err)
  return UInt32.ofNat outcome.exitCode
