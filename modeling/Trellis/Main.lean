import Trellis.CommandLine

/-!
# `Trellis.Main`: the command

Reads the directory that the arguments name, and writes what the command leaves behind.
-/

set_option autoImplicit false

open Trellis CommandLine

/-- When something was changed, in milliseconds. -/
def milliseconds (t : IO.FS.SystemTime) : Nat :=
  (t.sec * 1000 + (t.nsec.toNat / 1000000 : Nat)).toNat

/-- What is below a directory. What cannot be read is left out. -/
partial def readEntries (entries : Array IO.FS.DirEntry) : IO (Table FileTree) := do
  let mut table : Table FileTree := []
  for entry in entries do
    try
      let data ← entry.path.metadata
      let modified := milliseconds data.modified
      let tree ←
        match data.type with
        | .dir => pure (FileTree.directory (← readEntries (← entry.path.readDir)) modified)
        | _ => pure (FileTree.file (← IO.FS.readBinFile entry.path) modified)
      table := Table.insert entry.fileName tree table
    catch _ => pure ()
  return table

/-- The directory at a path. -/
def readDirectory (path : String) : IO Directory := do
  let place := (← IO.currentDir) / path
  try
    let data ← place.metadata
    let modified := milliseconds data.modified
    match data.type with
    | .dir => return ⟨path, .ok [.directory (← readEntries (← place.readDir)) modified]⟩
    | _ => return ⟨path, .ok [.file .empty modified]⟩
  catch _ => return ⟨path, .error .missing⟩

def main (args : List String) : IO UInt32 := do
  match Request.read args with
  | .malformed =>
    (← IO.getStderr).putStr usage
    return 2
  | .help =>
    (← IO.getStdout).putStr usage
    return 0
  | .render i =>
    let outcome := i.run (← readDirectory i.directory)
    (← IO.getStdout).putStr outcome.output
    (← IO.getStderr).putStr outcome.report
    return outcome.code
