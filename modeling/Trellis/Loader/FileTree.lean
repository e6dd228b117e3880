import Trellis.Table
import Trellis.Text.Search

/-!
# `Trellis.Loader.FileTree`: directories and files

A file tree is what is below one directory at one moment. A place in it is found by
going through the segments of a path. The way that leads to a place is a trail: what
stands there, then the directory around it, and so on outwards, so that two dots can go
back. Nothing is known about what is around the outermost directory.

`FileTree.walk` tells apart that nothing is at the end of a path and that the path
cannot be gone: it leads through a file, or is no path that a file could have.
-/

set_option autoImplicit false

namespace Trellis

/-- A file with its bytes, or a directory, and when it was last changed, in
milliseconds. -/
inductive FileTree where
  | file (bytes : ByteArray) (modified : Nat)
  | directory (entries : List (String × FileTree)) (modified : Nat)

/-- Why a path does not lead anywhere. -/
inductive Obstacle where
  | missing
  | blocked
  deriving DecidableEq

/-- A place and the directories around it, the outermost last. -/
abbrev Trail := List FileTree

namespace FileTree

def empty : FileTree := .directory [] 0

/-- When it was last changed. -/
def modified : FileTree → Nat
  | .file _ modified => modified
  | .directory _ modified => modified

/-- The entry of a directory. -/
def entry? (name : String) : FileTree → Option FileTree
  | .file _ _ => none
  | .directory entries _ => Table.find? name entries

/-- Puts a tree at the end of a path, with the directories that this needs. -/
def put (tree : FileTree) : List String → FileTree → FileTree
  | [], _ => tree
  | name :: path, .directory entries modified =>
    let inner := (Table.find? name entries).getD .empty
    .directory (Table.insert name (put tree path inner) entries) modified
  | name :: path, .file _ _ => .directory [(name, put tree path .empty)] 0

mutual

/-- The paths of all files. -/
def paths : FileTree → List (List String)
  | .file _ _ => [[]]
  | .directory entries _ => entryPaths entries

/-- The paths of all files in some entries. -/
def entryPaths : List (String × FileTree) → List (List String)
  | [] => []
  | (name, tree) :: rest => tree.paths.map (name :: ·) ++ entryPaths rest

end

/-! ## Going through a path -/

/-- The greatest number of bytes in a name. -/
def maxName : Nat := 255

/-- The number of bytes at which a path is too long. -/
def maxPath : Nat := 4096

/-- Is a path longer than any that a file could have? -/
def isTooLong (path : String) : Bool := path.utf8ByteSize ≥ maxPath

/-- One step along a path. Only from a directory does any step lead on, even one that
stays. -/
def step (segment : List Char) : Trail → Except Obstacle Trail
  | .directory entries modified :: around =>
    let name := String.ofList segment
    if segment = [] ∨ segment = ['.'] then .ok (.directory entries modified :: around)
    else if segment = ['.', '.'] then
      if around.isEmpty then .error .missing else .ok around
    else if name.utf8ByteSize > maxName then .error .blocked
    else
      match Table.find? name entries with
      | some tree => .ok (tree :: .directory entries modified :: around)
      | none => .error .missing
  | _ => .error .blocked

/-- The place to which a path leads from a directory. -/
def walk (path : String) (trail : Trail) : Except Obstacle Trail :=
  if path.toList.contains (Char.ofNat 0) || isTooLong path then .error .blocked
  else (Text.splitAll '/' path.toList).foldlM (fun trail segment => step segment trail) trail

/-- What stands at the end of a path. -/
def locate (path : String) (trail : Trail) : Except Obstacle FileTree := do
  match ← walk path trail with
  | tree :: _ => return tree
  | [] => throw .missing

end FileTree

end Trellis
