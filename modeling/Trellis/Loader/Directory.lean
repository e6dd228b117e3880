import Trellis.Loader.Basic
import Trellis.Loader.FileTree
import Trellis.Text.Path

/-!
# `Trellis.Loader.Directory`: sources in files

A name means the file at the path that it spells, below the base directory. A name
without an extension means a template file. The version of a source is the time at which
its file was last changed.

A template file is listed under its path without the extension, with which the path is
found again; only for a file called `..jade` it is not, see `fileName`.
-/

set_option autoImplicit false

namespace Trellis

/-- The base directory: the path by which it was named, and where that leads. -/
structure Directory where
  place : String
  trail : Except Obstacle Trail

namespace Directory

/-- The extension of template files. -/
def templateExtension : List Char := "jade".toList

/-- The path of the file that a name means. -/
def path (name : String) : String :=
  let path := Text.Path.relative name.toList
  String.ofList <|
    if (Text.Path.extension? path).isSome then path else path ++ '.' :: templateExtension

/-- What stands where a name points to. The path to it is that of the base directory and
the one that the name means, and both together can be too long. -/
def locate (d : Directory) (name : String) : Except Obstacle FileTree :=
  if FileTree.isTooLong (String.ofList (Text.Path.join d.place.toList (path name).toList)) then
    .error .blocked
  else
    d.trail.bind fun trail => FileTree.locate (path name) trail

/-- The failure to get at what a name means. -/
def failure (name : String) : Obstacle → Error
  | .missing => .notFound name
  | .blocked => .unreadable

/-- The text of the file that a name means. -/
def source (d : Directory) (name : String) : Except Error String :=
  match d.locate name with
  | .error obstacle => .error (failure name obstacle)
  | .ok (.directory _ _) => .error .unreadable
  | .ok (.file bytes _) =>
    match String.fromUTF8? bytes with
    | some text => .ok text
    | none => .error .unreadable

/-- The version of what a name means; a directory has one, too. -/
def version (d : Directory) (name : String) : Except Error String :=
  match d.locate name with
  | .error obstacle => .error (failure name obstacle)
  | .ok tree => .ok (toString tree.modified)

/-- Does a name mean a file? -/
def holds (d : Directory) (name : String) : Bool :=
  match d.locate name with
  | .ok (.file _ _) => true
  | _ => false

/-- The paths of all files below the base directory. -/
def files (d : Directory) : List (List String) :=
  match d.trail with
  | .ok (.directory entries _ :: _) => FileTree.entryPaths entries
  | _ => []

/-- What a file is called without its extension. A single dot would mean the directory
around the file, so the dot of the extension stays with it. -/
def fileName (stem : List Char) : String := if stem = ['.'] then ".." else String.ofList stem

/-- The name of a template file: its path without the extension. -/
def templateName? (path : List String) : Option String :=
  match path.getLast? with
  | none => none
  | some file =>
    match Text.Path.cutExtension? file.toList with
    | none => none
    | some (stem, extension) =>
      if extension = templateExtension then
        some ("/".intercalate (path.dropLast ++ [fileName stem]))
      else none

/-- The names of all template files, in order. Where a template file stands in place of the
base directory, it is listed itself, under the empty path. -/
def templates (d : Directory) : List String :=
  match d.trail with
  | .ok (.file _ _ :: _) =>
    if Text.Path.extension? d.place.toList = some templateExtension then [""] else []
  | _ => (d.files.filterMap templateName?).mergeSort fun a b => a ≤ b

/-- The names that may mean the file at a path: the path, and the path without the ending
that is put behind names without an extension. -/
def namesOf (path : List String) : List String :=
  let whole := "/".intercalate path
  match Text.before? ('.' :: templateExtension) whole.toList with
  | some short => [whole, String.ofList short]
  | none => [whole]

/-- The loader of the files as they are now. -/
def loader (d : Directory) : Loader where
  source := d.source
  names := d.files.flatMap namesOf
  version := d.version
  holds := d.holds
  list := d.templates

end Directory

end Trellis
