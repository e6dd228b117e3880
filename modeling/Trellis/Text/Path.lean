import Trellis.Text.Search

/-!
# `Trellis.Text.Path`: paths of files

A path is a text of segments with slashes between them. Empty segments and single
dots say nothing; two dots go up.

The extension of a path is what stands behind the last dot of its last segment. A
segment that has no other dot than its first character has no extension.
-/

set_option autoImplicit false

namespace Trellis.Text.Path

/-- The segments that say something. -/
def segments (path : List Char) : List (List Char) :=
  (splitAll '/' path).filter fun s => s ≠ [] && s ≠ ['.']

/-- What stands before the last dot of a segment, and what stands behind it, if the dot
is there and is not the first character. -/
def cutExtension? (segment : List Char) : Option (List Char × List Char) :=
  let behind := (segment.reverse.takeWhile (· != '.')).reverse
  match segment.reverse.dropWhile (· != '.') with
  | [] => none
  | _ :: before => if before.isEmpty then none else some (before.reverse, behind)

/-- The extension of a path, if it has one. -/
def extension? (path : List Char) : Option (List Char) :=
  match (segments path).getLast? with
  | none => none
  | some segment => if segment = ['.', '.'] then none else (cutExtension? segment).map (·.2)

/-- The path that goes on from the end of `first` along `second`. -/
def join (first second : List Char) : List Char :=
  if first.isEmpty || first.getLast? == some '/' then first ++ second
  else first ++ '/' :: second

/-- The path without the slashes at its beginning. -/
def relative (path : List Char) : List Char := path.dropWhile (· == '/')

end Trellis.Text.Path
