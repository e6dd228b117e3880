import Trellis.Text.Search

/-!
# `Trellis.Document.Reference`: names of other templates

An include or extends statement names another template from where its own stands: by
a path from the directory of the template, or, after a slash, from the root. What
comes out is a path without empty segments and dots. A segment `..` goes up one
directory and stops at the root, so no reference leads out of it.
-/

set_option autoImplicit false

namespace Trellis.Reference

open Trellis.Text

/-- Goes through the segments of a path, `up` being those that lead to where it
stands, the last one first. -/
def walk (up : List (List Char)) : List (List Char) → List (List Char)
  | [] => up.reverse
  | part :: parts =>
    if part = [] ∨ part = ['.'] then walk up parts
    else if part = ['.', '.'] then walk (up.drop 1) parts
    else walk (part :: up) parts

/-- The path without empty segments and dots. -/
def normalize (path : List Char) : List Char := joinWith ['/'] (walk [] (splitAll '/' path))

/-- The path of the directory of a template, if its name has one. -/
def directory? (name : List Char) : Option (List Char) :=
  match name.reverse.dropWhile (· != '/') with
  | [] => none
  | _ :: before => some before.reverse

/-- Is the character a quote that may surround a target? -/
def isQuoteMark (c : Char) : Bool := c == '"' || c == '\''

/-- The target without the blanks around it and without the quotes inside those. -/
def bareTarget (target : List Char) : List Char :=
  (((trim target).dropWhile isQuoteMark).reverse.dropWhile isQuoteMark).reverse

/-- The name that a target has, seen from the template `current`. -/
def resolve (current target : String) : String :=
  let target := bareTarget target.toList
  let path :=
    match target with
    | '/' :: absolute => absolute
    | _ =>
      match directory? current.toList with
      | some directory => directory ++ '/' :: target
      | none => target
  String.ofList (normalize path)

/-- The last segment of a path. -/
def fileName (name : List Char) : List Char := (name.reverse.takeWhile (· != '/')).reverse

/-- Does the name belong to a file that is no template? The text behind the last dot of
its last segment tells, if there is text before that dot. Such a file is included as
it is. -/
def isRaw (name : String) : Bool :=
  let file := fileName name.toList
  let ending := (file.reverse.takeWhile (· != '.')).reverse
  let stem := file.take (file.length - ending.length - 1)
  ending.length < file.length && !stem.isEmpty && ending != ['j', 'a', 'd', 'e']

end Trellis.Reference
