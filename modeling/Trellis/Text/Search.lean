import Trellis.Text.Blank

/-!
# `Trellis.Text.Search`: finding one text in another

Positions count characters. The empty text is found at position 0 of every text.
Splitting finds its separators from the left without overlap, so the parts joined
by the separator give the text back.
-/

set_option autoImplicit false

namespace Trellis.Text

/-- The least position at which `needle` begins. -/
def find? (needle : List Char) : List Char → Option Nat
  | [] => if needle.isEmpty then some 0 else none
  | c :: cs =>
    if startsWith needle (c :: cs) then some 0
    else (find? needle cs).map (· + 1)

/-- The parts between the occurrences of a separator, of which the part `part` is
under way, last character first. After an occurrence the scan goes on `skip`
characters later, behind the separator. -/
def splitFrom (sep : List Char) (part : List Char) (skip : Nat) : List Char → List (List Char)
  | [] => [part.reverse]
  | c :: cs =>
    match skip with
    | k + 1 => splitFrom sep part k cs
    | 0 =>
      if startsWith sep (c :: cs) then part.reverse :: splitFrom sep [] (sep.length - 1) cs
      else splitFrom sep (c :: part) 0 cs

/-- The parts of a text between the occurrences of a non-empty separator; an empty
separator gives each character as a part. -/
def splitOn (sep cs : List Char) : List (List Char) :=
  if sep.isEmpty then cs.map fun c => [c] else splitFrom sep [] 0 cs

/-- Does `cs` end with `tail`? -/
def endsWith (tail cs : List Char) : Bool := startsWith tail.reverse cs.reverse

/-- What is left of `cs` in front of the final text `tail`, when it ends with it. -/
def before? (tail cs : List Char) : Option (List Char) :=
  (after? tail.reverse cs.reverse).map List.reverse

end Trellis.Text
