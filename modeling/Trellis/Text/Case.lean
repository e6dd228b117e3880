import Trellis.Text.CaseTable

/-!
# `Trellis.Text.Case`: capitals and small letters

The full mappings of Unicode, without regard to a language. A character may have a
capital of several characters. One rule looks at the neighbours: the Greek capital
sigma becomes the final form of its small letter at the end of a word, that is when
a cased character stands before it and none after it, in both directions looking
through the characters that are ignored for case.
-/

set_option autoImplicit false

namespace Trellis.Text

/-- Does the number lie in one of the ranges? -/
def inRanges (ranges : List (Nat × Nat)) (n : Nat) : Bool :=
  ranges.any fun (first, last) => first ≤ n && n ≤ last

/-- The image of `n` under the run, when the run lists it. -/
def CaseRun.image? (r : CaseRun) (n : Nat) : Option Nat :=
  if r.first ≤ n && n ≤ r.last && (n - r.first) % r.step == 0 then
    some (Int.toNat (n + r.offset))
  else
    none

/-- The character that the runs give for `c`, or `c` itself. -/
def mapByRuns (runs : List CaseRun) (c : Char) : Char :=
  match runs.findSome? (·.image? c.toNat) with
  | some n => Char.ofNat n
  | none => c

/-- The capital of a character. -/
def capitalOf (c : Char) : List Char :=
  if c.toNat < 0x80 then [c.toUpper]
  else
    match capitalSequences.find? (·.1 == c.toNat) with
    | some (_, codes) => codes.map Char.ofNat
    | none => [mapByRuns capitalRuns c]

/-- The small letter of a character that stands alone. -/
def smallOf (c : Char) : List Char :=
  if c.toNat < 0x80 then [c.toLower]
  else if c.toNat == 0x130 then ['i', Char.ofNat 0x307]
  else [mapByRuns smallRuns c]

/-- Going away from a sigma, is the first character that is not ignored a cased
one? -/
def meetsCased : List Char → Bool
  | [] => false
  | c :: cs =>
    if inRanges caseIgnorableRanges c.toNat then meetsCased cs
    else inRanges casedRanges c.toNat

/-- The small letters of `cs`, of which `before` is what was read already, the last
character first. -/
def smallFrom (before : List Char) : List Char → List Char
  | [] => []
  | c :: cs =>
    let small :=
      if c == 'Σ' then
        if meetsCased before && !meetsCased cs then ['ς'] else ['σ']
      else smallOf c
    small ++ smallFrom (c :: before) cs

/-- The text in capitals. -/
def capitals (s : String) : String := String.ofList (s.toList.flatMap capitalOf)

/-- The text in small letters. -/
def smalls (s : String) : String := String.ofList (smallFrom [] s.toList)

end Trellis.Text
