/-!
# `Trellis.Text.Blank`: blank characters, trimming and lines

A character is blank when Unicode gives it the property White_Space. Everything
that trims, and every place where a keyword must be followed by a blank, uses
this one class; the expression language has a narrower class of its own.

Text under inspection is a `List Char`: readers consume it from the front, and a
suffix is the rest still to be read. The two functions on `String` at the end are
the same operations for text at rest.
-/

set_option autoImplicit false

namespace Trellis.Text

/-- Does the character have the Unicode property White_Space? -/
def isBlank (c : Char) : Bool :=
  let n := c.toNat
  (9 ≤ n && n ≤ 13) || n == 0x20 || n == 0x85 || n == 0xA0 || n == 0x1680
    || (0x2000 ≤ n && n ≤ 0x200A) || n == 0x2028 || n == 0x2029 || n == 0x202F
    || n == 0x205F || n == 0x3000

/-- The two characters that may indent a line. -/
def isIndent (c : Char) : Bool := c == ' ' || c == '\t'

/-- A letter of the ASCII alphabet. -/
def isLetter (c : Char) : Bool := c.isAlpha

/-- A letter or digit of ASCII. -/
def isAlphanumeric (c : Char) : Bool := c.isAlphanum

/-- Drops the blanks at the front. -/
def trimStart (cs : List Char) : List Char := cs.dropWhile isBlank

/-- Drops the blanks at the end: a blank goes exactly when only blanks follow it. -/
def trimEnd : List Char → List Char
  | [] => []
  | c :: cs =>
    match trimEnd cs with
    | [] => if isBlank c then [] else [c]
    | rest => c :: rest

/-- Drops the blanks at both ends. -/
def trim (cs : List Char) : List Char := trimEnd (trimStart cs)

/-- Is there nothing but blanks? -/
def isBlankText (cs : List Char) : Bool := cs.all isBlank

/-- What is left of `cs` after the leading text `start`, when it begins with it. -/
def after? : List Char → List Char → Option (List Char)
  | [], cs => some cs
  | _ :: _, [] => none
  | p :: ps, c :: cs => if p = c then after? ps cs else none

/-- Does `cs` begin with `start`? -/
def startsWith (start cs : List Char) : Bool := (after? start cs).isSome

/-- The first character satisfies `p`; an empty text has none. -/
def headIs (p : Char → Bool) : List Char → Bool
  | [] => false
  | c :: _ => p c

/-- Splits at the first character satisfying `p`, which belongs to neither part. -/
def splitAtFirst? (p : Char → Bool) : List Char → Option (List Char × List Char)
  | [] => none
  | c :: cs =>
    if p c then some ([], cs)
    else (splitAtFirst? p cs).map fun (before, rest) => (c :: before, rest)

/-- Splits at every occurrence of the character `d`; there is one part more than
there are occurrences. -/
def splitAll (d : Char) : List Char → List (List Char)
  | [] => [[]]
  | c :: cs =>
    match splitAll d cs with
    | [] => [[c]]
    | part :: parts => if c = d then [] :: part :: parts else (c :: part) :: parts

/-- The texts with `d` between each two. -/
def joinWith (d : List Char) : List (List Char) → List Char
  | [] => []
  | [cs] => cs
  | cs :: rest => cs ++ d ++ joinWith d rest

/-- A carriage return that stands directly before a line feed belongs to the line
end. -/
def dropReturn : List Char → List Char
  | [] => []
  | ['\r'] => []
  | c :: cs => c :: dropReturn cs

/-- The lines of a text. Every line feed ends a line; a text that does not end with
one has a last line without it, and an empty rest is no line. -/
def lines (cs : List Char) : List (List Char) :=
  go (splitAll '\n' cs)
where
  /-- Every part but the last was ended by a line feed. -/
  go : List (List Char) → List (List Char)
    | [] => []
    | [last] => if last.isEmpty then [] else [last]
    | part :: parts => dropReturn part :: go parts

/-- The string without the blanks at both ends. -/
def trimmed (s : String) : String := String.ofList (trim s.toList)

/-- ASCII capitals become small letters; nothing else changes. -/
def lowerAscii (s : String) : String := String.ofList (s.toList.map Char.toLower)

/-- ASCII small letters become capitals; nothing else changes. -/
def upperAscii (s : String) : String := String.ofList (s.toList.map Char.toUpper)

/-! ## First facts -/

theorem length_trimStart_le (cs : List Char) : (trimStart cs).length ≤ cs.length :=
  (List.dropWhile_suffix isBlank).length_le

theorem length_of_after? {start cs rest : List Char} (h : after? start cs = some rest) :
    cs.length = start.length + rest.length := by
  fun_induction after? start cs with
  | case1 cs => cases h; simp
  | case2 => cases h
  | case3 _ _ _ ih => have := ih h; simp_all; omega
  | case4 => cases h

theorem append_of_after? {start cs rest : List Char} (h : after? start cs = some rest) :
    cs = start ++ rest := by
  fun_induction after? start cs with
  | case1 cs => cases h; simp
  | case2 => cases h
  | case3 _ _ _ ih => simp [ih h]
  | case4 => cases h

@[simp] theorem after?_append (start rest : List Char) :
    after? start (start ++ rest) = some rest := by
  induction start with
  | nil => rfl
  | cons c cs ih => simp [after?, ih]

theorem length_of_splitAtFirst? {p : Char → Bool} {cs before rest : List Char}
    (h : splitAtFirst? p cs = some (before, rest)) :
    cs.length = before.length + rest.length + 1 := by
  induction cs generalizing before rest with
  | nil => cases h
  | cons c cs ih =>
    simp only [splitAtFirst?] at h
    split at h
    · cases h; simp
    · obtain ⟨⟨b, r⟩, hb, he⟩ := Option.map_eq_some_iff.1 h
      cases he
      simp [ih hb]; omega

end Trellis.Text
