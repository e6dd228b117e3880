/-!
# `Trellis.Text.Utf8`: texts as bytes

How many bytes a text takes, and how bytes that need not be a text are read: each
maximal stretch that begins a character without completing it becomes one
replacement character.
-/

set_option autoImplicit false

namespace Trellis.Text

/-- The number of bytes of a text in UTF-8. -/
def byteLength : List Char → Nat
  | [] => 0
  | c :: cs => c.utf8Size + byteLength cs

/-- What stands for bytes that are no text. -/
def replacement : Char := Char.ofNat 0xFFFD

/-- A character under way: the bits read, the number of bytes still to come, and the
range that the next byte must lie in. -/
structure Pending where
  bits : Nat
  missing : Nat
  least : Nat
  greatest : Nat

/-- What a first byte announces: a whole character, the start of a longer one, or
nothing valid. -/
def Pending.start (b : Nat) : Option (Char ⊕ Pending) :=
  if b < 0x80 then some (.inl (Char.ofNat b))
  else if 0xC2 ≤ b && b ≤ 0xDF then some (.inr ⟨b - 0xC0, 1, 0x80, 0xBF⟩)
  else if b == 0xE0 then some (.inr ⟨0, 2, 0xA0, 0xBF⟩)
  else if b == 0xED then some (.inr ⟨0xD, 2, 0x80, 0x9F⟩)
  else if 0xE1 ≤ b && b ≤ 0xEF then some (.inr ⟨b - 0xE0, 2, 0x80, 0xBF⟩)
  else if b == 0xF0 then some (.inr ⟨0, 3, 0x90, 0xBF⟩)
  else if 0xF1 ≤ b && b ≤ 0xF3 then some (.inr ⟨b - 0xF0, 3, 0x80, 0xBF⟩)
  else if b == 0xF4 then some (.inr ⟨4, 3, 0x80, 0x8F⟩)
  else none

/-- Reads bytes with no character under way before the first. -/
def readFresh (b : Nat) : List Char × Option Pending :=
  match Pending.start b with
  | some (.inl c) => ([c], none)
  | some (.inr p) => ([], some p)
  | none => ([replacement], none)

/-- Reads bytes, a character being under way or not. -/
def readLossy : Option Pending → List UInt8 → List Char
  | none, [] => []
  | some _, [] => [replacement]
  | none, b :: bs =>
    let (cs, p) := readFresh b.toNat
    cs ++ readLossy p bs
  | some p, b :: bs =>
    let n := b.toNat
    if p.least ≤ n && n ≤ p.greatest then
      let bits := p.bits * 64 + (n - 0x80)
      if p.missing ≤ 1 then Char.ofNat bits :: readLossy none bs
      else readLossy (some ⟨bits, p.missing - 1, 0x80, 0xBF⟩) bs
    else
      let (cs, q) := readFresh n
      replacement :: cs ++ readLossy q bs

/-- The text of bytes that need not be valid. -/
def ofBytesLossy (bytes : ByteArray) : String :=
  String.ofList (readLossy none bytes.toList)

end Trellis.Text
