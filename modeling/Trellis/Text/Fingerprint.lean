/-!
# `Trellis.Text.Fingerprint`: a short version mark of a text

The 64-bit SipHash of the UTF-8 bytes under the zero key, with one compression
round and three finalization rounds, in hexadecimal. Two sources with different
fingerprints are different; that different sources have different fingerprints is
an assumption about the hash, not a theorem.
-/

set_option autoImplicit false

namespace Trellis.Text

/-- The four words of state. -/
structure SipState where
  v0 : UInt64
  v1 : UInt64
  v2 : UInt64
  v3 : UInt64

/-- The word turned left by `k` bits, for `0 < k < 64`. -/
def rotateLeft (w k : UInt64) : UInt64 := (w <<< k) ||| (w >>> (64 - k))

/-- The state under the zero key. -/
def SipState.zeroKey : SipState :=
  ⟨0x736f6d6570736575, 0x646f72616e646f6d, 0x6c7967656e657261, 0x7465646279746573⟩

/-- One round. -/
def SipState.round (s : SipState) : SipState :=
  let a0 := s.v0 + s.v1
  let a2 := s.v2 + s.v3
  let a1 := rotateLeft s.v1 13 ^^^ a0
  let a3 := rotateLeft s.v3 16 ^^^ a2
  let b0 := rotateLeft a0 32
  let b2 := a2 + a1
  let c0 := b0 + a3
  let b1 := rotateLeft a1 17 ^^^ b2
  let b3 := rotateLeft a3 21 ^^^ c0
  ⟨c0, b1, rotateLeft b2 32, b3⟩

/-- Takes in one word. -/
def SipState.absorb (s : SipState) (w : UInt64) : SipState :=
  let t := ({ s with v3 := s.v3 ^^^ w } : SipState).round
  { t with v0 := t.v0 ^^^ w }

/-- The bytes as a number, the least significant first. -/
def littleEndian : List UInt8 → UInt64
  | [] => 0
  | b :: bs => b.toUInt64 ||| (littleEndian bs <<< 8)

/-- Takes in the bytes eight at a time, `word` being those that wait, and closes
with a word of the bytes that remain under the length modulo 256. -/
def SipState.absorbAll (s : SipState) (length : Nat) (word : List UInt8) : List UInt8 → SipState
  | [] => s.absorb (littleEndian word.reverse ||| (length.toUInt64 <<< 56))
  | b :: bs =>
    if word.length == 7 then
      (s.absorb (littleEndian (b :: word).reverse)).absorbAll length [] bs
    else
      s.absorbAll length (b :: word) bs

/-- The hash of a sequence of bytes. -/
def sipHash (bytes : List UInt8) : UInt64 :=
  let s := SipState.zeroKey.absorbAll bytes.length [] bytes
  let s := ({ s with v2 := s.v2 ^^^ 0xff } : SipState).round.round.round
  s.v0 ^^^ s.v1 ^^^ s.v2 ^^^ s.v3

/-- The fingerprint of a text. A closing byte that no UTF-8 text contains marks its
end. -/
def fingerprint (s : String) : String :=
  String.ofList (Nat.toDigits 16 (sipHash (s.toUTF8.toList ++ [0xff])).toNat)

end Trellis.Text
