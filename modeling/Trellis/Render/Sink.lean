/-!
# `Trellis.Render.Sink`: where output goes

A sink takes pieces of text one after the other. It may have room for a limited number
of bytes: the piece that does not fit is taken as far as it does, down to the byte, and
the sink fails.
-/

set_option autoImplicit false

namespace Trellis

/-- A sink. `room` is the number of bytes that it still takes, if that is limited, and
`reason` what it says when it fails. -/
structure Sink where
  room : Option Nat
  reason : String
  /-- The pieces that were taken whole. -/
  text : String
  /-- The beginning of the piece on which the sink failed. -/
  cut : ByteArray

namespace Sink

/-- A sink with room for everything. -/
def unlimited : Sink := ⟨none, "", "", .empty⟩

/-- A sink with room for some bytes. -/
def limited (room : Nat) (reason : String) : Sink := ⟨some room, reason, "", .empty⟩

/-- Offers a piece; tells whether it was taken whole. -/
def offer (k : Sink) (piece : String) : Bool × Sink :=
  match k.room with
  | none => (true, { k with text := k.text ++ piece })
  | some room =>
    if piece.utf8ByteSize ≤ room then
      (true, { k with room := some (room - piece.utf8ByteSize), text := k.text ++ piece })
    else (false, { k with room := some 0, cut := piece.toUTF8.extract 0 room })

/-- Everything that was taken. -/
def bytes (k : Sink) : ByteArray := k.text.toUTF8 ++ k.cut

end Sink

end Trellis
