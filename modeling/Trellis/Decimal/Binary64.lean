/-!
# `Trellis.Decimal.Binary64`: what a double stands for

A finite double is `mantissa · 2 ^ exponent` with a sign. `Double.ofFloat` reads
that off the bits, and `Double.toFloat` goes back. Remainders are computed here in
exact arithmetic, since core offers none for doubles.
-/

set_option autoImplicit false

namespace Trellis.Decimal

/-- A double, taken apart. -/
inductive Double where
  | nan
  | infinite (negative : Bool)
  | finite (negative : Bool) (mantissa : Nat) (exponent : Int)

/-- Reads the fields of the bit pattern. A stored exponent of zero marks the
numbers without the leading mantissa bit. -/
def Double.ofFloat (x : Float) : Double :=
  let bits : Nat := x.toBits.toNat
  let negative := bits / Nat.pow 2 63 == 1
  let stored : Nat := bits / Nat.pow 2 52 % 2048
  let fraction := bits % Nat.pow 2 52
  if stored == 2047 then
    if fraction == 0 then .infinite negative else .nan
  else if stored == 0 then .finite negative fraction (-1074)
  else .finite negative (Nat.pow 2 52 + fraction) (stored - 1075)

/-- The double nearest to zero of those with the given sign that are at least as
near to it as `mantissa · 2 ^ exponent`; a number that is a double is kept. -/
def Double.pack (negative : Bool) (mantissa : Nat) (exponent : Int) : Float :=
  let sign := if negative then Nat.pow 2 63 else 0
  if mantissa == 0 then Float.ofBits (UInt64.ofNat sign)
  else
    let wanted : Int := exponent + (mantissa.log2 : Int) - 52
    let target : Int := max wanted (-1074)
    let shift := exponent - target
    let m := if shift ≥ 0 then mantissa * Nat.pow 2 shift.toNat else mantissa / Nat.pow 2 (-shift).toNat
    let stored := if m < Nat.pow 2 52 then 0 else (target + 1075).toNat
    Float.ofBits (UInt64.ofNat (sign + stored * Nat.pow 2 52 + m % Nat.pow 2 52))

/-- The float of the parts. -/
def Double.toFloat : Double → Float
  | .nan => Float.ofBits 0x7ff8000000000000
  | .infinite negative => Float.ofBits (if negative then 0xfff0000000000000 else 0x7ff0000000000000)
  | .finite negative mantissa exponent => pack negative mantissa exponent

/-- Is the number not a number? -/
def isNaN (x : Float) : Bool :=
  match Double.ofFloat x with
  | .nan => true
  | _ => false

/-- The whole number that a double stands for, when it has no fraction. -/
def wholeNumber? (x : Float) : Option Int :=
  match Double.ofFloat x with
  | .finite negative mantissa exponent =>
    let magnitude? : Option Nat :=
      if exponent ≥ 0 then some (mantissa * Nat.pow 2 exponent.toNat)
      else
        let unit := Nat.pow 2 (-exponent).toNat
        if mantissa % unit == 0 then some (mantissa / unit) else none
    magnitude?.map fun n => if negative then -(n : Int) else n
  | _ => none

/-- The remainder of a division that rounds its quotient toward zero; it has the
sign of the dividend and is exact. -/
def remainder (x y : Float) : Float :=
  match Double.ofFloat x, Double.ofFloat y with
  | .finite negative m e, .finite _ n f =>
    if n == 0 then Double.nan.toFloat
    else
      let g := min e f
      let a := m * Nat.pow 2 (e - g).toNat
      let b := n * Nat.pow 2 (f - g).toNat
      Double.pack negative (a % b) g
  | .finite _ _ _, .infinite _ => x
  | _, _ => Double.nan.toFloat

end Trellis.Decimal
