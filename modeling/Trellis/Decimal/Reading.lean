import Trellis.Decimal.Binary64
import Trellis.Text.Blank

/-!
# `Trellis.Decimal.Reading`: numbers from text

Two readers that accept a whole text or nothing. `readInt?` takes an optional sign
and digits, and only numbers of 64 signed bits. `readFloat?` takes an optional sign
followed by one of the words for infinity and no-number, in any case, or by digits
with an optional point and an optional exponent; at least one digit must stand
before the exponent, on either side of the point.
-/

set_option autoImplicit false

namespace Trellis.Decimal

open Trellis.Text

/-- The number of 64 signed bits with the given value, if there is one. -/
def int64? (n : Int) : Option Int64 :=
  if Int64.minValue.toInt ≤ n ∧ n ≤ Int64.maxValue.toInt then some (Int64.ofInt n) else none

/-- The value of decimal digits. -/
def digitsValue (ds : List Char) : Nat :=
  ds.foldl (fun n d => n * 10 + (d.toNat - '0'.toNat)) 0

/-- Takes off a sign; the flag tells a minus. -/
def signed : List Char → Bool × List Char
  | '-' :: cs => (true, cs)
  | '+' :: cs => (false, cs)
  | cs => (false, cs)

/-- Reads a whole number. -/
def readInt? (cs : List Char) : Option Int64 :=
  let (negative, ds) := signed cs
  if ds.isEmpty || !ds.all Char.isDigit then none
  else int64? (if negative then -(digitsValue ds : Int) else digitsValue ds)

/-- The double nearest to `coefficient · 10 ^ exponent`. Far outside the range of the
doubles the answer is known without the power. -/
def nearest (coefficient : Nat) (exponent : Int) : Float :=
  let order : Int := exponent + (Nat.toDigits 10 coefficient).length
  if coefficient == 0 || order < -400 then Float.ofBits 0
  else if order > 400 then (Double.infinite false).toFloat
  else Float.ofScientific coefficient (exponent < 0) exponent.natAbs

/-- The exponent that follows the digits, if any; nothing else may follow. -/
def readExponent? : List Char → Option Int
  | [] => some 0
  | c :: cs =>
    if c == 'e' || c == 'E' then
      let (negative, ds) := signed cs
      if ds.isEmpty || !ds.all Char.isDigit then none
      else some (if negative then -(digitsValue ds : Int) else digitsValue ds)
    else none

/-- Reads digits, point and exponent. -/
def readDecimal? (cs : List Char) : Option Float :=
  let whole := cs.takeWhile Char.isDigit
  let rest := cs.dropWhile Char.isDigit
  let (fraction, rest) :=
    match rest with
    | '.' :: more => (more.takeWhile Char.isDigit, more.dropWhile Char.isDigit)
    | rest => ([], rest)
  if whole.isEmpty && fraction.isEmpty then none
  else
    (readExponent? rest).map fun exponent =>
      nearest (digitsValue (whole ++ fraction)) (exponent - fraction.length)

/-- Reads a number without its sign. -/
def readMagnitude? (cs : List Char) : Option Float :=
  let word := String.ofList (cs.map Char.toLower)
  if word == "inf" || word == "infinity" then some (Double.infinite false).toFloat
  else if word == "nan" then some Double.nan.toFloat
  else readDecimal? cs

/-- Reads a double. -/
def readFloat? (cs : List Char) : Option Float :=
  let (negative, rest) := signed cs
  (readMagnitude? rest).map fun x => if negative then -x else x

end Trellis.Decimal
