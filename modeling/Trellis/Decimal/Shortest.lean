import Trellis.Decimal.Binary64

/-!
# `Trellis.Decimal.Shortest`: the fewest digits that read back

A positive double `m · 2 ^ q` is the nearest double to every real in an interval
around it, which reaches half way to its neighbours and includes its ends exactly
when `m` is even. `Shortest.digits` tries one decimal digit, then two, and so on: on
the grid of the numbers with that many digits, the value lies between two
neighbours, and the first grid with a neighbour inside the interval wins. Of two
neighbours inside, the nearer is taken, and at an exact tie the greater.

All comparisons are between natural numbers, the interval being written with a
common denominator.
-/

set_option autoImplicit false

namespace Trellis.Decimal

/-- The reals between `low / scale` and `high / scale` around `value / scale`. -/
structure Interval where
  low : Nat
  value : Nat
  high : Nat
  scale : Nat
  closed : Bool

/-- The reals that round to `m · 2 ^ q`. Below a power of two the doubles lie twice
as dense, unless the power is the least with a full mantissa. -/
def Interval.around (m : Nat) (q : Int) : Interval :=
  let below := if m == Nat.pow 2 52 && q > -1074 then 1 else 2
  let up := Nat.pow 2 q.toNat
  { low := (4 * m - below) * up
    value := 4 * m * up
    high := (4 * m + 2) * up
    scale := 4 * Nat.pow 2 (-q).toNat
    closed := m % 2 == 0 }

/-- Is `num / den` in the interval? -/
def Interval.contains (i : Interval) (num den : Nat) : Bool :=
  let x := num * i.scale
  let low := i.low * den
  let high := i.high * den
  if i.closed then low ≤ x && x ≤ high else low < x && x < high

/-- The number `coefficient · 10 ^ exponent`. -/
structure Digits where
  coefficient : Nat
  exponent : Int

/-- The greatest `k` with `10 ^ k ≤ num / den`. -/
def decimalOrder (num den : Nat) : Int :=
  if num ≥ den then (Nat.toDigits 10 (num / den)).length - 1
  else
    let k := (Nat.toDigits 10 (den / num)).length
    if num * Nat.pow 10 (k - 1) ≥ den then -((k : Int) - 1) else -k

/-- The same number with one digit less, when the last digit is a zero. -/
def Digits.withoutZero (d : Digits) : Digits :=
  if d.coefficient % 10 == 0 then ⟨d.coefficient / 10, d.exponent + 1⟩ else d

/-- The number of the grid of multiples of `10 ^ exponent` that stands for the
interval's value, if one lies in the interval. -/
def Interval.onGrid? (i : Interval) (exponent : Int) : Option Digits :=
  let up := Nat.pow 10 exponent.toNat
  let down := Nat.pow 10 (-exponent).toNat
  let quotient := i.value * down / (i.scale * up)
  let rest := i.value * down % (i.scale * up)
  let lower := i.contains (quotient * up) down
  let upper := i.contains ((quotient + 1) * up) down
  if lower && (!upper || 2 * rest < i.scale * up) then some ⟨quotient, exponent⟩
  else if upper then some ⟨quotient + 1, exponent⟩
  else none

/-- The fewest digits for the positive double `m · 2 ^ q`. Seventeen always
suffice. A power of ten just above the value is met on the grid below it, as `10`,
before any other. -/
def Shortest.digits (m : Nat) (q : Int) : Digits :=
  let i := Interval.around m q
  let order := decimalOrder i.value i.scale
  match (List.range 17).findSome? fun (k : Nat) => i.onGrid? (order - k) with
  | some d => d.withoutZero
  | none => ⟨i.value / i.scale, 0⟩

/-- The digits written out with a point where needed, never with an exponent. -/
def Digits.positional (d : Digits) : List Char :=
  let ds := Nat.toDigits 10 d.coefficient
  if d.exponent ≥ 0 then ds ++ List.replicate d.exponent.toNat '0'
  else
    let places := (-d.exponent).toNat
    if places < ds.length then
      ds.take (ds.length - places) ++ '.' :: ds.drop (ds.length - places)
    else
      '0' :: '.' :: List.replicate (places - ds.length) '0' ++ ds

/-- A double in positional notation: the fewest digits that read back, no point in
a whole number, and words for the doubles that are no numbers. -/
def positional (x : Float) : List Char :=
  match Double.ofFloat x with
  | .nan => ['N', 'a', 'N']
  | .infinite negative => (if negative then ['-'] else []) ++ ['i', 'n', 'f']
  | .finite negative m q =>
    (if negative then ['-'] else [])
      ++ (if m == 0 then ['0'] else (Shortest.digits m q).positional)

end Trellis.Decimal
