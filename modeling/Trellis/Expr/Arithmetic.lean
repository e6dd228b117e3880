import Trellis.Decimal.Reading
import Trellis.Expr.Basic

/-!
# `Trellis.Expr.Arithmetic`: operators on values

Nothing and the truth values take part in arithmetic as 0 and 1. Two whole operands
give the exact whole result when 64 bits hold it; otherwise, and whenever a double
takes part, the operation is done on doubles. A division of whole numbers that
leaves a remainder is done on doubles as well. Division by zero is a fault, in
whole numbers and in doubles alike.

Orders compare texts with texts by code point, where nothing counts as the empty
text, and all else by the numeric view. With a double that is no number the left
operand counts as the greater one.
-/

set_option autoImplicit false

namespace Trellis.Expr

/-- What can go wrong while an expression is evaluated. Types are given by name. -/
inductive EvalFault where
  | unknownFunction (name : String)
  | unknownMethod (name type : String)
  | notCallable
  | incomparable (left right : String) (order : Comparison)
  | inapplicable (op : ArithmeticOp) (left right : String)
  | divisionByZero
  | notNumeric (type : String)
  | notJoinable (type : String)
  | withoutKeys (type : String)
  | withoutValues (type : String)
  | rangeBounds (first second : String)
  | rangeLimit (span : Nat)

/-- The greatest number of items that a range may have. -/
def maxRangeItems : Nat := 100000

/-- The wording of a fault. -/
def EvalFault.message : EvalFault → String
  | .unknownFunction name => s!"`{name}` is not callable"
  | .unknownMethod name type => s!"`{name}` is not a method of {type}"
  | .notCallable => "expression is not callable"
  | .incomparable left right order =>
    s!"cannot compare {left} with {right} using `{order.symbol}`"
  | .inapplicable op left right => s!"cannot apply `{op.symbol}` to {left} and {right}"
  | .divisionByZero => "division by zero"
  | .notNumeric type => s!"cannot convert a {type} to a number"
  | .notJoinable type => s!"cannot join a {type}"
  | .withoutKeys type => s!"cannot take keys of a {type}"
  | .withoutValues type => s!"cannot take values of a {type}"
  | .rangeBounds first second => s!"range expects integers, got {first} and {second}"
  | .rangeLimit span => s!"range of {span} items exceeds the limit of {maxRangeItems}"

/-- The whole number by which a value takes part in exact arithmetic. -/
def whole? : Value → Option Int64
  | .null => some 0
  | .bool b => some (Value.ofTruth b)
  | .int n => some n
  | _ => none

/-- The exact result of an operation on whole numbers, `none` if it is no whole
number. The divisor is not zero. -/
def exactResult? (op : ArithmeticOp) (a b : Int) : Option Int :=
  match op with
  | .add => some (a + b)
  | .subtract => some (a - b)
  | .multiply => some (a * b)
  | .divide => if Int.tmod a b = 0 then some (Int.tdiv a b) else none
  | .modulo => some (Int.tmod a b)

/-- The operation on whole numbers, when the result is a whole number of 64 bits.
A remainder is one only if the quotient is, too. -/
def wholeResult? (op : ArithmeticOp) (a b : Int64) : Option Int64 :=
  match op with
  | .modulo =>
    if (Decimal.int64? (Int.tdiv a.toInt b.toInt)).isSome then
      Decimal.int64? (Int.tmod a.toInt b.toInt)
    else none
  | op => (exactResult? op a.toInt b.toInt).bind Decimal.int64?

/-- The operation on doubles. The divisor is not zero. -/
def onFloats (op : ArithmeticOp) (x y : Float) : Float :=
  match op with
  | .add => x + y
  | .subtract => x - y
  | .multiply => x * y
  | .divide => x / y
  | .modulo => Decimal.remainder x y

/-- Is the operation a division? -/
def ArithmeticOp.divides : ArithmeticOp → Bool
  | .divide | .modulo => true
  | _ => false

/-- The operation by the numeric views of its operands. -/
def floatArithmetic (op : ArithmeticOp) (v w : Value) : Except EvalFault Value :=
  match v.number?, w.number? with
  | some x, some y =>
    if op.divides && y == 0 then .error .divisionByZero else .ok (.float (onFloats op x y))
  | _, _ => .error (.inapplicable op v.typeName w.typeName)

/-- Arithmetic on two values that are not joined as texts or lists. -/
def arithmetic (op : ArithmeticOp) (v w : Value) : Except EvalFault Value :=
  match whole? v, whole? w with
  | some a, some b =>
    if op.divides && b == 0 then .error .divisionByZero
    else
      match wholeResult? op a b with
      | some n => .ok (.int n)
      | none => floatArithmetic op v w
  | _, _ => floatArithmetic op v w

/-- Addition also joins texts, when either operand is one, and lists. -/
def add (v w : Value) : Except EvalFault Value :=
  match v, w with
  | .str s, w => .ok (.str (s ++ w.text))
  | v, .str t => .ok (.str (v.text ++ t))
  | .list vs, .list ws => .ok (.list (vs ++ ws))
  | v, w => arithmetic .add v w

/-- The order of two texts by code point. -/
def compareTexts (s t : String) : Ordering :=
  if s < t then .lt else if s = t then .eq else .gt

/-- The order of two doubles; a pair with no order counts as `gt`. -/
def compareFloats (x y : Float) : Ordering :=
  if x < y then .lt else if x == y then .eq else .gt

/-- The order of two values, if they have one. -/
def compare? (v w : Value) : Option Ordering :=
  match v, w with
  | .str s, .str t => some (compareTexts s t)
  | .str s, .null => some (compareTexts s "")
  | .null, .str t => some (compareTexts "" t)
  | v, w =>
    match v.number?, w.number? with
    | some x, some y => some (compareFloats x y)
    | _, _ => none

/-- Does an order hold of operands that compare as given? -/
def Comparison.holds : Comparison → Ordering → Bool
  | .less, o => o == .lt
  | .lessEqual, o => o != .gt
  | .greater, o => o == .gt
  | .greaterEqual, o => o != .lt

/-- Compares two values. -/
def compareValues (c : Comparison) (v w : Value) : Except EvalFault Value :=
  match compare? v w with
  | some o => .ok (.bool (c.holds o))
  | none => .error (.incomparable v.typeName w.typeName c)

/-- The number that a text is read as: a whole number if it is one, else a double,
else the double that is no number. Blanks around it do not count. -/
def numberOfText (s : String) : Value :=
  let cs := Text.trim s.toList
  match Decimal.readInt? cs with
  | some n => .int n
  | none => .float ((Decimal.readFloat? cs).getD Decimal.Double.nan.toFloat)

/-- A value as a number. -/
def toNumber : Value → Except EvalFault Value
  | .int n => .ok (.int n)
  | .float x => .ok (.float x)
  | .null => .ok (.int 0)
  | .bool b => .ok (.int (Value.ofTruth b))
  | .str s => .ok (numberOfText s)
  | v => .error (.notNumeric v.typeName)

/-- A number with the other sign. Only the least whole number leaves the whole
numbers. -/
def negateNumber : Value → Value
  | .int n =>
    match Decimal.int64? (-n.toInt) with
    | some m => .int m
    | none => .float (-(Value.nearest n))
  | .float x => .float (-x)
  | v => v

/-- An operator before its operand. -/
def applyUnary (op : UnaryOp) (v : Value) : Except EvalFault Value :=
  match op with
  | .not => .ok (.bool !v.isTruthy)
  | .plus => toNumber v
  | .negate => (toNumber v).map negateNumber

end Trellis.Expr
