import Trellis.Expr.Builtin

/-!
# `Trellis.Expr.Eval`: the value of an expression

Evaluation runs from left to right and stops at the first fault. `or` and `and` give
one of their operands and leave the right one alone when the left one decides; a
choice evaluates one branch only. The arguments of a call are evaluated before the
value whose method is called.

A variable that has no value is nothing, so a name can never be a fault.
-/

set_option autoImplicit false

namespace Trellis.Expr

/-- Operators with two evaluated operands. -/
def applyBinary (op : BinaryOp) (v w : Value) : Except EvalFault Value :=
  match op with
  | .or => .ok (if v.isTruthy then v else w)
  | .and => .ok (if v.isTruthy then w else v)
  | .equal => .ok (.bool (v.looseSame w))
  | .unequal => .ok (.bool !(v.looseSame w))
  | .strictEqual => .ok (.bool (v.same w))
  | .strictUnequal => .ok (.bool !(v.same w))
  | .order c => compareValues c v w
  | .arithmetic .add => add v w
  | .arithmetic op => arithmetic op v w

/-- Does the left operand decide alone? -/
def BinaryOp.decidedBy (op : BinaryOp) (v : Value) : Bool :=
  match op with
  | .or => v.isTruthy
  | .and => !v.isTruthy
  | _ => false

/-- Calls the function of the given name. -/
def callFunction (name : String) (args : List Value) : Except EvalFault Value :=
  match Builtin.ofName? name with
  | some f => f.apply args
  | none => .error (.unknownFunction name)

/-- Calls a method of a value. -/
def callMethod (receiver : Value) (name : String) (args : List Value) : Except EvalFault Value :=
  match Builtin.ofMethod? name with
  | some f => f.apply (receiver :: args)
  | none => .error (.unknownMethod name receiver.typeName)

mutual

/-- The value of an expression under the variables `vars`. -/
def eval (vars : String → Value) : Expr → Except EvalFault Value
  | .literal v => .ok v
  | .variable name => .ok (vars name)
  | .list items => do return .list (← evalAll vars items)
  | .map entries => do return .map (Table.ofList (← evalEntries vars entries))
  | .member target name => do return (← eval vars target).member name
  | .item target index => do
    let v ← eval vars target
    let i ← eval vars index
    return v.item i
  | .call callee arguments => do
    let args ← evalAll vars arguments
    match callee with
    | .variable name => callFunction name args
    | .member receiver name => callMethod (← eval vars receiver) name args
    | _ => .error .notCallable
  | .unary op operand => do applyUnary op (← eval vars operand)
  | .binary op left right => do
    let v ← eval vars left
    if op.decidedBy v then return v
    applyBinary op v (← eval vars right)
  | .choose test yes no => do
    if (← eval vars test).isTruthy then eval vars yes else eval vars no

/-- The values of some expressions, in order. -/
def evalAll (vars : String → Value) : List Expr → Except EvalFault (List Value)
  | [] => .ok []
  | e :: es => do
    let v ← eval vars e
    return v :: (← evalAll vars es)

/-- The values of the entries of a map, in order. -/
def evalEntries (vars : String → Value) :
    List (String × Expr) → Except EvalFault (List (String × Value))
  | [] => .ok []
  | (key, e) :: rest => do
    let v ← eval vars e
    return (key, v) :: (← evalEntries vars rest)

end

end Trellis.Expr
