import Trellis.Value

/-!
# `Trellis.Expr.Basic`: expressions as trees

The operators and the trees built from them. A tree has no parentheses: they only
say how the text is to be read.
-/

set_option autoImplicit false

namespace Trellis

namespace Expr

/-- Operators with one operand. -/
inductive UnaryOp where
  | not
  | negate
  | plus
  deriving DecidableEq

/-- The four orders. -/
inductive Comparison where
  | less
  | lessEqual
  | greater
  | greaterEqual
  deriving DecidableEq

/-- The operators of arithmetic. -/
inductive ArithmeticOp where
  | add
  | subtract
  | multiply
  | divide
  | modulo
  deriving DecidableEq

/-- Operators with two operands. -/
inductive BinaryOp where
  | or
  | and
  | equal
  | unequal
  | strictEqual
  | strictUnequal
  | order (c : Comparison)
  | arithmetic (op : ArithmeticOp)
  deriving DecidableEq

/-- How tightly an operator binds: the operands of an operator are built from those
that bind tighter. -/
def BinaryOp.precedence : BinaryOp → Nat
  | .or => 1
  | .and => 2
  | .equal | .unequal | .strictEqual | .strictUnequal => 3
  | .order _ => 4
  | .arithmetic .add | .arithmetic .subtract => 5
  | .arithmetic .multiply | .arithmetic .divide | .arithmetic .modulo => 6

/-- How messages write an order. -/
def Comparison.symbol : Comparison → String
  | .less => "<"
  | .lessEqual => "<="
  | .greater => ">"
  | .greaterEqual => ">="

/-- How messages write an operator of arithmetic. -/
def ArithmeticOp.symbol : ArithmeticOp → String
  | .add => "+"
  | .subtract => "-"
  | .multiply => "*"
  | .divide => "/"
  | .modulo => "%"

end Expr

/-- An expression. -/
inductive Expr where
  | literal (v : Value)
  | list (items : List Expr)
  | map (entries : List (String × Expr))
  | variable (name : String)
  | member (target : Expr) (name : String)
  | item (target index : Expr)
  | call (callee : Expr) (arguments : List Expr)
  | unary (op : Expr.UnaryOp) (operand : Expr)
  | binary (op : Expr.BinaryOp) (left right : Expr)
  | choose (test yes no : Expr)
  deriving Inhabited

end Trellis
