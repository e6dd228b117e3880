import Trellis.Expr.Eval
import Trellis.Expr.Reader

/-!
# `Trellis.Expression`: expressions with their text

Templates hold expressions as text. An `Expression` is such a text together with the
tree that it is read as, so a text that cannot be read is not an `Expression`.
Errors name the text as it was written.
-/

set_option autoImplicit false

namespace Trellis

/-- What can be wrong with an expression: its text cannot be read, or its evaluation
fails. -/
inductive ExpressionFault where
  | unreadable (fault : Expr.ReadFault)
  | failed (fault : Expr.EvalFault)

/-- The wording of a fault. -/
def ExpressionFault.message : ExpressionFault → String
  | .unreadable fault => fault.message
  | .failed fault => fault.message

/-- A fault and the text of the expression that has it. -/
structure ExpressionError where
  source : String
  fault : ExpressionFault

/-- The wording of an error. -/
def ExpressionError.message (e : ExpressionError) : String :=
  s!"Expression error in `{e.source}`: {e.fault.message}"

/-- A text that can be read as an expression, and its tree. -/
structure Expression where
  source : String
  tree : Expr
  reads : Expr.read source.toList = .ok tree

namespace Expression

/-- Reads a text. -/
def compile (source : String) : Except ExpressionError Expression :=
  match h : Expr.read source.toList with
  | .ok tree => .ok ⟨source, tree, h⟩
  | .error fault => .error ⟨source, .unreadable fault⟩

/-- The value of an expression under the variables `vars`. -/
def evaluate (e : Expression) (vars : String → Value) : Except ExpressionError Value :=
  match Expr.eval vars e.tree with
  | .ok v => .ok v
  | .error fault => .error ⟨e.source, .failed fault⟩

theorem source_of_compile {source : String} {e : Expression} (h : compile source = .ok e) :
    e.source = source := by
  unfold compile at h
  split at h
  · cases h; rfl
  · cases h

end Expression

end Trellis
