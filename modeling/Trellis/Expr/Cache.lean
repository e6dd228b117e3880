import Trellis.Expression

/-!
# `Trellis.Expr.Cache`: compiled expressions that are shared

One cache serves every handler that caches. It holds what was compiled under its
text and never gives an entry up; a text that cannot be read is not entered. Entries
are numbered in the order in which they were compiled, so two results are the same
shared object exactly when their numbers agree. A handler that does not cache
compiles anew each time and leaves the entries alone.
-/

set_option autoImplicit false

namespace Trellis.Expr

/-- A compiled expression as an object with an identity. -/
structure Shared where
  number : Nat
  expression : Expression

/-- The entries by text, and the number of the next object. -/
structure Cache where
  entries : Table Shared
  next : Nat

namespace Cache

def empty : Cache := ⟨[], 0⟩

/-- Is there an entry for the text? -/
def holds (c : Cache) (source : String) : Bool := Table.has source c.entries

/-- Compiles a text as a handler does that caches or does not. -/
def compile (caching : Bool) (source : String) (c : Cache) :
    Except ExpressionError Shared × Cache :=
  match if caching then Table.find? source c.entries else none with
  | some shared => (.ok shared, c)
  | none =>
    match Expression.compile source with
    | .error e => (.error e, c)
    | .ok expression =>
      let shared : Shared := ⟨c.next, expression⟩
      let entries := if caching then Table.insert source shared c.entries else c.entries
      (.ok shared, ⟨entries, c.next + 1⟩)

/-- Compiles a text and evaluates it. -/
def evaluate (caching : Bool) (source : String) (vars : String → Value) (c : Cache) :
    Except ExpressionError Value × Cache :=
  match compile caching source c with
  | (.error e, c) => (.error e, c)
  | (.ok shared, c) => (shared.expression.evaluate vars, c)

end Cache

end Trellis.Expr
