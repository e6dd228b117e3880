import Trellis.Expr.Cache

/-!
# `Trellis.Expr.Client`: computations that ask for expressions

Whoever needs an expression asks a handler for it by its text, to have it compiled or to have it
evaluated, and goes on with the answer. A `Client` is such a computation, before it is settled who
answers. A handler answers with the help of the cache (`Client.run`), and without any cache each
text is read anew (`Client.direct`).

A `Process` is such a computation that has a state and may fail besides.
-/

set_option autoImplicit false

namespace Trellis.Expr

/-- A computation that has texts compiled and evaluated on its way. -/
inductive Client (α : Type) where
  | done (a : α)
  | compile (source : String) (next : Except ExpressionError Expression → Client α)
  | evaluate (source : String) (vars : String → Value)
      (next : Except ExpressionError Value → Client α)

namespace Client

variable {α β : Type}

/-- Goes on with what a computation gives. -/
def bind : Client α → (α → Client β) → Client β
  | .done a, f => f a
  | .compile source next, f => .compile source fun r => (next r).bind f
  | .evaluate source vars next, f => .evaluate source vars fun r => (next r).bind f

instance : Monad Client where
  pure := .done
  bind := bind

/-- Runs a computation with a handler that caches or does not. -/
def run (caching : Bool) : Client α → Cache → α × Cache
  | .done a, c => (a, c)
  | .compile source next, c =>
    let (r, c) := c.compile caching source
    (next (r.map Shared.expression)).run caching c
  | .evaluate source vars next, c =>
    let (r, c) := c.evaluate caching source vars
    (next r).run caching c

/-- Runs a computation without a cache. -/
def direct : Client α → α
  | .done a => a
  | .compile source next => (next (Expression.compile source)).direct
  | .evaluate source vars next =>
    (next (Expression.compile source >>= fun e => e.evaluate vars)).direct

end Client

/-- A computation with a state that asks a handler and may fail. -/
def Process (ε σ α : Type) : Type := σ → Client (EStateM.Result ε σ α)

namespace Process

variable {ε σ α β : Type}

/-- Goes on with what a computation gives, unless it fails. -/
def bind (r : Process ε σ α) (f : α → Process ε σ β) : Process ε σ β := fun s =>
  (r s).bind fun
    | .ok a s => f a s
    | .error e s => .done (.error e s)

instance : Monad (Process ε σ) where
  pure a := fun s => .done (.ok a s)
  bind := bind

/-- A step that asks no handler. -/
def step (r : EStateM ε σ α) : Process ε σ α := fun s => .done (r s)

/-- The computation without a cache. -/
def direct (r : Process ε σ α) : EStateM ε σ α := fun s => (r s).direct

end Process

end Trellis.Expr
