import Trellis.Filter
import Trellis.Markup.Mode
import Trellis.Document.Node
import Trellis.Render.Fault
import Trellis.Render.Scope
import Trellis.Render.Sink

/-!
# `Trellis.Render.State`: steps of rendering

A `Rendering` reads and changes the state of a rendering, and either succeeds or stops
with a fault. The state survives a fault, since what was written before it has been
written.

The steps of this module are the ones that look into the state: evaluating, writing,
starting a line, and running a part inside a changed state. The last, `within`, undoes
its change whether the part succeeds or not, so no part leaves frames or indentation
behind.
-/

set_option autoImplicit false

namespace Trellis

open Markup

/-- What a rendering works with and does not change. -/
structure RenderSetting where
  mixins : Table Mixin
  filters : Table Filter
  mode : Mode
  pretty : Bool

/-- `started` tells whether anything was written, and `blockEmitted` whether the tag
under way has content that starts a line of its own. -/
structure RenderState where
  scope : Scope
  sink : Sink
  indent : Nat
  started : Bool
  blockEmitted : Bool

/-- A rendering, or a part of one. -/
abbrev Rendering := EStateM RenderFault RenderState

namespace Rendering

variable {α : Type}

/-- Asks for something that depends on the variables in sight. -/
def ask (f : (String → Value) → Except ExpressionError α) : Rendering α := fun s =>
  match f s.scope.get with
  | .ok a => .ok a s
  | .error e => .error (.failed e) s

/-- The value of an expression. -/
def evaluate (e : Expression) : Rendering Value := ask e.evaluate

/-- Gives a value to a name in the topmost frame. -/
def assign (name : String) (v : Value) : Rendering Unit :=
  modify fun s => { s with scope := s.scope.set name v }

/-- The number of frames. -/
def depth : Rendering Nat := return (← get).scope.depth

/-- Writes a piece of text. Nothing at all is not offered to the sink. -/
def write (piece : String) : Rendering Unit := fun s =>
  if piece.isEmpty then .ok () s
  else
    match s.sink.offer piece with
    | (true, sink) => .ok () { s with sink := sink, started := true }
    | (false, sink) => .error (.writeFailed sink.reason) { s with sink := sink, started := true }

/-- The line feed and the indentation before something at a depth. -/
def lineStart (indent : Nat) : String :=
  String.ofList ('\n' :: List.replicate (2 * indent) ' ')

/-- Starts a line, if the output is laid out and has begun. -/
def newline (pretty : Bool) : Rendering Unit := do
  let s ← get
  if pretty && s.started then write (lineStart s.indent)

/-- Notes that something was written on a line of its own. -/
def markBlock : Rendering Unit := modify fun s => { s with blockEmitted := true }

/-- Runs a part inside a changed state and undoes the change afterwards. -/
def within (enter leave : RenderState → RenderState) (r : Rendering α) : Rendering α := fun s =>
  match r (enter s) with
  | .ok a t => .ok a (leave t)
  | .error e t => .error e (leave t)

/-- Runs a part one level further in. -/
def indented (r : Rendering α) : Rendering α :=
  within (fun s => { s with indent := s.indent + 1 }) (fun s => { s with indent := s.indent - 1 }) r

/-- Runs a part under a frame of its own. -/
def underFrame (bindings : List (String × Value)) (r : Rendering α) : Rendering α :=
  within (fun s => { s with scope := s.scope.pushFrame.setAll bindings })
    (fun s => { s with scope := s.scope.popFrame }) r

/-- Runs a part under the lowest frames only, as many as there were at some place. -/
def atDepth (depth : Nat) (r : Rendering α) : Rendering α := fun s =>
  let (above, scope) := s.scope.splitOff depth
  within (fun s => { s with scope := scope })
    (fun s => { s with scope := s.scope.restore above }) r s

end Rendering

end Trellis
