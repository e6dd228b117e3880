import Trellis.Render.State

/-!
# `Trellis.Render.Loop`: going through a collection

A loop runs its body once for each item, under a frame that holds the item, its key if
the loop asks for it, and the variable `loop`, which tells where the loop is.
-/

set_option autoImplicit false

namespace Trellis

/-- The items of a value and their keys, if it can be gone through. The keys of a list
are the positions; nothing is an empty collection. -/
def Value.iterate? : Value → Option (List (Value × Value))
  | .null => some []
  | .list items => some (items.zipIdx.map fun p => (p.1, Value.ofCount p.2))
  | .map entries => some (entries.map fun e => (e.2, .str e.1))
  | _ => none

/-- What the variable `loop` tells about one of `length` passes. -/
def loopValue (index length : Nat) : Value :=
  .map (Table.ofList [
    ("index", Value.ofCount index),
    ("length", Value.ofCount length),
    ("first", .bool (index = 0)),
    ("last", .bool (index + 1 = length))])

/-- What a pass of a loop sees in its frame, in the order in which it is put there. -/
def loopBindings (item : String) (key : Option String) (index length : Nat)
    (entry : Value × Value) : List (String × Value) :=
  (item, entry.1) :: (key.toList.map fun k => (k, entry.2)) ++ [("loop", loopValue index length)]

/-- Runs the passes of a loop from the pass `index` on. -/
def runLoop (item : String) (key : Option String) (length : Nat) (body : Rendering Unit) :
    Nat → List (Value × Value) → Rendering Unit
  | _, [] => pure ()
  | index, entry :: rest => do
    Rendering.underFrame (loopBindings item key index length entry) body
    runLoop item key length body (index + 1) rest

end Trellis
