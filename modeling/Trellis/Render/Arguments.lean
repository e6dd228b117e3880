import Trellis.Document.Node

/-!
# `Trellis.Render.Arguments`: what a mixin's parameters stand for

Arguments are matched to parameters by their places and evaluated in the variables of
the call. A parameter without an argument has the value of its default, which is
evaluated in the same variables, or none. The rest parameter is the list of the
arguments that are left; without one, those are not even evaluated.
-/

set_option autoImplicit false

namespace Trellis

/-- The values of some expressions. -/
def evaluateAll (vars : String → Value) : List Expression → Except ExpressionError (List Value)
  | [] => .ok []
  | e :: rest => do
    let v ← e.evaluate vars
    return v :: (← evaluateAll vars rest)

/-- The value of a parameter for which there is no argument. -/
def Parameter.missing (vars : String → Value) (p : Parameter) : Except ExpressionError Value :=
  match p.default with
  | some e => e.evaluate vars
  | none => .ok .null

/-- Names and values for parameters and a rest parameter. -/
def bindArguments (vars : String → Value) (surplus : Option String) :
    List Parameter → List Expression → Except ExpressionError (List (String × Value))
  | [], arguments =>
    match surplus with
    | none => .ok []
    | some name => do
      let vs ← evaluateAll vars arguments
      return [(name, .list vs)]
  | p :: ps, [] => do
    let v ← p.missing vars
    return (p.name, v) :: (← bindArguments vars surplus ps [])
  | p :: ps, e :: rest => do
    let v ← e.evaluate vars
    return (p.name, v) :: (← bindArguments vars surplus ps rest)

/-- Names and values for a mixin that is called with some arguments. -/
def Mixin.bind (m : Mixin) (arguments : List Expression) (vars : String → Value) :
    Except ExpressionError (List (String × Value)) :=
  bindArguments vars m.rest m.parameters arguments

end Trellis
