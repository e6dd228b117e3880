import Trellis.Expr.Client
import Trellis.Render.Nodes
import Trellis.Template

/-!
# `Trellis.Render.Handled`: rendering with a handler

The renderer of `Trellis.Render.Nodes` as a computation that asks a handler: each expression is
evaluated by its text, at the moment when its value is needed. What has nothing to do with
expressions is taken over as it is.
-/

set_option autoImplicit false

namespace Trellis

namespace Handled

open Trellis.Expr (Client Process)
open Markup

/-- A computation that gives a value unless an expression fails. -/
abbrev Evaluation := ExceptT ExpressionError Client

/-- The value of an expression. -/
def evaluate (vars : String → Value) (e : Expression) : Evaluation Value :=
  Client.evaluate e.source vars .done

/-! ## Attributes -/

/-- The text of spans. -/
def spansText (vars : String → Value) (literals : Bool) : List Span → Evaluation String
  | [] => return ""
  | .literal s :: rest => do
    let more ← spansText vars literals rest
    return (if literals then escape s else s) ++ more
  | .escaped e :: rest => do
    let v ← evaluate vars e
    let more ← spansText vars literals rest
    return escape v.text ++ more
  | .raw e :: rest => do
    let v ← evaluate vars e
    let more ← spansText vars literals rest
    return v.text ++ more

/-- The value of an attribute, and whether its text is still to be escaped. -/
def attributeValue (vars : String → Value) (a : Attribute) : Evaluation (Value × Bool) :=
  match a.value with
  | .implicit => return (.bool true, a.escaped)
  | .expression e => do return (← evaluate vars e, a.escaped)
  | .spans spans => do return (.str (← spansText vars a.escaped spans), false)

/-- The contributions of some attributes, in order. -/
def contributions (mode : Mode) (vars : String → Value) :
    List Attribute → Evaluation (List Contribution)
  | [] => return []
  | a :: rest => do
    let (v, escaped) ← attributeValue vars a
    let c := if a.name = "class" then .classes (classesOf escaped v)
      else plainContribution mode a.name escaped v
    return c :: (← contributions mode vars rest)

/-- The text of the attributes of a tag. -/
def attributesText (mode : Mode) (vars : String → Value) (attributes : List Attribute) :
    Evaluation String := do
  let cs ← contributions mode vars attributes
  return String.join ((arrangeAttributes (gatherClasses cs) false cs).map writeAttribute)

/-! ## Arguments -/

/-- The values of some expressions. -/
def evaluateAll (vars : String → Value) : List Expression → Evaluation (List Value)
  | [] => return []
  | e :: rest => do
    let v ← evaluate vars e
    return v :: (← evaluateAll vars rest)

/-- The value of a parameter for which there is no argument. -/
def missing (vars : String → Value) (p : Parameter) : Evaluation Value :=
  match p.default with
  | some e => evaluate vars e
  | none => return .null

/-- Names and values for parameters and a rest parameter. -/
def bindArguments (vars : String → Value) (surplus : Option String) :
    List Parameter → List Expression → Evaluation (List (String × Value))
  | [], arguments =>
    match surplus with
    | none => return []
    | some name => do
      let vs ← evaluateAll vars arguments
      return [(name, .list vs)]
  | p :: ps, [] => do
    let v ← missing vars p
    return (p.name, v) :: (← bindArguments vars surplus ps [])
  | p :: ps, e :: rest => do
    let v ← evaluate vars e
    return (p.name, v) :: (← bindArguments vars surplus ps rest)

/-! ## Steps of rendering -/

/-- A rendering that asks a handler, or a part of one. -/
abbrev Rendering := Process RenderFault RenderState

section
variable {α : Type}

/-- Asks for something that depends on the variables in sight. -/
def ask (f : (String → Value) → Evaluation α) : Rendering α := fun s =>
  Client.bind (f s.scope.get) fun
    | .ok a => .done (.ok a s)
    | .error e => .done (.error (.failed e) s)

/-- Runs a part inside a changed state and undoes the change afterwards. -/
def within (enter leave : RenderState → RenderState) (r : Rendering α) : Rendering α := fun s =>
  (r (enter s)).bind fun
    | .ok a t => .done (.ok a (leave t))
    | .error e t => .done (.error e (leave t))

/-- Runs a part one level further in. -/
def indented (r : Rendering α) : Rendering α :=
  within (fun s => { s with indent := s.indent + 1 }) (fun s => { s with indent := s.indent - 1 }) r

/-- Runs a part under a frame of its own. -/
def underFrame (bindings : List (String × Value)) (r : Rendering α) : Rendering α :=
  within (fun s => { s with scope := s.scope.pushFrame.setAll bindings })
    (fun s => { s with scope := s.scope.popFrame }) r

/-- Runs a part under the lowest frames only, as many as there were at some place. -/
def atDepth (depth : Nat) (r : Rendering α) : Rendering α := fun s =>
  let (above, scope) := s.scope.splitOff depth
  within (fun s => { s with scope := scope })
    (fun s => { s with scope := s.scope.restore above }) r s

end

/-- Runs the passes of a loop from the pass `index` on. -/
def runLoop (item : String) (key : Option String) (length : Nat) (body : Rendering Unit) :
    Nat → List (Value × Value) → Rendering Unit
  | _, [] => pure ()
  | index, entry :: rest => do
    underFrame (loopBindings item key index length entry) body
    runLoop item key length body (index + 1) rest

/-- Writes a tag; `children` renders its content, if it is not closed at once. -/
def writeTag (w : RenderSetting) (name : String) (attributes : List Attribute)
    (selfClosing atOnce : Bool) (children : Rendering Unit) : Rendering Unit := do
  Process.step (unless isInline name do Rendering.newline w.pretty)
  let text ← ask fun vars => attributesText w.mode vars attributes
  Process.step (Rendering.write ("<" ++ name ++ text))
  if atOnce then
    Process.step do
      Rendering.write (closedAtOnce w.mode selfClosing)
      modify fun s => { s with blockEmitted := s.blockEmitted || !isInline name }
  else
    let outer ← Process.step do
      Rendering.write ">"
      let outer := (← get).blockEmitted
      modify fun s => { s with blockEmitted := false }
      return outer
    indented children
    Process.step do
      if (← get).blockEmitted then Rendering.newline w.pretty
      Rendering.write ("</" ++ name ++ ">")
      modify fun s => { s with blockEmitted := outer || !isInline name }

/-! ## Nodes -/

mutual

/-- Renders one node. -/
def renderNode (w : RenderSetting) (cs : CallStack) (n : Node) : Rendering Unit :=
  match n with
  | .doctype name => Process.step do
    Rendering.newline w.pretty
    Rendering.write (doctype name)
    Rendering.markBlock
  | .tag name attributes selfClosing children =>
    writeTag w name attributes selfClosing (closesAtOnce w.mode name selfClosing children)
      (renderNodes w cs children)
  | .text spans => do
    let text ← ask fun vars => spansText vars false spans
    Process.step (Rendering.write text)
  | .output e escaped => do
    let v ← ask fun vars => evaluate vars e
    Process.step (Rendering.write (escapeIf escaped v.text))
  | .assign name e => do
    let v ← ask fun vars => evaluate vars e
    Process.step (Rendering.assign name v)
  | .cond branches otherwise => renderCond w cs branches otherwise
  | .each item key collection body fallback => do
    let v ← ask fun vars => evaluate vars collection
    match v.iterate? with
    | none => Process.step (throw (.notIterable v.typeName collection.source))
    | some [] => renderOptional w cs fallback
    | some items => runLoop item key items.length (renderNodes w cs body) 0 items
  | .caseOf subject whens default => do
    let v ← ask fun vars => evaluate vars subject
    renderCase w cs v whens default
  | .comment text => Process.step do
    Rendering.newline w.pretty
    Rendering.write ("<!--" ++ text ++ "-->")
    Rendering.markBlock
  | .mixin _ => pure ()
  | .call name arguments body => do
    let depth ← Process.step Rendering.depth
    match w.mixins.find? name with
    | none => Process.step (throw (.unknownMixin name))
    | some m =>
      match _ : cs.push? ⟨body, depth⟩ with
      | none => Process.step (throw (.tooDeep name))
      | some inner => do
        let bindings ← ask fun vars => bindArguments vars m.rest m.parameters arguments
        underFrame bindings (renderNodes w inner m.body)
  | .content =>
    match _ : cs.pop? with
    | none => pure ()
    | some (⟨none, _⟩, _) => pure ()
    | some (⟨some body, depth⟩, outer) => atDepth depth (renderNodes w outer body)
  | .block _ _ children => renderNodes w cs children
  | .filter name content options =>
    match w.filters.find? name with
    | none => Process.step (throw (.unknownFilter name))
    | some filter => Process.step (Rendering.write (filter content options))
termination_by cs.rank (sizeOf n)
decreasing_by
  any_goals exact CallStack.rank_smaller (by simp +arith)
  · exact CallStack.rank_push ‹_› (by simp +arith)
  · exact CallStack.rank_pop ‹_› (by simp +arith)

/-- Renders nodes one after the other. -/
def renderNodes (w : RenderSetting) (cs : CallStack) (ns : List Node) : Rendering Unit :=
  match ns with
  | [] => pure ()
  | n :: rest => do
    renderNode w cs n
    renderNodes w cs rest
termination_by cs.rank (sizeOf ns)
decreasing_by
  all_goals exact CallStack.rank_smaller (by simp +arith)

/-- Renders nodes that may be missing. -/
def renderOptional (w : RenderSetting) (cs : CallStack) (ns : Option (List Node)) :
    Rendering Unit :=
  match ns with
  | none => pure ()
  | some ns => renderNodes w cs ns
termination_by cs.rank (sizeOf ns)
decreasing_by
  all_goals exact CallStack.rank_smaller (by simp +arith)

/-- Renders the first branch whose test comes out as it should, else the last part. -/
def renderCond (w : RenderSetting) (cs : CallStack) (branches : List Branch)
    (otherwise : Option (List Node)) : Rendering Unit :=
  match branches with
  | [] => renderOptional w cs otherwise
  | ⟨test, negated, body⟩ :: rest => do
    let v ← ask fun vars => evaluate vars test
    if v.isTruthy != negated then renderNodes w cs body
    else renderCond w cs rest otherwise
termination_by cs.rank (sizeOf branches + sizeOf otherwise)
decreasing_by
  all_goals exact CallStack.rank_smaller (by simp +arith)

/-- Renders the first alternative whose value is the subject's, else the default. -/
def renderCase (w : RenderSetting) (cs : CallStack) (subject : Value) (whens : List When)
    (default : Option (List Node)) : Rendering Unit :=
  match whens with
  | [] => renderOptional w cs default
  | ⟨value, body⟩ :: rest => do
    let v ← ask fun vars => evaluate vars value
    if subject.looseSame v then renderNodes w cs body
    else renderCase w cs subject rest default
termination_by cs.rank (sizeOf whens + sizeOf default)
decreasing_by
  all_goals exact CallStack.rank_smaller (by simp +arith)

end

/-- Renders nodes with some variables into a sink. -/
def render (w : RenderSetting) (nodes : List Node) (vars : Variables) (sink : Sink) :
    Client (Except RenderFault Unit × Sink) :=
  (renderNodes w .empty nodes ⟨.start vars, sink, 0, false, false⟩).bind fun
    | .ok _ s => .done (.ok (), s.sink)
    | .error fault s => .done (.error fault, s.sink)

end Handled

namespace Template

open Trellis.Expr (Client)

/-- Renders into a sink, with a handler. -/
def handledTo (t : Template) (filters : Table Filter) (vars : Variables) (sink : Sink) :
    Client (Except Error Unit × Sink) :=
  (Handled.render (t.setting filters) t.document.nodes vars sink).bind fun (result, sink) =>
    .done (result.mapError (.render t.name), sink)

/-- The whole text, if rendering succeeds with a handler. -/
def handled (t : Template) (filters : Table Filter) (vars : Variables) :
    Client (Except Error String) :=
  (t.handledTo filters vars .unlimited).bind fun (result, sink) =>
    .done (result.map fun _ => sink.text)

end Template

end Trellis
