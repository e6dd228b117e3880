import Trellis.Markup.Doctype
import Trellis.Markup.Element
import Trellis.Render.Arguments
import Trellis.Render.Attributes
import Trellis.Render.CallStack
import Trellis.Render.Loop

/-!
# `Trellis.Render.Nodes`: rendering of nodes

Nodes are rendered in document order. `render` starts with one empty frame and no call
under way.

The recursion goes down the nodes, except where a mixin is called or puts out the
content of its call. There it goes on with other nodes under another call stack, whose
rank is lower.
-/

set_option autoImplicit false

namespace Trellis

open Markup Rendering

/-- Is a tag without content closed at once? -/
def closesAtOnce (mode : Mode) (name : String) (selfClosing : Bool) (children : List Node) :
    Bool :=
  selfClosing || (children.isEmpty && (isVoid name || mode == .xml))

/-- How a tag ends that is closed at once. -/
def closedAtOnce (mode : Mode) (selfClosing : Bool) : String :=
  if selfClosing || mode != .html then "/>" else ">"

/-- Writes a tag; `children` renders its content, if it is not closed at once. Closing
tags stand on a line of their own behind content that does. -/
def writeTag (w : RenderSetting) (name : String) (attributes : List Attribute)
    (selfClosing atOnce : Bool) (children : Rendering Unit) : Rendering Unit := do
  unless isInline name do newline w.pretty
  let text ← ask fun vars => attributesText w.mode vars attributes
  write ("<" ++ name ++ text)
  if atOnce then
    write (closedAtOnce w.mode selfClosing)
    modify fun s => { s with blockEmitted := s.blockEmitted || !isInline name }
  else
    write ">"
    let outer := (← get).blockEmitted
    modify fun s => { s with blockEmitted := false }
    indented children
    if (← get).blockEmitted then newline w.pretty
    write ("</" ++ name ++ ">")
    modify fun s => { s with blockEmitted := outer || !isInline name }

mutual

/-- Renders one node. -/
def renderNode (w : RenderSetting) (cs : CallStack) (n : Node) : Rendering Unit :=
  match n with
  | .doctype name => do
    newline w.pretty
    write (doctype name)
    markBlock
  | .tag name attributes selfClosing children =>
    writeTag w name attributes selfClosing (closesAtOnce w.mode name selfClosing children)
      (renderNodes w cs children)
  | .text spans => do
    let text ← ask fun vars => spansText vars false spans
    write text
  | .output e escaped => do
    let v ← evaluate e
    write (escapeIf escaped v.text)
  | .assign name e => do
    let v ← evaluate e
    assign name v
  | .cond branches otherwise => renderCond w cs branches otherwise
  | .each item key collection body fallback => do
    let v ← evaluate collection
    match v.iterate? with
    | none => throw (.notIterable v.typeName collection.source)
    | some [] => renderOptional w cs fallback
    | some items => runLoop item key items.length (renderNodes w cs body) 0 items
  | .caseOf subject whens default => do
    let v ← evaluate subject
    renderCase w cs v whens default
  | .comment text => do
    newline w.pretty
    write ("<!--" ++ text ++ "-->")
    markBlock
  | .mixin _ => pure ()
  | .call name arguments body => do
    let depth ← depth
    match w.mixins.find? name with
    | none => throw (.unknownMixin name)
    | some m =>
      match _ : cs.push? ⟨body, depth⟩ with
      | none => throw (.tooDeep name)
      | some inner => do
        let bindings ← ask (m.bind arguments)
        underFrame bindings (renderNodes w inner m.body)
  | .content =>
    match _ : cs.pop? with
    | none => pure ()
    | some (⟨none, _⟩, _) => pure ()
    | some (⟨some body, depth⟩, outer) => atDepth depth (renderNodes w outer body)
  | .block _ _ children => renderNodes w cs children
  | .filter name content options =>
    match w.filters.find? name with
    | none => throw (.unknownFilter name)
    | some filter => write (filter content options)
termination_by cs.rank (sizeOf n)
decreasing_by
  any_goals exact CallStack.rank_smaller (by simp +arith)
  · exact CallStack.rank_push ‹_› (by simp +arith)
  · exact CallStack.rank_pop ‹_› (by simp +arith)

/-- Renders nodes one after the other. -/
def renderNodes (w : RenderSetting) (cs : CallStack) (ns : List Node) : Rendering Unit :=
  match ns with
  | [] => pure ()
  | n :: rest => do
    renderNode w cs n
    renderNodes w cs rest
termination_by cs.rank (sizeOf ns)
decreasing_by
  all_goals exact CallStack.rank_smaller (by simp +arith)

/-- Renders nodes that may be missing. -/
def renderOptional (w : RenderSetting) (cs : CallStack) (ns : Option (List Node)) :
    Rendering Unit :=
  match ns with
  | none => pure ()
  | some ns => renderNodes w cs ns
termination_by cs.rank (sizeOf ns)
decreasing_by
  all_goals exact CallStack.rank_smaller (by simp +arith)

/-- Renders the first branch whose test comes out as it should, else the last part. -/
def renderCond (w : RenderSetting) (cs : CallStack) (branches : List Branch)
    (otherwise : Option (List Node)) : Rendering Unit :=
  match branches with
  | [] => renderOptional w cs otherwise
  | ⟨test, negated, body⟩ :: rest => do
    let v ← evaluate test
    if v.isTruthy != negated then renderNodes w cs body
    else renderCond w cs rest otherwise
termination_by cs.rank (sizeOf branches + sizeOf otherwise)
decreasing_by
  all_goals exact CallStack.rank_smaller (by simp +arith)

/-- Renders the first alternative whose value is the subject's, else the default. -/
def renderCase (w : RenderSetting) (cs : CallStack) (subject : Value) (whens : List When)
    (default : Option (List Node)) : Rendering Unit :=
  match whens with
  | [] => renderOptional w cs default
  | ⟨value, body⟩ :: rest => do
    let v ← evaluate value
    if subject.looseSame v then renderNodes w cs body
    else renderCase w cs subject rest default
termination_by cs.rank (sizeOf whens + sizeOf default)
decreasing_by
  all_goals exact CallStack.rank_smaller (by simp +arith)

end

/-- Renders nodes with some variables into a sink. -/
def render (w : RenderSetting) (nodes : List Node) (vars : Variables) (sink : Sink) :
    Except RenderFault Unit × Sink :=
  match renderNodes w .empty nodes ⟨.start vars, sink, 0, false, false⟩ with
  | .ok _ s => (.ok (), s.sink)
  | .error fault s => (.error fault, s.sink)

end Trellis
