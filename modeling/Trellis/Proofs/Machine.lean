import Mathlib.Logic.Relation
import Trellis.Render.Nodes

/-!
# `Trellis.Proofs.Machine`: a rendering as a list of tasks

The renderer is a recursion, and what it does between the beginning and the end of a call of
its own cannot be pointed at. Here is the same rendering as a machine, which does one task
after the other. Its state holds everything that the recursion keeps for later: the tasks that
are left, the calls under way, the scope and the output, and the fault if there is one.

A task is a job or an undoing. A job renders something; it may put other tasks in front of
those that are left. An undoing takes a frame off, puts frames back, or does the like with the
calls under way or the indentation. After a fault no job is done any more, but every undoing
still is. So the calls under way are changed in place, by `popCaller` and `pushCaller`, and the
bound on their number is a check of `Node.opening`.

No measure stands behind the machine: nothing in its definition says that it halts. That it
halts, with what the renderer gives, is `carries_renderNodes`. For some nodes in front of any
other tasks, the machine comes to those other tasks, with the calls under way that it began
with, in the state in which the renderer ends, and with the renderer's fault if there is one.
The proof goes along the recursion of the renderer. `Carries` and `Opens` are what it says of
tasks and of what a job does at once.
-/

set_option autoImplicit false

namespace Trellis

open Markup Rendering

/-! ### Tags in three parts -/

/-- Begins an open tag and writes its attributes. -/
def beginTag (w : RenderSetting) (name : String) (attributes : List Attribute) :
    Rendering Unit := do
  unless isInline name do newline w.pretty
  let text ← ask fun vars => attributesText w.mode vars attributes
  write ("<" ++ name ++ text)

/-- Ends a tag that is closed at once. -/
def closeAtOnce (w : RenderSetting) (name : String) (selfClosing : Bool) : Rendering Unit := do
  write (closedAtOnce w.mode selfClosing)
  modify fun s => { s with blockEmitted := s.blockEmitted || !isInline name }

/-- Ends an open tag that has content. Gives what was noted for the tag around it. -/
def enterTag : Rendering Bool := do
  write ">"
  let outer := (← get).blockEmitted
  modify fun s => { s with blockEmitted := false }
  return outer

/-- Writes the closing tag. -/
def leaveTag (w : RenderSetting) (name : String) (outer : Bool) : Rendering Unit := do
  if (← get).blockEmitted then newline w.pretty
  write ("</" ++ name ++ ">")
  modify fun s => { s with blockEmitted := outer || !isInline name }

theorem writeTag_eq (w : RenderSetting) (name : String) (attributes : List Attribute)
    (selfClosing atOnce : Bool) (children : Rendering Unit) :
    writeTag w name attributes selfClosing atOnce children = (do
      beginTag w name attributes
      if atOnce then closeAtOnce w name selfClosing
      else do
        let outer ← enterTag
        indented children
        leaveTag w name outer) := by
  unfold writeTag beginTag closeAtOnce enterTag leaveTag
  cases hinline : isInline name <;> cases atOnce <;> simp

/-! ### The machine -/

/-- What undoes a change after a part was rendered, whether that succeeded or not. -/
inductive Undo where
  /-- One level back out. -/
  | outdent
  /-- Takes the topmost frame off. -/
  | popFrame
  /-- Puts frames on top again. -/
  | restore (above : List Variables)
  /-- Ends the innermost call. -/
  | popCaller
  /-- Comes back into a call whose content was rendered. -/
  | pushCaller (c : Caller)

/-- What renders something. -/
inductive Job where
  | node (n : Node)
  /-- The passes of a loop that are left, the next of which has the number `index`. -/
  | passes (item : String) (key : Option String) (length : Nat) (body : List Node) (index : Nat)
    (entries : List (Value × Value))
  /-- The closing tag; `outer` is what was noted for the tag around it. -/
  | endTag (name : String) (outer : Bool)

/-- What a machine is to do: a job, unless there is a fault, or an undoing in any case. -/
inductive Task where
  | work (j : Job)
  | undo (u : Undo)

/-- A rendering under way: the tasks that are left, the calls under way, the innermost first,
and what has gone wrong. -/
structure Machine where
  tasks : List Task
  callers : List Caller
  state : RenderState
  fault : Option RenderFault

/-- The tasks of rendering some nodes. -/
def nodeTasks (ns : List Node) : List Task := (ns.map Job.node).map .work

/-- What a job does at once. It gives the tasks that it leaves to be done next, and the calls
under way for them. -/
abbrev Opening := Rendering (List Task × List Caller)

namespace Opening

/-- Does something and leaves nothing to be done. -/
def plain (callers : List Caller) (r : Rendering Unit) : Opening := do
  r
  return ([], callers)

/-- Changes the state and leaves some tasks to be done in it. Then the change is to be undone,
and after that come the given jobs. -/
def inside (enter : RenderState → RenderState) (ts : List Task) (us : List Undo) (js : List Job)
    (inner : List Caller) : Opening := do
  modify enter
  return (ts ++ us.map .undo ++ js.map .work, inner)

end Opening

/-- The body of the first branch whose test comes out as it should, else the last part. -/
def chosenBranch (otherwise : Option (List Node)) : List Branch → Rendering (List Node)
  | [] => return otherwise.getD []
  | ⟨test, negated, body⟩ :: rest => do
    let v ← evaluate test
    if v.isTruthy != negated then return body else chosenBranch otherwise rest

/-- The body of the first alternative whose value is the subject's, else the default. -/
def chosenAlternative (subject : Value) (default : Option (List Node)) :
    List When → Rendering (List Node)
  | [] => return default.getD []
  | ⟨value, body⟩ :: rest => do
    let v ← evaluate value
    if subject.looseSame v then return body else chosenAlternative subject default rest

open Opening in
/-- Begins to render a node under some calls. -/
def Node.opening (w : RenderSetting) (callers : List Caller) : Node → Opening
  | .doctype name => plain callers do
    newline w.pretty
    write (Markup.doctype name)
    markBlock
  | .tag name attributes selfClosing children => do
    beginTag w name attributes
    if closesAtOnce w.mode name selfClosing children then
      plain callers (closeAtOnce w name selfClosing)
    else do
      let outer ← enterTag
      inside (fun s => { s with indent := s.indent + 1 }) (nodeTasks children) [.outdent]
        [.endTag name outer] callers
  | .text spans => do
    let shown ← ask fun vars => spansText vars false spans
    plain callers (write shown)
  | .output e escaped => do
    let v ← evaluate e
    plain callers (write (escapeIf escaped v.text))
  | .assign name e => do
    let v ← evaluate e
    plain callers (Rendering.assign name v)
  | .cond branches otherwise => do
    let ns ← chosenBranch otherwise branches
    return (nodeTasks ns, callers)
  | .each item key collection body fallback => do
    let v ← evaluate collection
    match v.iterate? with
    | none => throw (.notIterable v.typeName collection.source)
    | some [] => return (nodeTasks (fallback.getD []), callers)
    | some items => return ([.work (.passes item key items.length body 0 items)], callers)
  | .caseOf subject whens default => do
    let v ← evaluate subject
    let ns ← chosenAlternative v default whens
    return (nodeTasks ns, callers)
  | .comment remark => plain callers do
    newline w.pretty
    write ("<!--" ++ remark ++ "-->")
    markBlock
  | .mixin _ => return ([], callers)
  | .call name arguments body => do
    let depth ← depth
    match w.mixins.find? name with
    | none => throw (.unknownMixin name)
    | some m =>
      if callers.length < maxCallDepth then do
        let bindings ← ask (m.bind arguments)
        inside (fun s => { s with scope := s.scope.pushFrame.setAll bindings }) (nodeTasks m.body)
          [.popCaller, .popFrame] [] (⟨body, depth⟩ :: callers)
      else throw (.tooDeep name)
  | .content =>
    match callers with
    | ⟨some body, depth⟩ :: outer => do
      let (above, scope) := (← get).scope.splitOff depth
      inside (fun s => { s with scope := scope }) (nodeTasks body)
        [.restore above, .pushCaller ⟨some body, depth⟩] [] outer
    | _ => return ([], callers)
  | .block _ _ children => return (nodeTasks children, callers)
  | .filter name input options =>
    match w.filters.find? name with
    | none => throw (.unknownFilter name)
    | some f => plain callers (write (f input options))

open Opening in
/-- Begins to do a job under some calls. -/
def Job.opening (w : RenderSetting) (callers : List Caller) : Job → Opening
  | .node n => n.opening w callers
  | .passes _ _ _ _ _ [] => return ([], callers)
  | .passes item key length body index (entry :: rest) =>
    inside (fun s => { s with
        scope := s.scope.pushFrame.setAll (loopBindings item key index length entry) })
      (nodeTasks body) [.popFrame] [.passes item key length body (index + 1) rest] callers
  | .endTag name outer => plain callers (leaveTag w name outer)

/-- What an undoing does to the calls under way. -/
def Undo.callers : Undo → List Caller → List Caller
  | .popCaller, callers => callers.tail
  | .pushCaller c, callers => c :: callers
  | _, callers => callers

/-- What an undoing does to the state. -/
def Undo.state : Undo → RenderState → RenderState
  | .outdent, s => { s with indent := s.indent - 1 }
  | .popFrame, s => { s with scope := s.scope.popFrame }
  | .restore above, s => { s with scope := s.scope.restore above }
  | _, s => s

namespace Machine

/-- Does the next task, if there is one. After a fault a job is left out. -/
def step (w : RenderSetting) (m : Machine) : Option Machine :=
  match m.tasks with
  | [] => none
  | .undo u :: rest =>
    some ⟨rest, u.callers m.callers, u.state m.state, m.fault⟩
  | .work j :: rest =>
    match m.fault with
    | some e => some ⟨rest, m.callers, m.state, some e⟩
    | none =>
      match j.opening w m.callers m.state with
      | .ok (first, callers) s => some ⟨first ++ rest, callers, s, none⟩
      | .error e s => some ⟨rest, m.callers, s, some e⟩

section
variable {w : RenderSetting} {m next : Machine}

theorem step_of_opens {j : Job} {rest first : List Task} {callers inner : List Caller}
    {s t : RenderState} (h : j.opening w callers s = .ok (first, inner) t) :
    step w ⟨.work j :: rest, callers, s, none⟩ = some ⟨first ++ rest, inner, t, none⟩ := by
  unfold Machine.step
  simp only [h]

theorem step_of_fails {j : Job} {rest : List Task} {callers : List Caller}
    {s t : RenderState} {e : RenderFault} (h : j.opening w callers s = .error e t) :
    step w ⟨.work j :: rest, callers, s, none⟩ = some ⟨rest, callers, t, some e⟩ := by
  unfold Machine.step
  simp only [h]

/-- A step does away with the first task only. -/
theorem tasks_step {t : Task} {rest : List Task} (h : m.step w = some next)
    (htasks : m.tasks = t :: rest) : ∃ front, next.tasks = front ++ rest := by
  obtain ⟨tasks, callers, s, fault⟩ := m
  subst htasks
  cases t with
  | undo u =>
    cases h
    exact ⟨[], rfl⟩
  | work j =>
    cases fault with
    | some e =>
      cases h
      exact ⟨[], rfl⟩
    | none =>
      cases hopening : j.opening w callers s with
      | ok a t =>
        rw [step_of_opens hopening] at h
        cases h
        exact ⟨a.1, rfl⟩
      | error e t =>
        rw [step_of_fails hopening] at h
        cases h
        exact ⟨[], rfl⟩

end

/-- A machine that is to render some nodes with some variables into a sink. -/
def start (nodes : List Node) (vars : Variables) (sink : Sink) : Machine :=
  ⟨nodeTasks nodes, [], ⟨.start vars, sink, 0, false, false⟩, none⟩

/-- A machine that has come to the given tasks and calls in the way in which a rendering
ended. -/
def ended (rest : List Task) (callers : List Caller) :
    EStateM.Result RenderFault RenderState Unit → Machine
  | .ok _ s => ⟨rest, callers, s, none⟩
  | .error e s => ⟨rest, callers, s, some e⟩

/-- From one machine to another in any number of steps. -/
abbrev Reaches (w : RenderSetting) : Machine → Machine → Prop :=
  Relation.ReflTransGen fun m next => m.step w = some next

end Machine

/-! ### What tasks come to -/

theorem CallStack.push?_some {cs inner : CallStack} {c : Caller} (h : cs.push? c = some inner) :
    cs.callers.length < maxCallDepth ∧ inner.callers = c :: cs.callers := by
  unfold CallStack.push? at h
  split at h
  · next hlt =>
    cases h
    exact ⟨hlt, rfl⟩
  · cases h

theorem CallStack.push?_none {cs : CallStack} {c : Caller} (h : cs.push? c = none) :
    ¬ cs.callers.length < maxCallDepth := by
  intro hlt
  unfold CallStack.push? at h
  rw [dif_pos hlt] at h
  cases h

theorem CallStack.pop?_none {cs : CallStack} (h : cs.pop? = none) : cs.callers = [] := by
  obtain ⟨callers, hb⟩ := cs
  cases callers with
  | nil => rfl
  | cons c rest => cases h

theorem CallStack.pop?_some {cs outer : CallStack} {c : Caller}
    (h : cs.pop? = some (c, outer)) : cs.callers = c :: outer.callers := by
  obtain ⟨callers, hb⟩ := cs
  cases callers with
  | nil => cases h
  | cons d rest =>
    cases h
    rfl

section
variable {w : RenderSetting} {callers inner : List Caller} {ts : List Task} {r r' : Rendering Unit}

/-- The tasks, in front of any others, come to what a rendering comes to. -/
def Carries (w : RenderSetting) (callers : List Caller) (ts : List Task) (r : Rendering Unit) :
    Prop :=
  ∀ rest s, Machine.Reaches w ⟨ts ++ rest, callers, s, none⟩ (.ended rest callers (r s))

/-- What is done at once fails as the rendering fails, or leaves tasks that come to what the
rendering comes to. -/
def Opens (w : RenderSetting) (callers : List Caller) (o : Opening) (r : Rendering Unit) :
    Prop :=
  ∀ s, match o s with
    | .ok (first, inner) t =>
      ∀ rest, Machine.Reaches w ⟨first ++ rest, inner, t, none⟩ (.ended rest callers (r s))
    | .error e t => r s = .error e t

/-- After a fault, jobs are left out. -/
theorem Machine.reaches_skip (js : List Job) (rest : List Task) (s : RenderState)
    (e : RenderFault) :
    Machine.Reaches w ⟨js.map .work ++ rest, callers, s, some e⟩ ⟨rest, callers, s, some e⟩ := by
  induction js with
  | nil => exact .refl
  | cons j js ih => exact .head rfl ih

/-- Undoings are done, with a fault or without. -/
theorem Machine.reaches_undo (us : List Undo) (rest : List Task) (callers : List Caller)
    (s : RenderState) (fault : Option RenderFault) :
    Machine.Reaches w ⟨us.map .undo ++ rest, callers, s, fault⟩
      ⟨rest, us.foldl (fun cs u => u.callers cs) callers, us.foldl (fun s u => u.state s) s,
        fault⟩ := by
  induction us generalizing callers s with
  | nil => exact .refl
  | cons u us ih => exact .head rfl (ih (u.callers callers) (u.state s))

theorem Carries.nil : Carries w callers [] (pure ()) := fun _ _ => .refl

/-- Jobs behind other tasks come to what is rendered behind. -/
theorem Carries.append (h : Carries w callers ts r) {js : List Job}
    (h' : Carries w callers (js.map .work) r') :
    Carries w callers (ts ++ js.map .work) (do r; r') := by
  intro rest s
  have hfirst := h (js.map .work ++ rest) s
  rw [← List.append_assoc] at hfirst
  refine hfirst.trans ?_
  -- After a fault of the first part, the machine passes over the jobs behind it.
  show Machine.Reaches w _ (.ended rest callers (EStateM.bind r (fun _ => r') s))
  unfold EStateM.bind
  cases r s with
  | ok a t => exact h' rest t
  | error e t => exact Machine.reaches_skip js rest t e

/-- A job comes to what is rendered if what it does at once opens it. -/
theorem Opens.carries {j : Job} (h : Opens w callers (j.opening w callers) r) :
    Carries w callers [.work j] r := by
  intro rest s
  have hs := h s
  cases ho : j.opening w callers s with
  | ok a t =>
    obtain ⟨first, inner⟩ := a
    rw [ho] at hs
    exact .head (Machine.step_of_opens ho) (hs rest)
  | error e t =>
    rw [ho] at hs
    rw [show r s = .error e t from hs]
    exact .single (Machine.step_of_fails ho)

theorem Opens.bind {α : Type} {x : Rendering α} {k : α → Opening} {k' : α → Rendering Unit}
    (h : ∀ a, Opens w callers (k a) (k' a)) : Opens w callers (x >>= k) (x >>= k') := by
  intro s
  show match EStateM.bind x k s with
    | .ok (first, inner) t =>
      ∀ rest, Machine.Reaches w ⟨first ++ rest, inner, t, none⟩
        (.ended rest callers (EStateM.bind x k' s))
    | .error e t => EStateM.bind x k' s = .error e t
  unfold EStateM.bind
  cases x s with
  | ok a t => exact h a t
  | error e t => rfl

/-- Leaving tasks to be done. -/
theorem Opens.leave (h : Carries w callers ts r) : Opens w callers (pure (ts, callers)) r :=
  fun s rest => h rest s

theorem Opens.fail (e : RenderFault) : Opens w callers (throw e) (throw e) := fun _ => rfl

theorem Opens.plain (r : Rendering Unit) : Opens w callers (.plain callers r) r := by
  have h : Opens w callers (.plain callers r) (r >>= fun _ => pure ()) :=
    Opens.bind fun _ => Opens.leave Carries.nil
  rwa [bind_pure_unit] at h

/-- Tasks inside a changed state, what undoes the change, and jobs behind: they come to a
rendering inside that change, and what is rendered behind. -/
theorem Opens.inside {enter leave : RenderState → RenderState} {us : List Undo} {js : List Job}
    (h : Carries w inner ts r) (hcallers : us.foldl (fun cs u => u.callers cs) inner = callers)
    (hstate : ∀ s, us.foldl (fun s u => u.state s) s = leave s)
    (h' : Carries w callers (js.map .work) r') :
    Opens w callers (.inside enter ts us js inner) (do within enter leave r; r') := by
  intro s
  show ∀ rest, Machine.Reaches w ⟨ts ++ us.map .undo ++ js.map .work ++ rest, inner, enter s, none⟩
    (.ended rest callers (EStateM.bind (within enter leave r) (fun _ => r') s))
  intro rest
  have hfirst := h (us.map .undo ++ (js.map .work ++ rest)) (enter s)
  rw [← List.append_assoc, ← List.append_assoc] at hfirst
  refine hfirst.trans ?_
  unfold EStateM.bind within
  -- The change is undone in both cases; then the jobs are done, or left out.
  cases r (enter s) with
  | ok a t =>
    have hundo := Machine.reaches_undo (w := w) us (js.map .work ++ rest) inner t none
    rw [hcallers, hstate] at hundo
    exact hundo.trans (h' rest (leave t))
  | error e t =>
    have hundo := Machine.reaches_undo (w := w) us (js.map .work ++ rest) inner t (some e)
    rw [hcallers, hstate] at hundo
    exact hundo.trans (Machine.reaches_skip js rest (leave t) e)

/-- The same with nothing behind. -/
theorem Opens.inside_only {enter leave : RenderState → RenderState} {us : List Undo}
    (h : Carries w inner ts r) (hcallers : us.foldl (fun cs u => u.callers cs) inner = callers)
    (hstate : ∀ s, us.foldl (fun s u => u.state s) s = leave s) :
    Opens w callers (.inside enter ts us [] inner) (within enter leave r) := by
  have h' : Opens w callers (.inside enter ts us ([] : List Job) inner)
      (within enter leave r >>= fun _ => pure ()) := Opens.inside h hcallers hstate Carries.nil
  rwa [bind_pure_unit] at h'

/-- The passes that are left of a loop come to those passes. -/
theorem carries_runLoop {body : List Node} (h : Carries w callers (nodeTasks body) r)
    (item : String) (key : Option String) (length index : Nat) (entries : List (Value × Value)) :
    Carries w callers [.work (.passes item key length body index entries)]
      (runLoop item key length r index entries) := by
  induction entries generalizing index with
  | nil => exact Opens.carries (Opens.leave Carries.nil)
  | cons entry rest ih => exact Opens.carries (Opens.inside h rfl (fun _ => rfl) (ih (index + 1)))

end

/-! ### What the renderer does -/

mutual

/-- The task of rendering a node comes to what the renderer does with the node. The recursion
is the renderer's: a call goes on with the body of the mixin, and that with the content of the
call. -/
theorem carries_renderNode (w : RenderSetting) (cs : CallStack) (n : Node) :
    Carries w cs.callers [.work (.node n)] (renderNode w cs n) := by
  cases n with
  | doctype name =>
    rw [renderNode]
    exact Opens.carries (Opens.plain _)
  | tag name attributes selfClosing children =>
    rw [renderNode, writeTag_eq]
    refine Opens.carries (Opens.bind fun _ => ?_)
    cases closesAtOnce w.mode name selfClosing children with
    | true => exact Opens.plain _
    | false =>
      refine Opens.bind fun outer => ?_
      have hend : Carries w cs.callers [.work (.endTag name outer)] (leaveTag w name outer) :=
        Opens.carries (Opens.plain _)
      exact Opens.inside (carries_renderNodes w cs children) rfl (fun _ => rfl) hend
  | text spans =>
    rw [renderNode]
    exact Opens.carries (Opens.bind fun _ => Opens.plain _)
  | output e escaped =>
    rw [renderNode]
    exact Opens.carries (Opens.bind fun _ => Opens.plain _)
  | assign name e =>
    rw [renderNode]
    exact Opens.carries (Opens.bind fun _ => Opens.plain _)
  | cond branches otherwise =>
    rw [renderNode]
    exact Opens.carries (opens_renderCond w cs branches otherwise)
  | each item key collection body fallback =>
    rw [renderNode]
    refine Opens.carries (Opens.bind fun v => ?_)
    cases v.iterate? with
    | none => exact Opens.fail _
    | some items =>
      cases items with
      | nil => exact opens_renderOptional w cs fallback
      | cons first rest =>
        exact Opens.leave (carries_runLoop (carries_renderNodes w cs body) _ _ _ _ _)
  | caseOf subject whens default =>
    rw [renderNode]
    exact Opens.carries (Opens.bind fun v => opens_renderCase w cs v whens default)
  | comment text =>
    rw [renderNode]
    exact Opens.carries (Opens.plain _)
  | mixin m =>
    rw [renderNode]
    exact Opens.carries (Opens.leave Carries.nil)
  | call name arguments body =>
    rw [renderNode]
    refine Opens.carries (Opens.bind fun depth => ?_)
    cases w.mixins.find? name with
    | none => exact Opens.fail _
    | some m =>
      dsimp only
      -- The check of the machine is the one that bounds the stack.
      by_cases hlt : cs.callers.length < maxCallDepth
      · rw [if_pos hlt]
        split
        · next hpush => exact absurd hlt (CallStack.push?_none hpush)
        · next inner hpush =>
          refine Opens.bind fun bindings => Opens.inside_only ?_ rfl fun _ => rfl
          rw [← (CallStack.push?_some hpush).2]
          exact carries_renderNodes w inner m.body
      · rw [if_neg hlt]
        split
        · exact Opens.fail _
        · next inner hpush => exact absurd (CallStack.push?_some hpush).1 hlt
  | content =>
    rw [renderNode]
    apply Opens.carries
    split
    · next hpop =>
      rw [CallStack.pop?_none hpop]
      exact Opens.leave Carries.nil
    · next hpop =>
      rw [CallStack.pop?_some hpop]
      exact Opens.leave Carries.nil
    · next body depth outer hpop =>
      rw [CallStack.pop?_some hpop]
      -- What is taken off depends on the scope that is found, so it is read first.
      show Opens w (⟨some body, depth⟩ :: outer.callers)
        (get >>= fun s => Opening.inside (fun t => { t with scope := (s.scope.splitOff depth).2 })
          (nodeTasks body) [.restore (s.scope.splitOff depth).1, .pushCaller ⟨some body, depth⟩]
          [] outer.callers)
        (get >>= fun s => within (fun t => { t with scope := (s.scope.splitOff depth).2 })
          (fun t => { t with scope := t.scope.restore (s.scope.splitOff depth).1 })
          (renderNodes w outer body))
      exact Opens.bind fun s => Opens.inside_only (carries_renderNodes w outer body) rfl fun _ => rfl
  | block name mode children =>
    rw [renderNode]
    exact Opens.carries (Opens.leave (carries_renderNodes w cs children))
  | filter name content options =>
    rw [renderNode]
    apply Opens.carries
    unfold Job.opening Node.opening
    dsimp only
    cases w.filters.find? name with
    | none => exact Opens.fail _
    | some f => exact Opens.plain _
termination_by cs.rank (sizeOf n)
decreasing_by
  any_goals exact CallStack.rank_smaller (by simp +arith)
  · exact CallStack.rank_push ‹_› (by simp +arith)
  · exact CallStack.rank_pop ‹_› (by simp +arith)

/-- The tasks of rendering some nodes come to what the renderer does with them. -/
theorem carries_renderNodes (w : RenderSetting) (cs : CallStack) (ns : List Node) :
    Carries w cs.callers (nodeTasks ns) (renderNodes w cs ns) := by
  cases ns with
  | nil =>
    rw [renderNodes]
    exact Carries.nil
  | cons n rest =>
    rw [renderNodes]
    exact Carries.append (carries_renderNode w cs n) (carries_renderNodes w cs rest)
termination_by cs.rank (sizeOf ns)
decreasing_by
  all_goals exact CallStack.rank_smaller (by simp +arith)

theorem opens_renderOptional (w : RenderSetting) (cs : CallStack) (ns : Option (List Node)) :
    Opens w cs.callers (pure (nodeTasks (ns.getD []), cs.callers)) (renderOptional w cs ns) := by
  cases ns with
  | none =>
    rw [renderOptional]
    exact Opens.leave Carries.nil
  | some ns =>
    rw [renderOptional]
    exact Opens.leave (carries_renderNodes w cs ns)
termination_by cs.rank (sizeOf ns)
decreasing_by
  all_goals exact CallStack.rank_smaller (by simp +arith)

theorem opens_renderCond (w : RenderSetting) (cs : CallStack) (branches : List Branch)
    (otherwise : Option (List Node)) :
    Opens w cs.callers (do
        let ns ← chosenBranch otherwise branches
        return (nodeTasks ns, cs.callers))
      (renderCond w cs branches otherwise) := by
  cases branches with
  | nil =>
    rw [renderCond]
    exact opens_renderOptional w cs otherwise
  | cons branch rest =>
    obtain ⟨test, negated, body⟩ := branch
    rw [renderCond, chosenBranch, bind_assoc]
    refine Opens.bind fun v => ?_
    cases v.isTruthy != negated with
    | true => exact Opens.leave (carries_renderNodes w cs body)
    | false => exact opens_renderCond w cs rest otherwise
termination_by cs.rank (sizeOf branches + sizeOf otherwise)
decreasing_by
  all_goals exact CallStack.rank_smaller (by simp +arith)

theorem opens_renderCase (w : RenderSetting) (cs : CallStack) (subject : Value)
    (whens : List When) (default : Option (List Node)) :
    Opens w cs.callers (do
        let ns ← chosenAlternative subject default whens
        return (nodeTasks ns, cs.callers))
      (renderCase w cs subject whens default) := by
  cases whens with
  | nil =>
    rw [renderCase]
    exact opens_renderOptional w cs default
  | cons alternative rest =>
    obtain ⟨value, body⟩ := alternative
    rw [renderCase, chosenAlternative, bind_assoc]
    refine Opens.bind fun v => ?_
    cases subject.looseSame v with
    | true => exact Opens.leave (carries_renderNodes w cs body)
    | false => exact opens_renderCase w cs subject rest default
termination_by cs.rank (sizeOf whens + sizeOf default)
decreasing_by
  all_goals exact CallStack.rank_smaller (by simp +arith)

end

end Trellis
