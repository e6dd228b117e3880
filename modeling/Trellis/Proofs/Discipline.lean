import Trellis.Proofs.Frames
import Trellis.Template

/-!
# `Trellis.Proofs.Discipline`: the calls under way fit the frames

On the way of a rendering, frames and calls are put on and taken off by loops, calls and the
content of calls, which lie in each other in any order, and an error may end any of them early.
`disciplined_of_reaches` says that they fit each other at every moment, for every template: that
no operation on the scope ever has to correct what it is asked for, and what a list of nodes
leaves behind that comes to be rendered.

At a moment of the way, the calls and frames fit each other because the tasks that are left
unwind them: the undoings among them, one after the other, lead through calls and frames that
fit (`Unwinds`). A job that is begun puts the undoings of its own in front (`starts_opening`),
and an undoing that is done was the next one (`unwinds_step`).
-/

set_option autoImplicit false

namespace Trellis

open Markup Rendering

/-! ### Undoings in a row -/

/-- The number of frames after an undoing. -/
def Undo.frames : Undo → Nat → Nat
  | .popFrame, n => n - 1
  | .restore above, n => above.length + n
  | _, n => n

/-- There is something to undo: a frame above the bottom, or a call. -/
def Undo.Fits : Undo → List Caller → Nat → Prop
  | .popFrame, _, n => 1 < n
  | .popCaller, callers, _ => callers ≠ []
  | _, _, _ => True

/-- The undoings among some tasks lead from some calls and a number of frames through others
that fit each other. -/
def Unwinds : List Task → List Caller → Nat → Prop
  | [], callers, n => Disciplined callers n
  | .work _ :: rest, callers, n => Unwinds rest callers n
  | .undo u :: rest, callers, n =>
    Disciplined callers n ∧ u.Fits callers n ∧ Unwinds rest (u.callers callers) (u.frames n)

/-- What a job has done when it leaves undoings: which calls, and how many frames, it has made
of the calls and frames that it found. -/
inductive Entered (callers : List Caller) (n : Nat) : List Undo → List Caller → Nat → Prop
  | nothing : Entered callers n [] callers n
  | indentation : Entered callers n [.outdent] callers n
  | frame : Entered callers n [.popFrame] callers (n + 1)
  | call (body : Option (List Node)) (h : callers.length < maxCallDepth) :
    Entered callers n [.popCaller, .popFrame] (⟨body, n⟩ :: callers) (n + 1)
  | content {c : Caller} {outer : List Caller} {above : List Variables}
    (hcallers : callers = c :: outer) (habove : above.length + c.depth = n) :
    Entered callers n [.restore above, .pushCaller c] outer c.depth

section
variable {callers inner : List Caller} {n m : Nat} {rest : List Task}

theorem Unwinds.disciplined {ts : List Task} (h : Unwinds ts callers n) :
    Disciplined callers n := by
  induction ts with
  | nil => exact h
  | cons t rest ih =>
    cases t with
    | work j => exact ih h
    | undo u => exact h.1

/-- Jobs in front are left out of account. -/
theorem Unwinds.works (js : List Job) (h : Unwinds rest callers n) :
    Unwinds (js.map .work ++ rest) callers n := by
  induction js with
  | nil => exact h
  | cons j js ih => exact ih

/-- The undoings that a job leaves unwind what it has done. -/
theorem Unwinds.undos {us : List Undo} (h : Unwinds rest callers n)
    (henter : Entered callers n us inner m) : Unwinds (us.map .undo ++ rest) inner m := by
  have hn : Disciplined callers n := h.disciplined
  cases henter with
  | nothing => exact h
  | indentation => exact ⟨hn, trivial, h⟩
  | frame => exact ⟨hn.frame, Nat.lt_succ_of_le hn.bottom, h⟩
  | call body hfew =>
    exact ⟨hn.push hfew body, List.cons_ne_nil _ _, hn.frame, Nat.lt_succ_of_le hn.bottom, h⟩
  | @content c outer above hcallers habove =>
    subst hcallers habove
    -- The frames above its place come back before the call does.
    exact ⟨hn.pop, trivial, hn.tail, trivial, h⟩

end

/-! ### What a job begins with -/

/-- What is done at once leaves jobs, undoings of what it has done, and jobs behind; or it
fails, with the frames that it found. -/
structure Starts (callers : List Caller) (n : Nat) (o : Opening) : Prop where
  starts : ∀ s, s.scope.depth = n → match o s with
    | .ok (first, inner) t => ∃ (js : List Job) (us : List Undo) (later : List Job),
      first = js.map .work ++ us.map .undo ++ later.map .work ∧
        Entered callers n us inner t.scope.depth
    | .error _ t => t.scope.depth = n

namespace Starts

variable {α : Type} {callers inner : List Caller} {n m : Nat}

theorem bind {x : Rendering α} {k : α → Opening} (hx : Tidy callers n x)
    (hk : ∀ a, Starts callers n (k a)) : Starts callers n (x >>= k) where
  starts s hs := by
    have hdepth := (hx.kept s hs).depth
    show match EStateM.bind x k s with
      | .ok (first, inner) t => ∃ (js : List Job) (us : List Undo) (later : List Job),
        first = js.map .work ++ us.map .undo ++ later.map .work ∧
          Entered callers n us inner t.scope.depth
      | .error _ t => t.scope.depth = n
    unfold Rendering.after at hdepth
    unfold EStateM.bind
    generalize x s = result at hdepth ⊢
    cases result with
    | ok a t => exact (hk a).starts t (hdepth.trans hs)
    | error e t => exact hdepth.trans hs

theorem fail (e : RenderFault) : Starts callers n (throw e) where
  starts _ hs := hs

/-- What goes on with the number of frames. -/
theorem depth {k : Nat → Opening} (h : Starts callers n (k n)) :
    Starts callers n (Rendering.depth >>= k) where
  starts s hs := by
    subst hs
    exact h.starts s rfl

/-- Leaving jobs to be done. -/
theorem leave (js : List Job) : Starts callers n (pure (js.map .work, callers)) where
  starts s hs := ⟨js, [], [], by simp, hs ▸ .nothing⟩

theorem plain {r : Rendering Unit} (h : Tidy callers n r) : Starts callers n (.plain callers r) :=
  bind h fun _ => leave []

theorem inside {enter : RenderState → RenderState} {us : List Undo} (js later : List Job)
    (h : ∀ s, s.scope.depth = n → Entered callers n us inner (enter s).scope.depth) :
    Starts callers n (.inside enter (js.map .work) us later inner) where
  starts s hs := ⟨js, us, later, rfl, h s hs⟩

end Starts

section
variable {callers : List Caller} {n : Nat}

theorem tidy_chosenBranch (otherwise : Option (List Node)) (branches : List Branch) :
    Tidy callers n (chosenBranch otherwise branches) := by
  induction branches with
  | nil => exact .result _
  | cons branch rest ih =>
    obtain ⟨test, negated, body⟩ := branch
    refine (Tidy.ask _).bind fun v => ?_
    split
    · exact .result body
    · exact ih

theorem tidy_chosenAlternative (subject : Value) (default : Option (List Node))
    (whens : List When) : Tidy callers n (chosenAlternative subject default whens) := by
  induction whens with
  | nil => exact .result _
  | cons alternative rest ih =>
    obtain ⟨value, body⟩ := alternative
    refine (Tidy.ask _).bind fun v => ?_
    split
    · exact .result body
    · exact ih

theorem starts_nodeOpening (w : RenderSetting) (hn : Disciplined callers n) (node : Node) :
    Starts callers n (node.opening w callers) := by
  cases node with
  | doctype name =>
    exact .plain ((Tidy.newline _).bind fun _ => (Tidy.write _).bind fun _ =>
      Tidy.setBlockEmitted _)
  | tag name attributes selfClosing children =>
    refine .bind (tidy_beginTag w name attributes) fun _ => ?_
    split
    · exact .plain (tidy_closeAtOnce w name selfClosing)
    · exact .bind tidy_enterTag fun outer => .inside _ _ fun s hs => hs ▸ .indentation
  | text spans => exact .bind (Tidy.ask _) fun _ => .plain (Tidy.write _)
  | output e escaped => exact .bind (Tidy.ask _) fun _ => .plain (Tidy.write _)
  | assign name e => exact .bind (Tidy.ask _) fun _ => .plain (Tidy.assign name _)
  | cond branches otherwise =>
    exact .bind (tidy_chosenBranch otherwise branches) fun ns => .leave (ns.map .node)
  | each item key collection body fallback =>
    refine .bind (Tidy.ask _) fun v => ?_
    cases v.iterate? with
    | none => exact .fail _
    | some items =>
      cases items with
      | nil => exact .leave ((fallback.getD []).map .node)
      | cons first rest => exact .leave [.passes item key _ body 0 (first :: rest)]
  | caseOf subject whens default =>
    exact .bind (Tidy.ask _) fun v =>
      .bind (tidy_chosenAlternative v default whens) fun ns => .leave (ns.map .node)
  | comment text =>
    exact .plain ((Tidy.newline _).bind fun _ => (Tidy.write _).bind fun _ =>
      Tidy.setBlockEmitted _)
  | mixin m => exact .leave []
  | call name arguments body =>
    refine .depth ?_
    cases w.mixins.find? name with
    | none => exact .fail _
    | some m =>
      dsimp only
      split
      · next hfew =>
        refine .bind (Tidy.ask _) fun bindings => .inside _ [] fun s hs => ?_
        have hdepth : (s.scope.pushFrame.setAll bindings).depth = n + 1 := by
          rw [Scope.depth_setAll, Scope.depth_pushFrame, hs]
        exact hdepth ▸ .call body hfew
      · exact .fail _
  | content =>
    match callers, hn with
    | [], _ => exact .leave []
    | ⟨none, depth⟩ :: outer, _ => exact .leave []
    | ⟨some body, depth⟩ :: outer, hn =>
      refine ⟨fun s hs => ⟨body.map .node, _, [], rfl, ?_⟩⟩
      subst hs
      have hpos : 1 ≤ depth := hn.positive _ List.mem_cons_self
      have hle : depth ≤ s.scope.depth := hn.le List.mem_cons_self
      have habove : (s.scope.splitOff depth).1.length + depth = s.scope.depth := by
        rw [Scope.length_splitOff hpos hle]
        exact Nat.sub_add_cancel hle
      show Entered _ _ _ outer (s.scope.splitOff depth).2.depth
      rw [Scope.depth_splitOff hpos hle]
      exact .content rfl habove
  | block name mode children => exact .leave (children.map .node)
  | filter name input options =>
    unfold Node.opening
    dsimp only
    split
    · exact .fail _
    · exact .plain (Tidy.write _)

/-- Under calls that fit the frames, every job leaves undoings of what it has done. -/
theorem starts_opening (w : RenderSetting) (hn : Disciplined callers n) (j : Job) :
    Starts callers n (j.opening w callers) := by
  cases j with
  | node node => exact starts_nodeOpening w hn node
  | passes item key length body index entries =>
    cases entries with
    | nil => exact .leave []
    | cons entry rest =>
      refine .inside _ _ fun s hs => ?_
      have hdepth : (s.scope.pushFrame.setAll
          (loopBindings item key index length entry)).depth = n + 1 := by
        rw [Scope.depth_setAll, Scope.depth_pushFrame, hs]
      exact hdepth ▸ .frame
  | endTag name outer => exact .plain (tidy_leaveTag w name outer)

end

/-! ### Steps and runs -/

/-- An undoing that fits makes of the frames what it should. -/
theorem Undo.depth_state {u : Undo} {callers : List Caller} {s : RenderState}
    (h : u.Fits callers s.scope.depth) : (u.state s).scope.depth = u.frames s.scope.depth := by
  cases u with
  | popFrame =>
    have hdepth : s.scope.depth = s.scope.depth - 1 + 1 := (Nat.sub_add_cancel (Nat.le_of_lt h)).symm
    exact Scope.depth_popFrame hdepth (Nat.le_sub_one_of_lt h)
  | restore above => exact List.length_append
  | outdent | popCaller | pushCaller c => rfl

/-- One step leaves tasks that unwind the calls and frames. -/
theorem unwinds_step {w : RenderSetting} {machine next : Machine} (h : machine.step w = some next)
    (hm : Unwinds machine.tasks machine.callers machine.state.scope.depth) :
    Unwinds next.tasks next.callers next.state.scope.depth := by
  obtain ⟨tasks, callers, s, fault⟩ := machine
  match tasks, fault with
  | [], _ => cases h
  | .undo u :: rest, _ =>
    cases h
    obtain ⟨-, hfits, hrest⟩ := hm
    show Unwinds rest (u.callers callers) (u.state s).scope.depth
    rwa [Undo.depth_state hfits]
  | .work j :: rest, some e =>
    cases h
    exact hm
  | .work j :: rest, none =>
    have hrest : Unwinds rest callers s.scope.depth := hm
    have hstarts := (starts_opening w hrest.disciplined j).starts s rfl
    have hstep : (match j.opening w callers s with
      | .ok (first, callers) t => some (⟨first ++ rest, callers, t, none⟩ : Machine)
      | .error e t => some ⟨rest, callers, t, some e⟩) = some next := h
    generalize j.opening w callers s = result at hstarts hstep
    match result with
    | .ok (first, inner) t =>
      cases hstep
      obtain ⟨js, us, later, rfl, hentered⟩ := hstarts
      have hundos := (hrest.works later).undos hentered
      simpa using hundos.works js
    | .error e t =>
      cases hstep
      show Unwinds rest callers t.scope.depth
      rwa [show t.scope.depth = s.scope.depth from hstarts]

/-- So do any number of steps. -/
theorem unwinds_of_reaches {w : RenderSetting} {machine later : Machine}
    (h : Machine.Reaches w machine later)
    (hm : Unwinds machine.tasks machine.callers machine.state.scope.depth) :
    Unwinds later.tasks later.callers later.state.scope.depth := by
  induction h with
  | refl => exact hm
  | tail _ hstep ih => exact unwinds_step hstep ih

theorem unwinds_start (nodes : List Node) (vars : Variables) (sink : Sink) :
    Unwinds (nodeTasks nodes) [] (Machine.start nodes vars sink).state.scope.depth := by
  have hend : Unwinds [] [] 1 := Disciplined.empty (Nat.le_refl 1)
  have hnodes := hend.works (nodes.map .node)
  rwa [List.append_nil] at hnodes

/-- No operation on the scope corrects what it is asked for: at the place of each call there are
frames to come back to, and a frame that is taken off is not the one at the bottom. -/
structure Machine.Unclamped (m : Machine) : Prop where
  splitOff : ∀ c ∈ m.callers, m.state.scope.splitOff c.depth =
    (m.state.scope.frames.take (m.state.scope.depth - c.depth),
      { m.state.scope with frames := m.state.scope.frames.drop (m.state.scope.depth - c.depth) })
  popFrame : ∀ rest, m.tasks = .undo .popFrame :: rest →
    1 < m.state.scope.depth ∧
      m.state.scope.popFrame = { m.state.scope with frames := m.state.scope.frames.tail }

theorem Unwinds.unclamped {m : Machine} (h : Unwinds m.tasks m.callers m.state.scope.depth) :
    m.Unclamped where
  splitOff c hc :=
    Scope.splitOff_eq (h.disciplined.positive c hc) (h.disciplined.le hc)
  popFrame rest htasks := by
    rw [htasks] at h
    obtain ⟨-, hfits, -⟩ := h
    exact ⟨hfits, Scope.popFrame_eq hfits⟩

theorem Machine.state_ended {rest : List Task} {callers : List Caller} {r : Rendering Unit}
    {s : RenderState} : (Machine.ended rest callers (r s)).state = r.after s := by
  unfold Rendering.after
  cases r s with
  | ok a t => rfl
  | error e t => rfl

/-- At every moment of the way of a rendering, the calls under way fit the frames, and no
operation on the scope corrects what it is asked for. If some nodes are to be rendered next,
then the machine comes to what is behind them with the same calls as before, in the way in
which the renderer ends on those nodes; with as many frames, as far indented, and with all
frames unchanged except the topmost one and those that were topmost at the places of the
calls. -/
theorem disciplined_of_reaches (t : Template) (filters : Table Filter) (vars : Variables)
    (sink : Sink) {m : Machine}
    (h : Machine.Reaches (t.setting filters) (.start t.document.nodes vars sink) m) :
    Disciplined m.callers m.state.scope.depth ∧ m.Unclamped ∧
      ∀ ns rest, m.tasks = nodeTasks ns ++ rest → m.fault = none →
        ∃ cs : CallStack, cs.callers = m.callers ∧
          ∃ later, Machine.Reaches (t.setting filters) m later ∧
            later = .ended rest m.callers (renderNodes (t.setting filters) cs ns m.state) ∧
            Kept m.callers m.state later.state := by
  have hm : Unwinds m.tasks m.callers m.state.scope.depth :=
    unwinds_of_reaches h (unwinds_start t.document.nodes vars sink)
  have hcallers := hm.disciplined
  refine ⟨hcallers, hm.unclamped, fun ns rest htasks hfault => ?_⟩
  obtain ⟨tasks, callers, s, fault⟩ := m
  subst htasks hfault
  let cs : CallStack := ⟨callers, hcallers.few⟩
  have hends := carries_renderNodes (t.setting filters) cs ns rest s
  have hkept := (tidy_renderNodes (t.setting filters) cs ns hcallers).kept s rfl
  exact ⟨cs, rfl, _, hends, rfl, Machine.state_ended.symm ▸ hkept⟩

/-- A page that calls a mixin with some content. -/
def callPage : Template where
  number := 0
  name := "page"
  version := "page"
  document :=
    { nodes := [.call "m" [] (some [.text [.literal "here"]])]
      mixins := [("m", ⟨"m", [], none, [.content]⟩)] }
  mode := .html
  pretty := false

/-- The rendering of that page, inside the mixin. -/
def insideCall : Machine where
  tasks := nodeTasks [.content] ++ [.undo .popCaller, .undo .popFrame]
  callers := [⟨some [.text [.literal "here"]], 1⟩]
  state := ⟨⟨[], [[], []]⟩, .unlimited, 0, false, false⟩
  fault := none

theorem reaches_insideCall : Machine.Reaches (callPage.setting [])
    (.start callPage.document.nodes [] .unlimited) insideCall :=
  .single rfl

theorem disciplined_of_reaches_insideCall :
    Machine.Reaches (callPage.setting []) (.start callPage.document.nodes [] .unlimited)
        insideCall ∧
      Disciplined insideCall.callers 2 ∧ insideCall.Unclamped ∧
      ∃ cs : CallStack, cs.callers = insideCall.callers ∧
        ∃ later, Machine.Reaches (callPage.setting []) insideCall later ∧
          later = .ended [.undo .popCaller, .undo .popFrame] insideCall.callers
            (renderNodes (callPage.setting []) cs [.content] insideCall.state) ∧
          Kept insideCall.callers insideCall.state later.state := by
  obtain ⟨hcallers, hunclamped, hrendered⟩ :=
    disciplined_of_reaches callPage [] [] .unlimited reaches_insideCall
  exact ⟨reaches_insideCall, hcallers, hunclamped, hrendered [.content] _ rfl rfl⟩

end Trellis
