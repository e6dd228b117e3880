import Trellis.Proofs.Discipline

/-!
# `Trellis.Proofs.Halting`: every rendering comes to an end

A mixin may call itself, or mixins may call each other, through tags, loops, conditionals and the
content of calls. `halts` says that a rendering ends all the same, for every template, with the
output or with the fault of a rendering, and that the calls under way never exceed their
bound.

The bound alone does not make a rendering end: while the content of a call is rendered, that call
is not counted, so the number of calls goes down and up again. In the machine nothing but the
check of `Node.opening` stands against calls without end. That every sequence of its steps is
finite comes from the renderer, whose recursion descends in `CallStack.rank`: the machine comes
to a moment with no task left (`carries_renderNodes`), and it can take no other way, as its
steps are a function (`acc_of_reaches`).
-/

set_option autoImplicit false

namespace Trellis

/-- A machine that comes to one without a next step takes finitely many steps. -/
theorem acc_of_reaches {w : RenderSetting} {m last : Machine} (h : Machine.Reaches w m last)
    (hlast : last.step w = none) :
    Acc (fun next machine : Machine => machine.step w = some next) m := by
  induction h using Relation.ReflTransGen.head_induction_on with
  | refl =>
    refine ⟨_, fun next hnext => ?_⟩
    rw [hlast] at hnext
    cases hnext
  | head hstep _ ih =>
    -- The step that is taken is the only one.
    refine ⟨_, fun next hnext => ?_⟩
    rw [hstep] at hnext
    cases hnext
    exact ih

/-- What a rendering gives once no task is left. -/
def Machine.result (m : Machine) : Except RenderFault Unit × Sink :=
  match m.fault with
  | none => (.ok (), m.state.sink)
  | some e => (.error e, m.state.sink)

/-- The machine comes to a moment with no task and no call left, at which it has what the
renderer gives. -/
theorem reaches_render (w : RenderSetting) (nodes : List Node) (vars : Variables) (sink : Sink) :
    ∃ last, Machine.Reaches w (.start nodes vars sink) last ∧ last.tasks = [] ∧
      last.callers = [] ∧ last.result = render w nodes vars sink := by
  have hends := carries_renderNodes w .empty nodes [] ⟨.start vars, sink, 0, false, false⟩
  rw [List.append_nil] at hends
  refine ⟨_, hends, ?_⟩
  unfold render
  cases renderNodes w .empty nodes ⟨.start vars, sink, 0, false, false⟩ with
  | ok a s => exact ⟨rfl, rfl, rfl⟩
  | error e s => exact ⟨rfl, rfl, rfl⟩

/-- Every rendering ends. At every moment there are no more calls under way than allowed; there
is no infinite sequence of steps; and at the last moment no task and no call is left, and what
was rendered is the output, or the fault of a rendering. -/
theorem halts (t : Template) (filters : Table Filter) (vars : Variables) (sink : Sink) :
    (∀ m, Machine.Reaches (t.setting filters) (.start t.document.nodes vars sink) m →
      m.callers.length ≤ maxCallDepth) ∧
    Acc (fun next m : Machine => m.step (t.setting filters) = some next)
      (.start t.document.nodes vars sink) ∧
    (∃ last, Machine.Reaches (t.setting filters) (.start t.document.nodes vars sink) last ∧
      last.tasks = [] ∧ last.callers = [] ∧
      t.renderTo filters vars sink =
        (last.result.1.mapError (.render t.name), last.result.2)) ∧
    ((∃ out, t.render filters vars = .ok out) ∨
      ∃ fault, t.render filters vars = .error (.render t.name fault)) := by
  obtain ⟨last, hreaches, htasks, hcallers, hresult⟩ :=
    reaches_render (t.setting filters) t.document.nodes vars sink
  have hstop : last.step (t.setting filters) = none := by
    obtain ⟨tasks, callers, s, fault⟩ := last
    subst htasks
    rfl
  refine ⟨fun m hm => ?_, acc_of_reaches hreaches hstop, ⟨last, hreaches, htasks, hcallers, ?_⟩, ?_⟩
  · exact (unwinds_of_reaches hm (unwinds_start t.document.nodes vars sink)).disciplined.few
  · rw [hresult]
    rfl
  · unfold Template.render Template.renderTo
    cases render (t.setting filters) t.document.nodes vars .unlimited with
    | mk result sink =>
      cases result with
      | ok a => exact .inl ⟨_, rfl⟩
      | error e => exact .inr ⟨e, rfl⟩

/-- A page with a mixin that calls itself in the content that it gives to another one. The call
of the other one is not under way while that content is rendered. -/
def contentPage : Template where
  number := 0
  name := "page"
  version := "page"
  document :=
    { nodes := [.call "again" [] none]
      mixins := [("inner", ⟨"inner", [], none, [.content]⟩),
        ("again", ⟨"again", [], none, [.call "inner" [] (some [.call "again" [] none])]⟩)] }
  mode := .html
  pretty := false

set_option maxRecDepth 20000 in
example : contentPage.render [] [] = .error (.render "page" (.tooDeep "inner")) := by cbv

end Trellis
