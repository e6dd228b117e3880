import Mathlib
import Trellis.Proofs.Renderings
import Trellis.Template

/-!
# `Trellis.Proofs.Undefined`: a missing variable is nothing

A template is rendered twice, where one name has no value the first time and is given as nothing
the second time. An expression asks for the value of a name only, never whether there is one. So
the two renderings cannot be told apart from inside.

The scopes of the two are not equal, since the tables of given variables are not. What they have
in common is `Scope.SameValues`: the frames, and what each name means among the given variables.
It is kept when frames are pushed, filled, and taken off, which only looks at the frames.
`Unmoved` says of two parts that they do the same from such states, and
`respectsRendering_unmoved` that each step of a rendering does. The induction over the nodes is
`renderNodes_related`.
-/

set_option autoImplicit false

namespace Trellis

open Markup Rendering

/-! ### Scopes with the same values -/

/-- Each name means the same in both scopes, and so it does whatever happens to the frames. -/
structure Scope.SameValues (c d : Scope) : Prop where
  frames : d.frames = c.frames
  given : ∀ y, (Table.find? y d.globals).getD .null = (Table.find? y c.globals).getD .null

namespace Scope.SameValues

variable {c d : Scope}

/-- A name means what a frame says, and else what is given. -/
theorem get_eq (h : c.SameValues d) : d.get = c.get := by
  funext y
  unfold Scope.get Scope.find?
  rw [h.frames]
  cases c.frames.findSome? (Table.find? y) with
  | some v => rfl
  | none => exact h.given y

theorem depth_eq (h : c.SameValues d) : d.depth = c.depth := congrArg List.length h.frames

theorem pushFrame (h : c.SameValues d) : c.pushFrame.SameValues d.pushFrame where
  frames := congrArg (List.cons []) h.frames
  given := h.given

theorem popFrame (h : c.SameValues d) : c.popFrame.SameValues d.popFrame := by
  obtain ⟨hframes, hgiven⟩ := h
  obtain ⟨globals, frames⟩ := c
  obtain ⟨globals', frames'⟩ := d
  cases hframes
  -- The only frame stays.
  match frames with
  | [] | [_] | _ :: _ :: _ => exact ⟨rfl, hgiven⟩

theorem set (h : c.SameValues d) (name : String) (v : Value) :
    (c.set name v).SameValues (d.set name v) := by
  obtain ⟨hframes, hgiven⟩ := h
  obtain ⟨globals, frames⟩ := c
  obtain ⟨globals', frames'⟩ := d
  cases hframes
  cases frames with
  | nil => exact ⟨rfl, hgiven⟩
  | cons top rest => exact ⟨rfl, hgiven⟩

theorem setAll (h : c.SameValues d) (bindings : List (String × Value)) :
    (c.setAll bindings).SameValues (d.setAll bindings) := by
  unfold Scope.setAll
  induction bindings generalizing c d with
  | nil => exact h
  | cons binding rest ih => exact ih (h.set binding.1 binding.2)

/-- The same frames are taken off. -/
theorem splitOff (h : c.SameValues d) (depth : Nat) :
    (d.splitOff depth).1 = (c.splitOff depth).1 ∧
      (c.splitOff depth).2.SameValues (d.splitOff depth).2 := by
  unfold Scope.splitOff
  dsimp only
  rw [h.depth_eq, h.frames]
  exact ⟨rfl, rfl, h.given⟩

theorem restore (h : c.SameValues d) (frames : List Variables) :
    (c.restore frames).SameValues (d.restore frames) where
  frames := congrArg (frames ++ ·) h.frames
  given := h.given

end Scope.SameValues

/-- Giving nothing under a name that has no value changes no value. -/
theorem Scope.sameValues_start {vars : Variables} {x : String} (h : Table.find? x vars = none) :
    (Scope.start vars).SameValues (.start (Table.insert x .null vars)) where
  frames := rfl
  given y := by
    show (Table.find? y (Table.insert x .null vars)).getD .null = (Table.find? y vars).getD .null
    rw [Table.find?_insert]
    split
    · next hy => rw [hy, h]; rfl
    · rfl

/-! ### Two renderings -/

/-- Two states that differ in their scopes only, and these have the same values. -/
structure RenderState.SameValues (s t : RenderState) : Prop where
  scope : s.scope.SameValues t.scope
  rest : t = { s with scope := t.scope }

namespace RenderState.SameValues

variable {s t : RenderState}

/-- Other scopes that have the same values. -/
theorem changeScope (h : s.SameValues t) {c d : Scope} (hscope : c.SameValues d) :
    ({ s with scope := c } : RenderState).SameValues { t with scope := d } where
  scope := hscope
  rest := by rw [h.rest]

/-- The same is done to both states, apart from the scopes. -/
theorem changeRest (h : s.SameValues t) {f : RenderState → RenderState}
    (hf : ∀ (s : RenderState) c, f { s with scope := c } = { f s with scope := c }) :
    (f s).SameValues (f t) := by
  have hs : f s = { f s with scope := s.scope } := hf s s.scope
  have ht : f t = { f s with scope := t.scope } := by rw [h.rest, hf]
  refine ⟨?_, ?_⟩
  · rw [hs, ht]
    exact h.scope
  · rw [ht]

end RenderState.SameValues

/-- Two ways to end that are the same but for the table of given variables. -/
inductive EndSame {α : Type} :
    EStateM.Result RenderFault RenderState α → EStateM.Result RenderFault RenderState α → Prop
  | ok (a : α) {s t : RenderState} (h : s.SameValues t) : EndSame (.ok a s) (.ok a t)
  | error (e : RenderFault) {s t : RenderState} (h : s.SameValues t) :
    EndSame (.error e s) (.error e t)

/-- The two parts do the same where the same names have the same values. -/
def Unmoved {α : Type} (r r' : Rendering α) : Prop := ∀ s t, s.SameValues t → EndSame (r s) (r' t)

namespace Unmoved

variable {α β : Type} {r r' : Rendering α}

theorem bind {k k' : α → Rendering β} (h : Unmoved r r') (hk : ∀ a, Unmoved (k a) (k' a)) :
    Unmoved (r >>= k) (r' >>= k') := by
  intro s t hst
  have hends := h s t hst
  show EndSame (EStateM.bind r k s) (EStateM.bind r' k' t)
  unfold EStateM.bind
  generalize r s = first, r' t = first' at hends ⊢
  cases hends with
  | ok a h => exact hk a _ _ h
  | error e h => exact .error e h

/-- Whatever is asked, the answer is the same. -/
theorem ask (f : (String → Value) → Except ExpressionError α) :
    Unmoved (Rendering.ask f) (Rendering.ask f) := by
  intro s t hst
  unfold Rendering.ask
  rw [hst.scope.get_eq]
  cases f s.scope.get with
  | ok a => exact .ok a hst
  | error e => exact .error _ hst

theorem write (piece : String) : Unmoved (Rendering.write piece) (Rendering.write piece) := by
  intro s t hst
  unfold Rendering.write
  split
  · exact .ok () hst
  · have hsink : t.sink = s.sink := by rw [hst.rest]
    rw [hsink]
    cases s.sink.offer piece with
    | mk taken k =>
      have hwritten : ({ s with sink := k, started := true } : RenderState).SameValues
          { t with sink := k, started := true } :=
        hst.changeRest (f := fun s => { s with sink := k, started := true }) fun _ _ => rfl
      cases taken with
      | true => exact .ok () hwritten
      | false => exact .error _ hwritten

theorem newline (pretty : Bool) :
    Unmoved (Rendering.newline pretty) (Rendering.newline pretty) := by
  intro s t hst
  have hstarted : t.started = s.started := by rw [hst.rest]
  have hindent : t.indent = s.indent := by rw [hst.rest]
  show EndSame
    ((if pretty && s.started then Rendering.write (lineStart s.indent) else pure ()) s)
    ((if pretty && t.started then Rendering.write (lineStart t.indent) else pure ()) t)
  rw [hstarted, hindent]
  split
  · exact write _ s t hst
  · exact .ok () hst

theorem within {enter leave enter' leave' : RenderState → RenderState}
    (henter : ∀ s t, s.SameValues t → (enter s).SameValues (enter' t))
    (hleave : ∀ s t, s.SameValues t → (leave s).SameValues (leave' t)) (h : Unmoved r r') :
    Unmoved (Rendering.within enter leave r) (Rendering.within enter' leave' r') := by
  intro s t hst
  have hends := h _ _ (henter s t hst)
  unfold Rendering.within
  generalize r (enter s) = first, r' (enter' t) = first' at hends ⊢
  cases hends with
  | ok a h => exact .ok a (hleave _ _ h)
  | error e h => exact .error e (hleave _ _ h)

end Unmoved

/-- Each step of a rendering does the same where the same names have the same values. -/
theorem respectsRendering_unmoved (w : RenderSetting) : RespectsRendering w w @Unmoved where
  pure a := fun _ _ hst => .ok a hst
  fail e := fun _ _ hst => .error e hst
  bind := Unmoved.bind
  ask := Unmoved.ask
  write := Unmoved.write
  openLine f g _ := (Unmoved.newline w.pretty).bind fun _ =>
    (Unmoved.ask f).bind fun a => Unmoved.write (g a)
  blockEmitted {α k k'} h := by
    intro s t hst
    have hblock : t.blockEmitted = s.blockEmitted := by rw [hst.rest]
    show EndSame (k s.blockEmitted s) (k' t.blockEmitted t)
    rw [hblock]
    exact h _ s t hst
  setBlockEmitted f := fun _ _ hst => .ok () (hst.changeRest
    (f := fun s => { s with blockEmitted := f s.blockEmitted }) fun _ _ => rfl)
  assign name v := fun _ _ hst => .ok () (hst.changeScope (hst.scope.set name v))
  depth := by
    intro s t hst
    show EndSame (.ok s.scope.depth s) (.ok t.scope.depth t)
    rw [hst.scope.depth_eq]
    exact .ok _ hst
  indented h := h.within
    (fun _ _ hst => hst.changeRest (f := fun s => { s with indent := s.indent + 1 }) fun _ _ => rfl)
    fun _ _ hst => hst.changeRest (f := fun s => { s with indent := s.indent - 1 }) fun _ _ => rfl
  underFrame bindings _ _ h := h.within
    (fun _ _ hst => hst.changeScope (hst.scope.pushFrame.setAll bindings))
    fun _ _ hst => hst.changeScope hst.scope.popFrame
  atDepth depth r r' h := by
    intro s t hst
    obtain ⟨habove, hbelow⟩ := hst.scope.splitOff depth
    show EndSame (within (fun u => { u with scope := (s.scope.splitOff depth).2 })
        (fun u => { u with scope := u.scope.restore (s.scope.splitOff depth).1 }) r s)
      (within (fun u => { u with scope := (t.scope.splitOff depth).2 })
        (fun u => { u with scope := u.scope.restore (t.scope.splitOff depth).1 }) r' t)
    rw [habove]
    exact h.within (fun _ _ huv => huv.changeScope hbelow)
      (fun _ _ huv => huv.changeScope (huv.scope.restore _)) s t hst

namespace Template

/-- **A missing variable is nothing.** A template is rendered in the same way whether a name has
no value or is given as nothing: the sink receives the same, and the result or the error is the
same. So is the whole text. -/
theorem render_insert_null (t : Template) (filters : Table Filter) {vars : Variables} {x : String}
    (h : Table.find? x vars = none) :
    (∀ sink, t.renderTo filters (Table.insert x .null vars) sink = t.renderTo filters vars sink) ∧
      t.render filters (Table.insert x .null vars) = t.render filters vars := by
  have hsink (sink : Sink) :
      t.renderTo filters (Table.insert x .null vars) sink = t.renderTo filters vars sink := by
    have hstart : (⟨.start vars, sink, 0, false, false⟩ : RenderState).SameValues
        ⟨.start (Table.insert x .null vars), sink, 0, false, false⟩ :=
      ⟨Scope.sameValues_start h, rfl⟩
    have hends := renderNodes_related (respectsRendering_unmoved (t.setting filters))
      ⟨rfl, rfl, rfl⟩ .empty t.document.nodes _ _ hstart
    unfold renderTo Trellis.render
    generalize renderNodes (t.setting filters) .empty t.document.nodes
      ⟨.start vars, sink, 0, false, false⟩ = missing at hends ⊢
    generalize renderNodes (t.setting filters) .empty t.document.nodes
      ⟨.start (Table.insert x .null vars), sink, 0, false, false⟩ = given at hends ⊢
    cases hends with
    | ok a h => dsimp only; rw [h.rest]
    | error e h => dsimp only; rw [h.rest]
  refine ⟨hsink, ?_⟩
  unfold render
  rw [hsink]

theorem read_x : Expr.read "x".toList = .ok (.variable "x") := by cbv

theorem read_y : Expr.read "y".toList = .ok (.variable "y") := by cbv

/-- Gives `x` the value of `y` unless it has one, and puts it out. -/
def orElse : Template where
  number := 0
  name := "page"
  version := "1"
  document :=
    { nodes :=
        [.cond [⟨⟨"x", .variable "x", read_x⟩, true,
          [.assign "x" ⟨"y", .variable "y", read_y⟩]⟩] none,
        .output ⟨"x", .variable "x", read_x⟩ true]
      mixins := [] }
  mode := .html
  pretty := false

theorem render_insert_null_orElse :
    Table.find? "x" [("y", .str "b")] = (none : Option Value) ∧
      orElse.render [] (Table.insert "x" .null [("y", .str "b")]) =
        orElse.render [] [("y", .str "b")] ∧
      orElse.render [] [("y", .str "b")] = .ok "b" := by
  have hmissing : Table.find? "x" [("y", .str "b")] = (none : Option Value) := by cbv
  exact ⟨hmissing, (orElse.render_insert_null [] hmissing).2, by cbv⟩

end Template

end Trellis
