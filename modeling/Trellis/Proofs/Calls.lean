import Mathlib
import Trellis.Proofs.Frames

/-!
# `Trellis.Proofs.Calls`: a call and the content of a call

The renderer of a call looks the mixin up, looks whether there may be one more call, evaluates the
arguments, and goes on with the body of the mixin in a frame of its own. `renderNode_call` says
this as one equation, for calls of which there may be one more. `renderNode_content` is its
counterpart for the content of a call that was just begun.

A part that is run inside a changed state (`within`) may have such a part inside. What is changed
by both is undone by both (`within_within`), and a change that is undone before anything happens
is none (`within_eq_self`).
-/

set_option autoImplicit false

namespace Trellis

open Markup Rendering

/-! ### Parts inside changed states -/

namespace Rendering

variable {α : Type} {enter leave enter' leave' : RenderState → RenderState} {r r' : Rendering α}
  {s : RenderState}

theorem within_congr (h : r (enter s) = r' (enter s)) :
    within enter leave r s = within enter leave r' s := by
  unfold within
  rw [h]

theorem within_within : within enter leave (within enter' leave' r) =
    within (enter' ∘ enter) (leave ∘ leave') r := by
  funext s
  unfold within
  dsimp only [Function.comp]
  cases r (enter' (enter s)) <;> rfl

/-- A change that comes to nothing, before the part and behind it. -/
theorem within_eq_self (henter : enter s = s) (hleave : leave (r.after s) = r.after s) :
    within enter leave r s = r s := by
  unfold Rendering.after at hleave
  unfold within
  rw [henter]
  generalize r s = result at hleave ⊢
  cases result with
  | ok a t => exact congrArg (EStateM.Result.ok a) hleave
  | error e t => exact congrArg (EStateM.Result.error e) hleave

/-- Behind a part inside a changed state, the change is undone. -/
theorem after_within : (within enter leave r).after s = leave (r.after (enter s)) := by
  unfold Rendering.after within
  cases r (enter s) <;> rfl

/-- What depends on the number of frames. -/
theorem depth_bind {β : Type} (k : Nat → Rendering β) (s : RenderState) :
    (depth >>= k) s = k s.scope.depth s :=
  rfl

/-- What depends on something that is computed from the variables. -/
theorem ask_bind {β : Type} (f : (String → Value) → Except ExpressionError α)
    (k : α → Rendering β) (s : RenderState) :
    (ask f >>= k) s =
      match f s.scope.get with
      | .ok a => k a s
      | .error e => .error (.failed e) s := by
  show EStateM.bind (ask f) k s = _
  unfold EStateM.bind ask
  cases f s.scope.get <;> rfl

end Rendering

/-! ### Frames with bindings -/

theorem Scope.setAll_mk (globals top : Variables) (rest : List Variables)
    (bindings : List (String × Value)) :
    Scope.setAll ⟨globals, top :: rest⟩ bindings =
      ⟨globals, Table.insertAll bindings top :: rest⟩ := by
  induction bindings generalizing top with
  | nil => rfl
  | cons b bs ih => exact ih (Table.insert b.1 b.2 top)

/-- A frame with some bindings lies on top of the others. -/
theorem Scope.setAll_pushFrame (c : Scope) (bindings : List (String × Value)) :
    c.pushFrame.setAll bindings = ⟨c.globals, Table.insertAll bindings [] :: c.frames⟩ :=
  setAll_mk c.globals [] c.frames bindings

/-! ### Calls -/

namespace CallStack

/-- The stack with one more call, where there may be one more. -/
def push (cs : CallStack) (c : Caller) (h : cs.callers.length < maxCallDepth) : CallStack :=
  ⟨c :: cs.callers, h⟩

variable {cs : CallStack} (c : Caller) (h : cs.callers.length < maxCallDepth)

@[simp] theorem callers_push : (cs.push c h).callers = c :: cs.callers := rfl

theorem push?_eq_push : cs.push? c = some (cs.push c h) := dif_pos h

end CallStack

section
variable {w : RenderSetting} {cs : CallStack} (hfew : cs.callers.length < maxCallDepth)

theorem renderNodes_singleton (n : Node) : renderNodes w cs [n] = renderNode w cs n := by
  rw [renderNodes, renderNodes]
  exact bind_pure_unit

/-- A call evaluates its arguments where it stands. Then it is rendered like the body of the mixin,
under one more call and in a frame with the parameters. -/
theorem renderNode_call {name : String} {m : Mixin} (hfind : w.mixins.find? name = some m)
    (arguments : List Expression) (body : Option (List Node)) (s : RenderState) :
    renderNode w cs (.call name arguments body) s =
      match m.bind arguments s.scope.get with
      | .ok bindings =>
        underFrame bindings (renderNodes w (cs.push ⟨body, s.scope.depth⟩ hfew) m.body) s
      | .error e => .error (.failed e) s := by
  have hpush := CallStack.push?_eq_push ⟨body, s.scope.depth⟩ hfew
  rw [renderNode, depth_bind]
  simp only [hfind]
  trans (do
    let bindings ← ask (m.bind arguments)
    underFrame bindings (renderNodes w (cs.push ⟨body, s.scope.depth⟩ hfew) m.body)) s
  · refine congrFun ?_ s
    split
    · next hnone => exact absurd (hpush.symm.trans hnone) (Option.some_ne_none _)
    · next inner hsome =>
      cases hpush.symm.trans hsome
      rfl
  · rw [ask_bind]
    cases m.bind arguments s.scope.get <;> rfl

/-- Where there may not be one more call, nothing happens. -/
theorem renderNode_call_tooDeep {name : String} {m : Mixin} (hfind : w.mixins.find? name = some m)
    (hmany : ¬cs.callers.length < maxCallDepth) (arguments : List Expression)
    (body : Option (List Node)) (s : RenderState) :
    renderNode w cs (.call name arguments body) s = .error (.tooDeep name) s := by
  rw [renderNode, depth_bind]
  simp only [hfind]
  refine congrFun (?_ : _ = (throw (.tooDeep name) : Rendering Unit)) s
  split
  · rfl
  · next inner hsome => exact absurd (CallStack.push?_some hsome).1 hmany

theorem renderNode_call_unknown {name : String} (hfind : w.mixins.find? name = none)
    (arguments : List Expression) (body : Option (List Node)) (s : RenderState) :
    renderNode w cs (.call name arguments body) s = .error (.unknownMixin name) s := by
  rw [renderNode]
  simp only [hfind]
  rfl

/-- The content of the innermost call, if it has any, is rendered at the place of the call. -/
theorem renderNode_content (body : Option (List Node)) (d : Nat) :
    renderNode w (cs.push ⟨body, d⟩ hfew) .content =
      match body with
      | none => pure ()
      | some ns => atDepth d (renderNodes w cs ns) := by
  rw [renderNode]
  cases body <;> rfl

end

/-! ### Names of variables -/

theorem read_nameX : Expr.read "x".toList = .ok (.variable "x") := by cbv

theorem read_nameY : Expr.read "y".toList = .ok (.variable "y") := by cbv

/-- A variable that is called `x`. -/
def nameX : Expression := ⟨"x", .variable "x", read_nameX⟩

/-- A variable that is called `y`. -/
def nameY : Expression := ⟨"y", .variable "y", read_nameY⟩

end Trellis
