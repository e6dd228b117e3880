import Trellis.Proofs.OwnFrame
import Trellis.Render.Handled

/-!
# `Trellis.Proofs.Invocation`: calls of mixins, from beginning to end

What is documented of calls, for every mixin whose parameters have names of their own. The body
begins where every parameter means what the call gives it and all other names mean what they meant
at the call (`CallScope`). A call for which something has no value ends before anything happens.
Arguments for which there is no parameter are not asked for. And a call without content leaves all
frames as they are: its frame is the only one that is changed, since nothing in the body of the
mixin gets at the frames below.
-/

set_option autoImplicit false

namespace Trellis

open Markup Rendering

/-! ### Arguments without a parameter -/

theorem Handled.bindArguments_take (vars : String → Value) (ps : List Parameter)
    (arguments : List Expression) :
    Handled.bindArguments vars none ps (arguments.take ps.length) =
      Handled.bindArguments vars none ps arguments := by
  -- One argument is taken for each parameter, until there are no parameters left.
  induction ps generalizing arguments with
  | nil => rw [Handled.bindArguments.eq_def, Handled.bindArguments.eq_def]
  | cons p ps ih =>
    cases arguments with
    | nil => rfl
    | cons e es =>
      rw [List.length_cons, List.take_succ_cons, Handled.bindArguments, Handled.bindArguments, ih]

/-! ### Calls -/

section
variable {w : RenderSetting} {cs : CallStack} {name : String} {m : Mixin} {s : RenderState}

/-- A call without content leaves the frames as they are, however it ends. -/
theorem scope_call (hs : 0 < s.scope.depth) (arguments : List Expression) :
    ((renderNode w cs (.call name arguments none)).after s).scope = s.scope := by
  have hsame {r : Rendering Unit} {e : RenderFault} (h : r s = .error e s) :
      (r.after s).scope = s.scope := by
    unfold Rendering.after
    rw [h]
  cases hm : w.mixins.find? name with
  | none => exact hsame (renderNode_call_unknown hm arguments none s)
  | some m =>
    by_cases hfew : cs.callers.length < maxCallDepth
    · have hcall := renderNode_call hfew hm arguments none s
      cases hbind : m.bind arguments s.scope.get with
      | error e =>
        rw [hbind] at hcall
        exact hsame hcall
      | ok bindings =>
        rw [hbind] at hcall
        dsimp only at hcall
        -- Nothing is hidden, so the frame of the call is taken off and nothing else is said of it.
        let v : Veil := ⟨[], s.scope.globals, s.scope.frames⟩
        have hfits : v.Fits w.mixins [⟨none, s.scope.depth⟩] [] :=
          @Veil.Fits.call v _ _ _ [] [] nofun (.nil [])
        have hends : EndTogether (RenderState.Level w.pretty s.scope) Eq
            (underFrame bindings (renderNodes w (cs.push ⟨none, s.scope.depth⟩ hfew) m.body) s)
            (underFrame bindings (renderNodes w (cs.push ⟨none, s.scope.depth⟩ hfew) m.body) s) :=
          level_underFrame hs rfl hfits ⟨nofun, nofun⟩ (fun _ _ => rfl) (.refl w.pretty s)
        rw [← hcall] at hends
        exact hends.scope_after
    · exact hsame (renderNode_call_tooDeep hm hfew arguments none s)

/-- **Calls bind parameters as documented.** -/
theorem renderNode_call_binds (hfind : w.mixins.find? name = some m) (hdistinct : m.names.Nodup)
    (hfew : cs.callers.length < maxCallDepth) (hs : 0 < s.scope.depth)
    (arguments : List Expression) (body : Option (List Node)) :
    ((∀ e ∈ m.sources arguments, ∃ v, e.evaluate s.scope.get = .ok v) →
      ∃ inside, CallScope m arguments s.scope inside ∧
        renderNode w cs (.call name arguments body) s =
          within (fun t => { t with scope := inside })
            (fun t => { t with scope := t.scope.popFrame })
            (renderNodes w (cs.push ⟨body, s.scope.depth⟩ hfew) m.body) s) ∧
      (∀ e ∈ m.sources arguments, ∀ fault, e.evaluate s.scope.get = .error fault →
        ∃ before first after fault', m.sources arguments = before ++ first :: after ∧
          (∀ b ∈ before, ∃ v, b.evaluate s.scope.get = .ok v) ∧
          first.evaluate s.scope.get = .error fault' ∧
          renderNode w cs (.call name arguments body) s = .error (.failed fault') s) ∧
      (m.rest = none → Handled.renderNode w cs (.call name arguments body) =
        Handled.renderNode w cs (.call name (arguments.take m.parameters.length) body)) ∧
      (body = none → ((renderNode w cs (.call name arguments body)).after s).scope = s.scope) := by
  refine ⟨fun hsources => ?_, fun e he fault hfault => ?_, fun hrest => ?_, ?_⟩
  · obtain ⟨bindings, hbind, hscope⟩ := callScope_of_bind hdistinct hsources
    refine ⟨_, hscope, ?_⟩
    rw [renderNode_call hfew hfind, hbind]
    rfl
  · obtain ⟨before, first, after, fault', hsources, hbefore, hfirst⟩ := exists_first_error he hfault
    refine ⟨before, first, after, fault', hsources, hbefore, hfirst, ?_⟩
    rw [renderNode_call hfew hfind, bind_of_error m hsources hbefore hfirst]
  · rw [Handled.renderNode, Handled.renderNode]
    simp only [hfind, hrest, Handled.bindArguments_take]
  · rintro rfl
    exact scope_call hs arguments

end

/-- A mixin with a parameter of which the default is the name of another, and a rest parameter.
Its body changes a parameter. -/
def card : Mixin where
  name := "card"
  parameters := [⟨"x", none⟩, ⟨"y", some nameX⟩]
  rest := some "more"
  body := [.output nameX true, .output nameY true, .assign "x" ⟨"more", .variable "more", by cbv⟩,
    .output nameX true]

def onlyCard : RenderSetting where
  mixins := [("card", card)]
  filters := []
  mode := .html
  pretty := false

/-- Where the parameters are names of other things. -/
def outsideCard : RenderState where
  scope := ⟨[("x", .str "a"), ("y", .str "b")], [[]]⟩
  sink := .unlimited
  indent := 0
  started := false
  blockEmitted := false

/-- The names in the argument and in the default are those of the place of the call. -/
theorem renderNode_call_binds_card :
    onlyCard.mixins.find? "card" = some card ∧ card.names.Nodup ∧
      CallStack.empty.callers.length < maxCallDepth ∧ 0 < outsideCard.scope.depth ∧
      (∃ inside, CallScope card [nameY] outsideCard.scope inside) ∧
      ((renderNode onlyCard .empty (.call "card" [nameY] none)).after outsideCard).scope =
        outsideCard.scope ∧
      ((renderNode onlyCard .empty (.call "card" [nameY] none)).after outsideCard).sink.text =
        "ba" := by
  have hdistinct : card.names.Nodup := by decide
  have hfew : CallStack.empty.callers.length < maxCallDepth := by decide
  have hs : 0 < outsideCard.scope.depth := by decide
  obtain ⟨hbinds, -, -, hscope⟩ := @renderNode_call_binds onlyCard .empty "card" card outsideCard
    rfl hdistinct hfew hs [nameY] none
  obtain ⟨inside, hinside, -⟩ := hbinds fun e he => by
    obtain rfl | rfl : e = nameY ∨ e = nameX := by
      simpa [Mixin.sources, card, Parameter.source?] using he
    · exact ⟨.str "b", by cbv⟩
    · exact ⟨.str "a", by cbv⟩
  exact ⟨rfl, hdistinct, hfew, hs, ⟨inside, hinside⟩, hscope rfl, by cbv⟩

end Trellis
