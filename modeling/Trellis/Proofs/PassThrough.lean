import Trellis.Proofs.Calls
import Trellis.Proofs.Renderings

/-!
# `Trellis.Proofs.PassThrough`: a mixin that only passes its content on

A mixin whose body is nothing but `block` puts out what it is called with. The content is rendered
at the place of the call, so the frame of the mixin is taken off before anything happens, and put
back and taken off again behind it. `renderNode_call_passesOn` says that such a call cannot be told
from its content, whatever the content does to the variables or calls in turn, and however it ends.

The one thing to know about the content is that it leaves a frame where it finds one
(`grounded_renderNodes`): the frame at the bottom stays when frames are taken off, and the frame
of the mixin must not become it.
-/

set_option autoImplicit false

namespace Trellis

open Markup Rendering

/-! ### There is always a frame -/

namespace Scope

variable {c : Scope}

theorem depth_popFrame_pos (h : 0 < c.depth) : 0 < c.popFrame.depth := by
  obtain ⟨globals, frames⟩ := c
  match frames, h with
  | [_], _ => exact Nat.one_pos
  | _ :: _ :: rest, _ => exact Nat.succ_pos rest.length

theorem depth_splitOff_pos (d : Nat) (h : 0 < c.depth) : 0 < (c.splitOff d).2.depth := by
  show 0 < (c.frames.drop (c.depth - min (max d 1) c.depth)).length
  rw [List.length_drop]
  show 0 < c.depth - (c.depth - min (max d 1) c.depth)
  omega

theorem depth_restore_pos (above : List Variables) (h : 0 < c.depth) :
    0 < (c.restore above).depth := by
  show 0 < (above ++ c.frames).length
  rw [List.length_append]
  exact Nat.add_pos_right above.length h

end Scope

/-- A part of a rendering that leaves a frame where it finds one. -/
structure Grounded {α : Type} (r : Rendering α) : Prop where
  depth_pos : ∀ s, 0 < s.scope.depth → 0 < (r.after s).scope.depth

namespace Grounded

variable {α β : Type} {r : Rendering α}

/-- So does what leaves as many frames as it finds. -/
theorem of_tidy (h : ∀ n, Tidy [] n r) : Grounded r where
  depth_pos s hs := ((h s.scope.depth).kept s rfl).depth.symm ▸ hs

theorem bind {k : α → Rendering β} (h : Grounded r) (hk : ∀ a, Grounded (k a)) :
    Grounded (r >>= k) where
  depth_pos s hs := by
    have hfirst := h.depth_pos s hs
    show 0 < (Rendering.after (EStateM.bind r k) s).scope.depth
    unfold Rendering.after at hfirst ⊢
    unfold EStateM.bind
    generalize r s = first at hfirst ⊢
    cases first with
    | ok a t => exact (hk a).depth_pos t hfirst
    | error e t => exact hfirst

theorem within {enter leave : RenderState → RenderState}
    (henter : ∀ s, 0 < s.scope.depth → 0 < (enter s).scope.depth)
    (hleave : ∀ s, 0 < s.scope.depth → 0 < (leave s).scope.depth) (h : Grounded r) :
    Grounded (Rendering.within enter leave r) where
  depth_pos s hs := by
    rw [after_within]
    exact hleave _ (h.depth_pos (enter s) (henter s hs))

end Grounded

theorem respectsRendering_grounded (w : RenderSetting) :
    RespectsRendering w w fun r _ => Grounded r where
  pure a := .of_tidy fun _ => .result a
  fail e := .of_tidy fun _ => .fail e
  bind := Grounded.bind
  ask f := .of_tidy fun _ => .ask f
  write piece := .of_tidy fun _ => .write piece
  openLine f g _ := .of_tidy fun _ =>
    (Tidy.newline _).bind fun _ => (Tidy.ask f).bind fun a => Tidy.write (g a)
  blockEmitted h := ⟨fun s hs => (h s.blockEmitted).depth_pos s hs⟩
  setBlockEmitted f := .of_tidy fun _ => Tidy.setBlockEmitted fun s => f s.blockEmitted
  assign name v := .of_tidy fun _ => .assign name v
  depth := ⟨fun _ hs => hs⟩
  indented h := h.within (fun _ hs => hs) fun _ hs => hs
  underFrame bindings _ _ h := by
    refine h.within (fun s _ => ?_) fun _ hs => Scope.depth_popFrame_pos hs
    show 0 < (s.scope.pushFrame.setAll bindings).depth
    rw [Scope.depth_setAll]
    exact Nat.succ_pos s.scope.depth
  atDepth d r _ h := by
    refine ⟨fun s hs => ?_⟩
    have hpart : Grounded (Rendering.within (fun t => { t with scope := (s.scope.splitOff d).2 })
        (fun t => { t with scope := t.scope.restore (s.scope.splitOff d).1 }) r) :=
      h.within (fun _ _ => Scope.depth_splitOff_pos d hs) fun _ ht => Scope.depth_restore_pos _ ht
    exact hpart.depth_pos s hs

/-- Whatever nodes are rendered, there is a frame behind them if there was one. -/
theorem grounded_renderNodes (w : RenderSetting) (cs : CallStack) (ns : List Node) :
    Grounded (renderNodes w cs ns) :=
  renderNodes_related (respectsRendering_grounded w) ⟨rfl, rfl, rfl⟩ cs ns

/-! ### A frame that is not noticed -/

/-- Down to the place of a call, its own frame is taken off. -/
theorem Scope.splitOff_ownFrame {c : Scope} (h : 0 < c.depth) (frame : Variables) :
    Scope.splitOff ⟨c.globals, frame :: c.frames⟩ c.depth = ([frame], c) := by
  rw [splitOff_eq (s := ⟨c.globals, frame :: c.frames⟩) h (Nat.le_succ c.depth)]
  simp [depth]

theorem Scope.popFrame_restore {c : Scope} (h : 0 < c.depth) (frame : Variables) :
    (c.restore [frame]).popFrame = c := by
  obtain ⟨globals, frames⟩ := c
  match frames, h with
  | _ :: _, _ => rfl

/-- A frame that is put on top for a part, but taken off for all of it, is not noticed. -/
theorem underFrame_atDepth (bindings : List (String × Value)) (r : Rendering Unit)
    {s : RenderState} (hs : 0 < s.scope.depth) (hr : 0 < (r.after s).scope.depth) :
    underFrame bindings (atDepth s.scope.depth r) s = r s := by
  let frame := Table.insertAll bindings []
  have hsplit :
      (s.scope.pushFrame.setAll bindings).splitOff s.scope.depth = ([frame], s.scope) := by
    rw [Scope.setAll_pushFrame]
    exact Scope.splitOff_ownFrame hs frame
  have hatDepth : atDepth s.scope.depth r { s with scope := s.scope.pushFrame.setAll bindings } =
      within (fun t => { t with scope := s.scope })
        (fun t => { t with scope := t.scope.restore [frame] }) r
        { s with scope := s.scope.pushFrame.setAll bindings } := by
    unfold atDepth
    rw [hsplit]
  -- The frame is put on and taken off at once, so nothing is changed around the part.
  refine (within_congr hatDepth).trans ?_
  rw [within_within]
  refine within_eq_self rfl ?_
  dsimp only [Function.comp]
  rw [Scope.popFrame_restore hr]

/-! ### Calls of such a mixin -/

/-- The mixin has no parameters, and its body puts out what it is called with and nothing else. -/
structure Mixin.PassesOn (m : Mixin) : Prop where
  parameters : m.parameters = []
  body : m.body = [.content]

/-- Without parameters there is nothing to evaluate. -/
theorem Mixin.PassesOn.bind_nil {m : Mixin} (h : m.PassesOn) (vars : String → Value) :
    ∃ bindings, m.bind [] vars = .ok bindings := by
  unfold Mixin.bind
  rw [h.parameters]
  cases m.rest with
  | none => exact ⟨[], rfl⟩
  | some rest => exact ⟨[(rest, .list [])], rfl⟩

/-- **A mixin that only passes its content on cannot be told from the content.** Where there may be
one more call, calling it does what rendering the content does, from any state with a frame: it
writes the same, ends in the same way, and leaves the same frames and the same layout. The machine
that does one or the other comes to the same state, with the same calls under way. -/
theorem renderNode_call_passesOn {w : RenderSetting} {cs : CallStack} {name : String} {m : Mixin}
    {s : RenderState} (hfind : w.mixins.find? name = some m) (hm : m.PassesOn)
    (hfew : cs.callers.length < maxCallDepth) (hs : 0 < s.scope.depth)
    (body : Option (List Node)) :
    renderNode w cs (.call name [] body) s = renderNodes w cs (body.getD []) s ∧
      ∀ rest, ∃ later : Machine, later.callers = cs.callers ∧ later.tasks = rest ∧
        Machine.Reaches w ⟨nodeTasks [.call name [] body] ++ rest, cs.callers, s, none⟩ later ∧
        Machine.Reaches w ⟨nodeTasks (body.getD []) ++ rest, cs.callers, s, none⟩ later := by
  have hsame : renderNode w cs (.call name [] body) s = renderNodes w cs (body.getD []) s := by
    obtain ⟨bindings, hbindings⟩ := hm.bind_nil s.scope.get
    rw [renderNode_call hfew hfind, hbindings, hm.body, renderNodes_singleton, renderNode_content]
    cases body with
    | none =>
      -- Nothing happens in the frame.
      rw [Option.getD_none, renderNodes]
      have hpop : (s.scope.pushFrame.setAll bindings).popFrame = s.scope := by
        rw [Scope.setAll_pushFrame]
        exact Scope.popFrame_restore hs _
      exact congrArg (fun c => EStateM.Result.ok () { s with scope := c }) hpop
    | some ns =>
      exact underFrame_atDepth bindings _ hs ((grounded_renderNodes w cs ns).depth_pos s hs)
  refine ⟨hsame, fun rest => ?_⟩
  -- What the machine does is read off the rendering, and both renderings are the same.
  have hcall := carries_renderNode w cs (.call name [] body) rest s
  have hcontent := carries_renderNodes w cs (body.getD []) rest s
  rw [hsame] at hcall
  refine ⟨_, ?_, ?_, hcall, hcontent⟩
  · cases renderNodes w cs (body.getD []) s <;> rfl
  · cases renderNodes w cs (body.getD []) s <;> rfl

/-- A setting with one mixin, which passes its content on. -/
def onlyWrap : RenderSetting where
  mixins := [("wrap", ⟨"wrap", [], none, [.content]⟩)]
  filters := []
  mode := .html
  pretty := true

/-- Content that puts out the content of the call around it, changes a variable, and calls the
mixin in turn. -/
def busyContent : List Node :=
  [.tag "p" [] false [.content], .assign "x" nameY, .call "wrap" [] (some [.output nameX true])]

/-- Inside a call, in its frame. -/
def insideOuter : RenderState where
  scope := ⟨[("y", .str "b")], [[("x", .str "a")], []]⟩
  sink := .unlimited
  indent := 1
  started := true
  blockEmitted := false

/-- The call that is under way there. -/
def outerCall : CallStack := ⟨[⟨some [.text [.literal "outer"]], 1⟩], by decide⟩

theorem renderNode_call_passesOn_busyContent :
    onlyWrap.mixins.find? "wrap" = some ⟨"wrap", [], none, [.content]⟩ ∧
      outerCall.callers.length < maxCallDepth ∧ 0 < insideOuter.scope.depth ∧
      renderNode onlyWrap outerCall (.call "wrap" [] (some busyContent)) insideOuter =
        renderNodes onlyWrap outerCall busyContent insideOuter ∧
      renderNodes onlyWrap outerCall busyContent insideOuter =
        .ok () { insideOuter with
          scope := ⟨[("y", .str "b")], [[("x", .str "b")], []]⟩
          sink := { Sink.unlimited with text := "\n  <p>outer</p>b" }
          blockEmitted := true } := by
  have hfind : onlyWrap.mixins.find? "wrap" = some ⟨"wrap", [], none, [.content]⟩ := rfl
  have hfew : outerCall.callers.length < maxCallDepth := by decide
  have hs : 0 < insideOuter.scope.depth := by decide
  exact ⟨hfind, hfew, hs,
    (renderNode_call_passesOn hfind ⟨rfl, rfl⟩ hfew hs (some busyContent)).1, by cbv⟩

end Trellis
