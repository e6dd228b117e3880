import Trellis.Proofs.Renderings
import Trellis.Proofs.TwoRuns

/-!
# `Trellis.Proofs.PrettyPrinting`: pretty printing only adds layout

A template is rendered twice, once plainly and once laid out. The two renderings take the same
steps, except that the second puts a line feed and an indentation in front of some tags. What
they see of the state is the same all the time, whether anything was written included
(`RenderState.Beneath`). So they end with the same fault, or both succeed.

`LaidOut` is the relation between the two texts. It is kept when both go on with the same piece,
and when only the second begins a new line, for which something must have been written and a
tag must come next. So a new line is looked at together with its tag, as `RespectsRendering`
has it.
-/

set_option autoImplicit false

namespace Trellis

open Markup Rendering

/-! ### Texts with lines inserted -/

/-- A line that was begun for the layout: how it starts, and what is on it. -/
structure InsertedLine where
  start : String
  piece : String
  /-- It starts with one line feed and an even number of spaces. -/
  isStart : ∃ n, start = String.ofList ('\n' :: List.replicate (2 * n) ' ')
  isTag : ∃ rest, piece = "<" ++ rest

/-- The second text is the first with line starts inserted in front of some tags, none of them
at the very beginning. -/
def LaidOut (plain pretty : String) : Prop :=
  ∃ (first : String) (lines : List InsertedLine),
    (first = "" → lines = []) ∧
    plain = first ++ String.join (lines.map fun l => l.piece) ∧
    pretty = first ++ String.join (lines.map fun l => l.start ++ l.piece)

namespace LaidOut

variable {plain pretty : String}

theorem empty : LaidOut "" "" := ⟨"", [], fun _ => rfl, rfl, rfl⟩

/-- Both texts go on in the same way. -/
theorem append (h : LaidOut plain pretty) (piece : String) :
    LaidOut (plain ++ piece) (pretty ++ piece) := by
  obtain ⟨first, lines, hfirst, rfl, rfl⟩ := h
  rcases List.eq_nil_or_concat lines with rfl | ⟨before, last, rfl⟩
  · refine ⟨first ++ piece, [], fun _ => rfl, ?_, ?_⟩
    · simp
    · simp
  · -- The piece becomes the end of the last line.
    obtain ⟨rest, hrest⟩ := last.isTag
    have htag : ∃ rest, last.piece ++ piece = "<" ++ rest :=
      ⟨rest ++ piece, by rw [hrest, String.append_assoc]⟩
    refine ⟨first, before ++ [⟨last.start, last.piece ++ piece, last.isStart, htag⟩], ?_, ?_, ?_⟩
    · intro hempty
      exact absurd (hfirst hempty) (by simp)
    · simp [String.append_assoc]
    · simp [String.append_assoc]

/-- The second text begins a line, on which a tag comes. -/
theorem newLine (h : LaidOut plain pretty) (hne : plain ≠ "") (indent : Nat) (rest : String) :
    LaidOut (plain ++ ("<" ++ rest)) (pretty ++ lineStart indent ++ ("<" ++ rest)) := by
  obtain ⟨first, lines, hfirst, rfl, rfl⟩ := h
  refine ⟨first, lines ++ [⟨lineStart indent, "<" ++ rest, ⟨indent, rfl⟩, rest, rfl⟩], ?_, ?_, ?_⟩
  · intro hempty
    have hlines := hfirst hempty
    subst hempty hlines
    exact absurd rfl hne
  · simp [String.append_assoc]
  · simp [String.append_assoc]

end LaidOut

/-! ### Two renderings -/

/-- Two states that differ only in what has been written: the second text is laid out. Nothing
has been written only if both texts are empty. -/
structure RenderState.Beneath (s t : RenderState) : Prop where
  scope : t.scope = s.scope
  indent : t.indent = s.indent
  started : t.started = s.started
  blockEmitted : t.blockEmitted = s.blockEmitted
  room : s.sink.room = none
  room' : t.sink.room = none
  text : LaidOut s.sink.text t.sink.text
  begun : s.started = true → s.sink.text ≠ ""

/-- How two renderings end: both well, with one result, or both with one fault. -/
inductive EndAlike {α : Type} :
    EStateM.Result RenderFault RenderState α → EStateM.Result RenderFault RenderState α → Prop
  | ok {a : α} {s t : RenderState} (h : s.Beneath t) : EndAlike (.ok a s) (.ok a t)
  | error (e : RenderFault) (s t : RenderState) : EndAlike (.error e s) (.error e t)

/-- The second rendering does what the first does, with more layout. -/
def Adorns {α : Type} (r r' : Rendering α) : Prop := ∀ s t, s.Beneath t → EndAlike (r s) (r' t)

namespace Adorns

variable {α β : Type} {r r' : Rendering α}

theorem bind {k k' : α → Rendering β} (h : Adorns r r') (hk : ∀ a, Adorns (k a) (k' a)) :
    Adorns (r >>= k) (r' >>= k') := by
  intro s t hst
  have hends := h s t hst
  show EndAlike (EStateM.bind r k s) (EStateM.bind r' k' t)
  unfold EStateM.bind
  generalize r s = first, r' t = first' at hends ⊢
  cases hends with
  | ok h => exact hk _ _ _ h
  | error e s t => exact .error e s t

theorem ask (f : (String → Value) → Except ExpressionError α) :
    Adorns (Rendering.ask f) (Rendering.ask f) := by
  intro s t hst
  unfold Rendering.ask
  rw [hst.scope]
  cases f s.scope.get with
  | ok a => exact .ok hst
  | error e => exact .error _ s t

/-- A change of the state that leaves the sink and the flag for its begin alone. -/
theorem change {f : RenderState → RenderState} (hf : ∀ s t, s.Beneath t → (f s).Beneath (f t)) :
    Adorns (modify f) (modify f) := fun s t hst => .ok (hf s t hst)

theorem within {enter leave : RenderState → RenderState}
    (henter : ∀ s t, s.Beneath t → (enter s).Beneath (enter t))
    (hleave : ∀ s t, s.Beneath t → (leave s).Beneath (leave t)) (h : Adorns r r') :
    Adorns (Rendering.within enter leave r) (Rendering.within enter leave r') := by
  intro s t hst
  have hends := h _ _ (henter s t hst)
  unfold Rendering.within
  generalize r (enter s) = first, r' (enter t) = first' at hends ⊢
  cases hends with
  | ok h => exact .ok (hleave _ _ h)
  | error e s t => exact .error e _ _

end Adorns

/-- The state after something was written, with the text that there is then. -/
def RenderState.wrote (s : RenderState) (text : String) : RenderState :=
  { s with sink := { s.sink with text := text }, started := true }

/-- A piece that is not empty comes behind the text, if there is room for everything. -/
theorem Rendering.write_of_room {s : RenderState} (hroom : s.sink.room = none) {piece : String}
    (hne : piece ≠ "") : write piece s = .ok () (s.wrote (s.sink.text ++ piece)) := by
  have hoffer : s.sink.offer piece = (true, { s.sink with text := s.sink.text ++ piece }) := by
    unfold Sink.offer
    split
    · rfl
    · next room hsome => exact absurd (hroom.symm.trans hsome) nofun
  unfold write
  rw [if_neg (by rwa [String.isEmpty_iff]), hoffer]
  rfl

/-- Both have written, and the texts are as they should be. -/
theorem RenderState.Beneath.wrote {s t : RenderState} (h : s.Beneath t) {plain pretty : String}
    (hplain : plain ≠ "") (htext : LaidOut plain pretty) : (s.wrote plain).Beneath (t.wrote pretty) :=
  { h with started := rfl, text := htext, begun := fun _ => hplain }

theorem adorns_write (piece : String) : Adorns (write piece) (write piece) := by
  intro s t hst
  by_cases hne : piece = ""
  · subst hne
    exact .ok hst
  · rw [write_of_room hst.room hne, write_of_room hst.room' hne]
    refine .ok (hst.wrote ?_ (hst.text.append piece))
    exact fun h => hne (String.append_eq_empty_iff.1 h).2

/-- A tag that the second rendering may put on a line of its own. -/
theorem adorns_openLine {α : Type} (f : (String → Value) → Except ExpressionError α)
    (g : α → String) (h : ∀ a, ∃ rest, g a = "<" ++ rest) :
    Adorns (do newline false; let a ← Rendering.ask f; write (g a))
      (do newline true; let a ← Rendering.ask f; write (g a)) := by
  intro s t hst
  have hsame := (Adorns.ask f).bind (fun a => adorns_write (g a)) s t hst
  show EndAlike ((Rendering.ask f >>= fun a => write (g a)) s)
    (((if (true && t.started) = true then write (lineStart t.indent) else pure ()) >>= fun _ =>
      Rendering.ask f >>= fun a => write (g a)) t)
  cases hstarted : t.started with
  | false => exact hsame
  | true =>
    have hbegun := hst.begun (hst.started ▸ hstarted)
    have hstart : lineStart t.indent ≠ "" := by simp [lineStart]
    show EndAlike (EStateM.bind (Rendering.ask f) (fun a => write (g a)) s)
      (EStateM.bind (write (lineStart t.indent))
        (fun _ => EStateM.bind (Rendering.ask f) fun a => write (g a)) t)
    -- The line start is written before the variables are asked, which may fail.
    unfold EStateM.bind Rendering.ask
    rw [write_of_room hst.room' hstart]
    dsimp only
    rw [show (t.wrote (t.sink.text ++ lineStart t.indent)).scope = s.scope from hst.scope]
    cases f s.scope.get with
    | error e => exact .error _ _ _
    | ok a =>
      obtain ⟨rest, hrest⟩ := h a
      have htag : g a ≠ "" := by simp [hrest]
      have hbehind := write_of_room (s := t.wrote (t.sink.text ++ lineStart t.indent)) hst.room' htag
      show EndAlike (write (g a) s) (write (g a) (t.wrote (t.sink.text ++ lineStart t.indent)))
      rw [write_of_room hst.room htag, hbehind]
      refine .ok (hst.wrote ?_ ?_)
      · exact fun h => hbegun (String.append_eq_empty_iff.1 h).1
      · rw [hrest]
        exact hst.text.newLine hbegun t.indent rest

/-- Every step of a rendering with more layout adorns the step of the plain one. -/
theorem respectsRendering_adorns {w w' : RenderSetting} (hplain : w.pretty = false)
    (hpretty : w'.pretty = true) : RespectsRendering w w' @Adorns where
  pure a := fun _ _ hst => .ok hst
  fail e := fun s t _ => .error e s t
  bind := Adorns.bind
  ask := Adorns.ask
  write := adorns_write
  openLine f g h := by
    rw [hplain, hpretty]
    exact adorns_openLine f g h
  blockEmitted {α k k'} h := by
    intro s t hst
    show EndAlike (k s.blockEmitted s) (k' t.blockEmitted t)
    rw [hst.blockEmitted]
    exact h _ s t hst
  setBlockEmitted f := Adorns.change fun s t h =>
    { h with blockEmitted := congrArg f h.blockEmitted }
  assign name v := Adorns.change fun s t h =>
    { h with scope := congrArg (Scope.set · name v) h.scope }
  depth := by
    intro s t hst
    show EndAlike (.ok s.scope.depth s) (.ok t.scope.depth t)
    rw [hst.scope]
    exact .ok hst
  indented h := h.within (fun s t h => { h with indent := congrArg (· + 1) h.indent })
    fun s t h => { h with indent := congrArg (· - 1) h.indent }
  underFrame bindings _ _ h := h.within
    (fun s t h => { h with scope := congrArg (fun c => c.pushFrame.setAll bindings) h.scope })
    fun s t h => { h with scope := congrArg Scope.popFrame h.scope }
  atDepth depth r r' h := by
    intro s t hst
    show EndAlike (within (fun u => { u with scope := (s.scope.splitOff depth).2 })
        (fun u => { u with scope := u.scope.restore (s.scope.splitOff depth).1 }) r s)
      (within (fun u => { u with scope := (t.scope.splitOff depth).2 })
        (fun u => { u with scope := u.scope.restore (t.scope.splitOff depth).1 }) r' t)
    rw [hst.scope]
    refine Adorns.within (fun u v huv => ?_) (fun u v huv => ?_) h s t hst
    · exact { huv with scope := rfl }
    · exact { huv with scope := congrArg (Scope.restore · (s.scope.splitOff depth).1) huv.scope }

/-- **Pretty printing only adds layout.** A template that is rendered with pretty printing and
without it fails with the same error, or succeeds in both cases. What it then gives without is
what it gives with pretty printing, when each of the line starts that were inserted is left out. -/
theorem Template.render_laidOut (t : Template) (filters : Table Filter) (vars : Variables) :
    Both LaidOut (({ t with pretty := false } : Template).render filters vars)
      (({ t with pretty := true } : Template).render filters vars) := by
  have hrespects : RespectsRendering (Template.setting { t with pretty := false } filters)
      (Template.setting { t with pretty := true } filters) @Adorns :=
    respectsRendering_adorns rfl rfl
  have hends := renderNodes_related hrespects ⟨rfl, rfl, rfl⟩ .empty t.document.nodes
    ⟨.start vars, .unlimited, 0, false, false⟩ ⟨.start vars, .unlimited, 0, false, false⟩
    ⟨rfl, rfl, rfl, rfl, rfl, rfl, .empty, nofun⟩
  unfold Template.render Template.renderTo Trellis.render
  dsimp only
  generalize renderNodes (Template.setting { t with pretty := false } filters) .empty
    t.document.nodes _ = plain at hends ⊢
  generalize renderNodes (Template.setting { t with pretty := true } filters) .empty
    t.document.nodes _ = pretty at hends ⊢
  cases hends with
  | ok h => exact .ok h.text
  | error e _ _ => exact .error _

end Trellis
