import Trellis.Proofs.Renderings
import Trellis.Template

/-!
# `Trellis.Proofs.Streaming`: one output for every sink

What a template writes does not depend on the sink it is written to. A part of a rendering is a
sequence of pieces and a way to end, and both are there before any sink is. A sink is offered the
pieces one after the other, up to the first that it does not take whole (`Sink.offerAll`). If
there is no such piece, the part ends in its own way. Otherwise it ends with the failure of the
sink, whatever it would have come to, and the sink is left as it was when it failed.

* `Streams r` says that a part `r` is of that kind. There is a lemma for each step of
  `Trellis.Render.State`. The steps behind a failed one are not done, which is
  `Streams.bind`, and what is undone on the way out leaves the sink alone, which is
  `Streams.within`.
* `streams_renderNodes` says it of nodes. The induction is the one over two renderings,
  `renderNodes_related`, with a relation that looks at one of them only.
* `Sink.offerAll_unlimited`, `Sink.offerAll_fits` and `Sink.offerAll_short` say what the pieces
  come to: all of them, or just as many bytes of their text as there is room for.
* `Template.renderTo_cut` puts these together for a compiled template.
-/

set_option autoImplicit false

namespace Trellis

open Markup Rendering

/-! ### Pieces offered to a sink -/

namespace Sink

variable {k : Sink} {room : Nat}

/-- Offers pieces one after the other, up to the first that is not taken whole; tells whether
all were. -/
def offerAll : List String → Sink → Bool × Sink
  | [], k => (true, k)
  | piece :: rest, k =>
    match k.offer piece with
    | (true, k) => offerAll rest k
    | (false, k) => (false, k)

/-- Pieces behind others are offered to what the others leave, if the others are taken. -/
theorem offerAll_append (pieces more : List String) (k : Sink) :
    offerAll (pieces ++ more) k =
      match offerAll pieces k with
      | (true, k) => offerAll more k
      | (false, k) => (false, k) := by
  induction pieces generalizing k with
  | nil => rfl
  | cons piece rest ih =>
    show (match k.offer piece with
        | (true, k) => offerAll (rest ++ more) k
        | (false, k) => (false, k)) =
      match (match k.offer piece with
        | (true, k) => offerAll rest k
        | (false, k) => (false, k)) with
      | (true, k) => offerAll more k
      | (false, k) => (false, k)
    cases k.offer piece with
    | mk taken k' =>
      cases taken with
      | true => exact ih k'
      | false => rfl

/-- Without a limit, everything is taken. -/
theorem offerAll_unlimited (pieces : List String) (h : k.room = none) :
    offerAll pieces k = (true, { k with text := k.text ++ String.join pieces }) := by
  induction pieces generalizing k with
  | nil =>
    show (true, k) = (true, { k with text := k.text ++ "" })
    rw [String.append_empty]
  | cons piece rest ih =>
    have hoffer : k.offer piece = (true, { k with text := k.text ++ piece }) := by
      unfold offer
      rw [h]
    unfold offerAll
    rw [hoffer, String.join_cons, ← String.append_assoc]
    exact ih h

theorem offer_fits (h : k.room = some room) {piece : String} (hfits : piece.utf8ByteSize ≤ room) :
    k.offer piece =
      (true, { k with room := some (room - piece.utf8ByteSize), text := k.text ++ piece }) := by
  unfold offer
  rw [h]
  exact if_pos hfits

theorem offer_short (h : k.room = some room) {piece : String} (hshort : room < piece.utf8ByteSize) :
    k.offer piece = (false, { k with room := some 0, cut := piece.toUTF8.extract 0 room }) := by
  unfold offer
  rw [h]
  exact if_neg (by omega)

/-- With room for all of their text, all pieces are taken. -/
theorem offerAll_fits (pieces : List String) (h : k.room = some room)
    (hfits : (String.join pieces).utf8ByteSize ≤ room) :
    offerAll pieces k = (true, { k with
      room := some (room - (String.join pieces).utf8ByteSize)
      text := k.text ++ String.join pieces }) := by
  induction pieces generalizing k room with
  | nil =>
    show (true, k) = (true, { k with room := some (room - 0), text := k.text ++ "" })
    rw [String.append_empty, Nat.sub_zero, ← h]
  | cons piece rest ih =>
    rw [String.join_cons, String.utf8ByteSize_append] at hfits
    unfold offerAll
    rw [offer_fits h (by omega), String.join_cons, String.utf8ByteSize_append,
      ← String.append_assoc, ← Nat.sub_sub]
    exact ih rfl (by omega)

/-- With room for less than their text, not all pieces are taken, and of their text just what
there is room for. -/
theorem offerAll_short (pieces : List String) (h : k.room = some room)
    (hshort : room < (String.join pieces).utf8ByteSize) :
    (offerAll pieces k).1 = false ∧ (offerAll pieces k).2.reason = k.reason ∧
      (offerAll pieces k).2.bytes =
        k.text.toUTF8 ++ (String.join pieces).toUTF8.extract 0 room := by
  induction pieces generalizing k room with
  | nil => exact absurd hshort (Nat.not_lt_zero room)
  | cons piece rest ih =>
    rw [String.join_cons, String.utf8ByteSize_append] at hshort
    have hjoin : (String.join (piece :: rest)).toUTF8 =
        piece.toByteArray ++ (String.join rest).toByteArray := by
      rw [String.join_cons]
      exact String.toByteArray_append
    unfold offerAll
    rw [hjoin, ByteArray.extract_append, String.size_toByteArray]
    by_cases hfits : piece.utf8ByteSize ≤ room
    · rw [offer_fits h hfits]
      obtain ⟨htaken, hreason, hbytes⟩ := ih (k := { k with
        room := some (room - piece.utf8ByteSize), text := k.text ++ piece }) rfl (by omega)
      refine ⟨htaken, hreason, hbytes.trans ?_⟩
      -- The piece is taken whole, and the rest has the room that is left.
      have hwhole : piece.toByteArray.extract 0 room = piece.toByteArray := by
        have hroom : max room piece.toByteArray.size = room := by
          rw [String.size_toByteArray]
          omega
        rw [← hroom]
        exact ByteArray.extract_zero_max_size
      show (k.text ++ piece).toByteArray ++ _ = _
      rw [String.toByteArray_append, ByteArray.append_assoc, hwhole, Nat.zero_sub]
      rfl
    · rw [offer_short h (by omega)]
      refine ⟨rfl, rfl, ?_⟩
      have hnone : room - piece.utf8ByteSize = 0 := by omega
      rw [hnone, Nat.zero_sub, ByteArray.extract_same, ByteArray.append_empty]
      rfl

end Sink

/-! ### Parts that stream -/

/-- The state with another sink. -/
def RenderState.into (s : RenderState) (k : Sink) : RenderState := { s with sink := k }

/-- A way to end, with another sink. -/
def Rendering.endInto {α : Type} (k : Sink) :
    EStateM.Result RenderFault RenderState α → EStateM.Result RenderFault RenderState α
  | .ok a t => .ok a (t.into k)
  | .error e t => .error e (t.into k)

/-- How a part ends on a sink, if it has some pieces to write and is to end in some way. -/
inductive Drained {α : Type} (pieces : List String)
    (last : EStateM.Result RenderFault RenderState α) (k : Sink) :
    EStateM.Result RenderFault RenderState α → Prop
  | whole {k' : Sink} (h : k.offerAll pieces = (true, k')) :
    Drained pieces last k (Rendering.endInto k' last)
  | short {k' : Sink} {t : RenderState} (h : k.offerAll pieces = (false, k')) (ht : t.sink = k') :
    Drained pieces last k (.error (.writeFailed k'.reason) t)

/-- The pieces that a part has to write, and how it is to end, do not depend on the sink. -/
structure Streams {α : Type} (r : Rendering α) : Prop where
  drained : ∀ s : RenderState, ∃ pieces last, ∀ k, Drained pieces last k (r (s.into k))

/-- A change of the state that has nothing to do with the sink. -/
def Aside (f : RenderState → RenderState) : Prop := ∀ s k, f (s.into k) = (f s).into k

theorem Aside.sink {f : RenderState → RenderState} (h : Aside f) (s : RenderState) :
    (f s).sink = s.sink := by
  have hs : f s = (f s).into s.sink := h s s.sink
  rw [hs]
  rfl

namespace Streams

variable {α β : Type}

theorem result (a : α) : Streams (pure a) where
  drained s := ⟨[], .ok a s, fun _ => .whole rfl⟩

theorem fail (e : RenderFault) : Streams (α := α) (throw e) where
  drained s := ⟨[], .error e s, fun _ => .whole rfl⟩

/-- What comes behind is offered behind, and is left out if something before it was not
taken. -/
theorem bind {r : Rendering α} {f : α → Rendering β} (h : Streams r)
    (hf : ∀ a, Streams (f a)) : Streams (r >>= f) where
  drained s := by
    obtain ⟨pieces, last, hfirst⟩ := h.drained s
    show ∃ pieces last, ∀ k, Drained pieces last k (EStateM.bind r f (s.into k))
    unfold EStateM.bind
    cases last with
    | error e t =>
      refine ⟨pieces, .error e t, fun k => ?_⟩
      have hk := hfirst k
      generalize r (s.into k) = first at hk ⊢
      cases hk with
      | whole h => exact .whole h
      | short h ht => exact .short h ht
    | ok a t =>
      obtain ⟨more, last, hsecond⟩ := (hf a).drained t
      refine ⟨pieces ++ more, last, fun k => ?_⟩
      have hk := hfirst k
      have happend := Sink.offerAll_append pieces more k
      generalize r (s.into k) = first at hk ⊢
      cases hk with
      | short h ht =>
        rw [h] at happend
        exact .short happend ht
      | @whole k' h =>
        rw [h] at happend
        have hrest := hsecond k'
        show Drained (pieces ++ more) last k (f a (t.into k'))
        generalize f a (t.into k') = second at hrest ⊢
        cases hrest with
        | whole h => exact .whole (happend.trans h)
        | short h ht => exact .short (happend.trans h) ht

theorem change {f : RenderState → RenderState} (h : Aside f) : Streams (modify f) where
  drained s := by
    refine ⟨[], .ok PUnit.unit (f s), fun k => ?_⟩
    show Drained [] _ k (.ok PUnit.unit (f (s.into k)))
    rw [h s k]
    exact .whole rfl

/-- A part that goes on with something that it sees, other than the sink. -/
theorem look {f : RenderState → Rendering β} (h : ∀ s, Streams (f s))
    (haside : ∀ s k, f (s.into k) = f s) : Streams (get >>= f) where
  drained s := by
    obtain ⟨pieces, last, hs⟩ := (h s).drained s
    refine ⟨pieces, last, fun k => ?_⟩
    show Drained pieces last k (f (s.into k) (s.into k))
    rw [haside]
    exact hs k

theorem ask (f : (String → Value) → Except ExpressionError α) : Streams (Rendering.ask f) where
  drained s := by
    have hscope (k : Sink) : (s.into k).scope = s.scope := rfl
    unfold Rendering.ask
    simp only [hscope]
    cases f s.scope.get with
    | ok a => exact ⟨[], .ok a s, fun _ => .whole rfl⟩
    | error e => exact ⟨[], .error (.failed e) s, fun _ => .whole rfl⟩

/-- A piece of text is the only piece, unless there is nothing in it. -/
theorem write (piece : String) : Streams (Rendering.write piece) where
  drained s := by
    by_cases hempty : piece.isEmpty = true
    · refine ⟨[], .ok ⟨⟩ s, fun k => ?_⟩
      unfold Rendering.write
      rw [if_pos hempty]
      exact .whole rfl
    · refine ⟨[piece], .ok ⟨⟩ { s with started := true }, fun k => ?_⟩
      unfold Rendering.write
      rw [if_neg hempty]
      have hall : k.offerAll [piece] = k.offer piece := by
        unfold Sink.offerAll
        split <;> next hoffer => exact hoffer.symm
      show Drained _ _ k (match k.offer piece with
        | (true, sink) => .ok () { s with sink := sink, started := true }
        | (false, sink) =>
          .error (.writeFailed sink.reason) { s with sink := sink, started := true })
      split
      · next k' hoffer => exact .whole (hall.trans hoffer)
      · next k' hoffer => exact .short (hall.trans hoffer) rfl

theorem newline (pretty : Bool) : Streams (Rendering.newline pretty) := by
  refine look (fun s => ?_) fun s k => rfl
  split
  · exact write _
  · exact result ()

theorem setBlockEmitted (f : Bool → Bool) :
    Streams (modify fun s => { s with blockEmitted := f s.blockEmitted }) :=
  change fun _ _ => rfl

theorem assign (name : String) (v : Value) : Streams (Rendering.assign name v) :=
  change fun _ _ => rfl

theorem depth : Streams Rendering.depth :=
  look (fun s => result s.scope.depth) fun _ _ => rfl

/-- What is undone after a part leaves the sink as the part leaves it, and so does what is
changed before it. -/
theorem within {enter leave : RenderState → RenderState} {r : Rendering α} (henter : Aside enter)
    (hleave : Aside leave) (h : Streams r) : Streams (Rendering.within enter leave r) where
  drained s := by
    obtain ⟨pieces, last, hpart⟩ := h.drained (enter s)
    refine ⟨pieces, ?_, fun k => ?_⟩
    · exact match last with
        | .ok a t => .ok a (leave t)
        | .error e t => .error e (leave t)
    · have hk := hpart k
      unfold Rendering.within
      rw [henter s k]
      generalize r ((enter s).into k) = part at hk ⊢
      cases hk with
      | @whole k' h =>
        cases last with
        | ok a t =>
          show Drained pieces (.ok a (leave t)) k (.ok a (leave (t.into k')))
          rw [hleave t k']
          exact .whole h
        | error e t =>
          show Drained pieces (.error e (leave t)) k (.error e (leave (t.into k')))
          rw [hleave t k']
          exact .whole h
      | @short k' t h ht => exact .short h ((hleave.sink t).trans ht)

theorem indented {r : Rendering α} (h : Streams r) : Streams (Rendering.indented r) :=
  h.within (fun _ _ => rfl) fun _ _ => rfl

theorem underFrame (bindings : List (String × Value)) {r : Rendering α} (h : Streams r) :
    Streams (Rendering.underFrame bindings r) :=
  h.within (fun _ _ => rfl) fun _ _ => rfl

theorem atDepth (depth : Nat) {r : Rendering α} (h : Streams r) :
    Streams (Rendering.atDepth depth r) := by
  -- The frames that are taken off are read from the state that is found.
  show Streams (get >>= fun s => Rendering.within
    (fun t => { t with scope := (s.scope.splitOff depth).2 })
    (fun t => { t with scope := t.scope.restore (s.scope.splitOff depth).1 }) r)
  exact look (fun s => h.within (fun _ _ => rfl) fun _ _ => rfl) fun _ _ => rfl

end Streams

/-! ### Nodes -/

/-- The steps of the renderer are of that kind, and so is what is put together from them. The
other rendering plays no part. -/
theorem respectsRendering_streams (w : RenderSetting) :
    RespectsRendering w w fun r _ => Streams r where
  pure := Streams.result
  fail := Streams.fail
  bind := Streams.bind
  ask := Streams.ask
  write := Streams.write
  openLine f _ _ := (Streams.newline _).bind fun _ => (Streams.ask f).bind fun _ => Streams.write _
  blockEmitted h := Streams.look (fun s => h s.blockEmitted) fun _ _ => rfl
  setBlockEmitted := Streams.setBlockEmitted
  assign := Streams.assign
  depth := Streams.depth
  indented := Streams.indented
  underFrame bindings _ _ h := h.underFrame bindings
  atDepth depth _ _ h := h.atDepth depth

/-- Whatever nodes are rendered, their pieces do not depend on the sink. -/
theorem streams_renderNodes (w : RenderSetting) (cs : CallStack) (ns : List Node) :
    Streams (renderNodes w cs ns) :=
  renderNodes_related (respectsRendering_streams w) ⟨rfl, rfl, rfl⟩ cs ns

/-! ### Templates -/

namespace Template

/-- A template has pieces to write and a result to come to. A sink gets the pieces up to the
first that it does not take, after which nothing more is offered. -/
theorem exists_pieces (t : Template) (filters : Table Filter) (vars : Variables) :
    ∃ pieces result, ∀ k,
      t.renderTo filters vars k =
        match k.offerAll pieces with
        | (true, k') => (result, k')
        | (false, k') => (.error (.render t.name (.writeFailed k'.reason)), k') := by
  obtain ⟨pieces, last, hdrained⟩ :=
    (streams_renderNodes (t.setting filters) .empty t.document.nodes).drained
      ⟨.start vars, .unlimited, 0, false, false⟩
  refine ⟨pieces, match last with
    | .ok _ _ => .ok ()
    | .error e _ => .error (.render t.name e), fun k => ?_⟩
  have hk : Drained pieces last k (renderNodes (t.setting filters) .empty t.document.nodes
    ⟨.start vars, k, 0, false, false⟩) := hdrained k
  unfold renderTo Trellis.render
  generalize renderNodes (t.setting filters) .empty t.document.nodes
    ⟨.start vars, k, 0, false, false⟩ = run at hk ⊢
  cases hk with
  | whole h =>
    rw [h]
    cases last with
    | ok a s => rfl
    | error e s => rfl
  | short h ht =>
    subst ht
    rw [h]
    rfl

/-- A template writes one output, whatever the sink.

`render` succeeds if writing to a sink without a limit does, with the text that was written, and
fails with the same error otherwise. Every sink is offered the same pieces, up to the first that
it does not take. A sink with room for all bytes ends up with them and with the same result. One
with less room ends up with just as many of the first bytes, and the result is its own failure,
whatever the rendering would have come to. -/
theorem renderTo_cut (t : Template) (filters : Table Filter) (vars : Variables) :
    let full := t.renderTo filters vars Sink.unlimited
    (∀ shown, t.render filters vars = .ok shown ↔
      full.1 = .ok () ∧ shown.toUTF8 = full.2.bytes) ∧
    (∀ e, t.render filters vars = .error e ↔ full.1 = .error e) ∧
    (∃ pieces, (String.join pieces).toUTF8 = full.2.bytes ∧
      ∀ k, (t.renderTo filters vars k).2 = (k.offerAll pieces).2) ∧
    ∀ room reason,
      let cut := t.renderTo filters vars (Sink.limited room reason)
      if full.2.bytes.size ≤ room then cut.1 = full.1 ∧ cut.2.bytes = full.2.bytes
      else
        cut.1 = .error (.render t.name (.writeFailed reason)) ∧
        (RenderFault.writeFailed reason).message = "write failed: " ++ reason ∧
        cut.2.bytes = full.2.bytes.extract 0 room := by
  intro full
  obtain ⟨pieces, result, hpieces⟩ := t.exists_pieces filters vars
  have hfull : full = (result, { Sink.unlimited with text := "" ++ String.join pieces }) := by
    show t.renderTo filters vars .unlimited = _
    rw [hpieces, Sink.offerAll_unlimited pieces rfl]
    rfl
  rw [String.empty_append] at hfull
  have hbytes : full.2.bytes = (String.join pieces).toUTF8 := by
    rw [hfull]
    exact ByteArray.append_empty
  have hrender : t.render filters vars = full.1.map fun _ => full.2.text := rfl
  refine ⟨fun shown => ?_, fun e => ?_, ⟨pieces, hbytes.symm, fun k => ?_⟩, fun room reason => ?_⟩
  · rw [hrender, hbytes, hfull]
    cases result with
    | ok a =>
      show Except.ok (String.join pieces) = .ok shown ↔
        Except.ok a = .ok () ∧ shown.toByteArray = (String.join pieces).toByteArray
      rw [String.toByteArray_inj, Except.ok.injEq, eq_comm]
      exact (and_iff_right rfl).symm
    | error e =>
      constructor
      · intro h
        cases h
      · rintro ⟨h, -⟩
        cases h
  · rw [hrender]
    cases full.1 with
    | ok a =>
      constructor <;> intro h <;> cases h
    | error e' =>
      show Except.error e' = .error e ↔ Except.error e' = .error e
      rw [Except.error.injEq, Except.error.injEq]
  · rw [hpieces k]
    split <;> next h => rw [h]
  · intro cut
    have hcut : cut = _ := hpieces (.limited room reason)
    have hsize : full.2.bytes.size = (String.join pieces).utf8ByteSize := by
      rw [hbytes]
      exact String.size_toByteArray
    rw [hcut, hsize]
    by_cases hfits : (String.join pieces).utf8ByteSize ≤ room
    · rw [if_pos hfits, Sink.offerAll_fits pieces rfl hfits, hfull]
      refine ⟨rfl, ?_⟩
      show ("" ++ String.join pieces).toByteArray ++ _ = (String.join pieces).toByteArray ++ _
      rw [String.empty_append]
      rfl
    · obtain ⟨htaken, hreason, hshort⟩ :=
        Sink.offerAll_short (k := .limited room reason) pieces rfl (Nat.lt_of_not_le hfits)
      rw [if_neg hfits, hbytes]
      generalize Sink.offerAll pieces (.limited room reason) = offered at htaken hreason hshort ⊢
      obtain ⟨taken, k'⟩ := offered
      cases htaken
      refine ⟨?_, rfl, ?_⟩
      · show Except.error (Error.render t.name (.writeFailed k'.reason)) = _
        rw [show k'.reason = reason from hreason]
      · refine hshort.trans ?_
        exact ByteArray.empty_append

end Template

end Trellis
