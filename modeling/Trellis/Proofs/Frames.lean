import Trellis.Proofs.Machine

/-!
# `Trellis.Proofs.Frames`: what a rendering leaves of the frames

Loops and calls put frames on top and take them off, and the content of a call is rendered with
the frames above its place taken off for the time. `Kept` says what is left of all that: as many
frames and the indentation as before, and of the frames all but those that an assignment
reaches. An assignment reaches the topmost frame, and through the content of a call the frame
that was topmost at the place of that call.

Frames are counted from the bottom here (`Scope.frameAt?`), since they come and go at the top.
The renderer keeps what `Kept` says (`tidy_renderNodes`) where the calls under way fit the
frames (`Disciplined`): their places are below each other and below the topmost frame. A call
and the content of a call are under other calls and another number of frames, and these fit again
(`Disciplined.push`, `Disciplined.pop`).
-/

set_option autoImplicit false

namespace Trellis

open Markup Rendering

/-! ### Frames counted from the bottom -/

namespace Scope

variable {s : Scope} {i d : Nat}

/-- The frame with a number, where the frame at the bottom has the number 0. -/
def frameAt? (s : Scope) (i : Nat) : Option Variables := s.frames.reverse[i]?

theorem frameAt?_eq_none (h : s.depth ≤ i) : s.frameAt? i = none :=
  List.getElem?_eq_none (by rwa [List.length_reverse])

/-- What lies on top changes nothing further down. -/
theorem frameAt?_above {globals : Variables} (above under : List Variables)
    (h : i < under.length) :
    frameAt? ⟨globals, above ++ under⟩ i = frameAt? ⟨globals, under⟩ i := by
  show (above ++ under).reverse[i]? = under.reverse[i]?
  rw [List.reverse_append, List.getElem?_append_left (by simpa using h)]

@[simp] theorem depth_pushFrame : s.pushFrame.depth = s.depth + 1 := rfl

theorem frameAt?_pushFrame (h : i < s.depth) : s.pushFrame.frameAt? i = s.frameAt? i :=
  frameAt?_above [[]] s.frames h

@[simp] theorem depth_set (name : String) (v : Value) : (s.set name v).depth = s.depth := by
  obtain ⟨globals, frames⟩ := s
  cases frames with
  | nil => rfl
  | cons top rest => rfl

/-- An assignment reaches the topmost frame only. -/
theorem frameAt?_set (name : String) (v : Value) (h : i + 1 ≠ s.depth) :
    (s.set name v).frameAt? i = s.frameAt? i := by
  obtain ⟨globals, frames⟩ := s
  cases frames with
  | nil => rfl
  | cons top rest =>
    show frameAt? ⟨globals, [Table.insert name v top] ++ rest⟩ i =
      frameAt? ⟨globals, [top] ++ rest⟩ i
    have htop : i ≠ rest.length := by simpa [depth] using h
    by_cases hi : i < rest.length
    · exact (frameAt?_above _ rest hi).trans (frameAt?_above [top] rest hi).symm
    · have hout : rest.length + 1 ≤ i := by omega
      exact (frameAt?_eq_none hout).trans (frameAt?_eq_none hout).symm

@[simp] theorem depth_setAll (bindings : List (String × Value)) :
    (s.setAll bindings).depth = s.depth := by
  induction bindings generalizing s with
  | nil => rfl
  | cons b rest ih => exact ih.trans (depth_set b.1 b.2)

theorem frameAt?_setAll (bindings : List (String × Value)) (h : i + 1 ≠ s.depth) :
    (s.setAll bindings).frameAt? i = s.frameAt? i := by
  induction bindings generalizing s with
  | nil => rfl
  | cons b rest ih =>
    have hset : i + 1 ≠ (s.set b.1 b.2).depth := by rwa [depth_set]
    exact (ih hset).trans (frameAt?_set b.1 b.2 h)

/-- Above the bottom there is a frame to take off. -/
theorem popFrame_eq (h : 1 < s.depth) : s.popFrame = { s with frames := s.frames.tail } := by
  obtain ⟨globals, frames⟩ := s
  match frames, h with
  | _ :: under :: rest, _ => rfl

theorem depth_popFrame (h : s.depth = d + 1) (hd : 1 ≤ d) : s.popFrame.depth = d := by
  rw [popFrame_eq (by omega)]
  show s.frames.tail.length = d
  have hlength : s.frames.length = d + 1 := h
  rw [List.length_tail]
  omega

theorem frameAt?_popFrame (h : i + 1 < s.depth) : s.popFrame.frameAt? i = s.frameAt? i := by
  rw [popFrame_eq (by omega)]
  obtain ⟨globals, frames⟩ := s
  match frames, h with
  | top :: rest, h => exact (frameAt?_above [top] rest (Nat.lt_of_succ_lt_succ h)).symm

/-- Between the bottom and the top, frames are taken off down to just the given number. -/
theorem splitOff_eq (hpos : 1 ≤ d) (hle : d ≤ s.depth) :
    s.splitOff d =
      (s.frames.take (s.depth - d), { s with frames := s.frames.drop (s.depth - d) }) := by
  have hkept : min (max d 1) s.depth = d := by omega
  unfold splitOff
  rw [hkept]

theorem depth_splitOff (hpos : 1 ≤ d) (hle : d ≤ s.depth) : (s.splitOff d).2.depth = d := by
  rw [splitOff_eq hpos hle]
  show (s.frames.drop (s.depth - d)).length = d
  rw [List.length_drop]
  exact Nat.sub_sub_self hle

theorem length_splitOff (hpos : 1 ≤ d) (hle : d ≤ s.depth) :
    (s.splitOff d).1.length = s.depth - d := by
  rw [splitOff_eq hpos hle]
  exact List.length_take_of_le (Nat.sub_le s.depth d)

/-- Frames that are put back make up one number of frames with those they are put on. -/
theorem depth_restore_splitOff {t : Scope} (hpos : 1 ≤ d) (hle : d ≤ s.depth) (ht : t.depth = d) :
    (t.restore (s.splitOff d).1).depth = s.depth := by
  show ((s.splitOff d).1 ++ t.frames).length = s.depth
  have hlength : t.frames.length = d := ht
  rw [List.length_append, length_splitOff hpos hle, hlength]
  omega

/-- What is taken off comes back as it was, and what is left is at its place all the time. -/
theorem frameAt?_restore_splitOff {t : Scope} (hpos : 1 ≤ d) (hle : d ≤ s.depth)
    (ht : t.depth = d) (h : i < d → t.frameAt? i = (s.splitOff d).2.frameAt? i) :
    (t.restore (s.splitOff d).1).frameAt? i = s.frameAt? i := by
  rw [splitOff_eq hpos hle] at h ⊢
  have hs : s.frameAt? i = frameAt? ⟨s.globals, s.frames.take (s.depth - d) ++
      s.frames.drop (s.depth - d)⟩ i := by rw [List.take_append_drop]
  have hlength : t.frames.length = d := ht
  have hdrop : (s.frames.drop (s.depth - d)).length = d := by
    rw [List.length_drop]
    exact Nat.sub_sub_self hle
  rw [hs]
  by_cases hi : i < d
  · show frameAt? ⟨t.globals, _ ++ t.frames⟩ i = _
    rw [frameAt?_above _ t.frames (hlength.symm ▸ hi), frameAt?_above _ _ (hdrop.symm ▸ hi)]
    exact h hi
  · show (_ ++ t.frames).reverse[i]? = (_ ++ s.frames.drop (s.depth - d)).reverse[i]?
    rw [List.reverse_append, List.reverse_append,
      List.getElem?_append_right (by simpa [hlength] using hi),
      List.getElem?_append_right (by simpa [hdrop] using hi), List.length_reverse,
      List.length_reverse, hlength, hdrop]

end Scope

/-! ### Calls that fit the frames -/

/-- The calls under way, the innermost first, fit a number of frames. Their places are below
each other, between the bottom and the topmost frame, and there are not too many of them. -/
structure Disciplined (callers : List Caller) (frames : Nat) : Prop where
  increasing : callers.Pairwise fun inner outer => outer.depth < inner.depth
  positive : ∀ c ∈ callers, 1 ≤ c.depth
  below : ∀ c ∈ callers, c.depth < frames
  bottom : 1 ≤ frames
  few : callers.length ≤ maxCallDepth

namespace Disciplined

variable {callers outer : List Caller} {c : Caller} {frames : Nat}

theorem empty (h : 1 ≤ frames) : Disciplined [] frames :=
  ⟨.nil, nofun, nofun, h, Nat.zero_le _⟩

/-- One more frame. -/
theorem frame (h : Disciplined callers frames) : Disciplined callers (frames + 1) where
  increasing := h.increasing
  positive := h.positive
  below c hc := Nat.lt_succ_of_lt (h.below c hc)
  bottom := Nat.le_succ_of_le h.bottom
  few := h.few

/-- One more call, of which the place is here, and its frame. -/
theorem push (h : Disciplined callers frames) (hfew : callers.length < maxCallDepth)
    (body : Option (List Node)) : Disciplined (⟨body, frames⟩ :: callers) (frames + 1) where
  increasing := List.pairwise_cons.mpr ⟨h.below, h.increasing⟩
  positive := List.forall_mem_cons.mpr ⟨h.bottom, h.positive⟩
  below := List.forall_mem_cons.mpr ⟨Nat.lt_succ_self frames, h.frame.below⟩
  bottom := h.frame.bottom
  few := hfew

/-- One call less. -/
theorem tail (h : Disciplined (c :: outer) frames) : Disciplined outer frames where
  increasing := h.increasing.of_cons
  positive d hd := h.positive d (List.mem_cons_of_mem c hd)
  below d hd := h.below d (List.mem_cons_of_mem c hd)
  bottom := h.bottom
  few := Nat.le_of_succ_le h.few

/-- Back at the place of the innermost call. -/
theorem pop (h : Disciplined (c :: outer) frames) : Disciplined outer c.depth where
  increasing := h.tail.increasing
  positive := h.tail.positive
  below := (List.pairwise_cons.mp h.increasing).1
  bottom := h.positive c List.mem_cons_self
  few := h.tail.few

/-- The frames of the place of a call are all there. -/
theorem le (h : Disciplined callers frames) (hc : c ∈ callers) : c.depth ≤ frames :=
  Nat.le_of_lt (h.below c hc)

end Disciplined

/-! ### What is kept -/

/-- The state in which a rendering ends, well or not. -/
def Rendering.after {α : Type} (r : Rendering α) (s : RenderState) : RenderState :=
  match r s with
  | .ok _ t => t
  | .error _ t => t

/-- There are as many frames as before and the indentation is what it was, and all frames are
unchanged except the topmost one and those that were topmost at the places of the calls. -/
structure Kept (callers : List Caller) (s t : RenderState) : Prop where
  depth : t.scope.depth = s.scope.depth
  indent : t.indent = s.indent
  frames : ∀ i, i + 1 ≠ s.scope.depth → (∀ c ∈ callers, i + 1 ≠ c.depth) →
    t.scope.frameAt? i = s.scope.frameAt? i

namespace Kept

variable {callers inner outer : List Caller} {s t u : RenderState}

theorem same (hscope : t.scope = s.scope) (hindent : t.indent = s.indent) : Kept callers s t where
  depth := congrArg Scope.depth hscope
  indent := hindent
  frames i _ _ := by rw [hscope]

theorem refl (callers : List Caller) (s : RenderState) : Kept callers s s := same rfl rfl

theorem trans (h : Kept callers s t) (h' : Kept callers t u) : Kept callers s u where
  depth := h'.depth.trans h.depth
  indent := h'.indent.trans h.indent
  frames i htop hplaces :=
    (h'.frames i (h.depth.symm ▸ htop) hplaces).trans (h.frames i htop hplaces)

theorem assign (name : String) (v : Value) :
    Kept callers s { s with scope := s.scope.set name v } where
  depth := Scope.depth_set name v
  indent := rfl
  frames _ htop _ := Scope.frameAt?_set name v htop

/-- A frame put on top and taken off again, under calls of which the places are here or were
among the places before. -/
theorem underFrame (bindings : List (String × Value)) (hbottom : 1 ≤ s.scope.depth)
    (hinner : ∀ c ∈ inner, c ∈ callers ∨ c.depth = s.scope.depth)
    (h : Kept inner { s with scope := s.scope.pushFrame.setAll bindings } t) :
    Kept callers s { t with scope := t.scope.popFrame } where
  depth := Scope.depth_popFrame (h.depth.trans (Scope.depth_setAll bindings)) hbottom
  indent := h.indent
  frames i htop hplaces := by
    have hdepth : t.scope.depth = s.scope.depth + 1 := h.depth.trans (Scope.depth_setAll bindings)
    have hpopped : t.scope.popFrame.depth = s.scope.depth := Scope.depth_popFrame hdepth hbottom
    show t.scope.popFrame.frameAt? i = s.scope.frameAt? i
    by_cases hi : i < s.scope.depth
    · rw [Scope.frameAt?_popFrame (by omega)]
      have hkept := h.frames i (by simp; omega) fun c hc => ?_
      · rw [hkept, Scope.frameAt?_setAll bindings (by simp; omega), Scope.frameAt?_pushFrame hi]
      · rcases hinner c hc with hc | hc
        · exact hplaces c hc
        · rwa [hc]
    · rw [Scope.frameAt?_eq_none (by omega), Scope.frameAt?_eq_none (by omega)]

/-- Frames taken off down to the place of the innermost call and put back again. -/
theorem atDepth {c : Caller} (hs : Disciplined (c :: outer) s.scope.depth)
    (h : Kept outer { s with scope := (s.scope.splitOff c.depth).2 } t) :
    Kept (c :: outer) s { t with scope := t.scope.restore (s.scope.splitOff c.depth).1 } := by
  have hpos : 1 ≤ c.depth := hs.positive c List.mem_cons_self
  have hle : c.depth ≤ s.scope.depth := hs.le List.mem_cons_self
  have hdepth : t.scope.depth = c.depth := h.depth.trans (Scope.depth_splitOff hpos hle)
  refine ⟨Scope.depth_restore_splitOff hpos hle hdepth, h.indent, fun i _ hplaces => ?_⟩
  obtain ⟨hplace, hplaces⟩ := List.forall_mem_cons.mp hplaces
  refine Scope.frameAt?_restore_splitOff hpos hle hdepth fun _ => ?_
  -- The frame on top at the place of the call is the one that the content may assign to.
  have htop : i + 1 ≠ (s.scope.splitOff c.depth).2.depth := by
    rwa [Scope.depth_splitOff hpos hle]
  exact h.frames i htop hplaces

end Kept

/-! ### Parts of a rendering -/

/-- Under some calls and on a number of frames, a part of a rendering keeps what is to be
kept. -/
structure Tidy {α : Type} (callers : List Caller) (frames : Nat) (r : Rendering α) : Prop where
  kept : ∀ s, s.scope.depth = frames → Kept callers s (r.after s)

namespace Tidy

variable {α β : Type} {callers inner outer : List Caller} {n m : Nat}

theorem still {r : Rendering α}
    (h : ∀ s, (r.after s).scope = s.scope ∧ (r.after s).indent = s.indent) : Tidy callers n r where
  kept s _ := .same (h s).1 (h s).2

theorem result (a : α) : Tidy callers n (pure a) := still fun _ => ⟨rfl, rfl⟩

theorem fail (e : RenderFault) : Tidy (α := α) callers n (throw e) := still fun _ => ⟨rfl, rfl⟩

theorem bind {r : Rendering α} {k : α → Rendering β} (h : Tidy callers n r)
    (hk : ∀ a, Tidy callers n (k a)) : Tidy callers n (r >>= k) where
  kept s hs := by
    have hfirst := h.kept s hs
    show Kept callers s (match EStateM.bind r k s with | .ok _ t => t | .error _ t => t)
    unfold Rendering.after at hfirst
    unfold EStateM.bind
    generalize r s = first at hfirst ⊢
    cases first with
    | ok a t => exact hfirst.trans ((hk a).kept t (hfirst.depth.trans hs))
    | error e t => exact hfirst

theorem change {f : RenderState → RenderState}
    (h : ∀ s, s.scope.depth = n → Kept callers s (f s)) : Tidy callers n (modify f) where
  kept s hs := h s hs

theorem state : Tidy callers n (get : Rendering RenderState) := still fun _ => ⟨rfl, rfl⟩

theorem ask (f : (String → Value) → Except ExpressionError α) :
    Tidy callers n (Rendering.ask f) := by
  refine still fun s => ?_
  unfold Rendering.after Rendering.ask
  cases f s.scope.get with
  | ok a => exact ⟨rfl, rfl⟩
  | error e => exact ⟨rfl, rfl⟩

theorem write (piece : String) : Tidy callers n (Rendering.write piece) := by
  refine still fun s => ?_
  unfold Rendering.after Rendering.write
  by_cases hpiece : piece.isEmpty = true
  · rw [if_pos hpiece]
    exact ⟨rfl, rfl⟩
  · rw [if_neg hpiece]
    cases s.sink.offer piece with
    | mk accepted sink => cases accepted <;> exact ⟨rfl, rfl⟩

theorem newline (pretty : Bool) : Tidy callers n (Rendering.newline pretty) := by
  refine state.bind fun s => ?_
  split
  · exact write _
  · exact result ()

theorem setBlockEmitted (f : RenderState → Bool) :
    Tidy callers n (modify fun s => { s with blockEmitted := f s }) :=
  still fun _ => ⟨rfl, rfl⟩

theorem assign (name : String) (v : Value) : Tidy callers n (Rendering.assign name v) :=
  change fun _ _ => .assign name v

/-- A part that goes on with the number of frames. -/
theorem depth {k : Nat → Rendering β} (h : Tidy callers n (k n)) :
    Tidy callers n (Rendering.depth >>= k) where
  kept s hs := by
    show Kept callers s ((k s.scope.depth).after s)
    rw [hs]
    exact h.kept s hs

/-- A part inside a changed state, under other calls and on another number of frames. -/
theorem within {enter leave : RenderState → RenderState} {r : Rendering α} (h : Tidy inner m r)
    {s : RenderState} (henter : (enter s).scope.depth = m)
    (hleave : ∀ t, Kept inner (enter s) t → Kept callers s (leave t)) :
    Kept callers s ((Rendering.within enter leave r).after s) := by
  have hpart := h.kept (enter s) henter
  unfold Rendering.after at hpart
  unfold Rendering.after Rendering.within
  generalize r (enter s) = part at hpart ⊢
  cases part with
  | ok a t => exact hleave t hpart
  | error e t => exact hleave t hpart

theorem indented {r : Rendering α} (h : Tidy callers n r) :
    Tidy callers n (Rendering.indented r) where
  kept s hs := by
    refine h.within hs fun t hkept => ⟨hkept.depth, ?_, hkept.frames⟩
    show t.indent - 1 = s.indent
    rw [hkept.indent]
    exact Nat.add_sub_cancel s.indent 1

theorem underFrame (bindings : List (String × Value)) {r : Rendering α} (hbottom : 1 ≤ n)
    (hinner : ∀ c ∈ inner, c ∈ callers ∨ c.depth = n) (h : Tidy inner (n + 1) r) :
    Tidy callers n (Rendering.underFrame bindings r) where
  kept s hs := by
    subst hs
    refine h.within ?_ fun t hkept => hkept.underFrame bindings hbottom hinner
    show (s.scope.pushFrame.setAll bindings).depth = s.scope.depth + 1
    rw [Scope.depth_setAll, Scope.depth_pushFrame]

theorem atDepth {c : Caller} {r : Rendering α} (hn : Disciplined (c :: outer) n)
    (h : Tidy outer c.depth r) : Tidy (c :: outer) n (Rendering.atDepth c.depth r) where
  kept s hs := by
    subst hs
    have hle : c.depth ≤ s.scope.depth := hn.le List.mem_cons_self
    show Kept (c :: outer) s ((Rendering.within
      (fun t => { t with scope := (s.scope.splitOff c.depth).2 })
      (fun t => { t with scope := t.scope.restore (s.scope.splitOff c.depth).1 }) r).after s)
    refine h.within ?_ fun t hkept => hkept.atDepth hn
    exact Scope.depth_splitOff (hn.positive c List.mem_cons_self) hle

theorem runLoop (item : String) (key : Option String) (length : Nat) {body : Rendering Unit}
    (hbottom : 1 ≤ n) (h : Tidy callers (n + 1) body) (index : Nat)
    (entries : List (Value × Value)) :
    Tidy callers n (Trellis.runLoop item key length body index entries) := by
  induction entries generalizing index with
  | nil => exact result ()
  | cons entry rest ih =>
    exact (underFrame _ hbottom (fun c hc => .inl hc) h).bind fun _ => ih (index + 1)

end Tidy

section
variable {callers : List Caller} {n : Nat} (w : RenderSetting) (name : String)

theorem tidy_beginTag (attributes : List Attribute) :
    Tidy callers n (beginTag w name attributes) := by
  have htext : Tidy callers n (do
      let text ← ask fun vars => attributesText w.mode vars attributes
      write ("<" ++ name ++ text)) := (Tidy.ask _).bind fun _ => Tidy.write _
  unfold beginTag
  split
  · exact (Tidy.result ()).bind fun _ => htext
  · exact (Tidy.newline _).bind fun _ => htext

theorem tidy_closeAtOnce (selfClosing : Bool) : Tidy callers n (closeAtOnce w name selfClosing) :=
  (Tidy.write _).bind fun _ => Tidy.setBlockEmitted _

theorem tidy_enterTag : Tidy callers n enterTag :=
  (Tidy.write ">").bind fun _ => Tidy.state.bind fun s =>
    (Tidy.setBlockEmitted fun _ => false).bind fun _ => Tidy.result s.blockEmitted

theorem tidy_leaveTag (outer : Bool) : Tidy callers n (leaveTag w name outer) := by
  have hend : Tidy callers n (do
      write ("</" ++ name ++ ">")
      modify fun s => { s with blockEmitted := outer || !isInline name }) :=
    (Tidy.write _).bind fun _ => Tidy.setBlockEmitted fun _ => outer || !isInline name
  unfold leaveTag
  refine Tidy.state.bind fun s => ?_
  split
  · exact (Tidy.newline _).bind fun _ => hend
  · exact hend

theorem tidy_writeTag (attributes : List Attribute) (selfClosing atOnce : Bool)
    {children : Rendering Unit} (h : Tidy callers n children) :
    Tidy callers n (writeTag w name attributes selfClosing atOnce children) := by
  rw [writeTag_eq]
  refine (tidy_beginTag w name attributes).bind fun _ => ?_
  cases atOnce with
  | true => exact tidy_closeAtOnce w name selfClosing
  | false =>
    exact tidy_enterTag.bind fun outer => h.indented.bind fun _ => tidy_leaveTag w name outer

end

/-! ### Nodes -/

mutual

/-- Whatever node is rendered under calls that fit the frames, it leaves what is to be kept. -/
theorem tidy_renderNode (w : RenderSetting) (cs : CallStack) (n : Node) {frames : Nat} :
    Disciplined cs.callers frames → Tidy cs.callers frames (renderNode w cs n) := by
  intro hcs
  cases n with
  | doctype name =>
    rw [renderNode]
    exact (Tidy.newline _).bind fun _ => (Tidy.write _).bind fun _ => Tidy.setBlockEmitted _
  | tag name attributes selfClosing children =>
    rw [renderNode]
    exact tidy_writeTag w name attributes selfClosing _ (tidy_renderNodes w cs children hcs)
  | text spans =>
    rw [renderNode]
    exact (Tidy.ask _).bind fun _ => Tidy.write _
  | output e escaped =>
    rw [renderNode]
    exact (Tidy.ask _).bind fun _ => Tidy.write _
  | assign name e =>
    rw [renderNode]
    exact (Tidy.ask _).bind fun _ => Tidy.assign name _
  | cond branches otherwise =>
    rw [renderNode]
    exact tidy_renderCond w cs branches otherwise hcs
  | each item key collection body fallback =>
    rw [renderNode]
    refine (Tidy.ask _).bind fun v => ?_
    cases v.iterate? with
    | none => exact .fail _
    | some items =>
      cases items with
      | nil => exact tidy_renderOptional w cs fallback hcs
      | cons first rest =>
        exact Tidy.runLoop _ _ _ hcs.bottom (tidy_renderNodes w cs body hcs.frame) 0 _
  | caseOf subject whens default =>
    rw [renderNode]
    exact (Tidy.ask _).bind fun v => tidy_renderCase w cs v whens default hcs
  | comment text =>
    rw [renderNode]
    exact (Tidy.newline _).bind fun _ => (Tidy.write _).bind fun _ => Tidy.setBlockEmitted _
  | mixin m =>
    rw [renderNode]
    exact .result ()
  | call name arguments body =>
    rw [renderNode]
    refine Tidy.depth ?_
    cases w.mixins.find? name with
    | none => exact .fail _
    | some m =>
      dsimp only
      split
      · exact .fail _
      · next inner hpush =>
        obtain ⟨hfew, hinner⟩ := CallStack.push?_some hpush
        refine (Tidy.ask _).bind fun bindings => Tidy.underFrame bindings hcs.bottom ?_
          (tidy_renderNodes w inner m.body ?_)
        · rw [hinner]
          exact List.forall_mem_cons.mpr ⟨.inr rfl, fun c hc => .inl hc⟩
        · rw [hinner]
          exact hcs.push hfew body
  | content =>
    rw [renderNode]
    split
    · exact .result ()
    · exact .result ()
    · next body depth outer hpop =>
      rw [CallStack.pop?_some hpop] at hcs ⊢
      -- The content sees the frames of its place, which the calls around that place fit.
      exact Tidy.atDepth hcs (tidy_renderNodes w outer body hcs.pop)
  | block name mode children =>
    rw [renderNode]
    exact tidy_renderNodes w cs children hcs
  | filter name content options =>
    rw [renderNode]
    split
    · exact .fail _
    · exact .write _
termination_by cs.rank (sizeOf n)
decreasing_by
  any_goals exact CallStack.rank_smaller (by simp +arith)
  · exact CallStack.rank_push ‹_› (by simp +arith)
  · exact CallStack.rank_pop ‹_› (by simp +arith)

theorem tidy_renderNodes (w : RenderSetting) (cs : CallStack) (ns : List Node) {frames : Nat} :
    Disciplined cs.callers frames → Tidy cs.callers frames (renderNodes w cs ns) := by
  intro hcs
  cases ns with
  | nil =>
    rw [renderNodes]
    exact .result ()
  | cons n rest =>
    rw [renderNodes]
    exact (tidy_renderNode w cs n hcs).bind fun _ => tidy_renderNodes w cs rest hcs
termination_by cs.rank (sizeOf ns)
decreasing_by
  all_goals exact CallStack.rank_smaller (by simp +arith)

theorem tidy_renderOptional (w : RenderSetting) (cs : CallStack) (ns : Option (List Node))
    {frames : Nat} :
    Disciplined cs.callers frames → Tidy cs.callers frames (renderOptional w cs ns) := by
  intro hcs
  cases ns with
  | none =>
    rw [renderOptional]
    exact .result ()
  | some ns =>
    rw [renderOptional]
    exact tidy_renderNodes w cs ns hcs
termination_by cs.rank (sizeOf ns)
decreasing_by
  all_goals exact CallStack.rank_smaller (by simp +arith)

theorem tidy_renderCond (w : RenderSetting) (cs : CallStack) (branches : List Branch)
    (otherwise : Option (List Node)) {frames : Nat} :
    Disciplined cs.callers frames →
      Tidy cs.callers frames (renderCond w cs branches otherwise) := by
  intro hcs
  cases branches with
  | nil =>
    rw [renderCond]
    exact tidy_renderOptional w cs otherwise hcs
  | cons branch rest =>
    obtain ⟨test, negated, body⟩ := branch
    rw [renderCond]
    refine (Tidy.ask _).bind fun v => ?_
    split
    · exact tidy_renderNodes w cs body hcs
    · exact tidy_renderCond w cs rest otherwise hcs
termination_by cs.rank (sizeOf branches + sizeOf otherwise)
decreasing_by
  all_goals exact CallStack.rank_smaller (by simp +arith)

theorem tidy_renderCase (w : RenderSetting) (cs : CallStack) (subject : Value)
    (whens : List When) (default : Option (List Node)) {frames : Nat} :
    Disciplined cs.callers frames →
      Tidy cs.callers frames (renderCase w cs subject whens default) := by
  intro hcs
  cases whens with
  | nil =>
    rw [renderCase]
    exact tidy_renderOptional w cs default hcs
  | cons alternative rest =>
    obtain ⟨value, body⟩ := alternative
    rw [renderCase]
    refine (Tidy.ask _).bind fun v => ?_
    split
    · exact tidy_renderNodes w cs body hcs
    · exact tidy_renderCase w cs subject rest default hcs
termination_by cs.rank (sizeOf whens + sizeOf default)
decreasing_by
  all_goals exact CallStack.rank_smaller (by simp +arith)

end

end Trellis
