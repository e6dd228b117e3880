import Trellis.Proofs.Frames
import Trellis.Proofs.Places
import Trellis.Proofs.Steps
import Trellis.Template

/-!
# `Trellis.Proofs.Openings`: what one step of a rendering does

The machine of `Trellis.Proofs.Machine` does one task after the other. Three things are said here
of a step, and each of them carries over to runs.

* `stands_step`: what is still to be rendered comes from what was to be rendered before, or from
  the body of a mixin. So whatever a machine comes to stands in its template
  (`holds_of_reaches`).
* `endTag_step`: a closing tag is still to be written only if the machine came to a tag with that
  name that is not closed at once (`Machine.Enters`).
* `text_step`: what holds of the output goes on to hold if no piece that the next job writes
  breaks it (`Job.Writes`, `Absorbs`).

The first two rest on `Opened`. It says which tasks a job leaves and which calls are under way for
them, with one rule for each way in which a job can leave any.
-/

set_option autoImplicit false

namespace Trellis

open Markup Rendering

/-! ### What a job leaves -/

/-- A job that succeeds leaves some tasks, under some calls. -/
inductive Opened (w : RenderSetting) (callers : List Caller) :
    Job → List Task → List Caller → Prop
  | nothing {j : Job} : Opened w callers j [] callers
  /-- One of the lists right inside a node, which is not changed for it. -/
  | inside {n : Node} {children : List Node} (h : children ∈ n.childLists) :
    Opened w callers (.node n) (nodeTasks children) callers
  | tag {name : String} {attributes : List Attribute} {selfClosing outer : Bool}
    {children : List Node} (h : closesAtOnce w.mode name selfClosing children = false) :
    Opened w callers (.node (.tag name attributes selfClosing children))
      (nodeTasks children ++ [.undo .outdent] ++ [.work (.endTag name outer)]) callers
  | loop {item : String} {key : Option String} {collection : Expression} {body : List Node}
    {fallback : Option (List Node)} (length : Nat) (items : List (Value × Value)) :
    Opened w callers (.node (.each item key collection body fallback))
      [.work (.passes item key length body 0 items)] callers
  | pass {item : String} {key : Option String} {length : Nat} {body : List Node} {index : Nat}
    {entry : Value × Value} {rest : List (Value × Value)} :
    Opened w callers (.passes item key length body index (entry :: rest))
      (nodeTasks body ++ [.undo .popFrame] ++
        [.work (.passes item key length body (index + 1) rest)]) callers
  | call {name : String} {arguments : List Expression} {body : Option (List Node)} {m : Mixin}
    (depth : Nat) (h : w.mixins.find? name = some m) :
    Opened w callers (.node (.call name arguments body))
      (nodeTasks m.body ++ [.undo .popCaller, .undo .popFrame] ++ []) (⟨body, depth⟩ :: callers)
  | content {body : List Node} {depth : Nat} {outer : List Caller} (above : List Variables)
    (h : callers = ⟨some body, depth⟩ :: outer) :
    Opened w callers (.node .content)
      (nodeTasks body ++ [.undo (.restore above), .undo (.pushCaller ⟨some body, depth⟩)] ++ [])
      outer

section
variable {w : RenderSetting} {callers inner : List Caller} {first : List Task} {s t : RenderState}

/-- What is done at once leaves nothing. -/
theorem Opened.of_plain {j : Job} {r : Rendering Unit}
    (h : Opening.plain callers r s = .ok (first, inner) t) : Opened w callers j first inner := by
  obtain ⟨_, _, -, h⟩ := of_bind_eq_result h
  cases h
  exact .nothing

/-- The nodes that are chosen are inside the node, or there are none. -/
theorem Opened.of_chosen {n : Node} {ns : List Node} (h : ns ∈ n.childLists ∨ ns = []) :
    Opened w callers (.node n) (nodeTasks ns) callers := by
  rcases h with h | rfl
  · exact .inside h
  · exact .nothing

theorem of_chosenBranch {otherwise : Option (List Node)} {branches : List Branch} {ns : List Node}
    (h : chosenBranch otherwise branches s = .ok ns t) :
    ns ∈ branches.map (·.body) ++ otherwise.toList ∨ ns = [] := by
  induction branches generalizing s with
  | nil =>
    cases h
    cases otherwise with
    | none => exact .inr rfl
    | some body => exact .inl (List.mem_singleton_self body)
  | cons branch rest ih =>
    obtain ⟨test, negated, body⟩ := branch
    obtain ⟨v, between, -, h⟩ := of_bind_eq_result h
    split at h
    · cases h
      exact .inl List.mem_cons_self
    · exact (ih h).imp (List.mem_cons_of_mem _) id

theorem of_chosenAlternative {subject : Value} {default : Option (List Node)} {whens : List When}
    {ns : List Node} (h : chosenAlternative subject default whens s = .ok ns t) :
    ns ∈ whens.map (·.body) ++ default.toList ∨ ns = [] := by
  induction whens generalizing s with
  | nil =>
    cases h
    cases default with
    | none => exact .inr rfl
    | some body => exact .inl (List.mem_singleton_self body)
  | cons alternative rest ih =>
    obtain ⟨value, body⟩ := alternative
    obtain ⟨v, between, -, h⟩ := of_bind_eq_result h
    split at h
    · cases h
      exact .inl List.mem_cons_self
    · exact (ih h).imp (List.mem_cons_of_mem _) id

theorem opened_of_nodeOpening {n : Node} (h : n.opening w callers s = .ok (first, inner) t) :
    Opened w callers (.node n) first inner := by
  cases n with
  | tag name attributes selfClosing children =>
    obtain ⟨_, between, -, h⟩ := of_bind_eq_result h
    split at h
    · exact .of_plain h
    · next hopen =>
      obtain ⟨outer, _, -, h⟩ := of_bind_eq_result h
      cases h
      exact .tag (eq_false_of_ne_true hopen)
  | doctype name => exact .of_plain h
  | comment remark => exact .of_plain h
  | text spans =>
    obtain ⟨_, _, -, h⟩ := of_bind_eq_result h
    exact .of_plain h
  | output e escaped =>
    obtain ⟨_, _, -, h⟩ := of_bind_eq_result h
    exact .of_plain h
  | assign name e =>
    obtain ⟨_, _, -, h⟩ := of_bind_eq_result h
    exact .of_plain h
  | cond branches otherwise =>
    obtain ⟨ns, _, hchosen, h⟩ := of_bind_eq_result h
    cases h
    exact .of_chosen (of_chosenBranch hchosen)
  | caseOf subject whens default =>
    obtain ⟨v, _, -, h⟩ := of_bind_eq_result h
    obtain ⟨ns, _, hchosen, h⟩ := of_bind_eq_result h
    cases h
    exact .of_chosen (of_chosenAlternative hchosen)
  | each item key collection body fallback =>
    obtain ⟨v, _, -, h⟩ := of_bind_eq_result h
    cases hitems : v.iterate? with
    | none =>
      rw [hitems] at h
      cases h
    | some items =>
      rw [hitems] at h
      cases items with
      | nil =>
        cases h
        refine .of_chosen ?_
        cases fallback with
        | none => exact .inr rfl
        | some ns => exact .inl (List.mem_cons_of_mem _ (List.mem_singleton_self ns))
      | cons entry rest =>
        cases h
        exact .loop _ _
  | mixin m =>
    cases h
    exact .nothing
  | block name mode children =>
    cases h
    exact .inside (List.mem_singleton_self children)
  | call name arguments body =>
    obtain ⟨depth, _, -, h⟩ := of_bind_eq_result h
    cases hfind : w.mixins.find? name with
    | none =>
      rw [hfind] at h
      cases h
    | some m =>
      rw [hfind] at h
      dsimp only at h
      split at h
      · obtain ⟨bindings, _, -, h⟩ := of_bind_eq_result h
        cases h
        exact .call depth hfind
      · cases h
  | content =>
    match callers, h with
    | [], h =>
      cases h
      exact .nothing
    | ⟨none, depth⟩ :: outer, h =>
      cases h
      exact .nothing
    | ⟨some body, depth⟩ :: outer, h =>
      cases h
      exact .content _ rfl
  | filter name input options =>
    unfold Node.opening at h
    dsimp only at h
    cases hfind : w.filters.find? name with
    | none =>
      rw [hfind] at h
      cases h
    | some f =>
      rw [hfind] at h
      exact .of_plain h

/-- **Whatever a job leaves, it leaves in one of these ways.** -/
theorem opened_of_opening {j : Job} (h : j.opening w callers s = .ok (first, inner) t) :
    Opened w callers j first inner := by
  cases j with
  | node n => exact opened_of_nodeOpening h
  | passes item key length body index entries =>
    cases entries with
    | nil =>
      cases h
      exact .nothing
    | cons entry rest =>
      cases h
      exact .pass
  | endTag name outer => exact .of_plain h

/-- A step of a machine: an undoing, a job that is left out, or a job that is done. -/
theorem Machine.step_cases {m next : Machine} (h : m.step w = some next) :
    (∃ u rest, m.tasks = .undo u :: rest ∧
      next = ⟨rest, u.callers m.callers, u.state m.state, m.fault⟩) ∨
    (∃ j rest e, m.tasks = .work j :: rest ∧ m.fault = some e ∧
      next = ⟨rest, m.callers, m.state, some e⟩) ∨
    ∃ j rest, m.tasks = .work j :: rest ∧ m.fault = none ∧
      ((∃ first, j.opening w m.callers m.state = .ok (first, next.callers) next.state ∧
        next.tasks = first ++ rest ∧ next.fault = none) ∨
      ∃ e, j.opening w m.callers m.state = .error e next.state ∧
        next.tasks = rest ∧ next.callers = m.callers ∧ next.fault = some e) := by
  obtain ⟨tasks, callers, s, fault⟩ := m
  match tasks, fault with
  | [], _ => cases h
  | .undo u :: rest, _ =>
    cases h
    exact .inl ⟨u, rest, rfl, rfl⟩
  | .work j :: rest, some e =>
    cases h
    exact .inr (.inl ⟨j, rest, e, rfl, rfl, rfl⟩)
  | .work j :: rest, none =>
    refine .inr (.inr ⟨j, rest, rfl, rfl, ?_⟩)
    cases hopening : j.opening w callers s with
    | ok a t =>
      rw [Machine.step_of_opens hopening] at h
      cases h
      exact .inl ⟨a.1, rfl, rfl, rfl⟩
    | error e t =>
      rw [Machine.step_of_fails hopening] at h
      cases h
      exact .inr ⟨e, rfl, rfl, rfl, rfl⟩

end

/-! ### What is still to be rendered -/

/-- The nodes that a task holds. -/
def Task.nodes : Task → List Node
  | .work (.node n) => [n]
  | .work (.passes _ _ _ body _ _) => body
  | .undo (.pushCaller c) => c.body.getD []
  | _ => []

/-- The nodes that calls under way hold. -/
def callerNodes (callers : List Caller) : List Node := callers.flatMap fun c => c.body.getD []

/-- The nodes that a machine may still come to, mixins apart. -/
def Machine.nodes (m : Machine) : List Node := m.tasks.flatMap Task.nodes ++ callerNodes m.callers

@[simp] theorem flatMap_nodeTasks (ns : List Node) : (nodeTasks ns).flatMap Task.nodes = ns := by
  induction ns with
  | nil => rfl
  | cons n ns ih => exact congrArg (n :: ·) ih

section
variable {w : RenderSetting} {m next : Machine} {n : Node}

/-- What undoing a task brings back to the calls was held by the task. -/
theorem stands_undo {u : Undo} {callers : List Caller}
    (h : Stands n (callerNodes (u.callers callers))) :
    Stands n (Task.undo u).nodes ∨ Stands n (callerNodes callers) := by
  cases u with
  | popCaller =>
    refine .inr (h.mono fun x hx => ?_)
    obtain ⟨c, hc, hx⟩ := List.mem_flatMap.mp hx
    exact List.mem_flatMap.mpr ⟨c, List.mem_of_mem_tail hc, hx⟩
  | pushCaller c => exact stands_append_iff.mp h
  | _ => exact .inr h

/-- What a job leaves stands in it, in the calls under way, or in a mixin. -/
theorem Opened.stands {j : Job} {callers inner : List Caller} {first : List Task}
    (h : Opened w callers j first inner)
    (hn : Stands n (first.flatMap Task.nodes) ∨ Stands n (callerNodes inner)) :
    (Stands n (Task.work j).nodes ∨ Stands n (callerNodes callers)) ∨
      ∃ name mixin, w.mixins.find? name = some mixin ∧ Stands n mixin.body := by
  -- What stands in a list right inside a node stands in the node.
  have hinside {outer : Node} {children : List Node} (hchildren : children ∈ outer.childLists)
      (h : Stands n children) : Stands n [outer] := .inside (List.mem_singleton_self outer) hchildren h
  have hcontent (body : Option (List Node)) (h : Stands n (body.getD [])) :
      ∃ ns ∈ body.toList, Stands n ns := by
    cases body with
    | none => exact absurd h (not_stands_nil n)
    | some ns => exact ⟨ns, List.mem_singleton_self ns, h⟩
  cases h with
  | nothing => exact .inl (.inr (hn.resolve_left (not_stands_nil n)))
  | inside hchildren =>
    rw [flatMap_nodeTasks] at hn
    exact .inl (hn.imp (hinside hchildren) id)
  | tag hopen =>
    refine .inl (hn.imp (fun h => hinside (List.mem_singleton_self _) ?_) id)
    simpa [List.flatMap_append, Task.nodes] using h
  | loop length items =>
    refine .inl (hn.imp (fun h => hinside List.mem_cons_self ?_) id)
    simpa [Task.nodes] using h
  | pass =>
    refine .inl (hn.imp (fun h => ?_) id)
    simpa [List.flatMap_append, Task.nodes, stands_append_iff] using h
  | @call name arguments body m depth hfind =>
    rcases hn with hn | hn
    · -- The body of the mixin is the one in the table.
      refine .inr ⟨name, m, hfind, ?_⟩
      simpa [List.flatMap_append, Task.nodes] using hn
    · rcases stands_append_iff.mp hn with hn | hn
      · obtain ⟨ns, hns, hstands⟩ := hcontent body hn
        exact .inl (.inl (hinside hns hstands))
      · exact .inl (.inr hn)
  | content above hcallers =>
    subst hcallers
    refine .inl (.inr (stands_append_iff.mpr ?_))
    refine hn.imp (fun h => ?_) id
    simpa [List.flatMap_append, Task.nodes, stands_append_iff] using h

/-- **What is to be rendered after a step** was to be rendered before, or stands in a mixin. -/
theorem Machine.stands_step (h : m.step w = some next) (hn : Stands n next.nodes) :
    Stands n m.nodes ∨ ∃ name mixin, w.mixins.find? name = some mixin ∧ Stands n mixin.body := by
  unfold Machine.nodes at hn ⊢
  rw [stands_append_iff] at hn ⊢
  rcases Machine.step_cases h with ⟨u, rest, htasks, rfl⟩ | ⟨j, rest, e, htasks, -, rfl⟩ |
    ⟨j, rest, htasks, -, ⟨first, hopening, hfirst, -⟩ | ⟨e, -, hrest, hcallers, -⟩⟩
  · rw [htasks, List.flatMap_cons, stands_append_iff]
    rcases hn with hn | hn
    · exact .inl (.inl (.inr hn))
    · exact .inl ((stands_undo hn).imp .inl id)
  · rw [htasks, List.flatMap_cons, stands_append_iff]
    exact .inl (hn.imp .inr id)
  · rw [htasks, List.flatMap_cons, stands_append_iff]
    rw [hfirst, List.flatMap_append, stands_append_iff, or_assoc, or_left_comm] at hn
    rcases hn with hn | hn
    · exact .inl (.inl (.inr hn))
    · exact ((opened_of_opening hopening).stands hn).imp (Or.imp .inl id) id
  · rw [htasks, List.flatMap_cons, stands_append_iff]
    rw [hrest, hcallers] at hn
    exact .inl (hn.imp .inr id)

/-- **Whatever a rendering comes to stands in the template.** -/
theorem Template.holds_of_reaches {t : Template} {filters : Table Filter} {vars : Variables}
    {sink : Sink} (h : Machine.Reaches (t.setting filters) (.start t.document.nodes vars sink) m)
    (hn : Stands n m.nodes) : t.document.Holds n := by
  induction h generalizing n with
  | refl =>
    refine .inl ?_
    simpa [Machine.nodes, Machine.start, callerNodes] using hn
  | tail _ hstep ih =>
    rcases Machine.stands_step hstep hn with hn | ⟨name, mixin, hfind, hn⟩
    · exact ih hn
    · have hmem : (name, mixin) ∈ t.document.mixins := Table.mem_of_find? hfind
      exact .inr ⟨_, hmem, .inside (List.mem_singleton_self _) List.mem_cons_self hn⟩

end

/-! ### Closing tags -/

/-- The machine comes to a tag with a name, and the tag is not closed at once. -/
def Machine.Enters (w : RenderSetting) (m : Machine) (name : String) : Prop :=
  ∃ attributes selfClosing children rest,
    m.tasks = .work (.node (.tag name attributes selfClosing children)) :: rest ∧
      closesAtOnce w.mode name selfClosing children = false ∧ m.fault = none

section
variable {w : RenderSetting} {m next : Machine} {name : String} {outer : Bool}

/-- A job leaves the closing tag of the tag that it begins, and none besides. -/
theorem Opened.endTag {j : Job} {callers inner : List Caller} {first : List Task}
    (h : Opened w callers j first inner) (hmem : .work (.endTag name outer) ∈ first) :
    ∃ attributes selfClosing children, j = .node (.tag name attributes selfClosing children) ∧
      closesAtOnce w.mode name selfClosing children = false := by
  have hnodes (ns : List Node) : Task.work (.endTag name outer) ∉ nodeTasks ns := by
    simp [nodeTasks]
  cases h with
  | nothing => cases hmem
  | inside hchildren => exact absurd hmem (hnodes _)
  | tag hopen =>
    have hlast := (List.mem_append.mp hmem).resolve_left (by simp [hnodes])
    cases List.mem_singleton.mp hlast
    exact ⟨_, _, _, rfl, hopen⟩
  | _ => simp [hnodes] at hmem

/-- A closing tag that is still to be written after a step was so before, or the machine came to
its tag. -/
theorem Machine.endTag_step (h : m.step w = some next)
    (hmem : .work (.endTag name outer) ∈ next.tasks) :
    .work (.endTag name outer) ∈ m.tasks ∨ m.Enters w name := by
  rcases Machine.step_cases h with ⟨u, rest, htasks, rfl⟩ | ⟨j, rest, e, htasks, -, rfl⟩ |
    ⟨j, rest, htasks, hfault, ⟨first, hopening, hfirst, -⟩ | ⟨e, -, hrest, -, -⟩⟩
  · exact .inl (htasks ▸ List.mem_cons_of_mem _ hmem)
  · exact .inl (htasks ▸ List.mem_cons_of_mem _ hmem)
  · rw [hfirst] at hmem
    rcases List.mem_append.mp hmem with hmem | hmem
    · obtain ⟨_, _, _, rfl, hopen⟩ := (opened_of_opening hopening).endTag hmem
      exact .inr ⟨_, _, _, _, htasks, hopen, hfault⟩
    · exact .inl (htasks ▸ List.mem_cons_of_mem _ hmem)
  · rw [hrest] at hmem
    exact .inl (htasks ▸ List.mem_cons_of_mem _ hmem)

end

/-! ### What is written -/

/-- What holds of a text goes on to hold with the piece behind it. -/
def Absorbs (I : String → Prop) (piece : String) : Prop := ∀ text, I text → I (text ++ piece)

/-- A sink takes a piece behind the text that it has, or keeps that text. -/
theorem Sink.text_offer (k : Sink) (piece : String) :
    (k.offer piece).2.text = k.text ++ piece ∨ (k.offer piece).2.text = k.text := by
  unfold Sink.offer
  cases k.room with
  | none => exact .inl rfl
  | some room =>
    dsimp only
    split
    · exact .inl rfl
    · exact .inr rfl

section
variable {α β : Type} {r : Rendering α} {k : α → Rendering β} {s t : RenderState}

/-- What goes on behind a part that succeeded begins where that part ended. -/
theorem after_bind_of_ok {a : α} (h : r s = .ok a t) : (r >>= k).after s = (k a).after t := by
  show Rendering.after (EStateM.bind r k) s = _
  unfold Rendering.after EStateM.bind
  rw [h]

/-- Behind a part that failed nothing is done. -/
theorem after_bind_of_error {e : RenderFault} (h : r s = .error e t) : (r >>= k).after s = t := by
  show Rendering.after (EStateM.bind r k) s = _
  unfold Rendering.after EStateM.bind
  rw [h]

end

/-- A part of a rendering leaves in force what holds of the output. -/
structure Preserves (I : String → Prop) {α : Type} (r : Rendering α) : Prop where
  preserves (s : RenderState) (h : I s.sink.text) : I (r.after s).sink.text

/-- The pieces that a node writes at once are of a kind. -/
def Node.Writes (w : RenderSetting) (Q : String → Prop) : Node → Prop
  | .doctype name => Q (Markup.doctype name)
  | .tag name attributes selfClosing _ =>
    (∀ vars text, attributesText w.mode vars attributes = .ok text → Q ("<" ++ name ++ text)) ∧
      Q (closedAtOnce w.mode selfClosing) ∧ Q ">"
  | .text spans => ∀ vars text, spansText vars false spans = .ok text → Q text
  | .output _ escaped => ∀ v : Value, Q (escapeIf escaped v.text)
  | .comment remark => Q ("<!--" ++ remark ++ "-->")
  | .filter name input options => ∀ f, w.filters.find? name = some f → Q (f input options)
  | _ => True

/-- The pieces that a job writes at once are of a kind. -/
def Job.Writes (w : RenderSetting) (Q : String → Prop) : Job → Prop
  | .node n => n.Writes w Q
  | .passes _ _ _ _ _ _ => True
  | .endTag name _ => Q ("</" ++ name ++ ">")

theorem Job.Writes.mono {w : RenderSetting} {Q Q' : String → Prop} (h : ∀ piece, Q piece → Q' piece)
    {j : Job} (hj : j.Writes w Q) : j.Writes w Q' := by
  cases j with
  | node n =>
    cases n with
    | doctype name => exact h _ hj
    | tag name attributes selfClosing children =>
      exact ⟨fun vars text htext => h _ (hj.1 vars text htext), h _ hj.2.1, h _ hj.2.2⟩
    | text spans => exact fun vars text htext => h _ (hj vars text htext)
    | output e escaped => exact fun v => h _ (hj v)
    | comment remark => exact h _ hj
    | filter name input options => exact fun f hf => h _ (hj f hf)
    | _ => trivial
  | passes item key length body index entries => trivial
  | endTag name outer => exact h _ hj

theorem Job.writes_true (w : RenderSetting) (j : Job) : j.Writes w fun _ => True := by
  cases j with
  | node n => cases n <;> simp [Job.Writes, Node.Writes]
  | _ => trivial

namespace Preserves

variable {I : String → Prop} {α β : Type} {callers : List Caller}

/-- What leaves the output alone. -/
theorem still {r : Rendering α} (h : ∀ s, (r.after s).sink = s.sink) : Preserves I r where
  preserves s hs := by
    rw [h s]
    exact hs

theorem result (a : α) : Preserves I (pure a) := still fun _ => rfl

theorem fail (e : RenderFault) : Preserves (α := α) I (throw e) := still fun _ => rfl

theorem bind {r : Rendering α} {k : α → Rendering β} (h : Preserves I r)
    (hk : ∀ a, Preserves I (k a)) : Preserves I (r >>= k) where
  preserves s hs := by
    have hfirst := h.preserves s hs
    unfold Rendering.after at hfirst
    cases hr : r s with
    | ok a t =>
      rw [hr] at hfirst
      rw [after_bind_of_ok hr]
      exact (hk a).preserves t hfirst
    | error e t =>
      rw [hr] at hfirst
      rw [after_bind_of_error hr]
      exact hfirst

/-- What goes on with the outcome of an evaluation that succeeded. -/
theorem ask_bind {f : (String → Value) → Except ExpressionError α} {k : α → Rendering β}
    (hk : ∀ vars a, f vars = .ok a → Preserves I (k a)) : Preserves I (ask f >>= k) where
  preserves s hs := by
    cases hf : f s.scope.get with
    | ok a =>
      have hask : Rendering.ask f s = .ok a s := by simp only [Rendering.ask, hf]
      rw [after_bind_of_ok hask]
      exact (hk _ a hf).preserves s hs
    | error e =>
      have hask : Rendering.ask f s = .error (.failed e) s := by simp only [Rendering.ask, hf]
      rw [after_bind_of_error hask]
      exact hs

theorem ask (f : (String → Value) → Except ExpressionError α) : Preserves I (Rendering.ask f) := by
  refine still fun s => ?_
  unfold Rendering.after Rendering.ask
  cases f s.scope.get <;> rfl

theorem change {f : RenderState → RenderState} (h : ∀ s, (f s).sink = s.sink) :
    Preserves I (modify f) := still h

theorem state : Preserves I (get : Rendering RenderState) := still fun _ => rfl

/-- A piece is taken whole, or the text is left as it was. -/
theorem write {piece : String} (h : Absorbs I piece) : Preserves I (Rendering.write piece) where
  preserves s hs := by
    unfold Rendering.after Rendering.write
    by_cases hpiece : piece.isEmpty = true
    · rw [if_pos hpiece]
      exact hs
    · rw [if_neg hpiece]
      have htext : I (s.sink.offer piece).2.text := by
        rcases s.sink.text_offer piece with heq | heq <;> rw [heq]
        · exact h _ hs
        · exact hs
      cases hoffer : s.sink.offer piece with
      | mk taken sink =>
        rw [hoffer] at htext
        cases taken <;> exact htext

theorem plain {r : Rendering Unit} (h : Preserves I r) : Preserves I (Opening.plain callers r) :=
  h.bind fun _ => result _

theorem inside {enter : RenderState → RenderState} {ts : List Task} {us : List Undo}
    {js : List Job} {inner : List Caller} (h : ∀ s, (enter s).sink = s.sink) :
    Preserves I (Opening.inside enter ts us js inner) :=
  (change h).bind fun _ => result _

theorem newline (pretty : Bool) (h : ∀ indent, Absorbs I (lineStart indent)) :
    Preserves I (Rendering.newline pretty) := by
  refine state.bind fun s => ?_
  split
  · exact write (h _)
  · exact result ()

theorem setBlockEmitted (f : RenderState → Bool) :
    Preserves I (modify fun s => { s with blockEmitted := f s }) := change fun _ => rfl

end Preserves

section
variable {I : String → Prop} {w : RenderSetting} {callers : List Caller}

theorem preserves_chosenBranch (otherwise : Option (List Node)) (branches : List Branch) :
    Preserves I (chosenBranch otherwise branches) := by
  induction branches with
  | nil => exact .result _
  | cons branch rest ih =>
    obtain ⟨test, negated, body⟩ := branch
    refine (Preserves.ask _).bind fun v => ?_
    split
    · exact .result body
    · exact ih

theorem preserves_chosenAlternative (subject : Value) (default : Option (List Node))
    (whens : List When) : Preserves I (chosenAlternative subject default whens) := by
  induction whens with
  | nil => exact .result _
  | cons alternative rest ih =>
    obtain ⟨value, body⟩ := alternative
    refine (Preserves.ask _).bind fun v => ?_
    split
    · exact .result body
    · exact ih

variable (hline : ∀ indent, Absorbs I (lineStart indent))
include hline

theorem preserves_nodeOpening {n : Node} (h : n.Writes w (Absorbs I)) :
    Preserves I (n.opening w callers) := by
  cases n with
  | doctype name =>
    exact .plain ((Preserves.newline _ hline).bind fun _ => (Preserves.write h).bind fun _ =>
      .setBlockEmitted _)
  | tag name attributes selfClosing children =>
    obtain ⟨hbegin, hclose, hend⟩ := h
    have hopen : Preserves I (do
        let text ← ask fun vars => attributesText w.mode vars attributes
        write ("<" ++ name ++ text)) :=
      .ask_bind fun vars text htext => .write (hbegin vars text htext)
    have hbegin : Preserves I (beginTag w name attributes) := by
      unfold beginTag
      dsimp only
      split
      · exact hopen
      · exact (Preserves.newline _ hline).bind fun _ => hopen
    refine hbegin.bind fun _ => ?_
    split
    · exact .plain ((Preserves.write hclose).bind fun _ => .setBlockEmitted _)
    · refine Preserves.bind ?_ fun outer => .inside fun _ => rfl
      exact (Preserves.write hend).bind fun _ => Preserves.state.bind fun s =>
        (Preserves.setBlockEmitted _).bind fun _ => .result _
  | text spans => exact .ask_bind fun vars text htext => .plain (.write (h vars text htext))
  | output e escaped => exact .ask_bind fun _ v _ => .plain (.write (h v))
  | assign name e => exact .ask_bind fun _ v _ => .plain (.change fun _ => rfl)
  | cond branches otherwise =>
    exact (preserves_chosenBranch otherwise branches).bind fun _ => .result _
  | each item key collection body fallback =>
    refine (Preserves.ask _).bind fun v => ?_
    cases v.iterate? with
    | none => exact .fail _
    | some items =>
      cases items with
      | nil => exact .result _
      | cons entry rest => exact .result _
  | caseOf subject whens default =>
    exact (Preserves.ask _).bind fun v =>
      (preserves_chosenAlternative v default whens).bind fun _ => .result _
  | comment remark =>
    exact .plain ((Preserves.newline _ hline).bind fun _ => (Preserves.write h).bind fun _ =>
      .setBlockEmitted _)
  | mixin m => exact .result _
  | call name arguments body =>
    refine (Preserves.still fun _ => rfl).bind fun depth => ?_
    cases w.mixins.find? name with
    | none => exact .fail _
    | some m =>
      dsimp only
      split
      · exact (Preserves.ask _).bind fun bindings => .inside fun _ => rfl
      · exact .fail _
  | content =>
    match callers with
    | [] => exact .result _
    | ⟨none, depth⟩ :: outer => exact .result _
    | ⟨some body, depth⟩ :: outer =>
      exact Preserves.state.bind fun s => .inside fun _ => rfl
  | block name mode children => exact .result _
  | filter name input options =>
    unfold Node.opening
    dsimp only
    cases hfind : w.filters.find? name with
    | none => exact .fail _
    | some f => exact .plain (.write (h f hfind))

/-- What a job writes leaves in force what its pieces leave in force. -/
theorem preserves_opening {j : Job} (h : j.Writes w (Absorbs I)) :
    Preserves I (j.opening w callers) := by
  cases j with
  | node n => exact preserves_nodeOpening hline h
  | passes item key length body index entries =>
    cases entries with
    | nil => exact .result _
    | cons entry rest => exact .inside fun _ => rfl
  | endTag name outer =>
    refine .plain (Preserves.state.bind fun s => ?_)
    have hend : Preserves I (do
        write ("</" ++ name ++ ">")
        modify fun s => { s with blockEmitted := outer || !isInline name }) :=
      (Preserves.write h).bind fun _ => .setBlockEmitted _
    split
    · exact (Preserves.newline _ hline).bind fun _ => hend
    · exact hend

/-- **What holds of the output holds after a step**, if the pieces of the next job leave it in
force. -/
theorem Machine.text_step {m next : Machine} (h : m.step w = some next) (hm : I m.state.sink.text)
    (hwrites : ∀ j rest, m.tasks = .work j :: rest → j.Writes w (Absorbs I)) :
    I next.state.sink.text := by
  rcases Machine.step_cases h with ⟨u, rest, htasks, rfl⟩ | ⟨j, rest, e, htasks, -, rfl⟩ |
    ⟨j, rest, htasks, -, hdone⟩
  · have hsink : (u.state m.state).sink = m.state.sink := by cases u <;> rfl
    show I (u.state m.state).sink.text
    rw [hsink]
    exact hm
  · exact hm
  · have hopen : Preserves I (j.opening w m.callers) :=
      preserves_opening hline (hwrites j rest htasks)
    have hafter := hopen.preserves _ hm
    unfold Rendering.after at hafter
    rcases hdone with ⟨first, hopening, -, -⟩ | ⟨e, hopening, -, -, -⟩
    · rwa [hopening] at hafter
    · rwa [hopening] at hafter

end

end Trellis
