import Trellis.Document.Inheritance
import Trellis.Render.Nodes

/-!
# `Trellis.Proofs.LateBlocks`: overriding blocks when they are reached

A template that extends another one overrides blocks by a walk over the nodes of the other
template, before anything is rendered. The renderer of this module overrides blocks late:
it goes over the nodes as they were, with the overrides in force beside them, and looks a
block up when it reaches it. What comes in for a block is rendered with no overrides in
force. What a mixin is called with is rendered under the overrides of the place of the
call, and the body of a mixin under those that `bodies` gives for its name.

`lateNode_eq` says that both renderers do the same. It follows the recursion of the late
one. The bodies of mixins come from the table of mixins, which the walk leaves alone, so
it needs that `bodies` gives no override to a block inside such a body.

For a template that extends another one this is `render_extend`. Wherever a block stands
in the nodes of the other template, and wherever these are rendered, what is rendered is
what overrides it. Inside the body of a mixin no override is in force, whether the mixin
comes from the other template or not: `render_block_in_mixin` is such a case.
-/

set_option autoImplicit false

namespace Trellis

open Markup Rendering

/-! ### Overriding nothing -/

section
variable {os : List Override}

/-- None of some blocks is overridden. -/
def Untouched (os blocks : List Override) : Prop := ∀ b ∈ blocks, findOverride? os b.name = none

theorem Untouched.left {bs cs : List Override} (h : Untouched os (bs ++ cs)) : Untouched os bs :=
  fun b hb => h b (List.mem_append_left _ hb)

theorem Untouched.right {bs cs : List Override} (h : Untouched os (bs ++ cs)) : Untouched os cs :=
  fun b hb => h b (List.mem_append_right _ hb)

mutual

/-- A node of which no block is overridden stays as it is. -/
theorem Node.override_eq_self : ∀ n : Node, Untouched os n.blocks → n.override os = n
  | .tag name attributes selfClosing children, h => by
    rw [Node.override, overrideAll_eq_self children h]
  | .cond branches otherwise, h => by
    rw [Node.override, overrideBranches_eq_self branches h.left,
      overrideOption_eq_self otherwise h.right]
  | .each item key collection body fallback, h => by
    rw [Node.override, overrideAll_eq_self body h.left, overrideOption_eq_self fallback h.right]
  | .caseOf subject whens default, h => by
    rw [Node.override, overrideWhens_eq_self whens h.left, overrideOption_eq_self default h.right]
  | .mixin ⟨name, parameters, rest, body⟩, h => by
    rw [Node.override, overrideAll_eq_self body h]
  | .call name arguments body, h => by
    rw [Node.override, overrideOption_eq_self body h]
  | .block name mode children, h => by
    have hname : findOverride? os name = none := h _ List.mem_cons_self
    have hchildren : Untouched os (blocksOf children) :=
      fun b hb => h b (List.mem_cons_of_mem _ hb)
    rw [Node.override, overrideAll_eq_self children hchildren, hname]
  | .doctype _, _ => rfl
  | .text _, _ => rfl
  | .output _ _, _ => rfl
  | .assign _ _, _ => rfl
  | .comment _, _ => rfl
  | .content, _ => rfl
  | .filter _ _ _, _ => rfl

theorem overrideAll_eq_self : ∀ ns : List Node,
    Untouched os (blocksOf ns) → overrideAll os ns = ns
  | [], _ => rfl
  | n :: ns, h => by
    rw [overrideAll, n.override_eq_self h.left, overrideAll_eq_self ns h.right]

theorem overrideOption_eq_self : ∀ ns : Option (List Node),
    Untouched os (optionBlocks ns) → overrideOption os ns = ns
  | none, _ => rfl
  | some ns, h => by rw [overrideOption, overrideAll_eq_self ns h]

theorem overrideBranches_eq_self : ∀ bs : List Branch,
    Untouched os (branchBlocks bs) → overrideBranches os bs = bs
  | [], _ => rfl
  | ⟨test, negated, body⟩ :: rest, h => by
    rw [overrideBranches, overrideAll_eq_self body h.left, overrideBranches_eq_self rest h.right]

theorem overrideWhens_eq_self : ∀ ws : List When,
    Untouched os (whenBlocks ws) → overrideWhens os ws = ws
  | [], _ => rfl
  | ⟨value, body⟩ :: rest, h => by
    rw [overrideWhens, overrideAll_eq_self body h.left, overrideWhens_eq_self rest h.right]

end

/-- Without overrides everything stays as it is. -/
theorem overrideAll_nil (ns : List Node) : overrideAll [] ns = ns :=
  overrideAll_eq_self ns fun _ _ => rfl

end

/-! ### The renderer -/

/-- A call under way in the late renderer: its content, the overrides in force at its place,
and the number of frames there. -/
structure LateCaller where
  body : Option (List Node)
  overrides : List Override
  depth : Nat

/-- The call as the other renderer has it, with its content overridden. -/
def LateCaller.settle (c : LateCaller) : Caller := ⟨overrideOption c.overrides c.body, c.depth⟩

/-- The calls under way, the innermost first. -/
structure LateStack where
  callers : List LateCaller
  bounded : callers.length ≤ maxCallDepth

namespace LateStack

/-- No call is under way. -/
def empty : LateStack := ⟨[], Nat.zero_le _⟩

/-- The stack with one more call, if there may be one more. -/
def push? (s : LateStack) (c : LateCaller) : Option LateStack :=
  if h : s.callers.length < maxCallDepth then some ⟨c :: s.callers, h⟩ else none

/-- The innermost call and the stack at its place. -/
def pop? : LateStack → Option (LateCaller × LateStack)
  | ⟨[], _⟩ => none
  | ⟨c :: rest, h⟩ => some (c, ⟨rest, Nat.le_of_succ_le h⟩)

/-- The stack as the other renderer has it. -/
def settle (s : LateStack) : CallStack :=
  ⟨s.callers.map LateCaller.settle, by simpa using s.bounded⟩

theorem settle_push? (s : LateStack) (c : LateCaller) :
    s.settle.push? c.settle = (s.push? c).map settle := by
  unfold push? CallStack.push?
  by_cases h : s.callers.length < maxCallDepth
  · have h' : s.settle.callers.length < maxCallDepth := by simpa [settle] using h
    rw [dif_pos h, dif_pos h']
    rfl
  · have h' : ¬ s.settle.callers.length < maxCallDepth := by simpa [settle] using h
    rw [dif_neg h, dif_neg h']
    rfl

theorem settle_pop? (s : LateStack) :
    s.settle.pop? = s.pop?.map fun p => (p.1.settle, p.2.settle) := by
  obtain ⟨callers, h⟩ := s
  cases callers with
  | nil => rfl
  | cons c rest => rfl

theorem rank_push {s t : LateStack} {c : LateCaller} {m n : Nat} (h : s.push? c = some t)
    (hn : sizeOf (overrideOption c.overrides c.body) < n) :
    WellFoundedRelation.rel (t.settle.rank m) (s.settle.rank n) := by
  refine CallStack.rank_push (c := c.settle) ?_ hn
  rw [settle_push?, h]
  rfl

theorem rank_pop {s t : LateStack} {c : LateCaller} {m n : Nat} (h : s.pop? = some (c, t))
    (hm : m ≤ sizeOf (overrideOption c.overrides c.body)) :
    WellFoundedRelation.rel (t.settle.rank m) (s.settle.rank n) := by
  refine CallStack.rank_pop (c := c.settle) ?_ hm
  rw [settle_pop?, h]
  rfl

end LateStack

theorem sizeOf_le_append_left (xs ys : List Node) : sizeOf xs ≤ sizeOf (xs ++ ys) := by
  induction xs with
  | nil => cases ys <;> simp +arith
  | cons x xs ih => simp; omega

theorem sizeOf_le_append_right (xs ys : List Node) : sizeOf ys ≤ sizeOf (xs ++ ys) := by
  induction xs with
  | nil => simp
  | cons x xs ih => simp; omega

/-- Both parts of an overridden block are smaller than it. -/
theorem sizeOf_block {os : List Override} {name : String} {mode : BlockMode}
    {children : List Node} {o : Override} (h : findOverride? os name = some o) :
    (o.mode ≠ .replace →
      sizeOf (overrideAll os children) < sizeOf ((Node.block name mode children).override os)) ∧
    sizeOf (overrideAll [] o.content) < sizeOf ((Node.block name mode children).override os) := by
  obtain ⟨oname, omode, content⟩ := o
  simp only [Node.override, h, overrideAll_nil, Override.combine]
  have hl := sizeOf_le_append_left
  have hr := sizeOf_le_append_right
  cases omode with
  | replace => simp +arith
  | append =>
    have := hl (overrideAll os children) content
    have := hr (overrideAll os children) content
    simp
    omega
  | prepend =>
    have := hl content (overrideAll os children)
    have := hr content (overrideAll os children)
    simp
    omega

mutual

/-- Renders one node, with `os` in force. -/
def lateNode (w : RenderSetting) (bodies : String → List Override) (os : List Override)
    (cs : LateStack) (n : Node) : Rendering Unit :=
  match n with
  | .tag name attributes selfClosing children =>
    writeTag w name attributes selfClosing
      (closesAtOnce w.mode name selfClosing (overrideAll os children))
      (lateNodes w bodies os cs children)
  | .cond branches otherwise => lateCond w bodies os cs branches otherwise
  | .each item key collection body fallback => do
    let v ← evaluate collection
    match v.iterate? with
    | none => throw (.notIterable v.typeName collection.source)
    | some [] => lateOptional w bodies os cs fallback
    | some items => runLoop item key items.length (lateNodes w bodies os cs body) 0 items
  | .caseOf subject whens default => do
    let v ← evaluate subject
    lateCase w bodies os cs v whens default
  | .call name arguments body => do
    let depth ← depth
    match w.mixins.find? name with
    | none => throw (.unknownMixin name)
    | some m =>
      match _ : cs.push? ⟨body, os, depth⟩ with
      | none => throw (.tooDeep name)
      | some inner => do
        let bindings ← ask (m.bind arguments)
        underFrame bindings (lateNodes w bodies (bodies name) inner m.body)
  | .content =>
    match _ : cs.pop? with
    | none => pure ()
    | some (⟨none, _, _⟩, _) => pure ()
    | some (⟨some body, os, depth⟩, outer) => atDepth depth (lateNodes w bodies os outer body)
  | .block name _ children =>
    match _ : findOverride? os name with
    | none => lateNodes w bodies os cs children
    | some ⟨_, .replace, content⟩ => lateNodes w bodies [] cs content
    | some ⟨_, .append, content⟩ => do
      lateNodes w bodies os cs children
      lateNodes w bodies [] cs content
    | some ⟨_, .prepend, content⟩ => do
      lateNodes w bodies [] cs content
      lateNodes w bodies os cs children
  | n => renderNode w cs.settle n
termination_by cs.settle.rank (sizeOf (n.override os))
decreasing_by
  · exact CallStack.rank_smaller (by simp +arith [Node.override])
  · exact CallStack.rank_smaller (by simp +arith [Node.override])
  · exact CallStack.rank_smaller (by simp +arith [Node.override])
  · exact CallStack.rank_smaller (by simp +arith [Node.override])
  · exact CallStack.rank_smaller (by simp +arith [Node.override])
  · exact LateStack.rank_push ‹_› (by simp +arith [Node.override])
  · exact LateStack.rank_pop ‹_› (by simp +arith [overrideOption])
  · exact CallStack.rank_smaller (by simp +arith [Node.override, *])
  · exact CallStack.rank_smaller (sizeOf_block ‹_›).2
  · exact CallStack.rank_smaller ((sizeOf_block ‹_›).1 (by simp))
  · exact CallStack.rank_smaller (sizeOf_block ‹_›).2
  · exact CallStack.rank_smaller (sizeOf_block ‹_›).2
  · exact CallStack.rank_smaller ((sizeOf_block ‹_›).1 (by simp))

/-- Renders nodes one after the other. -/
def lateNodes (w : RenderSetting) (bodies : String → List Override) (os : List Override)
    (cs : LateStack) (ns : List Node) : Rendering Unit :=
  match ns with
  | [] => pure ()
  | n :: rest => do
    lateNode w bodies os cs n
    lateNodes w bodies os cs rest
termination_by cs.settle.rank (sizeOf (overrideAll os ns))
decreasing_by
  all_goals exact CallStack.rank_smaller (by simp +arith [overrideAll])

/-- Renders nodes that may be missing. -/
def lateOptional (w : RenderSetting) (bodies : String → List Override) (os : List Override)
    (cs : LateStack) (ns : Option (List Node)) : Rendering Unit :=
  match ns with
  | none => pure ()
  | some ns => lateNodes w bodies os cs ns
termination_by cs.settle.rank (sizeOf (overrideOption os ns))
decreasing_by
  all_goals exact CallStack.rank_smaller (by simp +arith [overrideOption])

/-- Renders the first branch whose test comes out as it should, else the last part. -/
def lateCond (w : RenderSetting) (bodies : String → List Override) (os : List Override)
    (cs : LateStack) (branches : List Branch) (otherwise : Option (List Node)) :
    Rendering Unit :=
  match branches with
  | [] => lateOptional w bodies os cs otherwise
  | ⟨test, negated, body⟩ :: rest => do
    let v ← evaluate test
    if v.isTruthy != negated then lateNodes w bodies os cs body
    else lateCond w bodies os cs rest otherwise
termination_by cs.settle.rank
  (sizeOf (overrideBranches os branches) + sizeOf (overrideOption os otherwise))
decreasing_by
  all_goals exact CallStack.rank_smaller (by simp +arith [overrideBranches])

/-- Renders the first alternative whose value is the subject's, else the default. -/
def lateCase (w : RenderSetting) (bodies : String → List Override) (os : List Override)
    (cs : LateStack) (subject : Value) (whens : List When) (default : Option (List Node)) :
    Rendering Unit :=
  match whens with
  | [] => lateOptional w bodies os cs default
  | ⟨value, body⟩ :: rest => do
    let v ← evaluate value
    if subject.looseSame v then lateNodes w bodies os cs body
    else lateCase w bodies os cs subject rest default
termination_by cs.settle.rank
  (sizeOf (overrideWhens os whens) + sizeOf (overrideOption os default))
decreasing_by
  all_goals exact CallStack.rank_smaller (by simp +arith [overrideWhens])

end

/-! ### Both renderers do the same -/

/-- Nodes behind others are rendered behind them. -/
theorem renderNodes_append (w : RenderSetting) (cs : CallStack) (ns more : List Node) :
    renderNodes w cs (ns ++ more) = (do renderNodes w cs ns; renderNodes w cs more) := by
  induction ns with
  | nil =>
    rw [List.nil_append, renderNodes, pure_bind]
  | cons n rest ih =>
    rw [List.cons_append, renderNodes, renderNodes, ih, bind_assoc]

section
variable {w : RenderSetting} {bodies : String → List Override}
  (hbodies : ∀ name m, w.mixins.find? name = some m → overrideAll (bodies name) m.body = m.body)
include hbodies

set_option linter.unusedSectionVars false in
mutual

/-- **The late renderer does what the other one does with overridden nodes**, one statement
for each of its functions. -/
theorem lateNode_eq (os : List Override) (cs : LateStack) (n : Node) :
    lateNode w bodies os cs n = renderNode w cs.settle (n.override os) := by
  cases n with
  | tag name attributes selfClosing children =>
    rw [lateNode, Node.override, renderNode, lateNodes_eq os cs children]
  | cond branches otherwise =>
    rw [lateNode, Node.override, renderNode, lateCond_eq os cs branches otherwise]
  | each item key collection body fallback =>
    -- What is gone over is the same; only the two parts to be rendered differ.
    rw [lateNode, Node.override, renderNode]
    congr 1
    funext v
    cases v.iterate? with
    | none => rfl
    | some items =>
      cases items with
      | nil => exact lateOptional_eq os cs fallback
      | cons first rest =>
        have hbody := lateNodes_eq os cs body
        dsimp only
        rw [hbody]
  | caseOf subject whens default =>
    rw [lateNode, Node.override, renderNode]
    congr 1
    funext v
    exact lateCase_eq os cs v whens default
  | call name arguments body =>
    rw [lateNode, Node.override, renderNode]
    congr 1
    funext depth
    cases hm : w.mixins.find? name with
    | none => rfl
    | some m =>
      -- Both stacks have room for the call or neither has.
      have hpush := cs.settle_push? ⟨body, os, depth⟩
      rw [LateCaller.settle] at hpush
      dsimp only
      split
      · next hnone =>
        rw [hnone] at hpush
        split
        · rfl
        · next hsome => rw [hsome] at hpush; cases hpush
      · next inner hsome =>
        rw [hsome] at hpush
        split
        · next hnone => rw [hnone] at hpush; cases hpush
        · next hsome' =>
          cases hsome'.symm.trans hpush
          -- The body comes from the table of mixins, so nothing has overridden it.
          rw [lateNodes_eq (bodies name) inner m.body, hbodies name m hm]
  | content =>
    -- The innermost call has no content, or its content is overridden as at its place.
    have hpop := cs.settle_pop?
    change _ = renderNode w cs.settle .content
    rw [lateNode, renderNode]
    split
    · next hnone =>
      rw [hnone] at hpop
      split
      · rfl
      · rfl
      · next hsome => rw [hsome] at hpop; cases hpop
    · next hempty =>
      rw [hempty] at hpop
      split
      · rfl
      · rfl
      · next hsome => rw [hsome] at hpop; cases hpop
    · next body os' depth outer hsome =>
      rw [hsome] at hpop
      split
      · next hnone => rw [hnone] at hpop; cases hpop
      · next hempty => rw [hempty] at hpop; cases hpop
      · next hsome' =>
        cases hsome'.symm.trans hpop
        rw [lateNodes_eq os' outer body]
  | block name mode children =>
    -- What comes in for the block has no overrides left, and its order is that of the mode.
    rw [lateNode]
    split
    · next hnone =>
      rw [Node.override, hnone, renderNode, lateNodes_eq os cs children]
    · next hsome =>
      rw [Node.override, hsome, renderNode, lateNodes_eq [] cs, overrideAll_nil]
      rfl
    · next content hsome =>
      rw [Node.override, hsome, renderNode, lateNodes_eq os cs children, lateNodes_eq [] cs content,
        overrideAll_nil]
      exact (renderNodes_append w cs.settle _ _).symm
    · next content hsome =>
      rw [Node.override, hsome, renderNode, lateNodes_eq os cs children, lateNodes_eq [] cs content,
        overrideAll_nil]
      exact (renderNodes_append w cs.settle _ _).symm
  | doctype name => simp only [lateNode, Node.override]
  | text spans => simp only [lateNode, Node.override]
  | output e escaped => simp only [lateNode, Node.override]
  | assign name e => simp only [lateNode, Node.override]
  | comment text => simp only [lateNode, Node.override]
  | mixin m =>
    obtain ⟨name, parameters, rest, body⟩ := m
    simp only [lateNode, Node.override, renderNode]
  | filter name content options => simp only [lateNode, Node.override]
termination_by cs.settle.rank (sizeOf (n.override os))
decreasing_by
  · exact CallStack.rank_smaller (by simp +arith [Node.override])
  · exact CallStack.rank_smaller (by simp +arith [Node.override])
  · exact CallStack.rank_smaller (by simp +arith [Node.override])
  · exact CallStack.rank_smaller (by simp +arith [Node.override])
  · exact CallStack.rank_smaller (by simp +arith [Node.override])
  · exact LateStack.rank_push ‹_› (by simp +arith [Node.override])
  · exact LateStack.rank_pop ‹_› (by simp +arith [overrideOption])
  · exact CallStack.rank_smaller (by simp +arith [Node.override, ‹findOverride? _ _ = none›])
  · exact CallStack.rank_smaller (sizeOf_block ‹_›).2
  · exact CallStack.rank_smaller ((sizeOf_block ‹_›).1 (by simp))
  · exact CallStack.rank_smaller (sizeOf_block ‹_›).2
  · exact CallStack.rank_smaller ((sizeOf_block ‹_›).1 (by simp))
  · exact CallStack.rank_smaller (sizeOf_block ‹_›).2

theorem lateNodes_eq (os : List Override) (cs : LateStack) (ns : List Node) :
    lateNodes w bodies os cs ns = renderNodes w cs.settle (overrideAll os ns) := by
  cases ns with
  | nil => rw [lateNodes, overrideAll, renderNodes]
  | cons n rest =>
    rw [lateNodes, overrideAll, renderNodes, lateNode_eq os cs n, lateNodes_eq os cs rest]
termination_by cs.settle.rank (sizeOf (overrideAll os ns))
decreasing_by
  all_goals exact CallStack.rank_smaller (by simp +arith [overrideAll])

theorem lateOptional_eq (os : List Override) (cs : LateStack) (ns : Option (List Node)) :
    lateOptional w bodies os cs ns = renderOptional w cs.settle (overrideOption os ns) := by
  cases ns with
  | none => rw [lateOptional, overrideOption, renderOptional]
  | some ns => rw [lateOptional, overrideOption, renderOptional, lateNodes_eq os cs ns]
termination_by cs.settle.rank (sizeOf (overrideOption os ns))
decreasing_by
  all_goals exact CallStack.rank_smaller (by simp +arith [overrideOption])

theorem lateCond_eq (os : List Override) (cs : LateStack) (branches : List Branch)
    (otherwise : Option (List Node)) :
    lateCond w bodies os cs branches otherwise =
      renderCond w cs.settle (overrideBranches os branches) (overrideOption os otherwise) := by
  cases branches with
  | nil => rw [lateCond, overrideBranches, renderCond, lateOptional_eq os cs otherwise]
  | cons branch rest =>
    obtain ⟨test, negated, body⟩ := branch
    rw [lateCond, overrideBranches, renderCond, lateNodes_eq os cs body,
      lateCond_eq os cs rest otherwise]
termination_by cs.settle.rank
  (sizeOf (overrideBranches os branches) + sizeOf (overrideOption os otherwise))
decreasing_by
  all_goals exact CallStack.rank_smaller (by simp +arith [overrideBranches])

theorem lateCase_eq (os : List Override) (cs : LateStack) (subject : Value) (whens : List When)
    (default : Option (List Node)) :
    lateCase w bodies os cs subject whens default =
      renderCase w cs.settle subject (overrideWhens os whens) (overrideOption os default) := by
  cases whens with
  | nil => rw [lateCase, overrideWhens, renderCase, lateOptional_eq os cs default]
  | cons alternative rest =>
    obtain ⟨value, body⟩ := alternative
    rw [lateCase, overrideWhens, renderCase, lateNodes_eq os cs body,
      lateCase_eq os cs subject rest default]
termination_by cs.settle.rank
  (sizeOf (overrideWhens os whens) + sizeOf (overrideOption os default))
decreasing_by
  all_goals exact CallStack.rank_smaller (by simp +arith [overrideWhens])

end

end

/-! ### Templates that extend others -/

/-- Renders nodes with some variables into a sink, with `os` in force. -/
def lateRender (w : RenderSetting) (bodies : String → List Override) (os : List Override)
    (nodes : List Node) (vars : Variables) (sink : Sink) : Except RenderFault Unit × Sink :=
  match lateNodes w bodies os .empty nodes ⟨.start vars, sink, 0, false, false⟩ with
  | .ok _ s => (.ok (), s.sink)
  | .error fault s => (.error fault, s.sink)

theorem lateRender_eq {w : RenderSetting} {bodies : String → List Override}
    (hbodies : ∀ name m, w.mixins.find? name = some m → overrideAll (bodies name) m.body = m.body)
    (os : List Override) (nodes : List Node) (vars : Variables) (sink : Sink) :
    lateRender w bodies os nodes vars sink = render w (overrideAll os nodes) vars sink := by
  rw [lateRender, render, lateNodes_eq hbodies os .empty nodes]
  rfl

/-- No override is in force in the body of a mixin. -/
def plainBodies : String → List Override := fun _ => []

/-- The overrides are in force in the bodies of mixins, those of the given table apart. -/
def inheritedBodies (own : Table Mixin) (os : List Override) : String → List Override :=
  fun name => if own.has name then [] else os

section
variable {w : RenderSetting} {bodies : String → List Override} {os : List Override}
  {cs : LateStack} {name : String} {mode : BlockMode} {children : List Node}

/-- A block whose content is replaced is rendered as what replaces it. -/
theorem lateNode_block_of_replace {other : String} {content : List Node}
    (h : findOverride? os name = some ⟨other, .replace, content⟩) :
    lateNode w bodies os cs (.block name mode children) = lateNodes w bodies [] cs content := by
  rw [lateNode]
  split
  · next hnone => rw [hnone] at h; cases h
  · next hsome => rw [hsome] at h; cases h; rfl
  · next hsome => rw [hsome] at h; cases h
  · next hsome => rw [hsome] at h; cases h

/-- A block that is not overridden is rendered as its own content. -/
theorem lateNode_block_of_none (h : findOverride? os name = none) :
    lateNode w bodies os cs (.block name mode children) = lateNodes w bodies os cs children := by
  rw [lateNode]
  split
  · rfl
  · next hsome => rw [hsome] at h; cases h
  · next hsome => rw [hsome] at h; cases h
  · next hsome => rw [hsome] at h; cases h

end

/-- Rendering a document under the blocks and mixins of a template that extends it:

- the overriding blocks come in wherever a block of the document is reached, but none of
  them is in force in the body of a mixin;
- they would be in force there, too, without making a difference, if no block in the body of
  a mixin that the document brings along is overridden;
- a block whose content is replaced is rendered as what replaces it, where the override is in
  force, and as its own content where none is. -/
theorem render_extend (base : Document) (nodes : List Node) (mixins : Table Mixin)
    (filters : Table Filter) (mode : Mode) (pretty : Bool) (vars : Variables) (sink : Sink) :
    let d := base.extend nodes mixins
    let w : RenderSetting := ⟨d.mixins, filters, mode, pretty⟩
    let os := blocksOf nodes
    render w d.nodes vars sink = lateRender w plainBodies os base.nodes vars sink ∧
    ((∀ name m, d.mixins.find? name = some m → mixins.has name = false →
        Untouched os (blocksOf m.body)) →
      render w d.nodes vars sink =
        lateRender w (inheritedBodies mixins os) os base.nodes vars sink) ∧
    (∀ n B, findOverride? os n = some ⟨n, .replace, B⟩ → ∀ bodies cs blockMode children,
      lateNode w bodies os cs (.block n blockMode children) = lateNodes w bodies [] cs B ∧
      lateNode w bodies [] cs (.block n blockMode children) =
        lateNodes w bodies [] cs children) := by
  intro d w os
  refine ⟨?_, ?_, ?_⟩
  · -- Without overrides in the bodies of mixins nothing is asked of those bodies.
    have hplain : ∀ name m, w.mixins.find? name = some m →
        overrideAll (plainBodies name) m.body = m.body := fun _ m _ => overrideAll_nil m.body
    rw [lateRender_eq hplain]
    rfl
  · intro huntouched
    rw [lateRender_eq]
    · rfl
    · intro name m hm
      rw [inheritedBodies]
      -- A mixin of the deriving template is not under the overrides in the first place.
      split
      · exact overrideAll_nil m.body
      · next hown => exact overrideAll_eq_self m.body (huntouched name m hm (by simpa using hown))
  · intro n B hB bodies cs blockMode children
    exact ⟨lateNode_block_of_replace hB, lateNode_block_of_none rfl⟩

/-- A base template calls a mixin with a block in its body. The block is replaced, but what
is rendered is still what the base says. -/
theorem render_block_in_mixin :
    let m : Mixin := ⟨"m", [], none, [.block "n" .replace [.text [.literal "A"]]]⟩
    let base : Document := ⟨[.mixin m, .call "m" [] none], [("m", m)]⟩
    let d := base.extend [.block "n" .replace [.text [.literal "B"]]] []
    (render ⟨d.mixins, [], .html, false⟩ d.nodes [] .unlimited).2.text = "A" := by
  intro m base d
  have hnodes : d.nodes = [.mixin { m with body := [.block "n" .replace [.text [.literal "B"]]] },
      .call "m" [] none] := by
    simp [d, base, m, Document.extend, overrideAll, Node.override, overrideOption, blocksOf,
      Node.blocks, findOverride?, Override.combine]
  -- The node has the override, the table of mixins has not.
  have hmixins : d.mixins = [("m", m)] := rfl
  rw [hnodes, hmixins]
  simp [render, renderNodes, renderNode, m, Table.find?, CallStack.push?, CallStack.empty,
    maxCallDepth]
  rfl

end Trellis
