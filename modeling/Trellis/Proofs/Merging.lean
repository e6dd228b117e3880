import Mathlib
import Trellis.Proofs.Chain
import Trellis.Proofs.LateBlocks
import Trellis.Proofs.Places

/-!
# `Trellis.Proofs.Merging`: what a chain of templates makes of a block

A template that extends another one declares blocks, and what it extends has places for
them. Along a chain of templates the content of a place is settled once by every template:
it is replaced, it grows at one of its ends, or it stays.

`Library.blocks_of_chain` says that this is all that happens to a block, whatever the length
of the chain, and that nothing happens anywhere else in the tree. `Document.SettlesAll`
gives the content, with one rule for each way of declaring a block. `hollowAll` empties the
blocks of some names, so that what is around them can be compared.

* `stands_overrideAll`: whatever stands in overridden nodes stood there before or came in
  with an override. Blocks are only ever looked up by where they stand, so this one fact
  about the walk over the tree is behind all that is said about blocks here.
* `hollowAll_overrideAll`: the walk changes nothing but the inside of overridden blocks.
* `Document.Gives.extend`: what one template makes of the blocks of a name. The induction
  along the chain repeats it.

The chain itself, and that it can be resolved at all, is the subject of
`Trellis.Proofs.Chain`.
-/

set_option autoImplicit false

namespace Trellis

/-! ### Blocks inside nodes -/

/-- A block of the name stands somewhere in the nodes. -/
def HasBlock (name : String) (ns : List Node) : Prop :=
  ∃ mode children, Stands (.block name mode children) ns

/-- Is the node a block or a mixin? -/
def Node.encloses : Node → Bool
  | .block _ _ _ => true
  | .mixin _ => true
  | _ => false

/-- No block of the name stands in another block or in a mixin. -/
def Unnested (name : String) (ns : List Node) : Prop :=
  ∀ outer, Stands outer ns → outer.encloses = true →
    ∀ children ∈ outer.childLists, ¬HasBlock name children

/-! ### Blocks and their overrides -/

theorem mem_blocksOf_iff {b : Override} {ns : List Node} :
    b ∈ blocksOf ns ↔ ∃ n ∈ ns, b ∈ n.blocks := by
  induction ns with
  | nil => simp [blocksOf]
  | cons n ns ih => simp [blocksOf, ih]

theorem mem_optionBlocks_iff {b : Override} {body : Option (List Node)} :
    b ∈ optionBlocks body ↔ ∃ ns ∈ body.toList, b ∈ blocksOf ns := by
  cases body <;> simp [optionBlocks]

theorem mem_branchBlocks_iff {b : Override} {branches : List Branch} :
    b ∈ branchBlocks branches ↔ ∃ ns ∈ branches.map (·.body), b ∈ blocksOf ns := by
  induction branches with
  | nil => simp [branchBlocks]
  | cons branch rest ih =>
    obtain ⟨test, negated, body⟩ := branch
    simp [branchBlocks, ih]

theorem mem_whenBlocks_iff {b : Override} {whens : List When} :
    b ∈ whenBlocks whens ↔ ∃ ns ∈ whens.map (·.body), b ∈ blocksOf ns := by
  induction whens with
  | nil => simp [whenBlocks]
  | cons w rest ih =>
    obtain ⟨value, body⟩ := w
    simp [whenBlocks, ih]

/-- The blocks of a node are the node itself, if it is one, and those inside it. -/
theorem mem_blocks_iff {b : Override} {n : Node} :
    b ∈ n.blocks ↔ n = .block b.name b.mode b.content ∨
      ∃ children ∈ n.childLists, b ∈ blocksOf children := by
  cases n with
  | block name mode children =>
    obtain ⟨bname, bmode, content⟩ := b
    simp only [Node.blocks, Node.childLists, List.mem_cons, exists_eq_left,
      Override.mk.injEq, Node.block.injEq, List.not_mem_nil, or_false]
    constructor
    · rintro (⟨rfl, rfl, rfl⟩ | h)
      · exact .inl ⟨rfl, rfl, rfl⟩
      · exact .inr h
    · rintro (⟨rfl, rfl, rfl⟩ | h)
      · exact .inl ⟨rfl, rfl, rfl⟩
      · exact .inr h
  | mixin m =>
    obtain ⟨name, parameters, rest, body⟩ := m
    simp [Node.blocks, Node.childLists]
  | tag name attributes selfClosing children => simp [Node.blocks, Node.childLists]
  | cond branches otherwise =>
    simp only [Node.blocks, Node.childLists, List.mem_append, mem_branchBlocks_iff,
      mem_optionBlocks_iff, or_and_right, exists_or, reduceCtorEq, false_or]
  | each item key collection body fallback =>
    simp [Node.blocks, Node.childLists, mem_optionBlocks_iff]
  | caseOf subject whens default =>
    simp only [Node.blocks, Node.childLists, List.mem_append, mem_whenBlocks_iff,
      mem_optionBlocks_iff, or_and_right, exists_or, reduceCtorEq, false_or]
  | call name arguments body => simp [Node.blocks, Node.childLists, mem_optionBlocks_iff]
  | _ => simp [Node.blocks, Node.childLists]

/-- The blocks of some nodes are those that stand in them. -/
theorem mem_blocksOf_iff_stands {b : Override} {ns : List Node} :
    b ∈ blocksOf ns ↔ Stands (.block b.name b.mode b.content) ns := by
  induction ns using nodes_induction with
  | h ns ih =>
    rw [mem_blocksOf_iff]
    constructor
    · rintro ⟨n, hn, hb⟩
      rcases mem_blocks_iff.mp hb with rfl | ⟨children, hchildren, hb⟩
      · exact .here hn
      · exact .inside hn hchildren ((ih n hn children hchildren).mp hb)
    · intro h
      cases h with
      | here hn => exact ⟨_, hn, mem_blocks_iff.mpr (.inl rfl)⟩
      | inside hn hchildren later =>
        exact ⟨_, hn, mem_blocks_iff.mpr (.inr ⟨_, hchildren, (ih _ hn _ hchildren).mpr later⟩)⟩

/-! ### Overriding, node by node -/

theorem overrideAll_eq_map (os : List Override) (ns : List Node) :
    overrideAll os ns = ns.map (·.override os) := by
  induction ns with
  | nil => rfl
  | cons n ns ih => rw [overrideAll, List.map_cons, ih]

/-- The content of a block, with the override that counts for its name. -/
def settled (os : List Override) (name : String) (content : List Node) : List Node :=
  match findOverride? os name with
  | some o => o.combine content
  | none => content

theorem override_block (os : List Override) (name : String) (mode : BlockMode)
    (children : List Node) :
    (Node.block name mode children).override os =
      .block name mode (settled os name (overrideAll os children)) := by
  rw [Node.override, settled]
  cases findOverride? os name <;> rfl

/-- What stands in an overridden block stood in its content or comes from an override. -/
theorem stands_settled {os : List Override} {name : String} {content : List Node} {n : Node}
    (h : Stands n (settled os name content)) : Stands n content ∨ ∃ o ∈ os, Stands n o.content := by
  unfold settled at h
  cases hfind : findOverride? os name with
  | none =>
    rw [hfind] at h
    exact .inl h
  | some o =>
    have ho : o ∈ os := List.mem_of_find?_eq_some hfind
    rw [hfind] at h
    dsimp only [Override.combine] at h
    split at h
    · exact .inr ⟨o, ho, h⟩
    · exact (stands_append_iff.mp h).imp id fun h => ⟨o, ho, h⟩
    · exact (stands_append_iff.mp h).symm.imp id fun h => ⟨o, ho, h⟩

/-- In a node that is no block, the lists inside are overridden and nothing else. -/
theorem childLists_override (os : List Override) {n : Node}
    (hn : ∀ name mode children, n ≠ .block name mode children) :
    (n.override os).childLists = n.childLists.map (overrideAll os) := by
  have hoption (body : Option (List Node)) :
      (overrideOption os body).toList = body.toList.map (overrideAll os) := by
    cases body <;> rfl
  have hbranches (branches : List Branch) : (overrideBranches os branches).map (·.body) =
      (branches.map (·.body)).map (overrideAll os) := by
    induction branches with
    | nil => rfl
    | cons branch rest ih =>
      obtain ⟨test, negated, body⟩ := branch
      rw [overrideBranches, List.map_cons, ih]
      rfl
  have hwhens (whens : List When) : (overrideWhens os whens).map (·.body) =
      (whens.map (·.body)).map (overrideAll os) := by
    induction whens with
    | nil => rfl
    | cons w rest ih =>
      obtain ⟨value, body⟩ := w
      rw [overrideWhens, List.map_cons, ih]
      rfl
  cases n with
  | block name mode children => exact absurd rfl (hn name mode children)
  | cond branches otherwise =>
    rw [Node.override, Node.childLists, Node.childLists, List.map_append, hbranches, hoption]
  | each item key collection body fallback =>
    rw [Node.override, Node.childLists, Node.childLists, List.map_cons, hoption]
  | caseOf subject whens default =>
    rw [Node.override, Node.childLists, Node.childLists, List.map_append, hwhens, hoption]
  | call name arguments body => exact hoption body
  | mixin m =>
    obtain ⟨name, parameters, rest, body⟩ := m
    rfl
  | _ => rfl

theorem encloses_override (os : List Override) (n : Node) :
    (n.override os).encloses = n.encloses := by
  cases n with
  | block name mode children =>
    rw [override_block]
    rfl
  | mixin m =>
    obtain ⟨name, parameters, rest, body⟩ := m
    rfl
  | _ => rfl

/-- What stands inside an overridden node stands in what was inside it, overridden, or comes
from an override. -/
theorem stands_inside_override {os : List Override} {n old : Node} {children : List Node}
    (hchildren : children ∈ (old.override os).childLists) (h : Stands n children) :
    (∃ inside ∈ old.childLists, Stands n (overrideAll os inside)) ∨
      ∃ o ∈ os, Stands n o.content := by
  -- The list inside a block is settled behind the walk, any other list only walked through.
  by_cases hblock : ∃ name mode content, old = .block name mode content
  · obtain ⟨name, mode, content, rfl⟩ := hblock
    rw [override_block] at hchildren
    rw [List.mem_singleton.mp hchildren] at h
    exact (stands_settled h).imp (fun h => ⟨content, List.mem_singleton_self content, h⟩) id
  · rw [childLists_override os fun name mode content heq => hblock ⟨name, mode, content, heq⟩]
      at hchildren
    obtain ⟨inside, hinside, rfl⟩ := List.mem_map.mp hchildren
    exact .inl ⟨inside, hinside, h⟩

/-- **What stands in overridden nodes** stood there before, and was overridden itself, or comes
from an override. -/
theorem stands_overrideAll {os : List Override} {ns : List Node} {n : Node}
    (h : Stands n (overrideAll os ns)) :
    (∃ old, Stands old ns ∧ n = old.override os) ∨ ∃ o ∈ os, Stands n o.content := by
  induction ns using nodes_induction generalizing n with
  | h ns ih =>
    rw [overrideAll_eq_map] at h
    cases h with
    | here hmem =>
      obtain ⟨old, hold, rfl⟩ := List.mem_map.mp hmem
      exact .inl ⟨old, .here hold, rfl⟩
    | inside hmem hchildren later =>
      obtain ⟨old, hold, rfl⟩ := List.mem_map.mp hmem
      rcases stands_inside_override hchildren later with ⟨inside, hinside, hstands⟩ | hfrom
      · rcases ih old hold inside hinside hstands with ⟨deep, hdeep, rfl⟩ | hfrom
        · exact .inl ⟨deep, .inside hold hinside hdeep, rfl⟩
        · exact .inr hfrom
      · exact .inr hfrom

/-- A block in overridden nodes was a block of that name, or comes from an override. -/
theorem stands_block_overrideAll {os : List Override} {ns : List Node} {name : String}
    {mode : BlockMode} {children : List Node}
    (h : Stands (.block name mode children) (overrideAll os ns)) :
    (∃ content, Stands (.block name mode content) ns ∧
      children = settled os name (overrideAll os content)) ∨
      ∃ o ∈ os, Stands (.block name mode children) o.content := by
  rcases stands_overrideAll h with ⟨old, hold, heq⟩ | hfrom
  · refine .inl ?_
    cases old with
    | block name' mode' content =>
      rw [override_block] at heq
      cases heq
      exact ⟨content, hold, rfl⟩
    | mixin m =>
      cases m
      cases heq
    | _ => cases heq
  · exact .inr hfrom

/-- No block stands in the nodes. -/
def Flat (ns : List Node) : Prop := ∀ name, ¬HasBlock name ns

theorem Flat.append {ns more : List Node} (h : Flat ns) (h' : Flat more) : Flat (ns ++ more) := by
  rintro name ⟨mode, children, hstands⟩
  rcases stands_append_iff.mp hstands with hstands | hstands
  · exact h name ⟨mode, children, hstands⟩
  · exact h' name ⟨mode, children, hstands⟩

/-- Nodes without blocks are not overridden. -/
theorem Flat.overrideAll_eq {os : List Override} {ns : List Node} (h : Flat ns) :
    overrideAll os ns = ns := by
  refine overrideAll_eq_self ns fun b hb => ?_
  exact absurd ⟨b.mode, b.content, mem_blocksOf_iff_stands.mp hb⟩ (h b.name)

/-! ### The tree apart from what is overridden -/

mutual

/-- The node with nothing left inside the blocks of some names. -/
def Node.hollow (names : List String) : Node → Node
  | .tag name attributes selfClosing children =>
    .tag name attributes selfClosing (hollowAll names children)
  | .cond branches otherwise => .cond (hollowBranches names branches) (hollowOption names otherwise)
  | .each item key collection body fallback =>
    .each item key collection (hollowAll names body) (hollowOption names fallback)
  | .caseOf subject whens default =>
    .caseOf subject (hollowWhens names whens) (hollowOption names default)
  | .mixin ⟨name, parameters, rest, body⟩ =>
    .mixin ⟨name, parameters, rest, hollowAll names body⟩
  | .call name arguments body => .call name arguments (hollowOption names body)
  | .block name mode children =>
    .block name mode (if name ∈ names then [] else hollowAll names children)
  | n => n

/-- The nodes with nothing left inside the blocks of some names. -/
def hollowAll (names : List String) : List Node → List Node
  | [] => []
  | n :: ns => n.hollow names :: hollowAll names ns

/-- Nodes that may be missing, with nothing left inside the blocks of some names. -/
def hollowOption (names : List String) : Option (List Node) → Option (List Node)
  | none => none
  | some ns => some (hollowAll names ns)

/-- Branches with nothing left inside the blocks of some names. -/
def hollowBranches (names : List String) : List Branch → List Branch
  | [] => []
  | ⟨test, negated, body⟩ :: rest =>
    ⟨test, negated, hollowAll names body⟩ :: hollowBranches names rest

/-- Alternatives with nothing left inside the blocks of some names. -/
def hollowWhens (names : List String) : List When → List When
  | [] => []
  | ⟨value, body⟩ :: rest => ⟨value, hollowAll names body⟩ :: hollowWhens names rest

end

section
variable {names : List String} {os : List Override}

mutual

/-- Overriding changes nothing but the inside of blocks that are overridden. -/
theorem Node.hollow_override (h : ∀ o ∈ os, o.name ∈ names) :
    ∀ n : Node, (n.override os).hollow names = n.hollow names
  | .tag name attributes selfClosing children => by
    rw [Node.override, Node.hollow, Node.hollow, hollowAll_overrideAll h children]
  | .cond branches otherwise => by
    rw [Node.override, Node.hollow, Node.hollow, hollowBranches_overrideBranches h branches,
      hollowOption_overrideOption h otherwise]
  | .each item key collection body fallback => by
    rw [Node.override, Node.hollow, Node.hollow, hollowAll_overrideAll h body,
      hollowOption_overrideOption h fallback]
  | .caseOf subject whens default => by
    rw [Node.override, Node.hollow, Node.hollow, hollowWhens_overrideWhens h whens,
      hollowOption_overrideOption h default]
  | .mixin ⟨name, parameters, rest, body⟩ => by
    rw [Node.override, Node.hollow, Node.hollow, hollowAll_overrideAll h body]
  | .call name arguments body => by
    rw [Node.override, Node.hollow, Node.hollow, hollowOption_overrideOption h body]
  | .block name mode children => by
    rw [override_block, Node.hollow, Node.hollow]
    -- A block of such a name shows nothing of its inside; any other one is not overridden.
    by_cases hname : name ∈ names
    · rw [if_pos hname, if_pos hname]
    · have hnone : findOverride? os name = none := by
        refine List.find?_eq_none.mpr fun o ho heq => hname ?_
        exact of_decide_eq_true heq ▸ h o ho
      rw [if_neg hname, if_neg hname, settled, hnone]
      exact congrArg (Node.block name mode) (hollowAll_overrideAll h children)
  | .doctype _ => rfl
  | .text _ => rfl
  | .output _ _ => rfl
  | .assign _ _ => rfl
  | .comment _ => rfl
  | .content => rfl
  | .filter _ _ _ => rfl

theorem hollowAll_overrideAll (h : ∀ o ∈ os, o.name ∈ names) : ∀ ns : List Node,
    hollowAll names (overrideAll os ns) = hollowAll names ns
  | [] => rfl
  | n :: ns => by
    rw [overrideAll, hollowAll, hollowAll, n.hollow_override h, hollowAll_overrideAll h ns]

theorem hollowOption_overrideOption (h : ∀ o ∈ os, o.name ∈ names) : ∀ ns : Option (List Node),
    hollowOption names (overrideOption os ns) = hollowOption names ns
  | none => rfl
  | some ns => by rw [overrideOption, hollowOption, hollowOption, hollowAll_overrideAll h ns]

theorem hollowBranches_overrideBranches (h : ∀ o ∈ os, o.name ∈ names) : ∀ bs : List Branch,
    hollowBranches names (overrideBranches os bs) = hollowBranches names bs
  | [] => rfl
  | ⟨test, negated, body⟩ :: rest => by
    rw [overrideBranches, hollowBranches, hollowBranches, hollowAll_overrideAll h body,
      hollowBranches_overrideBranches h rest]

theorem hollowWhens_overrideWhens (h : ∀ o ∈ os, o.name ∈ names) : ∀ ws : List When,
    hollowWhens names (overrideWhens os ws) = hollowWhens names ws
  | [] => rfl
  | ⟨value, body⟩ :: rest => by
    rw [overrideWhens, hollowWhens, hollowWhens, hollowAll_overrideAll h body,
      hollowWhens_overrideWhens h rest]

end

end

/-! ### One template under another -/

namespace Document

/-- No block of the name stands in another block, or in a mixin. -/
structure Unnested (name : String) (d : Document) : Prop where
  nodes : Trellis.Unnested name d.nodes
  mixins : ∀ m ∈ d.mixins, ¬HasBlock name m.2.body

/-- The template has one block of the name, whose content has no block inside. -/
structure Declares (own : Document) (name : String) (mode : BlockMode) (content : List Node) :
    Prop where
  stands : Stands (.block name mode content) own.nodes
  only : ∀ mode' content', Stands (.block name mode' content') own.nodes →
    mode' = mode ∧ content' = content
  flat : Flat content

/-- What becomes of the content of a block under a template that declares it once, or not
at all. -/
inductive Settles (name : String) (own : Document) : List Node → List Node → Prop
  | kept {content : List Node} (h : ¬HasBlock name own.nodes) : Settles name own content content
  | replaced {content new : List Node} (h : own.Declares name .replace new) :
    Settles name own content new
  | appended {content new : List Node} (h : own.Declares name .append new) :
    Settles name own content (content ++ new)
  | prepended {content new : List Node} (h : own.Declares name .prepend new) :
    Settles name own content (new ++ content)

/-- The content of a block under templates in turn, the last of the list first. -/
inductive SettlesAll (name : String) (content : List Node) : List Document → List Node → Prop
  | none : SettlesAll name content [] content
  | under {own : Document} {owns : List Document} {before after : List Node}
    (later : SettlesAll name content owns before) (h : own.Settles name before after) :
    SettlesAll name content (own :: owns) after

variable {name : String} {own : Document} {content after : List Node}

/-- The only block of a name is the override that counts. -/
theorem Declares.findOverride?_eq {mode : BlockMode} (h : own.Declares name mode content) :
    findOverride? (blocksOf own.nodes) name = some ⟨name, mode, content⟩ := by
  have hmem : ⟨name, mode, content⟩ ∈ blocksOf own.nodes := mem_blocksOf_iff_stands.mpr h.stands
  cases hfind : findOverride? (blocksOf own.nodes) name with
  | none =>
    have := List.find?_eq_none.mp hfind _ hmem
    simp at this
  | some o =>
    have hname : o.name = name := by
      have h := List.find?_some (show List.find? (fun o => o.name = name) _ = some o from hfind)
      exact of_decide_eq_true h
    have hstands := mem_blocksOf_iff_stands.mp (List.mem_of_find?_eq_some hfind)
    rw [hname] at hstands
    obtain ⟨hmode, hcontent⟩ := h.only _ _ hstands
    obtain ⟨oname, omode, ocontent⟩ := o
    cases hname
    cases hmode
    cases hcontent
    rfl

theorem Settles.settled_eq (h : own.Settles name content after) :
    settled (blocksOf own.nodes) name content = after := by
  cases h with
  | kept h =>
    have hnone : findOverride? (blocksOf own.nodes) name = none := by
      refine List.find?_eq_none.mpr fun o ho heq => h ?_
      cases of_decide_eq_true heq
      exact ⟨o.mode, o.content, mem_blocksOf_iff_stands.mp ho⟩
    rw [settled, hnone]
  | replaced h => rw [settled, h.findOverride?_eq]; rfl
  | appended h => rw [settled, h.findOverride?_eq]; rfl
  | prepended h => rw [settled, h.findOverride?_eq]; rfl

theorem Settles.flat (h : own.Settles name content after) (hflat : Flat content) :
    Flat after := by
  cases h with
  | kept _ => exact hflat
  | replaced h => exact h.flat
  | appended h => exact hflat.append h.flat
  | prepended h => exact h.flat.append hflat

theorem SettlesAll.flat {owns : List Document} (h : SettlesAll name content owns after)
    (hflat : Flat content) : Flat after := by
  induction h with
  | none => exact hflat
  | under _ h ih => exact h.flat ih

/-- What overrides something has no block of a name inside that is not nested. -/
theorem Unnested.override (h : own.Unnested name) :
    ∀ o ∈ blocksOf own.nodes, ¬HasBlock name o.content :=
  fun _ ho => h.nodes _ (mem_blocksOf_iff_stands.mp ho) rfl _ (List.mem_singleton_self _)

/-- A block of a name in overridden nodes was one before, if no override brings one in. -/
theorem hasBlock_of_overrideAll {os : List Override} {ns : List Node}
    (hos : ∀ o ∈ os, ¬HasBlock name o.content) (h : HasBlock name (overrideAll os ns)) :
    HasBlock name ns := by
  obtain ⟨mode, children, hstands⟩ := h
  rcases stands_block_overrideAll hstands with ⟨content, hold, -⟩ | ⟨o, ho, hfrom⟩
  · exact ⟨mode, content, hold⟩
  · exact absurd ⟨mode, children, hfrom⟩ (hos o ho)

/-- Nothing gets nested by overriding. -/
theorem unnested_overrideAll {os : List Override} {ns : List Node}
    (hos : ∀ o ∈ os, ¬HasBlock name o.content)
    (hinside : ∀ o ∈ os, Trellis.Unnested name o.content) (h : Trellis.Unnested name ns) :
    Trellis.Unnested name (overrideAll os ns) := by
  intro outer houter hencloses children hchildren hblock
  obtain ⟨mode, content, hstands⟩ := hblock
  rcases stands_overrideAll houter with ⟨old, hold, rfl⟩ | ⟨o, ho, hfrom⟩
  · rw [encloses_override] at hencloses
    rcases stands_inside_override hchildren hstands with ⟨inner, hinner, hstands⟩ | ⟨o, ho, hfrom⟩
    · exact h old hold hencloses inner hinner (hasBlock_of_overrideAll hos ⟨mode, content, hstands⟩)
    · exact hos o ho ⟨mode, content, hfrom⟩
  · exact hinside o ho outer hfrom hencloses children hchildren ⟨mode, content, hstands⟩

/-- What overrides something is not nested itself. -/
theorem Unnested.inside (h : own.Unnested name) :
    ∀ o ∈ blocksOf own.nodes, Trellis.Unnested name o.content :=
  fun _ ho outer houter => h.nodes outer <|
    (mem_blocksOf_iff_stands.mp ho).trans (List.mem_singleton_self _) houter

/-- A template under another one has no nested block of a name if neither of them has. -/
theorem Unnested.extend {d : Document} (h : d.Unnested name) (hown : own.Unnested name) :
    (d.extend own.nodes own.mixins).Unnested name where
  nodes := unnested_overrideAll hown.override hown.inside h.nodes
  mixins m hm := (Table.mem_insertAll hm).elim (hown.mixins m) (h.mixins m)

/-- Every block of the name has this content. -/
def Gives (d : Document) (name : String) (content : List Node) : Prop :=
  ∀ mode children, Stands (.block name mode children) d.nodes → children = content

/-- **What a template makes of the blocks of a name** in what it extends. -/
theorem Gives.extend {d : Document} (h : d.Gives name content) (hflat : Flat content)
    (hown : own.Unnested name) (hsettles : own.Settles name content after) :
    (d.extend own.nodes own.mixins).Gives name after := by
  intro mode children hstands
  -- No such block comes in with an override, so each was there before with that content.
  rcases stands_block_overrideAll hstands with ⟨old, hold, rfl⟩ | ⟨o, ho, hfrom⟩
  · rw [h mode old hold, hflat.overrideAll_eq, hsettles.settled_eq]
  · exact absurd ⟨mode, children, hfrom⟩ (hown.override o ho)

end Document

/-! ### Chains of templates -/

namespace Library

variable {name : String} {root : Document} {owns : List Document}

theorem unnested_merge (hroot : root.Unnested name) (howns : ∀ own ∈ owns, own.Unnested name) :
    (merge root owns).Unnested name := by
  induction owns with
  | nil => exact hroot
  | cons own owns ih =>
    have hlater := ih fun own' h => howns own' (List.mem_cons_of_mem _ h)
    exact hlater.extend (howns own List.mem_cons_self)

/-- Along a chain each template settles the content once more. -/
theorem gives_merge {first content : List Node} (hroot : root.Gives name first)
    (hflat : Flat first) (howns : ∀ own ∈ owns, own.Unnested name)
    (h : Document.SettlesAll name first owns content) : (merge root owns).Gives name content := by
  induction h with
  | none => exact hroot
  | @under own owns before after later hsettles ih =>
    have hbefore := ih fun own' h => howns own' (List.mem_cons_of_mem _ h)
    exact hbefore.extend (later.flat hflat) (howns own List.mem_cons_self) hsettles

/-- Nothing but the inside of overridden blocks changes along a chain. -/
theorem hollow_merge {names : List String}
    (h : ∀ own ∈ owns, ∀ n, HasBlock n own.nodes → n ∈ names) :
    hollowAll names (merge root owns).nodes = hollowAll names root.nodes := by
  induction owns with
  | nil => rfl
  | cons own owns ih =>
    have hos : ∀ o ∈ blocksOf own.nodes, o.name ∈ names := fun o ho =>
      h own List.mem_cons_self o.name ⟨o.mode, o.content, mem_blocksOf_iff_stands.mp ho⟩
    calc hollowAll names (overrideAll (blocksOf own.nodes) (merge root owns).nodes)
        = hollowAll names (merge root owns).nodes := hollowAll_overrideAll hos _
      _ = hollowAll names root.nodes := ih fun own' h' => h own' (List.mem_cons_of_mem _ h')

/-- **Blocks along a chain of templates.** Let no block of a name be nested, neither in the
last template of the chain nor in one of the others, and let the last one give all its blocks
of the name one content without blocks. Then the first template has a document, and in there
every block of the name has the content that the others settle in turn, and none is nested.
Inside blocks that one of the others declares, content may have changed; everything else
stands as in the last template. -/
theorem blocks_of_chain {l : Library} {template : String} (hchain : l.Chain template owns root)
    {first content : List Node} (hroot : root.Gives name first) (hflat : Flat first)
    (hunnested : ∀ d ∈ root :: owns, d.Unnested name)
    (hsettles : Document.SettlesAll name first owns content) :
    ∃ d, (l.document template).1 = .ok d ∧ d.Gives name content ∧ d.Unnested name ∧
      ∀ names, (∀ own ∈ owns, ∀ n, HasBlock n own.nodes → n ∈ names) →
        hollowAll names d.nodes = hollowAll names root.nodes := by
  have howns : ∀ own ∈ owns, own.Unnested name :=
    fun own h => hunnested own (List.mem_cons_of_mem _ h)
  exact ⟨merge root owns, document_of_chain hchain, gives_merge hroot hflat howns hsettles,
    unnested_merge (hunnested root List.mem_cons_self) howns, fun names => hollow_merge⟩

/-! ### A chain of three templates -/

/-- A page that puts something in front of what a part of it puts behind the content of a
block. -/
def threeTemplates : Memory :=
  ⟨[("base", "block main\n  // middle"), ("page", "extends part\nprepend main\n  // first"),
    ("part", "extends base\nappend main\n  // last")]⟩

/-- A document of one block with a comment. -/
def blockWithComment (mode : BlockMode) (text : String) : Document :=
  ⟨[.block "main" mode [.comment text]], []⟩

theorem stands_blockWithComment {mode : BlockMode} {text : String} {n : Node}
    (h : Stands n (blockWithComment mode text).nodes) :
    n = .block "main" mode [.comment text] ∨ n = .comment text := by
  simpa [blockWithComment, stands_cons_iff, Node.childLists] using h

theorem flat_comment (text : String) : Flat [.comment text] := by
  rintro name ⟨mode, children, h⟩
  simp [stands_cons_iff, Node.childLists] at h

theorem unnested_blockWithComment (mode : BlockMode) (text : String) :
    (blockWithComment mode text).Unnested "main" := by
  refine ⟨fun outer houter hencloses children hchildren => ?_, fun m hm => by cases hm⟩
  rcases stands_blockWithComment houter with rfl | rfl
  · cases List.mem_singleton.mp hchildren
    exact flat_comment text "main"
  · cases hencloses

theorem declares_blockWithComment (mode : BlockMode) (text : String) :
    (blockWithComment mode text).Declares "main" mode [.comment text] where
  stands := .here List.mem_cons_self
  only mode' content' h := by
    rcases stands_blockWithComment h with h | h
    · cases h
      exact ⟨rfl, rfl⟩
    · cases h
  flat := flat_comment text

/-- The lines of a block with a comment, in a template that may extend another one. -/
def linesWithComment (mode : BlockMode) (text : String) : Option String → List Source.Line
  | none => [⟨⟨1, 1⟩, 0, [.block mode "main"]⟩, ⟨⟨2, 3⟩, 1, [.comment text]⟩]
  | some target => [⟨⟨1, 1⟩, 0, [.extending target]⟩, ⟨⟨2, 1⟩, 0, [.block mode "main"]⟩,
      ⟨⟨3, 3⟩, 1, [.comment text]⟩]

theorem says_blockWithComment {l : Library} {name source text : String} {base : Option String}
    {mode : BlockMode} {finish : Source.Position} (target : Option String)
    (hsource : l.source name = .ok source)
    (hscan : Source.Layout.scan source = .ok ⟨linesWithComment mode text target, finish⟩)
    (hbase : target.map (Reference.resolve name) = base) :
    l.Says name base (blockWithComment mode text) := by
  refine ⟨source, ⟨linesWithComment mode text target, finish⟩, [], hsource, hscan, ?_⟩
  subst hbase
  cases target with
  | none => exact ⟨rfl, rfl⟩
  | some target => exact ⟨rfl, rfl⟩

theorem chain_threeTemplates : threeTemplates.loader.toLibrary.Chain "page"
    [blockWithComment .prepend " first", blockWithComment .append " last"]
    (blockWithComment .replace " middle") := by
  have hsource {name source : String} (hname : Memory.shortName name = name)
      (hfind : Table.find? name threeTemplates.sources = some source) :
      threeTemplates.loader.source name = .ok source := by
    show threeTemplates.source name = .ok source
    rw [Memory.source, hname, hfind]
  have hlisted {name : String} (hname : name ∈ threeTemplates.sources.keys) :
      name ∈ threeTemplates.loader.names :=
    List.mem_flatMap.mpr ⟨name, hname, List.mem_cons_self⟩
  have hbase : threeTemplates.loader.toLibrary.Says "base" none
      (blockWithComment .replace " middle") :=
    says_blockWithComment none (hsource (by cbv) rfl)
      (show Source.Layout.scan "block main\n  // middle" = .ok ⟨_, ⟨2, 3⟩⟩ by cbv) rfl
  have hpart : threeTemplates.loader.toLibrary.Says "part" (some "base")
      (blockWithComment .append " last") :=
    says_blockWithComment (some "base") (hsource (by cbv) rfl)
      (show Source.Layout.scan "extends base\nappend main\n  // last" = .ok ⟨_, ⟨3, 3⟩⟩ by cbv)
      (congrArg some (by cbv))
  have hpage : threeTemplates.loader.toLibrary.Says "page" (some "part")
      (blockWithComment .prepend " first") :=
    says_blockWithComment (some "part") (hsource (by cbv) rfl)
      (show Source.Layout.scan "extends part\nprepend main\n  // first" = .ok ⟨_, ⟨3, 3⟩⟩ by cbv)
      (congrArg some (by cbv))
  exact .step hpage (hlisted (by decide)) (.step hpart (hlisted (by decide)) (.root hbase))

/-- In the page all three comments stand in the block, in the order that their templates ask
for. -/
theorem blocks_of_chain_threeTemplates :
    ∃ d, (threeTemplates.loader.document "page").1 = .ok d ∧
      d.Gives "main" [.comment " first", .comment " middle", .comment " last"] ∧
      d.Unnested "main" ∧ ∀ names, "main" ∈ names →
        hollowAll names d.nodes = hollowAll names [.block "main" .replace [.comment " middle"]] := by
  have hsettles : Document.SettlesAll "main" [.comment " middle"]
      [blockWithComment .prepend " first", blockWithComment .append " last"]
      [.comment " first", .comment " middle", .comment " last"] :=
    .under (.under .none (.appended (declares_blockWithComment .append " last")))
      (.prepended (declares_blockWithComment .prepend " first"))
  have hroot : (blockWithComment .replace " middle").Gives "main" [.comment " middle"] :=
    fun mode content h => ((declares_blockWithComment .replace " middle").only mode content h).2
  have hunnested : ∀ d ∈ [blockWithComment .replace " middle", blockWithComment .prepend " first",
      blockWithComment .append " last"], d.Unnested "main" := by
    simp [unnested_blockWithComment]
  obtain ⟨d, hdocument, hgives, hd, hhollow⟩ := blocks_of_chain chain_threeTemplates hroot
    (flat_comment " middle") hunnested hsettles
  refine ⟨d, hdocument, hgives, hd, fun names hmain => hhollow names fun own hown n hn => ?_⟩
  -- The two others declare that one block and nothing else.
  have hown : ∃ mode text, own = blockWithComment mode text := by
    rcases List.mem_cons.mp hown with rfl | hown
    · exact ⟨_, _, rfl⟩
    · exact ⟨_, _, List.mem_singleton.mp hown⟩
  obtain ⟨mode, text, rfl⟩ := hown
  obtain ⟨mode', content, hstands⟩ := hn
  rcases stands_blockWithComment hstands with h | h
  · cases h
    exact hmain
  · cases h

end Library

end Trellis
