import Trellis.Document.Node

/-!
# `Trellis.Proofs.Places`: where nodes stand

A node holds lists of nodes: its content, its branches, what it does otherwise. A node
stands in a list if it is one of it or stands in a list of one of it. So `Stands` speaks of
every node of a tree without a walk over the tree, and whatever is said of a node by itself
can be asked of all nodes at once.

`nodes_induction` is the induction that goes with it: from all lists right inside to the
list around them.
-/

set_option autoImplicit false

namespace Trellis

/-- The lists of nodes right inside a node. -/
def Node.childLists : Node → List (List Node)
  | .tag _ _ _ children => [children]
  | .cond branches otherwise => branches.map (·.body) ++ otherwise.toList
  | .each _ _ _ body fallback => body :: fallback.toList
  | .caseOf _ whens default => whens.map (·.body) ++ default.toList
  | .mixin m => [m.body]
  | .call _ _ body => body.toList
  | .block _ _ children => [children]
  | _ => []

/-- A node stands somewhere in some nodes: it is one of them, or stands inside one. -/
inductive Stands : Node → List Node → Prop
  | here {n : Node} {ns : List Node} (h : n ∈ ns) : Stands n ns
  | inside {n outer : Node} {ns children : List Node} (h : outer ∈ ns)
    (hchildren : children ∈ outer.childLists) (later : Stands n children) : Stands n ns

/-- A node that stands in the tree of a document or in one of its mixins. -/
def Document.Holds (d : Document) (n : Node) : Prop :=
  Stands n d.nodes ∨ ∃ m ∈ d.mixins, Stands n [.mixin m.2]

theorem Stands.mono {n : Node} {ns more : List Node} (h : Stands n ns) (hsub : ns ⊆ more) :
    Stands n more := by
  cases h with
  | here h => exact .here (hsub h)
  | inside h hchildren later => exact .inside (hsub h) hchildren later

theorem stands_append_iff {n : Node} {ns more : List Node} :
    Stands n (ns ++ more) ↔ Stands n ns ∨ Stands n more := by
  constructor
  · intro h
    cases h with
    | here h => exact (List.mem_append.mp h).imp .here .here
    | inside h hchildren later =>
      exact (List.mem_append.mp h).imp (.inside · hchildren later) (.inside · hchildren later)
  · rintro (h | h)
    · exact h.mono (List.subset_append_left _ _)
    · exact h.mono (List.subset_append_right _ _)

@[simp] theorem not_stands_nil (n : Node) : ¬Stands n [] := by
  intro h
  cases h with
  | here h => cases h
  | inside h _ _ => cases h

/-- What stands in some nodes is the first of them, or stands inside it or in the others. -/
theorem stands_cons_iff {n first : Node} {ns : List Node} :
    Stands n (first :: ns) ↔
      n = first ∨ (∃ children ∈ first.childLists, Stands n children) ∨ Stands n ns := by
  constructor
  · intro h
    cases h with
    | here h => exact (List.mem_cons.mp h).imp id fun h => .inr (.here h)
    | inside h hchildren later =>
      rcases List.mem_cons.mp h with rfl | h
      · exact .inr (.inl ⟨_, hchildren, later⟩)
      · exact .inr (.inr (.inside h hchildren later))
  · rintro (rfl | ⟨children, hchildren, h⟩ | h)
    · exact .here List.mem_cons_self
    · exact .inside List.mem_cons_self hchildren h
    · exact h.mono (List.subset_cons_self first ns)

/-- What stands inside something that stands in the nodes stands in the nodes. -/
theorem Stands.trans {n outer : Node} {ns children : List Node} (h : Stands outer ns)
    (hchildren : children ∈ outer.childLists) (hn : Stands n children) : Stands n ns := by
  induction h with
  | here h => exact .inside h hchildren hn
  | inside h hlist _ ih => exact .inside h hlist ih

/-- What is right inside a node is smaller. -/
theorem sizeOf_of_mem_childLists {n : Node} {children : List Node}
    (h : children ∈ n.childLists) : sizeOf children < sizeOf n := by
  have hoption {body : Option (List Node)} (hb : children ∈ body.toList) :
      sizeOf children < sizeOf body := by
    cases body with
    | none => cases hb
    | some ns =>
      rw [List.mem_singleton.mp hb]
      simp +arith
  have hbranches {branches : List Branch} (hb : children ∈ branches.map (·.body)) :
      sizeOf children < sizeOf branches := by
    obtain ⟨⟨test, negated, body⟩, hmem, rfl⟩ := List.mem_map.mp hb
    have := List.sizeOf_lt_of_mem hmem
    simp at this ⊢
    omega
  have hwhens {whens : List When} (hb : children ∈ whens.map (·.body)) :
      sizeOf children < sizeOf whens := by
    obtain ⟨⟨value, body⟩, hmem, rfl⟩ := List.mem_map.mp hb
    have := List.sizeOf_lt_of_mem hmem
    simp at this ⊢
    omega
  cases n with
  | tag name attributes selfClosing inner =>
    rw [List.mem_singleton.mp h]
    simp +arith
  | cond branches otherwise =>
    rcases List.mem_append.mp h with h | h
    · have := hbranches h
      simp
      omega
    · have := hoption h
      simp
      omega
  | each item key collection body fallback =>
    rcases List.mem_cons.mp h with rfl | h
    · simp
      omega
    · have := hoption h
      simp
      omega
  | caseOf subject whens default =>
    rcases List.mem_append.mp h with h | h
    · have := hwhens h
      simp
      omega
    · have := hoption h
      simp
      omega
  | mixin m =>
    obtain ⟨name, parameters, rest, body⟩ := m
    rw [List.mem_singleton.mp h]
    simp
    omega
  | call name arguments body =>
    have := hoption h
    simp
    omega
  | block name mode inner =>
    rw [List.mem_singleton.mp h]
    simp +arith
  | _ => cases h

/-- Induction over nodes: what holds of some nodes as soon as it holds of all lists right
inside them holds of all nodes. -/
theorem nodes_induction {P : List Node → Prop}
    (h : ∀ ns, (∀ n ∈ ns, ∀ children ∈ n.childLists, P children) → P ns) (ns : List Node) : P ns :=
  h ns fun n hn children hchildren =>
    have _ : sizeOf children < sizeOf ns :=
      Nat.lt_trans (sizeOf_of_mem_childLists hchildren) (List.sizeOf_lt_of_mem hn)
    nodes_induction h children
termination_by sizeOf ns

end Trellis
