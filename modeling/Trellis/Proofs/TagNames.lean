import Mathlib.Algebra.Order.Group.Multiset
import Trellis.Document.Statement
import Trellis.Source.Layout

/-!
# `Trellis.Proofs.TagNames`: the names of the tags in a template

The names of tags as they occur in the stream of tokens, in what a line says, and in nodes,
with those in the bodies of mixins. A name counts as often as it occurs, and the order does
not matter: the default of a case may stand before its other alternatives, and comes last in
the node.
-/

set_option autoImplicit false

namespace Trellis

open Source

mutual

/-- The names of the tags in a node. -/
def Node.tagNames : Node → Multiset String
  | .tag name _ _ children => {name} + tagNamesOf children
  | .cond branches otherwise => branchTagNames branches + optionTagNames otherwise
  | .each _ _ _ body fallback => tagNamesOf body + optionTagNames fallback
  | .caseOf _ whens default => whenTagNames whens + optionTagNames default
  | .mixin ⟨_, _, _, body⟩ => tagNamesOf body
  | .call _ _ body => optionTagNames body
  | .block _ _ children => tagNamesOf children
  | _ => 0

/-- The names of the tags in some nodes. -/
def tagNamesOf : List Node → Multiset String
  | [] => 0
  | n :: ns => n.tagNames + tagNamesOf ns

/-- The names of the tags in nodes that may be missing. -/
def optionTagNames : Option (List Node) → Multiset String
  | none => 0
  | some ns => tagNamesOf ns

/-- The names of the tags in branches. -/
def branchTagNames : List Branch → Multiset String
  | [] => 0
  | ⟨_, _, body⟩ :: rest => tagNamesOf body + branchTagNames rest

/-- The names of the tags in alternatives. -/
def whenTagNames : List When → Multiset String
  | [] => 0
  | ⟨_, body⟩ :: rest => tagNamesOf body + whenTagNames rest

end

/-- Two text nodes that become one have no tags. -/
theorem tagNamesOf_cons (n : Node) (ns : List Node) :
    tagNamesOf (Node.cons n ns) = n.tagNames + tagNamesOf ns := by
  unfold Node.cons
  split
  · simp [tagNamesOf, Node.tagNames]
  · rw [tagNamesOf]

@[simp] theorem tagNamesOf_join (ns more : List Node) :
    tagNamesOf (Node.join ns more) = tagNamesOf ns + tagNamesOf more := by
  induction ns with
  | nil => simp [Node.join, tagNamesOf]
  | cons n ns ih =>
    rw [Node.join, List.foldr_cons, tagNamesOf_cons, tagNamesOf, ← Node.join, ih, add_assoc]

@[simp] theorem tagNamesOf_singleton (n : Node) : tagNamesOf [n] = n.tagNames := by
  simp [tagNamesOf]

/-- A call keeps a body that has nodes. -/
@[simp] theorem optionTagNames_of_body (body : List Node) :
    optionTagNames (if body.isEmpty then none else some body) = tagNamesOf body := by
  cases body <;> rfl

/-- The names of the tags that a line says, its children apart. -/
def Head.tagNames : Head → Multiset String
  | .leaf n => n.tagNames
  | .tag name _ content => {name} + tagNamesOf content
  | .tagAround name _ inner => {name} + inner.tagNames
  | .callAround _ _ inner => inner.tagNames
  | _ => 0

/-- The name that a token gives to a tag. -/
def tokenTagName? : Token → Option String
  | .tag name => some name
  | _ => none

/-- The names of the tags in some tokens. -/
def tokenTagNames (ts : List Token) : Multiset String := ↑(ts.filterMap tokenTagName?)

/-- The names of the tags in a piece of the stream. -/
def itemTagNames (is : List Item) : Multiset String :=
  ↑(is.filterMap fun i => match i with
    | .token t => tokenTagName? t
    | _ => none)

@[simp] theorem tokenTagNames_nil : tokenTagNames [] = 0 := rfl

@[simp] theorem tokenTagNames_append (ts more : List Token) :
    tokenTagNames (ts ++ more) = tokenTagNames ts + tokenTagNames more := by
  simp [tokenTagNames]

@[simp] theorem itemTagNames_append (is more : List Item) :
    itemTagNames (is ++ more) = itemTagNames is + itemTagNames more := by
  simp [itemTagNames]

@[simp] theorem itemTagNames_tokens (ts : List Token) :
    itemTagNames (ts.map Item.token) = tokenTagNames ts := by
  rw [itemTagNames, tokenTagNames, List.filterMap_map]
  rfl

end Trellis
