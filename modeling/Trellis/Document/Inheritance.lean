import Trellis.Document.Node

/-!
# `Trellis.Document.Inheritance`: blocks and what overrides them

A derived template consists of blocks; everything else in it, mixins apart, is left
out. Its blocks, also those inside other blocks, override the blocks of the same name
in the template that it extends. When a name occurs twice in the derived template, the
first occurrence in document order counts.

Overriding replaces the content of a block, or adds to it at the end or at the front.
Content that is replaced is not searched any more, and neither is what comes in.
-/

set_option autoImplicit false

namespace Trellis

/-- The content that a derived template gives to a block. -/
structure Override where
  name : String
  mode : BlockMode
  content : List Node

mutual

/-- The blocks of a node in document order, outer ones before those inside. -/
def Node.blocks : Node → List Override
  | .tag _ _ _ children => blocksOf children
  | .cond branches otherwise => branchBlocks branches ++ optionBlocks otherwise
  | .each _ _ _ body fallback => blocksOf body ++ optionBlocks fallback
  | .caseOf _ whens default => whenBlocks whens ++ optionBlocks default
  | .mixin ⟨_, _, _, body⟩ => blocksOf body
  | .call _ _ body => optionBlocks body
  | .block name mode children => ⟨name, mode, children⟩ :: blocksOf children
  | _ => []

/-- The blocks of some nodes. -/
def blocksOf : List Node → List Override
  | [] => []
  | n :: ns => n.blocks ++ blocksOf ns

/-- The blocks of nodes that may be missing. -/
def optionBlocks : Option (List Node) → List Override
  | none => []
  | some ns => blocksOf ns

/-- The blocks of branches. -/
def branchBlocks : List Branch → List Override
  | [] => []
  | ⟨_, _, body⟩ :: rest => blocksOf body ++ branchBlocks rest

/-- The blocks of alternatives. -/
def whenBlocks : List When → List Override
  | [] => []
  | ⟨_, body⟩ :: rest => blocksOf body ++ whenBlocks rest

end

/-- The override that counts for a name. -/
def findOverride? (overrides : List Override) (name : String) : Option Override :=
  overrides.find? fun o => o.name = name

/-- Combines the content of a block with what overrides it. -/
def Override.combine (o : Override) (content : List Node) : List Node :=
  match o.mode with
  | .replace => o.content
  | .append => content ++ o.content
  | .prepend => o.content ++ content

mutual

/-- The node with its blocks overridden. -/
def Node.override (os : List Override) : Node → Node
  | .tag name attributes selfClosing children =>
    .tag name attributes selfClosing (overrideAll os children)
  | .cond branches otherwise => .cond (overrideBranches os branches) (overrideOption os otherwise)
  | .each item key collection body fallback =>
    .each item key collection (overrideAll os body) (overrideOption os fallback)
  | .caseOf subject whens default =>
    .caseOf subject (overrideWhens os whens) (overrideOption os default)
  | .mixin ⟨name, parameters, rest, body⟩ =>
    .mixin ⟨name, parameters, rest, overrideAll os body⟩
  | .call name arguments body => .call name arguments (overrideOption os body)
  | .block name mode children =>
    let inside := overrideAll os children
    match findOverride? os name with
    | some o => .block name mode (o.combine inside)
    | none => .block name mode inside
  | n => n

/-- The nodes with their blocks overridden. -/
def overrideAll (os : List Override) : List Node → List Node
  | [] => []
  | n :: ns => n.override os :: overrideAll os ns

/-- Nodes that may be missing, with their blocks overridden. -/
def overrideOption (os : List Override) : Option (List Node) → Option (List Node)
  | none => none
  | some ns => some (overrideAll os ns)

/-- Branches with their blocks overridden. -/
def overrideBranches (os : List Override) : List Branch → List Branch
  | [] => []
  | ⟨test, negated, body⟩ :: rest => ⟨test, negated, overrideAll os body⟩ :: overrideBranches os rest

/-- Alternatives with their blocks overridden. -/
def overrideWhens (os : List Override) : List When → List When
  | [] => []
  | ⟨value, body⟩ :: rest => ⟨value, overrideAll os body⟩ :: overrideWhens os rest

end

/-- A document under the blocks and mixins of a template that extends it. The table of
mixins is not searched for blocks. -/
def Document.extend (base : Document) (nodes : List Node) (mixins : Table Mixin) : Document :=
  ⟨overrideAll (blocksOf nodes) base.nodes, Table.insertAll mixins base.mixins⟩

end Trellis
