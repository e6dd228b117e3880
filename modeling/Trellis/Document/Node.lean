import Trellis.Expression
import Trellis.Source.Token

/-!
# `Trellis.Document.Node`: templates as trees

A document is a list of nodes and a table of mixins. Nodes hold expressions that have
been read, so nothing in a document can fail for its wording.

The nodes of a list are in document order. Text nodes never stand side by side in
what is read from one source: `Node.cons` joins them, a line feed between.
-/

set_option autoImplicit false

namespace Trellis

export Source (BlockMode)

/-- A piece of text: fixed, or the text of a value, escaped or as it is. -/
inductive Span where
  | literal (text : String)
  | escaped (e : Expression)
  | raw (e : Expression)

/-- The value of an attribute: none, an expression, or a quoted text. -/
inductive AttributeValue where
  | implicit
  | expression (e : Expression)
  | spans (spans : List Span)

structure Attribute where
  name : String
  value : AttributeValue
  escaped : Bool

/-- A parameter of a mixin and the expression for a missing argument. -/
structure Parameter where
  name : String
  default : Option Expression

mutual

inductive Node where
  | doctype (name : String)
  | tag (name : String) (attributes : List Attribute) (selfClosing : Bool) (children : List Node)
  | text (spans : List Span)
  | output (e : Expression) (escaped : Bool)
  | assign (name : String) (e : Expression)
  /-- The first branch whose test holds counts, else the last part. -/
  | cond (branches : List Branch) (otherwise : Option (List Node))
  | each (item : String) (key : Option String) (collection : Expression) (body : List Node)
    (fallback : Option (List Node))
  | caseOf (subject : Expression) (whens : List When) (default : Option (List Node))
  | comment (text : String)
  | mixin (declaration : Mixin)
  | call (name : String) (arguments : List Expression) (body : Option (List Node))
  /-- In a mixin's body: what the mixin is called with. -/
  | content
  | block (name : String) (mode : BlockMode) (children : List Node)
  | filter (name content : String) (options : List (String × String))

/-- One branch of a conditional; a negated one counts when its test does not hold. -/
structure Branch where
  test : Expression
  negated : Bool
  body : List Node

/-- One alternative of a case. -/
structure When where
  value : Expression
  body : List Node

/-- A mixin. The rest parameter takes all arguments beyond the others. -/
structure Mixin where
  name : String
  parameters : List Parameter
  rest : Option String
  body : List Node

end

/-- A template with everything it includes and extends. -/
structure Document where
  nodes : List Node
  mixins : Table Mixin

/-- Puts a node before others; two text nodes become one of two lines. -/
def Node.cons (n : Node) (rest : List Node) : List Node :=
  match n, rest with
  | .text first, .text second :: rest => .text (first ++ .literal "\n" :: second) :: rest
  | n, rest => n :: rest

/-- Puts nodes before others, joining text nodes. -/
def Node.join (ns rest : List Node) : List Node := ns.foldr Node.cons rest

end Trellis
