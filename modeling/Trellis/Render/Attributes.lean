import Trellis.Document.Node
import Trellis.Markup.Escape
import Trellis.Markup.Mode

/-!
# `Trellis.Render.Attributes`: the attributes of an open tag

Attributes are evaluated in order. An attribute that is nothing or false is left out;
one that is true is written according to the mode; any other is written with the text
of its value.

Classes are different: everything that is given as a class, in shorthand or as an
attribute, goes into one attribute at the place of the first. A list contributes its
true items, nothing and truth values contribute nothing, and when no class comes
together there is no attribute.
-/

set_option autoImplicit false

namespace Trellis

open Markup

/-- The text of spans. The texts of values are escaped or not as the spans say; fixed
text is escaped if `literals` says so. -/
def spansText (vars : String → Value) (literals : Bool) :
    List Span → Except ExpressionError String
  | [] => .ok ""
  | .literal s :: rest => do
    let more ← spansText vars literals rest
    return (if literals then escape s else s) ++ more
  | .escaped e :: rest => do
    let v ← e.evaluate vars
    let more ← spansText vars literals rest
    return escape v.text ++ more
  | .raw e :: rest => do
    let v ← e.evaluate vars
    let more ← spansText vars literals rest
    return v.text ++ more

/-- The value of an attribute, and whether its text is still to be escaped. Spans are
escaped as they are put together. -/
def Attribute.evaluate (vars : String → Value) (a : Attribute) :
    Except ExpressionError (Value × Bool) :=
  match a.value with
  | .implicit => .ok (.bool true, a.escaped)
  | .expression e => (e.evaluate vars).map fun v => (v, a.escaped)
  | .spans spans => (spansText vars a.escaped spans).map fun s => (.str s, false)

/-- What an attribute contributes to the tag. -/
inductive Contribution where
  | nothing
  | attribute (name : String) (value : Option String)
  | classes (texts : List String)

/-- Escapes a text if it is to be escaped. -/
def escapeIf (escaped : Bool) (s : String) : String := if escaped then escape s else s

/-- The classes that a value gives. -/
def classesOf (escaped : Bool) : Value → List String
  | .list items => (items.filter Value.isTruthy).map fun v => escapeIf escaped v.text
  | .null => []
  | .bool _ => []
  | v => if v.text.isEmpty then [] else [escapeIf escaped v.text]

/-- The declarations of a map of styles. -/
def styleText (entries : List (String × Value)) : String :=
  String.join (entries.map fun e => e.1 ++ ":" ++ e.2.text ++ ";")

/-- The contribution of an attribute that is no class. -/
def plainContribution (mode : Mode) (name : String) (escaped : Bool) : Value → Contribution
  | .null => .nothing
  | .bool false => .nothing
  | .bool true =>
    match mode with
    | .html => .attribute name none
    | .xhtml | .xml => .attribute name (some name)
  | .map entries =>
    if name = "style" then .attribute name (some (escapeIf escaped (styleText entries)))
    else .attribute name (some (escapeIf escaped (Value.map entries).text))
  | v => .attribute name (some (escapeIf escaped v.text))

/-- The contribution of an attribute. -/
def Attribute.contribution (mode : Mode) (vars : String → Value) (a : Attribute) :
    Except ExpressionError Contribution := do
  let (v, escaped) ← a.evaluate vars
  return if a.name = "class" then .classes (classesOf escaped v)
    else plainContribution mode a.name escaped v

/-- The contributions of some attributes, in order. -/
def contributions (mode : Mode) (vars : String → Value) :
    List Attribute → Except ExpressionError (List Contribution)
  | [] => .ok []
  | a :: rest => do
    let c ← a.contribution mode vars
    return c :: (← contributions mode vars rest)

/-- All classes that were contributed. -/
def gatherClasses : List Contribution → List String
  | [] => []
  | .classes texts :: rest => texts ++ gatherClasses rest
  | _ :: rest => gatherClasses rest

/-- The written attributes. `classes` is put in at the first contribution of classes, if
it has not been. -/
def arrangeAttributes (classes : List String) (placed : Bool) :
    List Contribution → List (String × Option String)
  | [] => []
  | .nothing :: rest => arrangeAttributes classes placed rest
  | .attribute name value :: rest => (name, value) :: arrangeAttributes classes placed rest
  | .classes _ :: rest =>
    if placed || classes.isEmpty then arrangeAttributes classes true rest
    else ("class", some (" ".intercalate classes)) :: arrangeAttributes classes true rest

/-- How one attribute is written. -/
def writeAttribute : String × Option String → String
  | (name, none) => " " ++ name
  | (name, some value) => " " ++ name ++ "=\"" ++ value ++ "\""

/-- The text of the attributes of a tag. -/
def attributesText (mode : Mode) (vars : String → Value) (attributes : List Attribute) :
    Except ExpressionError String := do
  let cs ← contributions mode vars attributes
  return String.join ((arrangeAttributes (gatherClasses cs) false cs).map writeAttribute)

end Trellis
