import Trellis.Text.Quoted

/-!
# `Trellis.Source.Token`: the tokens of templates

A statement of a template is a run of tokens. They hold expressions, attribute
values, argument lists and parameter lists as they were written; what those mean is
settled when the statement is read.

`Token.shown` is the notation in which messages quote a token.
-/

set_option autoImplicit false

namespace Trellis.Source

/-- How a block of a derived template combines with the block it overrides. -/
inductive BlockMode where
  | replace
  | append
  | prepend
  deriving DecidableEq

/-- An attribute as it was written. -/
structure RawAttribute where
  name : String
  value : Option String
  escaped : Bool
  deriving DecidableEq

inductive Token where
  | doctype (text : String)
  | extending (target : String)
  | including (target : String)
  /-- An empty name stands for the content that a mixin is called with. -/
  | block (mode : BlockMode) (name : String)
  | mixin (name parameters : String)
  | call (name arguments : String)
  | each (item : String) (key : Option String) (collection : String)
  | cond (test : String)
  | elseCond (test : String)
  | otherwise
  | unless (test : String)
  | caseOf (subject : String)
  | when (value : String)
  | default
  | output (escaped : Bool) (expression : String)
  | code (statement : String)
  | comment (text : String)
  | filter (name : String) (options : List RawAttribute)
  | tag (name : String)
  | idName (name : String)
  | className (name : String)
  | attributes (list : List RawAttribute)
  | selfClose
  | colon
  | text (text : String)
  | textBlock (lines : List String)
  deriving DecidableEq

/-- Items in brackets, a comma and a space between each two. -/
def bracketed (items : List String) : String := "[" ++ ", ".intercalate items ++ "]"

/-- A word and its argument in parentheses. -/
def applied (word argument : String) : String := word ++ "(" ++ argument ++ ")"

/-- A word and named fields in braces. -/
def recordShown (word : String) (fields : List (String × String)) : String :=
  word ++ " \x7b " ++ ", ".intercalate (fields.map fun f => f.1 ++ ": " ++ f.2) ++ " \x7d"

/-- A text that may be missing, as messages quote it. -/
def optionShown : Option String → String
  | none => "None"
  | some s => applied "Some" (Text.quoted s)

/-- A mode, as messages quote it. -/
def BlockMode.shown : BlockMode → String
  | .replace => "Replace"
  | .append => "Append"
  | .prepend => "Prepend"

/-- A truth value, as messages quote it. -/
def truthShown (b : Bool) : String := if b then "true" else "false"

/-- An attribute, as messages quote it. -/
def RawAttribute.shown (a : RawAttribute) : String :=
  recordShown "RawAttr"
    [("name", Text.quoted a.name), ("value", optionShown a.value),
      ("escaped", truthShown a.escaped)]

/-- A token, as messages quote it. -/
def Token.shown : Token → String
  | .doctype s => applied "Doctype" (Text.quoted s)
  | .extending s => applied "Extends" (Text.quoted s)
  | .including s => applied "Include" (Text.quoted s)
  | .block mode name => recordShown "Block" [("mode", mode.shown), ("name", Text.quoted name)]
  | .mixin name parameters =>
    recordShown "Mixin" [("name", Text.quoted name), ("params", Text.quoted parameters)]
  | .call name arguments =>
    recordShown "Call" [("name", Text.quoted name), ("args", Text.quoted arguments)]
  | .each item key collection =>
    recordShown "Each"
      [("value", Text.quoted item), ("key", optionShown key), ("expr", Text.quoted collection)]
  | .cond s => applied "If" (Text.quoted s)
  | .elseCond s => applied "ElseIf" (Text.quoted s)
  | .otherwise => "Else"
  | .unless s => applied "Unless" (Text.quoted s)
  | .caseOf s => applied "Case" (Text.quoted s)
  | .when s => applied "When" (Text.quoted s)
  | .default => "Default"
  | .output escaped s =>
    recordShown "Code"
      [("buffered", "true"), ("escape", truthShown escaped), ("value", Text.quoted s)]
  | .code s =>
    recordShown "Code" [("buffered", "false"), ("escape", "false"), ("value", Text.quoted s)]
  | .comment s => recordShown "Comment" [("text", Text.quoted s), ("buffered", "true")]
  | .filter name options =>
    recordShown "Filter"
      [("name", Text.quoted name), ("options", bracketed (options.map RawAttribute.shown))]
  | .tag s => applied "Tag" (Text.quoted s)
  | .idName s => applied "Id" (Text.quoted s)
  | .className s => applied "Class" (Text.quoted s)
  | .attributes list => applied "Attrs" (bracketed (list.map RawAttribute.shown))
  | .selfClose => "SelfClose"
  | .colon => "Colon"
  | .text s => applied "Text" (Text.quoted s)
  | .textBlock ls => applied "TextBlock" (bracketed (ls.map Text.quoted))

end Trellis.Source
