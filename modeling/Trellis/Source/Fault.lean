/-!
# `Trellis.Source.Fault`: what can be wrong with the text of a template

The faults that stop the scanning of a template, before anything is known of its
structure. Where one occurred is a line and a column, counted from 1; the column is
that of the statement, or 1 for a fault of the indentation itself.
-/

set_option autoImplicit false

namespace Trellis.Source

inductive ScanFault where
  | mixedIndentation
  | otherIndentation (tabs : Bool)
  | strayOutdent
  | strayCharacter (c : Char)
  | missingArgument (keyword : String)
  | behindElse (text : String)
  | missingCode
  | badBlock (text : String)
  | mixinWithoutName
  | badMixin (text : String)
  | behindParameters
  | badLoop
  | badLoopVariables (text : String)
  | loopWithoutCollection
  | filterWithoutName
  | behindFilter
  | callWithoutName
  | behindCall
  | idWithoutName
  | behindTag (c : Char)
  | openString
  | openParenthesis
  | openAttributes
  | openAttributeName
  | strayInAttributes (c : Char)
  | missingValue
  | openStringInValue

/-- The wording of a fault. -/
def ScanFault.message : ScanFault → String
  | .mixedIndentation => "mixed tabs and spaces in indentation"
  | .otherIndentation tabs =>
    "inconsistent indentation: this template is indented with "
      ++ (if tabs then "tabs" else "spaces")
  | .strayOutdent => "inconsistent outdent: no enclosing block at this level"
  | .strayCharacter c => s!"unexpected character `{c}`"
  | .missingArgument keyword => s!"`{keyword}` requires an argument"
  | .behindElse text => s!"unexpected `{text}` after else"
  | .missingCode => "missing code after `-`, `=` or `!=`"
  | .badBlock text => s!"invalid block declaration `{text}`"
  | .mixinWithoutName => "mixin requires a name"
  | .badMixin text => s!"invalid mixin declaration `{text}`"
  | .behindParameters => "unexpected text after mixin parameters"
  | .badLoop => "expected `each <item>[, <key>] in <expression>`"
  | .badLoopVariables text => s!"invalid loop variables in `{text}`"
  | .loopWithoutCollection => "missing collection expression in loop"
  | .filterWithoutName => "expected filter name after `:`"
  | .behindFilter => "filter content must be an indented block"
  | .callWithoutName => "expected mixin name after `+`"
  | .behindCall => "unexpected text after mixin call"
  | .idWithoutName => "expected id after `#`"
  | .behindTag c => s!"unexpected `{c}` after tag"
  | .openString => "unterminated string"
  | .openParenthesis => "unterminated parenthesis"
  | .openAttributes => "unterminated attribute list"
  | .openAttributeName => "unterminated attribute name"
  | .strayInAttributes c => s!"unexpected `{c}` in attribute list"
  | .missingValue => "missing attribute value"
  | .openStringInValue => "unterminated string in attribute value"

/-- A place in a text: a line and a column, counted from 1. -/
structure Position where
  line : Nat
  column : Nat
  deriving DecidableEq

/-- A fault and its place. -/
structure ScanError where
  position : Position
  fault : ScanFault

end Trellis.Source
