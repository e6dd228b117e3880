import Trellis.Expression
import Trellis.Source.Token

/-!
# `Trellis.Document.Fault`: what can be wrong with the structure of a template

The faults of a template whose text could be scanned. An expression that cannot be
read is one of them.
-/

set_option autoImplicit false

namespace Trellis

inductive ParseFault where
  | badExpression (error : ExpressionError)
  | cycle (chain : List String)
  | noTemplate (name : String)
  | noInclude (name : String)
  | stray (token : Source.Token)
  | strayLineEnd
  | strayIndentation
  | lateExtends
  | strayElse
  | strayWhen
  | secondDefault
  | notAlternative (token : Source.Token)
  | behindRest
  | badCode (code : String)
  | badAssignment (target : String)
  | openInterpolation

/-- The wording of a fault. -/
def ParseFault.message : ParseFault → String
  | .badExpression error => error.message
  | .cycle chain => "cyclic template reference: " ++ " -> ".intercalate chain
  | .noTemplate name => s!"cannot resolve template `{name}`"
  | .noInclude name => s!"cannot resolve include `{name}`"
  | .stray token => s!"unexpected {token.shown}"
  | .strayLineEnd => "unexpected Newline"
  | .strayIndentation => "unexpected indentation"
  | .lateExtends => "`extends` must be the first statement of a template"
  | .strayElse => "`else` without a preceding `if`, `unless` or `each`"
  | .strayWhen => "`when` / `default` outside of `case`"
  | .secondDefault => "duplicate `default` in `case`"
  | .notAlternative token =>
    s!"expected `when` or `default` inside `case`, found {token.shown}"
  | .behindRest => "rest parameter must be the last mixin parameter"
  | .badCode code => s!"unsupported code statement `{code}`"
  | .badAssignment target => s!"invalid assignment target `{target}`"
  | .openInterpolation => "unterminated interpolation"

end Trellis
