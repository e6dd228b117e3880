import Trellis.Expression

/-!
# `Trellis.Render.Fault`: what can go wrong while a template is rendered
-/

set_option autoImplicit false

namespace Trellis

/-- The greatest number of mixin calls that may be under way at a time. -/
def maxCallDepth : Nat := 32

inductive RenderFault where
  | failed (error : ExpressionError)
  | unknownFilter (name : String)
  | notIterable (type collection : String)
  | unknownMixin (name : String)
  | tooDeep (mixin : String)
  | writeFailed (reason : String)

/-- The wording of a fault. -/
def RenderFault.message : RenderFault → String
  | .failed error => error.message
  | .unknownFilter name => s!"unknown filter `{name}`"
  | .notIterable type collection => s!"cannot iterate over {type} `{collection}`"
  | .unknownMixin name => s!"unknown mixin `{name}`"
  | .tooDeep mixin => s!"mixin `{mixin}` exceeded the maximum call depth of {maxCallDepth}"
  | .writeFailed reason => s!"write failed: {reason}"

end Trellis
