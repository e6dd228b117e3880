import Trellis.Error
import Trellis.Markup.Mode

/-!
# `Trellis.Options`: how templates are compiled and kept

A compiled template keeps the layout and the mode that it was compiled for.
-/

set_option autoImplicit false

namespace Trellis

/-- `caching` tells whether compiled templates are kept, and `capacity` how many. -/
structure Options where
  pretty : Bool := false
  caching : Bool := true
  mode : Markup.Mode := .html
  capacity : Nat := 1000

/-- The mode that a word names. -/
def Markup.Mode.read (word : String) : Except Error Markup.Mode :=
  match Markup.Mode.ofName? word with
  | some mode => .ok mode
  | none => .error (.configuration (.badMode (Text.lowerAscii (Text.trimmed word))))

end Trellis
