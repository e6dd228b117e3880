import Trellis.Document.Resolution

/-!
# `Trellis.Loader.Basic`: where sources come from

A loader is a library of sources that also knows their versions. The version of a
source is a text that stays as it is while the source does; what is compiled from a
source can be kept for as long as the version is the same.
-/

set_option autoImplicit false

namespace Trellis

/-- `holds` tells whether there is a source under a name, and `list` gives the names
that are compiled in advance, in order. -/
structure Loader extends Library where
  version : String → Except Error String
  holds : String → Bool
  list : List String

end Trellis
