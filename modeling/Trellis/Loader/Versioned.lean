import Trellis.Loader.Basic

/-!
# `Trellis.Loader.Versioned`: sources with given versions

Whoever puts a source in says what its version is. Names are taken as they are, and
nothing is compiled in advance.
-/

set_option autoImplicit false

namespace Trellis

/-- A source and its version. -/
structure Edition where
  source : String
  version : String

/-- Sources and their versions by name. -/
abbrev Versioned := Table Edition

namespace Versioned

/-- What stands under a name. -/
def edition (t : Versioned) (name : String) : Except Error Edition :=
  match Table.find? name t with
  | some edition => .ok edition
  | none => .error (.notFound name)

/-- The loader of the sources as they are now. -/
def loader (t : Versioned) : Loader where
  source name := (edition t name).map Edition.source
  names := Table.keys t
  version name := (edition t name).map Edition.version
  holds name := Table.has name t
  list := []

end Versioned

end Trellis
