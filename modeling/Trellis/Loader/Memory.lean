import Trellis.Loader.Basic
import Trellis.Text.Fingerprint
import Trellis.Text.Path

/-!
# `Trellis.Loader.Memory`: sources held in memory

A source is held under a name without leading slashes and without the ending of
template files. Names with and without them mean the same source. Its version is a
fingerprint of its text.
-/

set_option autoImplicit false

namespace Trellis

/-- Sources by their short names. -/
structure Memory where
  sources : Table String

namespace Memory

/-- The ending of template files. -/
def ending : List Char := ".jade".toList

/-- The name without leading slashes and without one ending. -/
def shortName (name : String) : String :=
  let path := Text.Path.relative name.toList
  String.ofList ((Text.before? ending path).getD path)

def empty : Memory := ⟨[]⟩

/-- Puts a source under a name, in place of what was there. -/
def insert (m : Memory) (name source : String) : Memory :=
  ⟨Table.insert (shortName name) source m.sources⟩

/-- Puts in some sources, in order. -/
def insertAll (m : Memory) (sources : List (String × String)) : Memory :=
  sources.foldl (fun m s => m.insert s.1 s.2) m

/-- Puts in some sources, but none without a name. -/
def register (m : Memory) (sources : List (String × String)) : Memory :=
  m.insertAll (sources.filter fun s => !s.1.isEmpty)

/-- Does the name mean a source? -/
def holds (m : Memory) (name : String) : Bool := m.sources.has (shortName name)

/-- Leaves out what a name means. -/
def erase (m : Memory) (name : String) : Memory := ⟨m.sources.erase (shortName name)⟩

/-- The number of sources. -/
def size (m : Memory) : Nat := m.sources.length

/-- What a name means. -/
def source (m : Memory) (name : String) : Except Error String :=
  match m.sources.find? (shortName name) with
  | some source => .ok source
  | none => .error (.notFound name)

/-- The short names of templates: a name with an extension is that of another file. -/
def templates (m : Memory) : List String :=
  m.sources.keys.filter fun name => (Text.Path.extension? name.toList).isNone

/-- The loader of the sources as they are now. -/
def loader (m : Memory) : Loader where
  source := m.source
  names := m.sources.keys.flatMap fun name => [name, name ++ String.ofList ending]
  version name := (m.source name).map Text.fingerprint
  holds := m.holds
  list := m.templates

end Memory

end Trellis
