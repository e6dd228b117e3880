import Trellis.Table

/-!
# `Trellis.Filter`: conversions of raw text

A filter block hands its text, as it was written, to the filter that it names,
together with its options. What comes back is put out as it is. Two filters are always
there at first; both can be replaced and removed like any other.
-/

set_option autoImplicit false

namespace Trellis

/-- A conversion of a text under options. -/
abbrev Filter := String → Table String → String

namespace Filter

/-- Gives the text back. -/
def plain : Filter := fun text _ => text

/-- Wraps the text as character data. -/
def characterData : Filter := fun text _ => "<![CDATA[\n" ++ text ++ "\n]]>"

/-- The filters that are there at first. -/
def initial : Table Filter := Table.ofList [("plain", plain), ("cdata", characterData)]

end Filter

end Trellis
