import Trellis.Text.Blank

/-!
# `Trellis.Markup.Mode`: the three dialects of output

The mode decides how void and empty elements are closed and how an attribute that
is simply true is written.
-/

set_option autoImplicit false

namespace Trellis.Markup

inductive Mode where
  | html
  | xhtml
  | xml
  deriving DecidableEq, Inhabited

namespace Mode

/-- The word for a mode. -/
def name : Mode → String
  | .html => "html"
  | .xhtml => "xhtml"
  | .xml => "xml"

/-- The mode that a word names, in which case and surrounding blanks do not count. -/
def ofName? (word : String) : Option Mode :=
  match Text.lowerAscii (Text.trimmed word) with
  | "html" => some .html
  | "xhtml" => some .xhtml
  | "xml" => some .xml
  | _ => none

end Mode

end Trellis.Markup
