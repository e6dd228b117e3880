import Trellis.Text.Blank

/-!
# `Trellis.Markup.Doctype`: document type declarations

A doctype statement names a declaration by a short word, or gives the name of the
document type itself.
-/

set_option autoImplicit false

namespace Trellis.Markup

/-- The declarations that have a short word. -/
def doctypes : List (String × String) := [
  ("", "<!DOCTYPE html>"),
  ("html", "<!DOCTYPE html>"),
  ("5", "<!DOCTYPE html>"),
  ("default", "<!DOCTYPE html>"),
  ("xml",
    "<?xml version=\"1.0\" encoding=\"utf-8\" ?>"),
  ("transitional",
    "<!DOCTYPE html PUBLIC \"-//W3C//DTD XHTML 1.0 Transitional//EN\" \"http://www.w3.org/TR/xhtml1/DTD/xhtml1-transitional.dtd\">"),
  ("strict",
    "<!DOCTYPE html PUBLIC \"-//W3C//DTD XHTML 1.0 Strict//EN\" \"http://www.w3.org/TR/xhtml1/DTD/xhtml1-strict.dtd\">"),
  ("frameset",
    "<!DOCTYPE html PUBLIC \"-//W3C//DTD XHTML 1.0 Frameset//EN\" \"http://www.w3.org/TR/xhtml1/DTD/xhtml1-frameset.dtd\">"),
  ("1.1",
    "<!DOCTYPE html PUBLIC \"-//W3C//DTD XHTML 1.1//EN\" \"http://www.w3.org/TR/xhtml11/DTD/xhtml11.dtd\">"),
  ("basic",
    "<!DOCTYPE html PUBLIC \"-//W3C//DTD XHTML Basic 1.1//EN\" \"http://www.w3.org/TR/xhtml-basic/xhtml-basic11.dtd\">"),
  ("mobile",
    "<!DOCTYPE html PUBLIC \"-//WAPFORUM//DTD XHTML Mobile 1.2//EN\" \"http://www.openmobilealliance.org/tech/DTD/xhtml-mobile12.dtd\">")]

/-- The declaration for a word, in which case and surrounding blanks do not count.
Any other text is taken as the document type. -/
def doctype (name : String) : String :=
  let name := Text.trimmed name
  match doctypes.find? (·.1 == Text.lowerAscii name) with
  | some (_, declaration) => declaration
  | none => "<!DOCTYPE " ++ name ++ ">"

end Trellis.Markup
