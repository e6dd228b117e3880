/-!
# `Trellis.Markup.Element`: kinds of elements

Void elements have no content and, in HTML, no closing tag. Inline elements stay on
their line when the output is laid out.
-/

set_option autoImplicit false

namespace Trellis.Markup

/-- Elements that never have content. -/
def voidElements : List String :=
  ["area", "base", "br", "col", "embed", "hr", "img", "input", "keygen", "link", "meta",
    "param", "source", "track", "wbr"]

/-- Elements that do not start a line. -/
def inlineElements : List String :=
  ["a", "abbr", "b", "bdo", "br", "cite", "code", "dfn", "em", "i", "img", "input", "kbd",
    "label", "q", "samp", "small", "span", "strong", "sub", "sup", "textarea", "var"]

def isVoid (name : String) : Bool := voidElements.contains name

def isInline (name : String) : Bool := inlineElements.contains name

end Trellis.Markup
