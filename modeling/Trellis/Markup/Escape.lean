/-!
# `Trellis.Markup.Escape`: text inside markup

Five characters have a meaning in markup and are written as references; all others
stand for themselves. An escaped text therefore contains none of the characters
that open or close a tag or an attribute value.
-/

set_option autoImplicit false

namespace Trellis.Markup

/-- One character, as it is written inside markup. -/
def escapeChar (c : Char) : List Char :=
  match c with
  | '&' => ['&', 'a', 'm', 'p', ';']
  | '<' => ['&', 'l', 't', ';']
  | '>' => ['&', 'g', 't', ';']
  | '"' => ['&', 'q', 'u', 'o', 't', ';']
  | '\'' => ['&', '#', '3', '9', ';']
  | c => [c]

/-- The text as it is written inside markup. -/
def escape (s : String) : String := String.ofList (s.toList.flatMap escapeChar)

end Trellis.Markup
