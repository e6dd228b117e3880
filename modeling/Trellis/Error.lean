import Trellis.Document.Fault
import Trellis.Render.Fault
import Trellis.Source.Fault

/-!
# `Trellis.Error`: everything that can fail

One type for the failures of all parts, each with its cause and its place. The text
of an error is a function of its cause.
-/

set_option autoImplicit false

namespace Trellis

/-- What can be wrong with options and with the data that a template is given. -/
inductive ConfigurationFault where
  | badMode (word : String)
  | badModel (type : String)
  | badKey (type : String)
  | missingKey
  | refused (message : String)

/-- The wording of a fault. -/
def ConfigurationFault.message : ConfigurationFault → String
  | .badMode word => s!"invalid mode `{word}`, expected html, xhtml or xml"
  | .badModel type => s!"template model must serialize to a map, got {type}"
  | .badKey type => s!"map key must be a string, got {type}"
  | .missingKey => "missing key for map value"
  | .refused message => message

inductive Error where
  | scan (template : String) (error : Source.ScanError)
  | parse (template : String) (line : Nat) (fault : ParseFault)
  | expression (error : ExpressionError)
  | render (template : String) (fault : RenderFault)
  | configuration (fault : ConfigurationFault)
  | notFound (name : String)
  /-- Something is in the way of reading a source that exists. -/
  | unreadable

/-- The text of an error. -/
def Error.message : Error → String
  | .scan template e =>
    s!"Lex error in {template} at {e.position.line}:{e.position.column}: {e.fault.message}"
  | .parse template line fault => s!"Parse error in {template} at line {line}: {fault.message}"
  | .expression e => e.message
  | .render template fault => s!"Render error in {template}: {fault.message}"
  | .configuration fault => s!"Configuration error: {fault.message}"
  | .notFound name => s!"Template not found: {name}"
  | .unreadable => "I/O error"

end Trellis
