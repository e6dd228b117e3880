import Trellis.Loader.Basic
import Trellis.Options
import Trellis.Render.Nodes
import Trellis.Text.Utf8

/-!
# `Trellis.Template`: compiled templates

A compiled template is a document together with the layout and the mode for which it
was compiled. Each compilation has a number of its own, so two templates are the same
object exactly when their numbers agree.

What compilation has done so far is counted in a `Log`.
-/

set_option autoImplicit false

namespace Trellis

structure Template where
  number : Nat
  name : String
  /-- The version of the source that the name meant. -/
  version : String
  document : Document
  mode : Markup.Mode
  pretty : Bool

/-- How many compilations were begun and how many sources were asked for. -/
structure Log where
  compilations : Nat := 0
  reads : Nat := 0

namespace Template

/-- Compiles what a name means. -/
def compile (loader : Loader) (options : Options) (name version : String) (log : Log) :
    Except Error Template × Log :=
  let (document, asked) := loader.document name
  (document.map fun d => ⟨log.compilations, name, version, d, options.mode, options.pretty⟩,
    ⟨log.compilations + 1, log.reads + asked.length⟩)

/-- What a rendering of the template works with. -/
def setting (t : Template) (filters : Table Filter) : RenderSetting :=
  ⟨t.document.mixins, filters, t.mode, t.pretty⟩

/-- Renders into a sink. -/
def renderTo (t : Template) (filters : Table Filter) (vars : Variables) (sink : Sink) :
    Except Error Unit × Sink :=
  let (result, sink) := Trellis.render (t.setting filters) t.document.nodes vars sink
  (result.mapError (.render t.name), sink)

/-- The whole text, if rendering succeeds. -/
def render (t : Template) (filters : Table Filter) (vars : Variables) :
    Except Error String :=
  let (result, sink) := t.renderTo filters vars .unlimited
  result.map fun _ => sink.text

end Template

end Trellis
