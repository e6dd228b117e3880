import Trellis.Cache
import Trellis.Datum
import Trellis.Template

/-!
# `Trellis.Engine`: templates by name

An engine puts the parts together: options, a loader, variables that all templates
share, filters, and a cache of compiled templates. Asking it for a template first asks
the loader for the version of the source; if the template is kept for that version,
it is not compiled again.

An option on which compiled templates depend, and the loader itself, cannot change
without the cache being cleared. What the loader holds can: `refresh` leaves the cache
alone, for there the versions tell.
-/

set_option autoImplicit false

namespace Trellis

structure Engine where
  options : Options
  loader : Loader
  shared : Variables
  filters : Table Filter
  cache : Cache Template
  log : Log

namespace Engine

/-- A new engine. -/
def start (loader : Loader) (options : Options) : Engine :=
  ⟨options, loader, [], Filter.initial, .empty options.capacity, {}⟩

/-! ## Templates -/

/-- The template that a name means now. -/
def template (e : Engine) (name : String) : Except Error Template × Engine :=
  match e.loader.version name with
  | .error error => (.error error, e)
  | .ok version =>
    let compile := Template.compile e.loader e.options name version
    if e.options.caching then
      let (result, cache, log) := e.cache.fetch name version compile e.log
      (result, { e with cache := cache, log := log })
    else
      let (result, log) := compile e.log
      (result, { e with log := log })

/-- Asks for templates in order, up to the first that fails. -/
def prepare (e : Engine) : List String → Except Error Unit × Engine
  | [] => (.ok (), e)
  | name :: rest =>
    match e.template name with
    | (.ok _, e) => e.prepare rest
    | (.error error, e) => (.error error, e)

/-- Asks for all templates that the loader lists, and tells their number. -/
def precompile (e : Engine) : Except Error Nat × Engine :=
  let (result, f) := e.prepare e.loader.list
  (result.map fun _ => e.loader.list.length, f)

/-! ## Rendering -/

/-- The shared variables and those of one rendering, which go before them. -/
def varsFor (e : Engine) (own : Variables) : Variables := Table.insertAll own e.shared

/-- The text of a template. -/
def render (e : Engine) (t : Template) (own : Variables) : Except Error String :=
  t.render e.filters (e.varsFor own)

/-- Renders a template into a sink. -/
def renderTo (e : Engine) (t : Template) (own : Variables) (sink : Sink) :
    Except Error Unit × Sink :=
  t.renderTo e.filters (e.varsFor own) sink

/-- The text of what a name means, with variables from a datum. -/
def renderDatum (e : Engine) (name : String) (d : Datum) : Except Error String × Engine :=
  match d.toVariables with
  | .error fault => (.error (.configuration fault), e)
  | .ok own =>
    match e.template name with
    | (.error error, e) => (.error error, e)
    | (.ok t, e) => (e.render t own, e)

/-! ## Settings -/

/-- Gives up all compiled templates. -/
def clearCache (e : Engine) : Engine := { e with cache := e.cache.clear }

/-- Begins or ends to keep compiled templates. -/
def setCaching (e : Engine) (on : Bool) : Engine :=
  let e := { e with options := { e.options with caching := on } }
  if on then e else e.clearCache

/-- Lays the output of templates compiled from now on out or not. -/
def setPretty (e : Engine) (on : Bool) : Engine :=
  if e.options.pretty = on then e
  else { e with options := { e.options with pretty := on } }.clearCache

/-- Compiles templates from now on for a mode. -/
def setMode (e : Engine) (mode : Markup.Mode) : Engine :=
  if e.options.mode = mode then e
  else { e with options := { e.options with mode := mode } }.clearCache

/-- Loads sources from now on from another loader. -/
def setLoader (e : Engine) (loader : Loader) : Engine :=
  { e with loader := loader }.clearCache

/-- Takes note of what the loader holds now. -/
def refresh (e : Engine) (loader : Loader) : Engine := { e with loader := loader }

/-- Gives a shared variable a value. -/
def share (e : Engine) (name : String) (v : Value) : Engine :=
  { e with shared := Table.insert name v e.shared }

/-- Gives shared variables values. -/
def shareAll (e : Engine) (vars : Variables) : Engine :=
  { e with shared := Table.insertAll vars e.shared }

/-- Gives up all shared variables. -/
def unshare (e : Engine) : Engine := { e with shared := [] }

/-- Puts a filter under a name. -/
def setFilter (e : Engine) (name : String) (filter : Filter) : Engine :=
  { e with filters := Table.insert name filter e.filters }

/-- Removes the filter under a name. -/
def removeFilter (e : Engine) (name : String) : Engine :=
  { e with filters := Table.erase name e.filters }

end Engine

end Trellis
