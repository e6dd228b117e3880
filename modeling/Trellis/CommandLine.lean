import Trellis.Decimal.Reading
import Trellis.Engine
import Trellis.Loader.Directory
import Trellis.Text.Blank

/-!
# `Trellis.CommandLine`: one template on the command line

The command renders one template of a directory and writes the text to its standard
output. Its arguments are the directory, the name of the template and any number of
variables, each with its value; options may stand between them, up to a `--`.

Everything before the output can fail and then nothing is written. A rendering that
fails leaves behind what it has written so far. A failure is told together with what
was being done.
-/

set_option autoImplicit false

namespace Trellis.CommandLine

/-- What the command is asked to do. -/
structure Invocation where
  directory : String
  name : String
  bindings : List String
  pretty : Bool
  mode : Markup.Mode
  /-- Compile all templates of the directory first. -/
  precompile : Bool

inductive Request where
  | render (i : Invocation)
  | help
  | malformed

/-! ## Arguments -/

/-- The arguments that were read so far; those that are no options in reverse. -/
structure Arguments where
  places : List String := []
  pretty : Bool := false
  mode : Option Markup.Mode := none
  precompile : Bool := false

/-- The request of complete arguments. The directory must have a name. -/
def Arguments.request (a : Arguments) : Request :=
  match a.places.reverse with
  | directory :: name :: bindings =>
    if directory.isEmpty then .malformed
    else .render ⟨directory, name, bindings, a.pretty, a.mode.getD .html, a.precompile⟩
  | _ => .malformed

/-- Takes note of a mode, which can be given once. -/
def Arguments.withMode? (a : Arguments) (word : String) : Option Arguments :=
  match a.mode, Markup.Mode.ofName? word with
  | none, some mode => some { a with mode := some mode }
  | _, _ => none

/-- What stands behind `--mode=`. -/
def modeOf? (arg : String) : Option String :=
  let start := "--mode=".toList
  if start.isPrefixOf arg.toList then some (String.ofList (arg.toList.drop start.length)) else none

/-- Does the argument stand for itself? A single dash does. -/
def isPlace (arg : String) : Bool :=
  match arg.toList with
  | '-' :: _ :: _ => false
  | _ => true

/-- Is the argument a group of short options that begins with the one for help? -/
def asksHelp (arg : String) : Bool :=
  match arg.toList with
  | '-' :: 'h' :: _ => true
  | _ => arg == "--help"

/-- Reads arguments, given those before them. -/
def Request.readFrom (a : Arguments) : List String → Request
  | [] => a.request
  | "--" :: rest => { a with places := rest.reverse ++ a.places }.request
  | "--pretty" :: rest => if a.pretty then .malformed else readFrom { a with pretty := true } rest
  | "--precompile" :: rest =>
    if a.precompile then .malformed else readFrom { a with precompile := true } rest
  | "--mode" :: word :: rest =>
    match a.withMode? word with
    | some a => readFrom a rest
    | none => .malformed
  | arg :: rest =>
    if isPlace arg then readFrom { a with places := arg :: a.places } rest
    else if asksHelp arg then .help
    else
      match modeOf? arg with
      | none => .malformed
      | some word =>
        match a.withMode? word with
        | some a => readFrom a rest
        | none => .malformed

/-- Reads the arguments of the command. -/
def Request.read (args : List String) : Request := readFrom {} args

/-! ## Variables -/

/-- The value that a text most likely stands for: a whole number, a double, a truth
value, or the text itself. -/
def guessValue (text : String) : Value :=
  match Decimal.readInt? text.toList, Decimal.readFloat? text.toList with
  | some n, _ => .int n
  | none, some x => .float x
  | none, none =>
    match text with
    | "true" => .bool true
    | "false" => .bool false
    | text => .str text

/-- Reads a name and a value with `=` between them. Blanks around the name do not
count. -/
def readVariable? (arg : String) : Option (String × Value) :=
  let cs := arg.toList
  match cs.dropWhile (· != '=') with
  | [] => none
  | _ :: value =>
    some (String.ofList (Text.trim (cs.takeWhile (· != '='))), guessValue (String.ofList value))

/-- Reads variables, up to the first argument that is none, which is then the fault. -/
def readVariables (vars : Variables) : List String → Except String Variables
  | [] => .ok vars
  | arg :: rest =>
    match readVariable? arg with
    | some (name, v) => readVariables (Table.insert name v vars) rest
    | none => .error arg

/-! ## Doing it -/

/-- What the command leaves behind. -/
structure Outcome where
  code : UInt32
  output : String
  report : String

/-- The lines of a text, each further in. -/
def shifted (text : String) : String :=
  String.ofList (' ' :: ' ' :: ' ' :: ' ' ::
    text.toList.flatMap fun c => if c = '\n' then "\n    ".toList else [c])

/-- A failure: what was written before, what was being done, and the cause. -/
def failure (output context : String) (cause : Option String) : Outcome :=
  let reason := cause.elim "" fun text => "\n\nCaused by:\n" ++ shifted text
  ⟨1, output, "Error: " ++ context ++ reason ++ "\n"⟩

namespace Invocation

/-- The engine for the templates of a directory. -/
def engine (i : Invocation) (d : Directory) : Engine :=
  .start d.loader { pretty := i.pretty, mode := i.mode }

/-- Renders the template. -/
def render (i : Invocation) (own : Variables) (e : Engine) : Outcome :=
  match e.template i.name with
  | (.error error, _) =>
    failure "" s!"failed to compile template `{i.name}`" (some error.message)
  | (.ok t, e) =>
    match e.renderTo t own .unlimited with
    | (.ok _, sink) => ⟨0, sink.text ++ "\n", ""⟩
    | (.error error, sink) =>
      failure sink.text s!"failed to render template `{i.name}`" (some error.message)

/-- Does what was asked for, given what is in the directory. -/
def run (i : Invocation) (d : Directory) : Outcome :=
  let e := i.engine d
  match if i.precompile then e.precompile else (.ok 0, e) with
  | (.error error, _) =>
    failure "" s!"failed to precompile templates in {i.directory}" (some error.message)
  | (.ok _, e) =>
    match readVariables [] i.bindings with
    | .error arg => failure "" s!"invalid variable `{arg}`, expected key=value" none
    | .ok own => i.render own e

end Invocation

/-- How the command is used. -/
def usage : String :=
  "\n".intercalate [
    "Render a template from a directory",
    "",
    "Usage: trellis [OPTIONS] <DIR> <NAME> [VARS]...",
    "",
    "Options:",
    "      --pretty       Lay the output out",
    "      --mode <MODE>  html, xhtml or xml",
    "      --precompile   Compile all templates of the directory first",
    "  -h, --help         Show this text",
    ""]

end Trellis.CommandLine
