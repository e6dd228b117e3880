import Trellis.Document.Inheritance
import Trellis.Document.Reader

/-!
# `Trellis.Document.Resolution`: a document from a library of sources

`Library.document` reads a template together with all that it includes and extends.
The templates under way form a chain, and a template that is named while it is on the
chain is a cycle.

A library gives finitely many names under which its sources can be had. Every step
down the chain takes one of them, so resolution ends. A name that is not among them
has no source, and asking for it fails.
-/

set_option autoImplicit false

namespace Trellis

open Source

/-- Sources by name. `names` are the names without a leading slash that have one. -/
structure Library where
  source : String → Except Error String
  names : List String

/-- Asks a library for a source. -/
def Library.ask (l : Library) (name : String) : Asking String := fun asked =>
  match l.source name with
  | .ok source => .ok source (name :: asked)
  | .error e => .error e (name :: asked)

/-- Does the entry say nothing at all? -/
def Entry.isVacant : Entry → Bool
  | .mk _ _ [] [] none => true
  | _ => false

/-- Runs the reader on a template of its own and gives its nodes and mixins. -/
def collecting (b : Building (List Node)) : Asking Document := fun asked =>
  match b ⟨[], asked⟩ with
  | .ok nodes p => .ok ⟨nodes, p.mixins⟩ p.asked
  | .error e p => .error e p.asked

/-- The document of a template that extends another one. -/
def readDerived (s : Surroundings) (line : Nat) (target : String) (rest : List Token)
    (children : List Entry) (alternative : Option Entry) (entries : List Entry) :
    Asking Document := do
  let own ← collecting do
    s.check line (endOfLine rest)
    refuseChildren s children
    refuseElse s alternative
    readEntries s entries
  let name := Reference.resolve s.template target
  let base ← fun asked =>
    match s.load name asked with
    | .error (.notFound _) asked =>
      EStateM.Result.error (Error.parse s.template line (.noTemplate name)) asked
    | r => r
  return base.extend own.nodes own.mixins

/-- The document of a template in its surroundings. Only its first statement can name a
template to extend. -/
def readDocument (s : Surroundings) (layout : Layout) : Asking Document :=
  match layout.lines.head? with
  | none => pure ⟨[], []⟩
  | some first =>
    if first.depth > 0 then throw (.parse s.template first.position.line .strayIndentation)
    else
      match (Entry.forest layout).dropWhile Entry.isVacant with
      | .mk line _ (.extending target :: rest) children alternative :: entries =>
        readDerived s line target rest children alternative entries
      | entries => collecting (readEntries s entries)

theorem length_erase_lt {name : String} {names : List String} (h : name ∈ names) :
    (names.erase name).length < names.length := by
  have := List.length_erase_of_mem h
  have := List.length_pos_of_mem h
  omega

/-- Resolves a template whose chain of templates under way is `chain`, the outermost
first. The names in `unused` have not been taken yet. -/
def Library.resolve (l : Library) (unused chain : List String) (name : String) :
    Asking Document := do
  let source ← l.ask name
  match Layout.scan source with
  | .error e => throw (.scan name e)
  | .ok layout =>
    let under := chain ++ [name]
    readDocument
      { template := name
        fetch := l.ask
        load := fun target =>
          if target ∈ under then throw (.parse target 0 (.cycle (under ++ [target])))
          else if h : target ∈ unused then
            have := length_erase_lt h
            l.resolve (unused.erase target) under target
          else do
            let _ ← l.ask target
            throw (.notFound target) }
      layout
termination_by unused.length

/-- The document of a template, and the names of all sources that were asked for on the
way, the first one first. -/
def Library.document (l : Library) (name : String) : Except Error Document × List String :=
  match l.resolve l.names [] name [] with
  | .ok d asked => (.ok d, asked.reverse)
  | .error e asked => (.error e, asked.reverse)

end Trellis
