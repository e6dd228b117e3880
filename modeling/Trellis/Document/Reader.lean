import Trellis.Document.Outline
import Trellis.Document.Reference
import Trellis.Document.Statement
import Trellis.Error

/-!
# `Trellis.Document.Reader`: from an outline to nodes

The reader goes through the entries of an outline in document order and gives each
statement its children. It stops at the first fault, and the line of a fault is that
of its statement.

Other templates come in through the two functions of `Surroundings`, so the reader
itself only recurs on the outline. On the way it collects the mixins that it meets,
of which a later one takes the place of an earlier one of the same name, and the names
of the sources that were asked for.
-/

set_option autoImplicit false

namespace Trellis

open Source

/-- What the reader collects: the mixins so far, and the names of all sources that were
asked for, the last one first. -/
structure Progress where
  mixins : Table Mixin
  asked : List String

/-- A computation that may fail and asks for sources. -/
abbrev Asking := EStateM Error (List String)

/-- A computation that builds nodes. -/
abbrev Building := EStateM Error Progress

/-- Where a template is read: its name, and how a source or a whole document is got by
name. -/
structure Surroundings where
  template : String
  fetch : String → Asking String
  load : String → Asking Document

/-- Runs a computation that asks for sources. -/
def asking {α : Type} (a : Asking α) : Building α := fun p =>
  match a p.asked with
  | .ok x asked => .ok x { p with asked }
  | .error e asked => .error e { p with asked }

/-- Adds the mixins of another document. -/
def addMixins (mixins : Table Mixin) : Building Unit :=
  modify fun p => { p with mixins := Table.insertAll mixins p.mixins }

namespace Surroundings

/-- Fails at a line of the template. -/
def fail {α : Type} (s : Surroundings) (line : Nat) (fault : ParseFault) : Building α :=
  throw (.parse s.template line fault)

/-- The outcome of reading a part of a line. -/
def check {α : Type} (s : Surroundings) (line : Nat) : Except ParseFault α → Building α
  | .ok x => pure x
  | .error fault => s.fail line fault

/-- Runs a computation; that a source is missing becomes a fault of the line that asked
for it. -/
def orMissing {α : Type} (s : Surroundings) (line : Nat) (fault : ParseFault) (a : Asking α) :
    Building α := fun p =>
  match asking a p with
  | .error (.notFound _) p => .error (.parse s.template line fault) p
  | r => r

/-- What an include statement stands for: the nodes of a template, with its mixins, or
the text of another file. -/
def includeNodes (s : Surroundings) (line : Nat) (target : String) : Building (List Node) := do
  let name := Reference.resolve s.template target
  if Reference.isRaw name then
    let text ← s.orMissing line (.noInclude name) (s.fetch name)
    return [.text [.literal text]]
  else
    let document ← s.orMissing line (.noTemplate name) (s.load name)
    addMixins document.mixins
    return document.nodes

end Surroundings

/-- What belongs to a line, each part as the computation that reads it. -/
structure Parts where
  /-- Fails if there are children. -/
  noChildren : Building Unit
  children : Building (List Node)
  /-- The children as alternatives of a case. -/
  alternatives : Building (List When × Option (List Node))
  /-- The `else` lines behind the line as further branches. -/
  branches : Building (List Branch × Option (List Node))
  /-- A plain `else` line behind the line. -/
  fallback : Building (Option (List Node))
  /-- Fails if an `else` line stands behind the line. -/
  noElse : Building Unit

/-- The nodes of a statement. -/
def Head.nodes (s : Surroundings) (line : Nat) (p : Parts) : Head → Building (List Node)
  | .leaf n => do
    p.noChildren
    p.noElse
    return [n]
  | .including target => do
    p.noChildren
    let ns ← s.includeNodes line target
    p.noElse
    return ns
  | .tag name attributes content => do
    let children ← p.children
    p.noElse
    return [.tag name attributes false (Node.join content children)]
  | .call name arguments => do
    let body ← p.children
    p.noElse
    return [.call name arguments (if body.isEmpty then none else some body)]
  | .tagAround name attributes inner => do
    let children ← inner.nodes s line p
    return [.tag name attributes false children]
  | .callAround name arguments inner => do
    let body ← inner.nodes s line p
    return [.call name arguments (if body.isEmpty then none else some body)]
  | .cond test negated => do
    let body ← p.children
    let (branches, otherwise) ← p.branches
    return [.cond (⟨test, negated, body⟩ :: branches) otherwise]
  | .each item key collection => do
    let body ← p.children
    let fallback ← p.fallback
    return [.each item key collection body fallback]
  | .caseOf subject => do
    let (whens, default) ← p.alternatives
    p.noElse
    return [.caseOf subject whens default]
  | .mixin name parameters rest => do
    let body ← p.children
    let mixin : Mixin := ⟨name, parameters, rest, body⟩
    addMixins [(name, mixin)]
    p.noElse
    return [.mixin mixin]
  | .block name mode => do
    let children ← p.children
    p.noElse
    return [.block name mode children]

/-- Fails if there are entries. -/
def refuseChildren (s : Surroundings) : List Entry → Building Unit
  | [] => pure ()
  | e :: _ => s.fail e.line .strayIndentation

/-- Fails if there is an `else` line. -/
def refuseElse (s : Surroundings) : Option Entry → Building Unit
  | none => pure ()
  | some e => s.fail e.line .strayElse

/-- Fails if there is an `else` line among the alternatives of a case. -/
def refuseElseInCase (s : Surroundings) : Option Entry → Building Unit
  | none => pure ()
  | some e =>
    match e.tokens with
    | [] => pure ()
    | t :: _ => s.fail e.line (.notAlternative t)

mutual

/-- The nodes of one entry. -/
def readEntry (s : Surroundings) : Entry → Building (List Node)
  | .mk line next tokens children alternative => do
    match tokens with
    | [] =>
      refuseElse s alternative
      return []
    | tokens =>
      match Head.read tokens with
      | .error .strayLineEnd => s.fail next .strayLineEnd
      | .error fault => s.fail line fault
      | .ok head =>
        head.nodes s line
          { noChildren := refuseChildren s children
            children := readEntries s children
            alternatives := readAlternatives s none children
            branches := readBranches s alternative
            fallback := readFallback s alternative
            noElse := refuseElse s alternative }

/-- The nodes of some entries, in order. -/
def readEntries (s : Surroundings) : List Entry → Building (List Node)
  | [] => return []
  | e :: rest => do
    let ns ← readEntry s e
    return Node.join ns (← readEntries s rest)

/-- The alternatives of a case; `default` is the default that was met. -/
def readAlternatives (s : Surroundings) (default : Option (List Node)) :
    List Entry → Building (List When × Option (List Node))
  | [] => return ([], default)
  | .mk line _ tokens children alternative :: rest =>
    match tokens with
    | [] => do
      refuseElseInCase s alternative
      readAlternatives s default rest
    | .when value :: more => do
      let e ← s.check line (compileText value)
      s.check line (endOfLine more)
      let body ← readEntries s children
      refuseElseInCase s alternative
      let (whens, default) ← readAlternatives s default rest
      return (⟨e, body⟩ :: whens, default)
    | .default :: more => do
      if default.isSome then s.fail line .secondDefault
      s.check line (endOfLine more)
      let body ← readEntries s children
      refuseElseInCase s alternative
      readAlternatives s (some body) rest
    | t :: _ => s.fail line (.notAlternative t)

/-- The branches that `else` lines add to a conditional. A plain `else` is the last. -/
def readBranches (s : Surroundings) : Option Entry → Building (List Branch × Option (List Node))
  | none => return ([], none)
  | some (.mk line _ tokens children alternative) =>
    match tokens with
    | .elseCond test :: more => do
      let e ← s.check line (compileText test)
      s.check line (endOfLine more)
      let body ← readEntries s children
      let (branches, otherwise) ← readBranches s alternative
      return (⟨e, false, body⟩ :: branches, otherwise)
    | .otherwise :: more => do
      s.check line (endOfLine more)
      let body ← readEntries s children
      refuseElse s alternative
      return ([], some body)
    | _ => s.fail line .strayElse

/-- What an `else` line adds to a loop. -/
def readFallback (s : Surroundings) : Option Entry → Building (Option (List Node))
  | none => return none
  | some (.mk line _ tokens children alternative) =>
    match tokens with
    | .otherwise :: more => do
      s.check line (endOfLine more)
      let body ← readEntries s children
      refuseElse s alternative
      return some body
    | _ => s.fail line .strayElse

end

end Trellis
