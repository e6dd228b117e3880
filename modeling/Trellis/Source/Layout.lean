import Trellis.Source.Line

/-!
# `Trellis.Source.Layout`: a template as indented lines of tokens

`Layout.scan` goes through the lines of a template once. A blank line says nothing.
Any other line begins a statement, which may use up lines below it: those that its
brackets run over, and those that are its text (or discarded) because they are
indented deeper.

The first indented line fixes whether the template is indented with tabs or with
spaces. A line that is indented deeper than the one before opens a level; a line that
is indented less goes back to the level of an enclosing line and must have exactly
its width.

`Layout.items` is the same thing as one stream of tokens, in which levels are opened
and closed by tokens of their own.
-/

set_option autoImplicit false

namespace Trellis.Source

open Trellis.Text

/-- A statement: where it starts, how many levels enclose it, and its tokens. -/
structure Line where
  position : Position
  depth : Nat
  tokens : List Token

/-- The statements of a template, and the place where it ends. -/
structure Layout where
  lines : List Line
  finish : Position

/-- What the lines so far say about indentation: the widths of the open levels, the
innermost first, and the character that indents. -/
structure Margin where
  widths : List Nat
  unit : Option Char

/-- No level is open, no character fixed. -/
def Margin.start : Margin := ⟨[], none⟩

/-- The width of the innermost level. -/
def Margin.width (m : Margin) : Nat := m.widths.head?.getD 0

/-- The indentation of a line. -/
def indentOf (line : List Char) : List Char := line.takeWhile isIndent

/-- Takes note of the character that indents a line. -/
def Margin.checkUnit (m : Margin) (indent : List Char) : Except ScanFault Margin :=
  match indent with
  | [] => .ok m
  | unit :: _ =>
    if indent.contains '\t' && indent.contains ' ' then .error .mixedIndentation
    else
      match m.unit with
      | none => .ok { m with unit := some unit }
      | some expected =>
        if expected = unit then .ok m else .error (.otherIndentation (expected == '\t'))

/-- Opens or closes levels for a line of the given width. -/
def Margin.moveTo (m : Margin) (width : Nat) : Except ScanFault Margin :=
  if width > m.width then .ok { m with widths := width :: m.widths }
  else
    let kept := { m with widths := m.widths.dropWhile (· > width) }
    if kept.width = width then .ok kept else .error .strayOutdent

/-- The lines below a statement, each after a line feed and trimmed. Only brackets can
take them in, so a statement without one has none. -/
def textBelow (statement : List Char) (below : List (List Char)) : List Char :=
  if statement.contains '(' then below.flatMap fun line => '\n' :: trim line else []

/-- Leaves out the blank lines at the end. -/
def dropLastBlank : List (List Char) → List (List Char)
  | [] => []
  | line :: rest =>
    match dropLastBlank rest with
    | [] => if isBlankText line then [] else [line]
    | kept => line :: kept

/-- The lines at the front of `below` that are indented deeper than `width`, with the
blank lines between them. -/
def deeperLines (width : Nat) (below : List (List Char)) : List (List Char) :=
  dropLastBlank (below.takeWhile fun line => isBlankText line || width < (indentOf line).length)

/-- The least indentation among the lines that are not blank. -/
def commonIndent (lines : List (List Char)) : Nat :=
  (((lines.filter fun line => !isBlankText line).map fun line => (indentOf line).length).min?).getD 0

/-- The lines as text: without the indentation that they share and without blanks at
their ends. -/
def blockText (lines : List (List Char)) : List String :=
  let base := commonIndent lines
  lines.map fun line =>
    if isBlankText line then "" else String.ofList (trimEnd (line.drop base))

/-- The tokens of a statement whose deeper lines are `lines`. -/
def Statement.withBlock (s : Statement) (lines : List (List Char)) : List Token :=
  if s.below = .text ∧ lines ≠ [] then s.tokens ++ [.textBlock (blockText lines)] else s.tokens

/-- A statement read in its place: the margin after it, its line, and how many of the
lines below it are used up. -/
structure Placed where
  margin : Margin
  line : Line
  used : Nat

/-- Reads the statement that begins with the line `raw`, the `number`-th of the
template. -/
def placeStatement (m : Margin) (number : Nat) (raw : List Char) (below : List (List Char)) :
    Except ScanError Placed :=
  let indent := indentOf raw
  let position : Position := ⟨number, indent.length + 1⟩
  match m.checkUnit indent with
  | .error fault => .error ⟨⟨number, 1⟩, fault⟩
  | .ok m =>
    match m.moveTo indent.length with
    | .error fault => .error ⟨position, fault⟩
    | .ok m =>
      let text := trimEnd (raw.drop indent.length)
      let more := textBelow text below
      match readStatement (text ++ more) with
      | .error fault => .error ⟨position, fault⟩
      | .ok s =>
        let joined := more.count '\n' - s.rest.count '\n'
        let block :=
          if s.below = .statements then [] else deeperLines indent.length (below.drop joined)
        .ok ⟨m, ⟨position, m.widths.length, s.withBlock block⟩, joined + block.length⟩

/-- Scans lines, of which the first has the number `number` and the first `skip` are
used up already. `last` is the place of the last statement or blank line before. -/
def Layout.scanFrom (m : Margin) (number : Nat) (last : Position) (skip : Nat) :
    List (List Char) → Except ScanError Layout
  | [] => .ok ⟨[], last⟩
  | raw :: below =>
    match skip with
    | k + 1 => scanFrom m (number + 1) last k below
    | 0 =>
      if isBlankText raw then scanFrom m (number + 1) ⟨number, last.column⟩ 0 below
      else
        match placeStatement m number raw below with
        | .error e => .error e
        | .ok p =>
          match scanFrom p.margin (number + 1) p.line.position p.used below with
          | .error e => .error e
          | .ok rest => .ok { rest with lines := p.line :: rest.lines }

/-- Scans the source of a template. -/
def Layout.scan (source : String) : Except ScanError Layout :=
  scanFrom .start 1 ⟨0, 1⟩ 0 (Text.lines source.toList)

/-! ## The stream of tokens -/

/-- An item of the stream. -/
inductive Item where
  | indent
  | outdent
  | newline
  | finish
  | token (t : Token)
  deriving DecidableEq

/-- The items that lead from one depth to another. -/
def levelItems (before after : Nat) : List Item :=
  if before < after then [.indent] else List.replicate (before - after) .outdent

/-- The items of a line, behind a line at depth `before`. -/
def Line.items (before : Nat) (l : Line) : List (Position × Item) :=
  (levelItems before l.depth ++ l.tokens.map Item.token ++ [Item.newline]).map fun i =>
    (l.position, i)

/-- The items of some lines, behind a line at depth `before`, to the end. -/
def itemsFrom (finish : Position) (before : Nat) : List Line → List (Position × Item)
  | [] => (levelItems before 0 ++ [Item.finish]).map fun i => (finish, i)
  | l :: rest => l.items before ++ itemsFrom finish l.depth rest

/-- The items of a template, each with the place of its line. -/
def Layout.items (l : Layout) : List (Position × Item) := itemsFrom l.finish 0 l.lines

end Trellis.Source
