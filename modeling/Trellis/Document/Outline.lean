import Trellis.Source.Layout

/-!
# `Trellis.Document.Outline`: statements with the statements inside them

The lines of a template form a forest: a line's children are the lines behind it that
lie deeper, up to the next that does not. A line that begins with `else` belongs to
the line before it at its own level, whatever that is; whether it may follow it is
for the reader of statements to say.
-/

set_option autoImplicit false

namespace Trellis

open Source

/-- A line with its children and the `else` line that follows it. `next` is the number
of the line behind it in the template. -/
inductive Entry where
  | mk (line next : Nat) (tokens : List Token) (children : List Entry) (alternative : Option Entry)

namespace Entry

def line : Entry → Nat
  | .mk line _ _ _ _ => line

def tokens : Entry → List Token
  | .mk _ _ tokens _ _ => tokens

/-- Does the line begin with `else`? -/
def isElse (e : Entry) : Bool :=
  match e.tokens with
  | .otherwise :: _ => true
  | .elseCond _ :: _ => true
  | _ => false

/-- The entries of some lines with their depths. The lines behind a line are arranged
first, and the line takes its children from their front. -/
def arrange (finish : Nat) : List Line → List (Nat × Entry)
  | [] => []
  | l :: rest =>
    let later := arrange finish rest
    let children := (later.takeWhile fun e => l.depth < e.1).map (·.2)
    let next :=
      match rest with
      | [] => finish
      | n :: _ => n.position.line
    match later.dropWhile fun e => l.depth < e.1 with
    | [] => [(l.depth, .mk l.position.line next l.tokens children none)]
    | (d, e) :: siblings =>
      if d = l.depth ∧ e.isElse then
        (l.depth, .mk l.position.line next l.tokens children (some e)) :: siblings
      else
        (l.depth, .mk l.position.line next l.tokens children none) :: (d, e) :: siblings

/-- The forest of a template. -/
def forest (l : Layout) : List Entry := (arrange l.finish.line l.lines).map (·.2)

end Entry

end Trellis
