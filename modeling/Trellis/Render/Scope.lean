import Trellis.Value

/-!
# `Trellis.Render.Scope`: the variables that a node sees

The variables given to a template lie under a stack of frames. The frame at the bottom
belongs to the template itself; loops and mixin calls put frames on top. A name means
what the topmost frame that has it says, and an assignment goes to the topmost frame.
-/

set_option autoImplicit false

namespace Trellis

/-- The given variables, and the frames, the topmost first. -/
structure Scope where
  globals : Variables
  frames : List Variables

namespace Scope

/-- A scope with the template's own frame. -/
def start (globals : Variables) : Scope := ⟨globals, [[]]⟩

/-- The number of frames. -/
def depth (s : Scope) : Nat := s.frames.length

/-- The value of a name, if it has one. -/
def find? (s : Scope) (name : String) : Option Value :=
  match s.frames.findSome? (Table.find? name) with
  | some v => some v
  | none => Table.find? name s.globals

/-- The value of a name; one that has none is nothing. -/
def get (s : Scope) (name : String) : Value := (s.find? name).getD .null

/-- Puts a frame on top. -/
def pushFrame (s : Scope) : Scope := { s with frames := [] :: s.frames }

/-- Takes the topmost frame off, unless it is the only one. -/
def popFrame (s : Scope) : Scope :=
  match s.frames with
  | _ :: under :: rest => { s with frames := under :: rest }
  | _ => s

/-- Gives a value to a name in the topmost frame. -/
def set (s : Scope) (name : String) (v : Value) : Scope :=
  match s.frames with
  | top :: rest => { s with frames := Table.insert name v top :: rest }
  | [] => s

/-- Gives values to names in the topmost frame, in order. -/
def setAll (s : Scope) (bindings : List (String × Value)) : Scope :=
  bindings.foldl (fun s b => s.set b.1 b.2) s

/-- Takes off all frames above the given depth, but never the frame at the bottom. Gives
the frames taken off. -/
def splitOff (s : Scope) (depth : Nat) : List Variables × Scope :=
  let kept := min (max depth 1) s.depth
  (s.frames.take (s.depth - kept), { s with frames := s.frames.drop (s.depth - kept) })

/-- Puts frames on top again. -/
def restore (s : Scope) (frames : List Variables) : Scope := { s with frames := frames ++ s.frames }

end Scope

end Trellis
