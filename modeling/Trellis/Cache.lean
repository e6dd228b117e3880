/-!
# `Trellis.Cache`: the things used last

A cache keeps a limited number of things, those that were used last. A thing is kept
under the name and the version that it was made for, put together into one key, and is
used when it is put in and when it is found.

`Cache.fetch` finds a thing or makes it. What is being made may fail, and then the
cache stays as it was.
-/

set_option autoImplicit false

namespace Trellis

/-- Things by their keys, the one that was used last first. -/
structure Cache (α : Type) where
  capacity : Nat
  entries : List (String × α)

namespace Cache

variable {α σ ε : Type}

/-- A cache with room for some things, but at least for one. -/
def empty (capacity : Nat) : Cache α := ⟨max capacity 1, []⟩

/-- The key for a name and a version. -/
def key (name version : String) : String := name ++ "-" ++ version

/-- The number of things that are kept. -/
def size (c : Cache α) : Nat := c.entries.length

/-- What is kept under a key. -/
def find? (c : Cache α) (k : String) : Option α := c.entries.lookup k

/-- Uses a thing. If there is no room for it, the thing goes that was not used for the
longest time. -/
def use (c : Cache α) (k : String) (a : α) : Cache α :=
  { c with entries := ((k, a) :: c.entries.filter (·.1 != k)).take c.capacity }

/-- Looks for a thing, and uses it if it is there. -/
def get (c : Cache α) (name version : String) : Option α × Cache α :=
  match c.find? (key name version) with
  | some a => (some a, c.use (key name version) a)
  | none => (none, c)

/-- Finds a thing or makes it. -/
def fetch (c : Cache α) (name version : String) (make : σ → Except ε α × σ) (s : σ) :
    Except ε α × Cache α × σ :=
  match c.find? (key name version) with
  | some a => (.ok a, c.use (key name version) a, s)
  | none =>
    match make s with
    | (.ok a, s) => (.ok a, c.use (key name version) a, s)
    | (.error e, s) => (.error e, c, s)

/-- Gives everything up. -/
def clear (c : Cache α) : Cache α := { c with entries := [] }

end Cache

end Trellis
