/-!
# `Trellis.Table`: tables with text keys

A table is a list of pairs in ascending order of their keys, by code point, each
key at most once. `insert` keeps that order; the other operations only look or
leave out. Both the maps of the value language and the tables of names (variables,
mixins, filters, sources) have this form, and everything that lists keys lists them
in this order.
-/

set_option autoImplicit false

namespace Trellis

/-- Pairs of a key and what stands under it. -/
abbrev Table (α : Type) := List (String × α)

namespace Table

variable {α : Type}

/-- What stands under `key`. -/
def find? (key : String) : Table α → Option α
  | [] => none
  | (k, x) :: rest => if k = key then some x else find? key rest

/-- Does anything stand under `key`? -/
def has (key : String) (t : Table α) : Bool := (t.find? key).isSome

/-- Puts `x` under `key`, in place of what stood there. -/
def insert (key : String) (x : α) : Table α → Table α
  | [] => [(key, x)]
  | (k, y) :: rest =>
    if k = key then (key, x) :: rest
    else if key < k then (key, x) :: (k, y) :: rest
    else (k, y) :: insert key x rest

/-- Leaves out `key`. -/
def erase (key : String) (t : Table α) : Table α := t.filter (·.1 ≠ key)

/-- Puts in pairs from left to right, so that the last of a key counts. -/
def insertAll (pairs : List (String × α)) (t : Table α) : Table α :=
  pairs.foldl (fun t p => insert p.1 p.2 t) t

/-- The table of some pairs. -/
def ofList (pairs : List (String × α)) : Table α := insertAll pairs []

/-- The keys in order. -/
def keys (t : Table α) : List String := t.map (·.1)

/-! ## What the operations do to look-up -/

@[simp] theorem find?_nil (key : String) : find? key ([] : Table α) = none := rfl

theorem find?_insert (key other : String) (x : α) (t : Table α) :
    find? other (insert key x t) = if other = key then some x else find? other t := by
  induction t with
  | nil => grind [insert, find?]
  | cons p rest ih =>
    -- Either the pair is replaced, or the new one goes before it or into the rest.
    obtain ⟨k, y⟩ := p
    grind [insert, find?]

@[simp] theorem find?_insert_self (key : String) (x : α) (t : Table α) :
    find? key (insert key x t) = some x := by simp [find?_insert]

/-! ## What stands in a table -/

/-- What is found under a key stands there. -/
theorem mem_of_find? {key : String} {x : α} {t : Table α} (h : t.find? key = some x) :
    (key, x) ∈ t := by
  induction t with
  | nil => simp at h
  | cons p rest ih =>
    obtain ⟨k, y⟩ := p
    rw [find?] at h
    split at h
    · next hk =>
      cases h
      exact hk ▸ List.mem_cons_self
    · exact List.mem_cons_of_mem _ (ih h)

theorem mem_keys_of_find? {key : String} {x : α} {t : Table α} (h : t.find? key = some x) :
    key ∈ t.keys :=
  List.mem_map_of_mem (mem_of_find? h)

theorem mem_insert {key : String} {x : α} {t : Table α} {p : String × α}
    (h : p ∈ insert key x t) : p = (key, x) ∨ p ∈ t := by
  induction t with
  | nil => exact .inl (List.mem_singleton.mp h)
  | cons q rest ih =>
    obtain ⟨k, y⟩ := q
    grind [insert]

theorem mem_insertAll {pairs : List (String × α)} {t : Table α} {p : String × α}
    (h : p ∈ insertAll pairs t) : p ∈ pairs ∨ p ∈ t := by
  induction pairs generalizing t with
  | nil => exact .inr h
  | cons q rest ih =>
    rcases ih h with h | h
    · exact .inl (List.mem_cons_of_mem _ h)
    · rcases mem_insert h with rfl | h
      · exact .inl List.mem_cons_self
      · exact .inr h

end Table

end Trellis
