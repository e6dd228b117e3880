import Trellis.Decimal.Reading
import Trellis.Error

/-!
# `Trellis.Datum`: structured data from outside

The data of a program has more shapes than the values of templates: optional and
wrapped data, records with named fields, maps with keys of any shape, whole numbers
beyond 64 signed bits, and data that refuses to be taken over. `Datum.toValue` gives
the value that a datum becomes.

Data is gone through in order, and the first fault counts. Under a key or a field name
that comes more than once, the last value stays.

The keys and the values of a map come one after the other. A key waits for the next
value, which is put in under it; a later key takes the place of one that still waits.
-/

set_option autoImplicit false

namespace Trellis

/-- What may come next in a map. -/
inductive MapStep (α : Type) where
  | key (k : α)
  | value (v : α)

inductive Datum where
  | null
  | bool (b : Bool)
  | whole (n : Int)
  | float (x : Float)
  | str (s : String)
  | list (items : List Datum)
  | record (fields : List (String × Datum))
  /-- A map. A value that no key waits for is a fault. -/
  | table (steps : List (MapStep Datum))
  /-- Something around a datum that the value does not show. -/
  | wrapped (inner : Datum)
  /-- Data that cannot be taken over, for a reason of its own. -/
  | refusing (message : String)
  deriving Inhabited

/-- The value of a whole number: a double if it does not fit in 64 signed bits. -/
def Value.ofWhole (n : Int) : Value :=
  match Decimal.int64? n with
  | some n => .int n
  | none =>
    let magnitude := Decimal.nearest n.natAbs 0
    .float (if n < 0 then -magnitude else magnitude)

/-- The text that a value is as a key: numbers and truth values are their texts. -/
def Value.asKey : Value → Except ConfigurationFault String
  | .str s => .ok s
  | .int n => .ok (Value.int n).text
  | .float x => .ok (Value.float x).text
  | .bool b => .ok (Value.bool b).text
  | v => .error (.badKey v.typeName)

namespace Datum

/-- The steps of an entry, which may lack its key. -/
def entrySteps (entry : Option Datum × Datum) : List (MapStep Datum) :=
  (entry.1.map MapStep.key).toList ++ [.value entry.2]

/-- The map of some entries. -/
def map (entries : List (Option Datum × Datum)) : Datum := .table (entries.flatMap entrySteps)

mutual

/-- The value of a datum. -/
def toValue : Datum → Except ConfigurationFault Value
  | .null => .ok .null
  | .bool b => .ok (.bool b)
  | .whole n => .ok (Value.ofWhole n)
  | .float x => .ok (.float x)
  | .str s => .ok (.str s)
  | .list items => (itemValues items).map .list
  | .record fields => (fieldValues [] fields).map .map
  | .table steps => (stepValues [] none steps).map .map
  | .wrapped inner => inner.toValue
  | .refusing message => .error (.refused message)

/-- The values of some data. -/
def itemValues : List Datum → Except ConfigurationFault (List Value)
  | [] => .ok []
  | d :: rest => do
    let v ← d.toValue
    return v :: (← itemValues rest)

/-- The entries so far and those of further fields. -/
def fieldValues (entries : Table Value) :
    List (String × Datum) → Except ConfigurationFault (Table Value)
  | [] => .ok entries
  | (name, d) :: rest => do
    let v ← d.toValue
    fieldValues (Table.insert name v entries) rest

/-- The entries so far and those of further steps. `waiting` is the key that waits for its
value. -/
def stepValues (entries : Table Value) (waiting : Option String) :
    List (MapStep Datum) → Except ConfigurationFault (Table Value)
  | [] => .ok entries
  | .key k :: rest => do
    let key ← (← k.toValue).asKey
    stepValues entries (some key) rest
  | .value d :: rest => do
    let v ← d.toValue
    match waiting with
    | some key => stepValues (Table.insert key v entries) none rest
    | none => throw .missingKey

end

/-- The variables that a datum gives a template: the entries of a map or record, or
none. -/
def toVariables (d : Datum) : Except ConfigurationFault Variables := do
  match ← d.toValue with
  | .map entries => return entries
  | .null => return []
  | v => throw (.badModel v.typeName)

end Datum

end Trellis
