import Trellis.Expr.Arithmetic
import Trellis.Markup.Escape
import Trellis.Text.Case
import Trellis.Text.Search

/-!
# `Trellis.Expr.Builtin`: the functions of the expression language

A function is called by its name, `upper(x)`, or as a method of its first argument,
`x.toUpperCase()`; the two ways know different names. An argument that is not given
is nothing, and arguments beyond those that a function uses do not matter.
-/

set_option autoImplicit false

namespace Trellis.Expr

inductive Builtin where
  | length | upper | lower | trim | join | keys | values | range | contains | string | number
  | escape | indexOf | startsWith | endsWith | split
  deriving DecidableEq

namespace Builtin

/-- The function that a name calls. -/
def ofName? : String → Option Builtin
  | "length" => some .length
  | "upper" => some .upper
  | "lower" => some .lower
  | "trim" => some .trim
  | "join" => some .join
  | "keys" => some .keys
  | "values" => some .values
  | "range" => some .range
  | "contains" => some .contains
  | "string" => some .string
  | "number" => some .number
  | "escape" => some .escape
  | _ => none

/-- The function that a method calls. -/
def ofMethod? : String → Option Builtin
  | "length" => some .length
  | "toUpperCase" => some .upper
  | "toLowerCase" => some .lower
  | "trim" => some .trim
  | "join" => some .join
  | "contains" => some .contains
  | "includes" => some .contains
  | "indexOf" => some .indexOf
  | "startsWith" => some .startsWith
  | "endsWith" => some .endsWith
  | "split" => some .split
  | _ => none

/-- The texts with a separator between each two. -/
def joinTexts (sep : String) : List String → String
  | [] => ""
  | [s] => s
  | s :: t :: rest => s ++ sep ++ joinTexts sep (t :: rest)

/-- The texts of the items, joined; a missing separator is a comma. -/
def joinValues (v separator : Value) : Except EvalFault Value :=
  let sep :=
    match separator with
    | .null => ","
    | other => other.text
  match v with
  | .list items => .ok (.str (joinTexts sep (items.map Value.text)))
  | .null => .ok (.str "")
  | other => .error (.notJoinable other.typeName)

/-- The keys of a map. -/
def keysOf : Value → Except EvalFault Value
  | .map entries => .ok (.list (entries.map fun e => .str e.1))
  | .null => .ok (.list [])
  | other => .error (.withoutKeys other.typeName)

/-- What a map holds, in the order of its keys. -/
def valuesOf : Value → Except EvalFault Value
  | .map entries => .ok (.list (entries.map (·.2)))
  | .null => .ok (.list [])
  | other => .error (.withoutValues other.typeName)

/-- The whole numbers from `first` up to, not including, `bound`. -/
def rangeBetween (first bound : Int64) : Except EvalFault Value :=
  let span := (bound.toInt - first.toInt).toNat
  if span > maxRangeItems then .error (.rangeLimit span)
  else
    .ok (.list ((List.range span).map fun (i : Nat) => .int (Int64.ofInt (first.toInt + i))))

/-- A range from zero, or between two whole numbers. -/
def rangeOf : Value → Value → Except EvalFault Value
  | .int bound, .null => rangeBetween 0 bound
  | .int first, .int bound => rangeBetween first bound
  | v, w => .error (.rangeBounds v.typeName w.typeName)

/-- Is the value an item of the list, a key of the map, a part of the text? -/
def holds (v needle : Value) : Bool :=
  match v with
  | .list items => items.any (·.looseSame needle)
  | .map entries => Table.has needle.text entries
  | .str s => (Text.find? needle.text.toList s.toList).isSome
  | _ => false

/-- The least position of an item in a list or of a part in a text. -/
def position? (v needle : Value) : Option Nat :=
  match v with
  | .list items => items.findIdx? (·.looseSame needle)
  | .str s => Text.find? needle.text.toList s.toList
  | _ => none

/-- The value of a position, −1 for none. -/
def ofPosition : Option Nat → Value
  | some n => .ofCount n
  | none => .int (-1)

/-- The parts of the text of a value between the separators. -/
def splitText (v separator : Value) : Value :=
  .list ((Text.splitOn separator.text.toList v.text.toList).map fun cs => .str (String.ofList cs))

/-- Calls a function. -/
def apply (f : Builtin) (args : List Value) : Except EvalFault Value :=
  let first := args[0]?.getD .null
  let second := args[1]?.getD .null
  match f with
  | .length => .ok (.ofCount (first.length?.getD 0))
  | .upper => .ok (.str (Text.capitals first.text))
  | .lower => .ok (.str (Text.smalls first.text))
  | .trim => .ok (.str (Text.trimmed first.text))
  | .string => .ok (.str first.text)
  | .escape => .ok (.str (Markup.escape first.text))
  | .number => toNumber first
  | .join => joinValues first second
  | .keys => keysOf first
  | .values => valuesOf first
  | .range => rangeOf first second
  | .contains => .ok (.bool (holds first second))
  | .indexOf => .ok (ofPosition (position? first second))
  | .startsWith => .ok (.bool (Text.startsWith second.text.toList first.text.toList))
  | .endsWith => .ok (.bool (Text.endsWith second.text.toList first.text.toList))
  | .split => .ok (splitText first second)

end Builtin

end Trellis.Expr
