import Trellis.Decimal.Shortest
import Trellis.Table

/-!
# `Trellis.Value`: the values of templates

Variables, expressions and data all speak of one dynamic type: nothing, truth
values, whole numbers of 64 signed bits, doubles, texts, lists and maps. A map is a
`Table`, so its keys are in order.

This module holds what can be asked of a value: its type's name, whether it counts
as true, its numeric view, its length, its members and items, its text, and the two
equalities. Asking for something absent gives `null`, never a failure.
-/

set_option autoImplicit false

namespace Trellis

inductive Value where
  | null
  | bool (b : Bool)
  | int (n : Int64)
  | float (x : Float)
  | str (s : String)
  | list (items : List Value)
  | map (entries : List (String × Value))
  deriving Inhabited

namespace Value

/-- The name of a value's type, as messages and answers show it. -/
def typeName : Value → String
  | .null => "null"
  | .bool _ => "boolean"
  | .int _ => "integer"
  | .float _ => "float"
  | .str _ => "string"
  | .list _ => "list"
  | .map _ => "map"

/-- Everything counts as true except nothing, false, zeros, the double that is no
number, and what is empty. -/
def isTruthy : Value → Bool
  | .null => false
  | .bool b => b
  | .int n => n != 0
  | .float x => !(x == 0) && !Decimal.isNaN x
  | .str s => !s.isEmpty
  | .list items => !items.isEmpty
  | .map entries => !entries.isEmpty

/-- The whole number of a truth value. -/
def ofTruth (b : Bool) : Int64 := if b then 1 else 0

/-- The double nearest to a whole number. -/
def nearest (n : Int64) : Float := Float.ofInt n.toInt

/-- The double by which a value takes part in comparison and mixed arithmetic;
nothing counts as zero. -/
def number? : Value → Option Float
  | .null => some 0
  | .bool b => some (nearest (ofTruth b))
  | .int n => some (nearest n)
  | .float x => some x
  | _ => none

/-- The number of characters, items or entries. -/
def length? : Value → Option Nat
  | .str s => some s.length
  | .list items => some items.length
  | .map entries => some entries.length
  | _ => none

/-- The whole number of a count. -/
def ofCount (n : Nat) : Value := .int (Int64.ofNat n)

/-- The member `key`: what a map holds under it, and the length of a text or list. -/
def member (v : Value) (key : String) : Value :=
  match v with
  | .map entries => (Table.find? key entries).getD .null
  | .str s => if key = "length" then ofCount s.length else .null
  | .list items => if key = "length" then ofCount items.length else .null
  | _ => .null

/-- A double without a fraction and below `10 ^ 15` is written as a whole number, so
that a negative zero shows no sign; any other in positional notation. -/
def floatText (x : Float) : List Char :=
  match Decimal.wholeNumber? x with
  | some n => if n.natAbs < Nat.pow 10 15 then (toString n).toList else Decimal.positional x
  | none => Decimal.positional x

/-- The text of a whole number. -/
def intText (n : Int64) : String := toString n.toInt

mutual
/-- The text of a value, which is what output, concatenation and look-up by value
use. Lists join the texts of their items with commas, maps do not show their
entries. -/
def text : Value → String
  | .null => ""
  | .bool b => if b then "true" else "false"
  | .int n => intText n
  | .float x => String.ofList (floatText x)
  | .str s => s
  | .list items => textList items
  | .map _ => "[object Object]"

/-- The texts of some values, a comma between each two. -/
def textList : List Value → String
  | [] => ""
  | [v] => text v
  | v :: w :: rest => text v ++ "," ++ textList (w :: rest)
end

/-- The item at an index: by position in lists and texts, by key in maps, where an
index that is no text counts by its text. -/
def item (v index : Value) : Value :=
  match v, index with
  | .list items, .int n => if 0 ≤ n.toInt then (items[n.toInt.toNat]?).getD .null else .null
  | .str s, .int n =>
    if 0 ≤ n.toInt then
      match s.toList[n.toInt.toNat]? with
      | some c => .str (String.singleton c)
      | none => .null
    else .null
  | v, .str key => v.member key
  | .map entries, index => (Table.find? index.text entries).getD .null
  | _, _ => .null

mutual
/-- Strict equality: same type and same content. Doubles compare as numbers, so the
two zeros are equal and no-number is not equal to itself. -/
def same : Value → Value → Bool
  | .null, .null => true
  | .bool a, .bool b => a == b
  | .int a, .int b => a == b
  | .float a, .float b => a == b
  | .str a, .str b => a == b
  | .list a, .list b => sameList a b
  | .map a, .map b => sameEntries a b
  | _, _ => false

/-- Same length and strictly equal items. -/
def sameList : List Value → List Value → Bool
  | [], [] => true
  | v :: vs, w :: ws => same v w && sameList vs ws
  | _, _ => false

/-- Same keys and strictly equal entries. -/
def sameEntries : List (String × Value) → List (String × Value) → Bool
  | [], [] => true
  | (k, v) :: vs, (l, w) :: ws => k == l && same v w && sameEntries vs ws
  | _, _ => false
end

/-- Loose equality: a whole number and a double compare as doubles. Inside lists and
maps equality is strict. -/
def looseSame : Value → Value → Bool
  | .int n, .float x => nearest n == x
  | .float x, .int n => nearest n == x
  | v, w => same v w

end Value

/-- The variables of a template by name. -/
abbrev Variables := Table Value

end Trellis
