import Trellis.Text.Case
import Trellis.Text.PrintableTable

/-!
# `Trellis.Text.Quoted`: a text in quotes, as messages show it

The notation stands between double quotes. A double quote and a backslash are
written behind a backslash, the four controls that have a letter as that letter,
and a character without a glyph of its own as its number in hexadecimal. A single
quote is written as it is.
-/

set_option autoImplicit false

namespace Trellis.Text

/-- The lower-case hexadecimal digits of a number, without leading zeros. -/
def hexDigits (n : Nat) : List Char := Nat.toDigits 16 n

/-- Is the character spelled as its number? -/
def isUnprintable (c : Char) : Bool := inRanges unprintableRanges c.toNat

/-- One character inside quotes. -/
def quotedChar (c : Char) : List Char :=
  match c with
  | '\x00' => ['\\', '0']
  | '\t' => ['\\', 't']
  | '\r' => ['\\', 'r']
  | '\n' => ['\\', 'n']
  | '"' => ['\\', '"']
  | '\\' => ['\\', '\\']
  | c => if isUnprintable c then ['\\', 'u', '{'] ++ hexDigits c.toNat ++ ['}'] else [c]

/-- The text in quotes. -/
def quoted (s : String) : String :=
  String.ofList ('"' :: s.toList.flatMap quotedChar ++ ['"'])

end Trellis.Text
