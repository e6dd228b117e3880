import Trellis.Expr.Basic
import Trellis.Expr.Token
import Trellis.Text.Blank

/-!
# `Trellis.Expr.Print`: expressions as text

An expression is printed as its tokens with a space between each two. Parentheses stand only
where the grammar asks for them. A choice binds most loosely and nests to the right. Then come the
operators with two operands, which nest to the left: `||`, `&&`, equality, the orders, addition
and multiplication. Operators before their operand follow, and what stands behind its target
binds most tightly.

Not every tree has a text. A literal may be a value without a notation, and a name may be no
word, or a word that is read as something else. `Expr.printable` tells which trees have one.
-/

set_option autoImplicit false

namespace Trellis.Expr

/-! ### Tokens as text -/

/-- How a character is written inside double quotes. -/
def escapeChar : Char → List Char
  | '\\' => ['\\', '\\']
  | '"' => ['\\', '"']
  | '\n' => ['\\', 'n']
  | '\t' => ['\\', 't']
  | '\r' => ['\\', 'r']
  | c => [c]

/-- A text in double quotes. -/
def quotedText (s : String) : List Char := '"' :: s.toList.flatMap escapeChar ++ ['"']

/-- How a token is written. -/
def Token.text : Token → List Char
  | .int n => (Value.intText n).toList
  | .float x => Decimal.positional x
  | .str s => quotedText s
  | .word w => w.toList
  | .mark m => m.text.toList

/-- The sign of an operator before its operand. -/
def UnaryOp.sign : UnaryOp → Token
  | .not => .mark .bang
  | .negate => .mark .minus
  | .plus => .mark .plus

/-- The sign of an operator between its operands. -/
def BinaryOp.sign : BinaryOp → Token
  | .or => .mark .either
  | .and => .mark .both
  | .equal => .mark .equal
  | .unequal => .mark .unequal
  | .strictEqual => .mark .strictEqual
  | .strictUnequal => .mark .strictUnequal
  | .order .less => .mark .less
  | .order .lessEqual => .mark .lessEqual
  | .order .greater => .mark .greater
  | .order .greaterEqual => .mark .greaterEqual
  | .arithmetic .add => .mark .plus
  | .arithmetic .subtract => .mark .minus
  | .arithmetic .multiply => .mark .star
  | .arithmetic .divide => .mark .slash
  | .arithmetic .modulo => .mark .percent

/-- The notation of a value, if it has one. A negative number has none: its sign is an
operator. -/
def literalToken? : Value → Option Token
  | .null => some (.word "null")
  | .bool true => some (.word "true")
  | .bool false => some (.word "false")
  | .int n => if 0 ≤ n then some (.int n) else none
  | .str s => some (.str s)
  | _ => none

/-! ### Parentheses -/

/-- How tightly an operator between operands binds. -/
def BinaryOp.tier : BinaryOp → Nat
  | .or => 1
  | .and => 2
  | .equal | .unequal | .strictEqual | .strictUnequal => 3
  | .order _ => 4
  | .arithmetic .add | .arithmetic .subtract => 5
  | .arithmetic .multiply | .arithmetic .divide | .arithmetic .modulo => 6

/-- The tier of an operator before its operand. -/
def unaryTier : Nat := 7

/-- The tier of what needs no operator. -/
def targetTier : Nat := 8

/-- How tightly an expression holds together. -/
def tier : Expr → Nat
  | .choose .. => 0
  | .binary op _ _ => op.tier
  | .unary .. => unaryTier
  | _ => targetTier

/-- Tokens where a tier is asked for: in parentheses, if their own is looser. -/
def enclosed (own asked : Nat) (ts : List Token) : List Token :=
  if own < asked then .mark .openParen :: ts ++ [.mark .closeParen] else ts

mutual

/-- The tokens of an expression. -/
def spelled : Expr → List Token
  | .literal v => (literalToken? v).toList
  | .list items => .mark .openBracket :: spelledItems items ++ [.mark .closeBracket]
  | .map entries => .mark .openBrace :: spelledEntries entries ++ [.mark .closeBrace]
  | .variable name => [.word name]
  | .member target name =>
    enclosed target.tier targetTier target.spelled ++ [.mark .dot, .word name]
  | .item target index =>
    enclosed target.tier targetTier target.spelled ++
      .mark .openBracket :: index.spelled ++ [.mark .closeBracket]
  | .call callee arguments =>
    enclosed callee.tier targetTier callee.spelled ++
      .mark .openParen :: spelledItems arguments ++ [.mark .closeParen]
  | .unary op operand => op.sign :: enclosed operand.tier unaryTier operand.spelled
  | .binary op left right =>
    enclosed left.tier op.tier left.spelled ++
      op.sign :: enclosed right.tier (op.tier + 1) right.spelled
  | .choose test yes no =>
    enclosed test.tier 1 test.spelled ++ .mark .question :: yes.spelled ++ .mark .colon :: no.spelled

/-- The tokens of some expressions, a comma between each two. -/
def spelledItems : List Expr → List Token
  | [] => []
  | [e] => e.spelled
  | e :: rest => e.spelled ++ .mark .comma :: spelledItems rest

/-- The tokens of the entries of a map, whose keys are quoted. -/
def spelledEntries : List (String × Expr) → List Token
  | [] => []
  | [(key, e)] => .str key :: .mark .colon :: e.spelled
  | (key, e) :: rest => .str key :: .mark .colon :: e.spelled ++ .mark .comma :: spelledEntries rest

end

/-- An expression as text. -/
def print (e : Expr) : String := String.ofList (Text.joinWith [' '] (e.spelled.map Token.text))

/-! ### What can be printed -/

/-- Is the text a word? -/
def isWord (s : String) : Bool := Text.headIs isWordStart s.toList && s.toList.all isWordPart

/-- The words that are no variables. -/
def reservedWords : List String := ["true", "false", "null", "undefined", "not", "and", "or"]

mutual

/-- Does the expression have a text? -/
def printable : Expr → Bool
  | .literal v => (literalToken? v).isSome
  | .list items => printableItems items
  | .map entries => printableEntries entries
  | .variable name => isWord name && !reservedWords.contains name
  | .member target name => target.printable && isWord name
  | .item target index => target.printable && index.printable
  | .call callee arguments => callee.printable && printableItems arguments
  | .unary _ operand => operand.printable
  | .binary _ left right => left.printable && right.printable
  | .choose test yes no => test.printable && yes.printable && no.printable

def printableItems : List Expr → Bool
  | [] => true
  | e :: rest => e.printable && printableItems rest

def printableEntries : List (String × Expr) → Bool
  | [] => true
  | (_, e) :: rest => e.printable && printableEntries rest

end

end Trellis.Expr
