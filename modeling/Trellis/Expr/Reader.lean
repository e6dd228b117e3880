import Trellis.Expr.Basic
import Trellis.Expr.Token

/-!
# `Trellis.Expr.Reader`: from tokens to a tree

The grammar, from the loosest to the tightest form: a choice `a ? b : c`, which
nests to the right; six levels of operators with two operands, all of which nest to
the left; operators before their operand; and the postfix forms `a.b`, `a.0`,
`a[b]` and `a(b, c)` behind a literal, a word, or something in brackets.

Each function takes the tokens still to be read and gives what it read together
with the tokens behind it. A `Reading` carries the fact that this rest is shorter,
so the recursion needs no other bound than the text itself.
-/

set_option autoImplicit false

namespace Trellis.Expr

/-- Something read, and the tokens behind it, of which there are fewer than `bound`. -/
structure Reading (α : Type) (bound : Nat) where
  value : α
  rest : List Lexeme
  shorter : rest.length < bound

/-- The same reading under a greater bound. -/
def Reading.widen {α : Type} {m n : Nat} (r : Reading α m) (h : m ≤ n) : Reading α n :=
  { r with shorter := Nat.lt_of_lt_of_le r.shorter h }

/-- The outcome of reading. -/
abbrev Outcome (α : Type) (bound : Nat) := Except ReadFault (Reading α bound)

/-- The operator that a token stands for between two operands. -/
def BinaryOp.ofToken? : Token → Option BinaryOp
  | .mark .either => some .or
  | .mark .both => some .and
  | .mark .equal => some .equal
  | .mark .unequal => some .unequal
  | .mark .strictEqual => some .strictEqual
  | .mark .strictUnequal => some .strictUnequal
  | .mark .less => some (.order .less)
  | .mark .lessEqual => some (.order .lessEqual)
  | .mark .greater => some (.order .greater)
  | .mark .greaterEqual => some (.order .greaterEqual)
  | .mark .plus => some (.arithmetic .add)
  | .mark .minus => some (.arithmetic .subtract)
  | .mark .star => some (.arithmetic .multiply)
  | .mark .slash => some (.arithmetic .divide)
  | .mark .percent => some (.arithmetic .modulo)
  | .word w => if w = "or" then some .or else if w = "and" then some .and else none
  | _ => none

/-- The operator that a token stands for before an operand. -/
def UnaryOp.ofToken? : Token → Option UnaryOp
  | .mark .bang => some .not
  | .mark .minus => some .negate
  | .mark .plus => some .plus
  | .word w => if w = "not" then some .not else none
  | _ => none

/-- The expression of a word: one of the four literal words, or a variable. -/
def ofWord (w : String) : Expr :=
  if w = "true" then .literal (.bool true)
  else if w = "false" then .literal (.bool false)
  else if w = "null" ∨ w = "undefined" then .literal .null
  else .variable w

/-- Reads one given mark. -/
def expect (m : Mark) (ts : List Lexeme) : Outcome Unit ts.length :=
  match ts with
  | [] => .error (.expectedAtEnd m)
  | t :: rest =>
    match t.token with
    | .mark found =>
      if found = m then .ok ⟨(), rest, Nat.lt_succ_self _⟩
      else .error (.expected m (.mark found) t.offset)
    | found => .error (.expected m found t.offset)

/-- The tokens behind the mark, when the next token is that mark. -/
def behind? (m : Mark) (ts : List Lexeme) : Option { rest : List Lexeme // rest.length < ts.length } :=
  match ts with
  | [] => none
  | t :: rest =>
    match t.token with
    | .mark found => if found = m then some ⟨rest, Nat.lt_succ_self _⟩ else none
    | _ => none

/-- The key of a map entry: a word, a text, or the text of a whole number. -/
def keyOf : Token → Except ReadFault String
  | .word w => .ok w
  | .str s => .ok s
  | .int n => .ok (Value.intText n)
  | other => .error (.expectedKey other)

mutual

/-- A choice, or an expression of operators. -/
def readChoice (ts : List Lexeme) : Outcome Expr ts.length :=
  match readOperators 0 ts with
  | .error e => .error e
  | .ok ⟨test, ts1, h1⟩ =>
    match behind? .question ts1 with
    | none => .ok ⟨test, ts1, h1⟩
    | some ⟨ts2, h2⟩ =>
      match readChoice ts2 with
      | .error e => .error e
      | .ok ⟨yes, ts3, h3⟩ =>
        match expect .colon ts3 with
        | .error e => .error e
        | .ok ⟨_, ts4, h4⟩ =>
          match readChoice ts4 with
          | .error e => .error e
          | .ok ⟨no, ts5, h5⟩ => .ok ⟨.choose test yes no, ts5, by omega⟩
termination_by (ts.length, 4)

/-- Operators with two operands that bind at least as tightly as `level`. -/
def readOperators (level : Nat) (ts : List Lexeme) : Outcome Expr ts.length :=
  match readUnary ts with
  | .error e => .error e
  | .ok ⟨left, rest, h⟩ => readOperands level left rest ts.length h
termination_by (ts.length, 3)

/-- Goes on behind a left operand, as long as an operator of the level follows. -/
def readOperands (level : Nat) (left : Expr) (ts : List Lexeme) (bound : Nat)
    (h : ts.length < bound) : Outcome Expr bound :=
  match ts with
  | [] => .ok ⟨left, [], h⟩
  | t :: rest =>
    match BinaryOp.ofToken? t.token with
    | none => .ok ⟨left, t :: rest, h⟩
    | some op =>
      if op.precedence < level then .ok ⟨left, t :: rest, h⟩
      else
        match readOperators (op.precedence + 1) rest with
        | .error e => .error e
        | .ok ⟨right, rest1, h1⟩ =>
          readOperands level (.binary op left right) rest1 bound
            (by simp at h; omega)
termination_by (ts.length, 3)

/-- Operators before their operand. -/
def readUnary (ts : List Lexeme) : Outcome Expr ts.length :=
  match ts with
  | [] => .error .unexpectedEnd
  | t :: rest =>
    match UnaryOp.ofToken? t.token with
    | some op =>
      match readUnary rest with
      | .error e => .error e
      | .ok ⟨operand, rest1, h1⟩ => .ok ⟨.unary op operand, rest1, by simp; omega⟩
    | none => readPostfix (t :: rest)
termination_by (ts.length, 2)

/-- A primary expression and what follows it. -/
def readPostfix (ts : List Lexeme) : Outcome Expr ts.length :=
  match readPrimary ts with
  | .error e => .error e
  | .ok ⟨target, rest, h⟩ => readAccess target rest ts.length h
termination_by (ts.length, 1)

/-- Goes on behind an expression, as long as an access or a call follows. -/
def readAccess (target : Expr) (ts : List Lexeme) (bound : Nat) (h : ts.length < bound) :
    Outcome Expr bound :=
  match ts with
  | [] => .ok ⟨target, [], h⟩
  | t :: rest =>
    match t.token with
    | .mark .dot =>
      match rest with
      | [] => .error .expectedNameAtEnd
      | name :: rest1 =>
        match name.token with
        | .word w => readAccess (.member target w) rest1 bound (by simp at h; omega)
        | .int n =>
          readAccess (.item target (.literal (.int n))) rest1 bound (by simp at h; omega)
        | other => .error (.expectedName other)
    | .mark .openBracket =>
      match readChoice rest with
      | .error e => .error e
      | .ok ⟨index, rest1, h1⟩ =>
        match expect .closeBracket rest1 with
        | .error e => .error e
        | .ok ⟨_, rest2, h2⟩ =>
          readAccess (.item target index) rest2 bound (by simp at h; omega)
    | .mark .openParen =>
      match readList .closeParen rest with
      | .error e => .error e
      | .ok ⟨arguments, rest1, h1⟩ =>
        readAccess (.call target arguments) rest1 bound (by simp at h; omega)
    | _ => .ok ⟨target, t :: rest, h⟩
termination_by (ts.length, 1)

/-- Expressions with commas between them, up to the closing mark. A comma may stand
before it. -/
def readList (close : Mark) (ts : List Lexeme) : Outcome (List Expr) ts.length :=
  match behind? close ts with
  | some ⟨rest, h⟩ => .ok ⟨[], rest, h⟩
  | none =>
    match readChoice ts with
    | .error e => .error e
    | .ok ⟨first, ts1, h1⟩ =>
      match behind? .comma ts1 with
      | some ⟨ts2, h2⟩ =>
        match readList close ts2 with
        | .error e => .error e
        | .ok ⟨more, ts3, h3⟩ => .ok ⟨first :: more, ts3, by omega⟩
      | none =>
        match expect close ts1 with
        | .error e => .error e
        | .ok ⟨_, ts2, h2⟩ => .ok ⟨[first], ts2, by omega⟩
termination_by (ts.length, 5)

/-- A literal, a word, or something in brackets. -/
def readPrimary (ts : List Lexeme) : Outcome Expr ts.length :=
  match ts with
  | [] => .error .unexpectedEnd
  | t :: rest =>
    match t.token with
    | .int n => .ok ⟨.literal (.int n), rest, by simp⟩
    | .float x => .ok ⟨.literal (.float x), rest, by simp⟩
    | .str s => .ok ⟨.literal (.str s), rest, by simp⟩
    | .word w => .ok ⟨ofWord w, rest, by simp⟩
    | .mark .openParen =>
      match readChoice rest with
      | .error e => .error e
      | .ok ⟨inner, rest1, h1⟩ =>
        match expect .closeParen rest1 with
        | .error e => .error e
        | .ok ⟨_, rest2, h2⟩ => .ok ⟨inner, rest2, by simp; omega⟩
    | .mark .openBracket =>
      match readList .closeBracket rest with
      | .error e => .error e
      | .ok ⟨items, rest1, h1⟩ => .ok ⟨.list items, rest1, by simp; omega⟩
    | .mark .openBrace =>
      match readEntries rest with
      | .error e => .error e
      | .ok ⟨entries, rest1, h1⟩ => .ok ⟨.map entries, rest1, by simp; omega⟩
    | other => .error (.unexpected other)
termination_by (ts.length, 0)

/-- The entries of a map up to its closing brace. A comma may stand before it. -/
def readEntries (ts : List Lexeme) : Outcome (List (String × Expr)) ts.length :=
  match behind? .closeBrace ts with
  | some ⟨rest, h⟩ => .ok ⟨[], rest, h⟩
  | none =>
    match ts with
    | [] => .error .unterminatedMap
    | t :: rest =>
      match keyOf t.token with
      | .error e => .error e
      | .ok key =>
        match expect .colon rest with
        | .error e => .error e
        | .ok ⟨_, ts1, h1⟩ =>
          match readChoice ts1 with
          | .error e => .error e
          | .ok ⟨value, ts2, h2⟩ =>
            match behind? .comma ts2 with
            | some ⟨ts3, h3⟩ =>
              match readEntries ts3 with
              | .error e => .error e
              | .ok ⟨more, ts4, h4⟩ => .ok ⟨(key, value) :: more, ts4, by simp; omega⟩
            | none =>
              match expect .closeBrace ts2 with
              | .error e => .error e
              | .ok ⟨_, ts3, h3⟩ => .ok ⟨[(key, value)], ts3, by simp; omega⟩
termination_by (ts.length, 5)

end

/-- Reads a whole expression. -/
def read (cs : List Char) : Except ReadFault Expr :=
  match lexemes cs with
  | .error e => .error e
  | .ok [] => .error .empty
  | .ok ts =>
    match readChoice ts with
    | .error e => .error e
    | .ok ⟨e, [], _⟩ => .ok e
    | .ok ⟨_, t :: _, _⟩ => .error (.leftOver t.token t.offset)

end Trellis.Expr
