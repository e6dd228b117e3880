import Trellis.Decimal.Reading
import Trellis.Value

/-!
# `Trellis.Expr.Token`: the tokens of expressions

An expression is read in two steps; this is the first. `Lexeme.scan` passes over the
text once. At the start of each token it reads that token, and it passes over the
characters that belong to it. Between tokens it knows five ASCII blanks.

Every token carries the offset of its first byte, which messages show.
-/

set_option autoImplicit false

namespace Trellis.Expr

open Trellis.Text

/-- The punctuation of expressions. -/
inductive Mark where
  | strictEqual | strictUnequal | ellipsis
  | equal | unequal | lessEqual | greaterEqual | both | either
  | plus | minus | star | slash | percent | less | greater | bang | question
  | colon | dot | comma
  | openParen | closeParen | openBracket | closeBracket | openBrace | closeBrace
  deriving DecidableEq

namespace Mark

/-- How the mark is written. -/
def text : Mark → String
  | .strictEqual => "==="
  | .strictUnequal => "!=="
  | .ellipsis => "..."
  | .equal => "=="
  | .unequal => "!="
  | .lessEqual => "<="
  | .greaterEqual => ">="
  | .both => "&&"
  | .either => "||"
  | .plus => "+"
  | .minus => "-"
  | .star => "*"
  | .slash => "/"
  | .percent => "%"
  | .less => "<"
  | .greater => ">"
  | .bang => "!"
  | .question => "?"
  | .colon => ":"
  | .dot => "."
  | .comma => ","
  | .openParen => "("
  | .closeParen => ")"
  | .openBracket => "["
  | .closeBracket => "]"
  | .openBrace => "\x7b"
  | .closeBrace => "\x7d"

/-- All marks, the longer before the shorter, so that the first match is the longest. -/
def all : List Mark :=
  [.strictEqual, .strictUnequal, .ellipsis, .equal, .unequal, .lessEqual, .greaterEqual, .both,
    .either, .plus, .minus, .star, .slash, .percent, .less, .greater, .bang, .question, .colon,
    .dot, .comma, .openParen, .closeParen, .openBracket, .closeBracket, .openBrace, .closeBrace]

/-- The mark that the text begins with. -/
def start? (cs : List Char) : Option Mark := all.find? fun m => startsWith m.text.toList cs

end Mark

/-- A token. -/
inductive Token where
  | int (n : Int64)
  | float (x : Float)
  | str (s : String)
  | word (w : String)
  | mark (m : Mark)

/-- How messages name a token. -/
def Token.describe : Token → String
  | .int n => "number `" ++ Value.intText n ++ "`"
  | .float x => "number `" ++ String.ofList (Decimal.positional x) ++ "`"
  | .str s => "string \"" ++ s ++ "\""
  | .word w => "identifier `" ++ w ++ "`"
  | .mark m => "`" ++ m.text ++ "`"

/-- A token and the offset of its first byte. -/
structure Lexeme where
  token : Token
  offset : Nat

/-- What can be wrong with the text of an expression. -/
inductive ReadFault where
  | unterminatedString (offset : Nat)
  | strayCharacter (c : Char) (offset : Nat)
  | empty
  | leftOver (t : Token) (offset : Nat)
  | unexpected (t : Token)
  | unexpectedEnd
  | expected (m : Mark) (found : Token) (offset : Nat)
  | expectedAtEnd (m : Mark)
  | expectedName (found : Token)
  | expectedNameAtEnd
  | expectedKey (found : Token)
  | unterminatedMap

/-- The wording of a fault. -/
def ReadFault.message : ReadFault → String
  | .unterminatedString offset => s!"unterminated string literal at offset {offset}"
  | .strayCharacter c offset => s!"unexpected character `{c}` at offset {offset}"
  | .empty => "empty expression"
  | .leftOver t offset => s!"unexpected {t.describe} at offset {offset}"
  | .unexpected t => s!"unexpected {t.describe}"
  | .unexpectedEnd => "unexpected end of expression"
  | .expected m found offset =>
    s!"expected `{m.text}` but found {found.describe} at offset {offset}"
  | .expectedAtEnd m => s!"expected `{m.text}` but reached end of expression"
  | .expectedName found => s!"expected property name, found {found.describe}"
  | .expectedNameAtEnd => "expected property name after `.`"
  | .expectedKey found => s!"expected object key, found {found.describe}"
  | .unterminatedMap => "unterminated object literal"

/-- The blanks between tokens. -/
def isSpace (c : Char) : Bool :=
  c == ' ' || c == '\t' || c == '\n' || c == '\r' || c == Char.ofNat 12

/-- May the character begin a word? -/
def isWordStart (c : Char) : Bool := isLetter c || c == '_' || c == '$'

/-- May the character stand inside a word? -/
def isWordPart (c : Char) : Bool := isAlphanumeric c || c == '_' || c == '$'

/-- The character that stands for `c` behind a backslash. -/
def unescape (c : Char) : Char :=
  match c with
  | 'n' => '\n'
  | 't' => '\t'
  | 'r' => '\r'
  | c => c

/-- Reads on to the closing quote. Gives the text of the literal and the number of
characters read, the quote included. -/
def readString? (quote : Char) : List Char → Option (List Char × Nat)
  | [] => none
  | '\\' :: c :: cs => (readString? quote cs).map fun (s, n) => (unescape c :: s, n + 2)
  | ['\\'] => none
  | c :: cs =>
    if c = quote then some ([], 1)
    else (readString? quote cs).map fun (s, n) => (c :: s, n + 1)

/-- Reads a number at its first digit: digits, and behind them a point and digits if
there are digits behind the point. A whole number that does not fit is a double. -/
def readNumber (cs : List Char) : Token × Nat :=
  let whole := cs.takeWhile Char.isDigit
  match cs.drop whole.length with
  | '.' :: rest =>
    let fraction := rest.takeWhile Char.isDigit
    if fraction.isEmpty then (ofWhole whole, whole.length)
    else
      (.float (Decimal.nearest (Decimal.digitsValue (whole ++ fraction)) (-fraction.length)),
        whole.length + 1 + fraction.length)
  | _ => (ofWhole whole, whole.length)
where
  /-- The token of digits alone. -/
  ofWhole (ds : List Char) : Token :=
    match Decimal.int64? (Decimal.digitsValue ds) with
    | some n => .int n
    | none => .float (Decimal.nearest (Decimal.digitsValue ds) 0)

/-- Reads the token that starts with the first of the characters and gives it with
the number of characters it takes; a blank is no token. -/
def readToken (offset : Nat) (c : Char) (cs : List Char) :
    Except ReadFault (Option Token × Nat) :=
  if isSpace c then .ok (none, 1)
  else if c.isDigit then
    let (token, n) := readNumber (c :: cs)
    .ok (some token, n)
  else if c == '"' || c == '\'' then
    match readString? c cs with
    | some (s, n) => .ok (some (.str (String.ofList s)), n + 1)
    | none => .error (.unterminatedString offset)
  else if isWordStart c then
    let word := (c :: cs).takeWhile isWordPart
    .ok (some (.word (String.ofList word)), word.length)
  else
    match Mark.start? (c :: cs) with
    | some m => .ok (some (.mark m), m.text.length)
    | none => .error (.strayCharacter c offset)

/-- Scans a text from a byte offset on, passing over the first `skip` characters,
which belong to a token already read. -/
def Lexeme.scan (offset skip : Nat) : List Char → Except ReadFault (List Lexeme)
  | [] => .ok []
  | c :: cs =>
    match skip with
    | k + 1 => scan (offset + c.utf8Size) k cs
    | 0 =>
      match readToken offset c cs with
      | .error e => .error e
      | .ok (token?, n) =>
        match scan (offset + c.utf8Size) (n - 1) cs with
        | .error e => .error e
        | .ok rest =>
          match token? with
          | some token => .ok (⟨token, offset⟩ :: rest)
          | none => .ok rest

/-- The tokens of a text. -/
def lexemes (cs : List Char) : Except ReadFault (List Lexeme) := Lexeme.scan 0 0 cs

end Trellis.Expr
