import Trellis.Source.Fault
import Trellis.Source.Token
import Trellis.Text.Blank

/-!
# `Trellis.Source.Bracket`: lists in brackets

Argument lists, parameter lists and attribute lists stand in parentheses and may run
over several lines. The readers here work on the text of a statement together with
the lines below it, each after a line feed and trimmed. A line feed that is met
inside brackets is a blank between two words; the first line feed behind them ends
the statement. A quoted text never runs over a line end.

Two readers need no grammar of expressions: they count brackets of any kind and pass
over quoted texts, where a backslash hides the character behind it. `splitTopLevel`
takes a list apart in the same way.
-/

set_option autoImplicit false

namespace Trellis.Source

open Trellis.Text

def isQuote (c : Char) : Bool := c == '"' || c == '\''

def opensBracket (c : Char) : Bool := c == '(' || c == '[' || c == '{'

def closesBracket (c : Char) : Bool := c == ')' || c == ']' || c == '}'

/-- Where a reader stands: inside how many brackets, inside which quotes, and whether
a backslash hides the next character. -/
structure Nesting where
  depth : Nat
  quote : Option Char
  hidden : Bool

/-- Outside all brackets and quotes. -/
def Nesting.outside : Nesting := ⟨0, none, false⟩

/-- How a character inside quotes moves on. -/
def Nesting.insideQuote (n : Nesting) (q c : Char) : Nesting :=
  if n.hidden then { n with hidden := false }
  else if c == '\\' then { n with hidden := true }
  else if c == q then { n with quote := none }
  else n

/-! ## Parts at the top level -/

/-- Goes on with a part, whose characters so far are `part`, the last one first. -/
def splitTopLevelFrom (n : Nesting) (part : List Char) : List Char → List (List Char)
  | [] => [part.reverse]
  | c :: cs =>
    match n.quote with
    | some q => splitTopLevelFrom (n.insideQuote q c) (c :: part) cs
    | none =>
      if isQuote c then splitTopLevelFrom { n with quote := some c } (c :: part) cs
      else if opensBracket c then splitTopLevelFrom { n with depth := n.depth + 1 } (c :: part) cs
      else if closesBracket c then splitTopLevelFrom { n with depth := n.depth - 1 } (c :: part) cs
      else if c == ',' && n.depth == 0 then part.reverse :: splitTopLevelFrom n [] cs
      else splitTopLevelFrom n (c :: part) cs

/-- The trimmed parts of a text between the commas that stand outside all quotes and
brackets. A blank text has no parts. -/
def splitTopLevel (cs : List Char) : List (List Char) :=
  match splitTopLevelFrom .outside [] cs with
  | [part] => if isBlankText part then [] else [trim part]
  | parts => parts.map trim

/-! ## A balanced list -/

/-- Reads on to the bracket that closes the first one. `inner` is what was read, the
last character first. Gives the inner text and what stands behind the bracket. -/
def readBalanced (n : Nesting) (inner : List Char) :
    List Char → Except ScanFault (List Char × List Char)
  | [] => .error (if n.quote.isSome then .openString else .openParenthesis)
  | c :: cs =>
    match n.quote with
    | some q =>
      if c == '\n' then .error .openString else readBalanced (n.insideQuote q c) (c :: inner) cs
    | none =>
      if c == '\n' then readBalanced n (' ' :: inner) cs
      else if isQuote c then readBalanced { n with quote := some c } (c :: inner) cs
      else if opensBracket c then readBalanced { n with depth := n.depth + 1 } (c :: inner) cs
      else if closesBracket c then
        if n.depth ≤ 1 then .ok (trim inner.reverse, cs)
        else readBalanced { n with depth := n.depth - 1 } (c :: inner) cs
      else readBalanced n (c :: inner) cs

/-- The text between an opening parenthesis, which stands before `cs`, and the bracket
that closes it, and what stands behind. -/
def balanced (cs : List Char) : Except ScanFault (List Char × List Char) :=
  readBalanced ⟨1, none, false⟩ [] cs

/-! ## Attribute lists -/

/-- The characters that continue an expression over a blank. -/
def isOperator (c : Char) : Bool :=
  c == '+' || c == '-' || c == '*' || c == '/' || c == '%' || c == '<' || c == '>' || c == '='
    || c == '!' || c == '&' || c == '|' || c == '?' || c == ':'

/-- The line that a text begins with. -/
def currentLine (cs : List Char) : List Char := cs.takeWhile (· != '\n')

/-- Does an operator follow on the same line, behind blanks? -/
def operatorFollows (cs : List Char) : Bool := headIs isOperator (trimStart (currentLine cs))

/-- Reads an attribute value to its end: a comma or closing bracket outside all
brackets of the value, the end of the line outside brackets, or a blank that no
operator stands beside. `last` is the last character read that is not blank. -/
def readValue (n : Nesting) (last : Option Char) (value : List Char) :
    List Char → Except ScanFault (List Char × List Char)
  | [] =>
    if n.quote.isSome then .error .openStringInValue
    else if n.depth > 0 then .error .openAttributes
    else .ok (value.reverse, [])
  | c :: cs =>
    let last' := if isBlank c then last else some c
    match n.quote with
    | some q =>
      if c == '\n' then .error .openStringInValue
      else readValue (n.insideQuote q c) last' (c :: value) cs
    | none =>
      if c == '\n' then
        if n.depth > 0 then readValue n last (' ' :: value) cs else .ok (value.reverse, c :: cs)
      else if isQuote c then readValue { n with quote := some c } last' (c :: value) cs
      else if opensBracket c then readValue { n with depth := n.depth + 1 } last' (c :: value) cs
      else if closesBracket c then
        if n.depth == 0 then .ok (value.reverse, c :: cs)
        else readValue { n with depth := n.depth - 1 } last' (c :: value) cs
      else if c == ',' && n.depth == 0 then .ok (value.reverse, c :: cs)
      else if isBlank c && n.depth == 0 && !last.any isOperator && !operatorFollows (c :: cs) then
        .ok (value.reverse, c :: cs)
      else readValue n last' (c :: value) cs

/-- The value behind an equals sign. It may start on a line below. -/
def attributeValue (cs : List Char) : Except ScanFault (List Char × List Char) :=
  match cs.dropWhile fun c => isIndent c || c == '\n' with
  | [] => .error .missingValue
  | cs =>
    match readValue .outside none [] cs with
    | .error e => .error e
    | .ok (value, rest) =>
      let value := trim value
      if value.isEmpty then .error .missingValue else .ok (value, rest)

/-- Splits off an attribute name without quotes: it ends before a blank, an equals
sign, a comma, a parenthesis, or an exclamation mark with an equals sign. -/
def plainName : List Char → List Char × List Char
  | [] => ([], [])
  | c :: cs =>
    if isBlank c || c == '=' || c == ',' || c == '(' || c == ')'
        || (c == '!' && headIs (· == '=') cs) then
      ([], c :: cs)
    else
      let (name, rest) := plainName cs
      (c :: name, rest)

/-- Splits off an attribute name, which may stand in quotes. -/
def attributeName : List Char → Except ScanFault (List Char × List Char)
  | [] => .error .openAttributes
  | c :: cs =>
    if isQuote c then
      match splitAtFirst? (· == c) (currentLine cs) with
      | some (name, _) => .ok (name, cs.drop (name.length + 1))
      | none => .error .openAttributeName
    else
      match plainName (c :: cs) with
      | ([], _) => .error (.strayInAttributes c)
      | (name, rest) => .ok (name, rest)

theorem length_plainName (cs : List Char) :
    (plainName cs).1.length + (plainName cs).2.length = cs.length := by
  induction cs with
  | nil => rfl
  | cons c cs ih =>
    unfold plainName
    split
    · simp
    · simp; omega

theorem length_of_attributeName {cs name rest : List Char}
    (h : attributeName cs = .ok (name, rest)) : rest.length < cs.length := by
  cases cs with
  | nil => simp [attributeName] at h
  | cons c cs =>
    -- A quoted name drops its closing quote, a plain one has at least one character.
    have total := length_plainName (c :: cs)
    grind [attributeName, List.length_eq_zero_iff]

theorem length_of_readValue {n : Nesting} {last : Option Char} {value cs text rest : List Char}
    (h : readValue n last value cs = .ok (text, rest)) : rest.length ≤ cs.length := by
  induction cs generalizing n last value with
  | nil => grind [readValue]
  | cons c cs ih => grind [readValue]

theorem length_of_attributeValue {cs value rest : List Char}
    (h : attributeValue cs = .ok (value, rest)) : rest.length ≤ cs.length := by
  have hd := (List.dropWhile_suffix (l := cs) fun c => isIndent c || c == '\n').length_le
  unfold attributeValue at h
  split at h
  · cases h
  · rename_i heq
    split at h
    · cases h
    · rename_i hr
      have := length_of_readValue hr
      dsimp only at h
      split at h
      · cases h
      · cases h; omega

/-- Is the character a blank or comma between attributes? -/
def isSeparator (c : Char) : Bool := isBlank c || c == ','

/-- Reads the value of an attribute, if it has one; `!=` marks a value that is not
to be escaped. -/
def valuePart (cs : List Char) : Except ScanFault (Option (List Char) × Bool × List Char) :=
  match cs.dropWhile isIndent with
  | '!' :: '=' :: rest => (attributeValue rest).map fun (v, rest) => (some v, false, rest)
  | '=' :: rest => (attributeValue rest).map fun (v, rest) => (some v, true, rest)
  | rest => .ok (none, true, rest)

theorem length_of_valuePart {cs rest : List Char} {value : Option (List Char)} {escaped : Bool}
    (h : valuePart cs = .ok (value, escaped, rest)) : rest.length ≤ cs.length := by
  have hd := (List.dropWhile_suffix (l := cs) isIndent).length_le
  unfold valuePart at h
  split at h
  · rename_i heq
    rw [heq] at hd
    cases hv : attributeValue ‹_› with
    | error => rw [hv] at h; cases h
    | ok p =>
      rw [hv] at h
      have := length_of_attributeValue hv
      cases h
      simp at hd
      omega
  · rename_i heq
    rw [heq] at hd
    cases hv : attributeValue ‹_› with
    | error => rw [hv] at h; cases h
    | ok p =>
      rw [hv] at h
      have := length_of_attributeValue hv
      cases h
      simp at hd
      omega
  · cases h; exact hd

/-- The attributes behind an opening parenthesis, and what stands behind the closing
one. -/
def attributeList (cs : List Char) : Except ScanFault (List RawAttribute × List Char) :=
  match hs : cs.dropWhile isSeparator with
  | [] => .error .openAttributes
  | ')' :: rest => .ok ([], rest)
  | start =>
    match hn : attributeName start with
    | .error e => .error e
    | .ok (name, afterName) =>
      match hv : valuePart afterName with
      | .error e => .error e
      | .ok (value, escaped, rest) =>
        have : rest.length < cs.length := by
          have h1 := (List.dropWhile_suffix (l := cs) isSeparator).length_le
          have h2 := length_of_attributeName hn
          have h3 := length_of_valuePart hv
          rw [hs] at h1
          omega
        match attributeList rest with
        | .error e => .error e
        | .ok (more, rest) =>
          .ok (⟨String.ofList name, value.map String.ofList, escaped⟩ :: more, rest)
termination_by cs.length

end Trellis.Source
