import Trellis.Source.Bracket
import Trellis.Text.Search

/-!
# `Trellis.Source.Line`: the tokens of one statement

A statement is told by its first characters: a sign such as `|`, `=` or `+`, a
keyword followed by a blank or the line end, or else the name of a tag. The readers
take the text of the statement and the text below it (see `Trellis.Source.Bracket`),
of which they use up as many lines as their brackets run over.

`readStatement` is the whole reader. A colon behind a tag or a call is followed by
another statement, which is read in the same way.
-/

set_option autoImplicit false

namespace Trellis.Source

open Trellis.Text

/-- What the lines below a statement that are indented deeper are to it: statements of
their own, its text, or nothing at all. -/
inductive Below where
  | statements
  | text
  | discarded
  deriving DecidableEq

/-- What a statement was read as: its tokens, what the deeper lines below are to it, and
the text that was not used up. -/
structure Statement where
  tokens : List Token
  below : Below
  rest : List Char

/-- The characters of names. -/
def isNameChar (c : Char) : Bool := isAlphanumeric c || c == '_' || c == '-'

/-- The name that a text begins with; it may be empty. -/
def nameOf (cs : List Char) : List Char := cs.takeWhile isNameChar

/-- May the text be the name of a loop variable? -/
def isLoopName (cs : List Char) : Bool :=
  cs.all isNameChar && headIs (fun c => isLetter c || c == '_' || c == '$') cs

/-- The text behind the line that a text begins with, from its line feed on. -/
def belowLine (cs : List Char) : List Char := cs.dropWhile (· != '\n')

/-! ## Statements with a keyword -/

/-- The argument of a keyword that needs one. -/
def requireArgument (keyword : String) (argument : List Char) : Except ScanFault String :=
  if argument.isEmpty then .error (.missingArgument keyword) else .ok (String.ofList argument)

/-- The token of code: an expression whose value is put out, or a statement. -/
def codeToken (token : String → Token) (cs : List Char) : Except ScanFault Token :=
  let value := trim cs
  if value.isEmpty then .error .missingCode else .ok (token (String.ofList value))

/-- A block with a name, or with a mode and a name. -/
def blockToken (argument : List Char) : Except ScanFault Token :=
  match splitAtFirst? isBlank argument with
  | none => .ok (.block .replace (String.ofList argument))
  | some (word, name) =>
    let name := String.ofList (trim name)
    match String.ofList word with
    | "append" => .ok (.block .append name)
    | "prepend" => .ok (.block .prepend name)
    | _ => .error (.badBlock (String.ofList argument))

/-- A loop: one or two variables, the word `in`, and the collection. -/
def loopToken (argument : List Char) : Except ScanFault Token :=
  let word := [' ', 'i', 'n', ' ']
  match find? word argument with
  | none => .error .badLoop
  | some n =>
    let collection := trim (argument.drop (n + word.length))
    match (splitAll ',' (argument.take n)).map trim with
    | item :: keys =>
      if keys.length ≤ 1 && isLoopName item && keys.all isLoopName then
        if collection.isEmpty then .error .loopWithoutCollection
        else
          .ok (.each (String.ofList item) (keys.head?.map String.ofList) (String.ofList collection))
      else .error (.badLoopVariables (String.ofList argument))
    | [] => .error .badLoop

/-- What follows the word `else`: nothing, or the word `if` and a test. -/
def elseToken (argument : List Char) : Except ScanFault Token :=
  if argument.isEmpty then .ok .otherwise
  else
    match after? ['i', 'f'] argument with
    | some test =>
      if headIs isBlank test then .ok (.elseCond (String.ofList (trim test)))
      else .error (.behindElse (String.ofList argument))
    | none => .error (.behindElse (String.ofList argument))

/-- A mixin's name and parameters. The list of parameters may take in lines below. -/
def mixinToken (argument below : List Char) : Except ScanFault (Token × List Char) :=
  let name := nameOf argument
  let behind := argument.drop name.length
  if name.isEmpty then .error .mixinWithoutName
  else
    match behind with
    | '(' :: cs =>
      match balanced (cs ++ below) with
      | .error e => .error e
      | .ok (parameters, rest) =>
        if isBlankText (currentLine rest) then
          .ok (.mixin (String.ofList name) (String.ofList parameters), belowLine rest)
        else .error .behindParameters
    | _ =>
      if isBlankText behind then .ok (.mixin (String.ofList name) "", below)
      else .error (.badMixin (String.ofList argument))

/-- The token of a statement that begins with a keyword, if it does: a word that is
none, or is one only with an argument or only without, begins the name of a tag. -/
def keywordToken? (word argument below : List Char) :
    Except ScanFault (Option (Token × List Char)) :=
  let plain (token : Token) : Except ScanFault (Option (Token × List Char)) :=
    .ok (some (token, below))
  let checked (token : Except ScanFault Token) : Except ScanFault (Option (Token × List Char)) :=
    token.map fun t => some (t, below)
  let required (keyword : String) (token : String → Token) :
      Except ScanFault (Option (Token × List Char)) :=
    checked ((requireArgument keyword argument).map token)
  match String.ofList word with
  | "doctype" => plain (.doctype (String.ofList argument))
  | "extends" => required "extends" .extending
  | "include" => required "include" .including
  | "block" => checked (blockToken argument)
  | "append" =>
    if argument.isEmpty then .ok none else plain (.block .append (String.ofList argument))
  | "prepend" =>
    if argument.isEmpty then .ok none else plain (.block .prepend (String.ofList argument))
  | "mixin" => (mixinToken argument below).map some
  | "each" => checked (loopToken argument)
  | "for" => checked (loopToken argument)
  | "if" => required "if" .cond
  | "unless" => required "unless" .unless
  | "else" => checked (elseToken argument)
  | "case" => required "case" .caseOf
  | "when" => required "when" .when
  | "default" => if argument.isEmpty then plain .default else .ok none
  | _ => .ok none

/-! ## Tags, calls and filters -/

/-- The name of a tag: names joined by colons, where a letter follows each colon.
Gives the name and its rest. -/
def tagNameFrom (cs : List Char) : List Char :=
  let name := nameOf cs
  match h : cs.drop name.length with
  | ':' :: rest =>
    if headIs isLetter rest then
      have : rest.length < cs.length := by
        have := congrArg List.length h
        simp at this
        omega
      name ++ ':' :: tagNameFrom rest
    else name
  | _ => name
termination_by cs.length

/-- One part of a tag's head. -/
inductive HeadPart where
  | none
  | part (token : Token) (rest : List Char)

/-- The shorthand or attribute list that a text begins with. A dot begins a class only
if a letter, an underscore or a hyphen follows. -/
def headPart (cs : List Char) : Except ScanFault HeadPart :=
  match cs with
  | '#' :: rest =>
    let name := nameOf rest
    if name.isEmpty then .error .idWithoutName
    else .ok (.part (.idName (String.ofList name)) (rest.drop name.length))
  | '.' :: rest =>
    if headIs (fun c => isLetter c || c == '_' || c == '-') rest then
      let name := nameOf rest
      .ok (.part (.className (String.ofList name)) (rest.drop name.length))
    else .ok .none
  | '(' :: rest =>
    match attributeList rest with
    | .error e => .error e
    | .ok (attributes, rest) => .ok (.part (.attributes attributes) rest)
  | _ => .ok .none

theorem length_of_attributeList {cs rest : List Char} {list : List RawAttribute}
    (h : attributeList cs = .ok (list, rest)) : rest.length ≤ cs.length := by
  fun_induction attributeList cs generalizing list rest with
  | case1 => cases h
  | case2 cs more hs =>
    cases h
    have := (List.dropWhile_suffix (l := cs) isSeparator).length_le
    rw [hs] at this
    simp at this
    omega
  | case3 => cases h
  | case4 => cases h
  | case5 => cases h
  | case6 cs _ _ _ _ _ _ _ _ hr _ _ _ hlt ih =>
    cases h
    have := ih hr
    omega

theorem length_of_headPart {cs rest : List Char} {token : Token}
    (h : headPart cs = .ok (.part token rest)) : rest.length < cs.length := by
  unfold headPart at h
  split at h
  · grind
  · grind
  · split at h
    · cases h
    · rename_i hl
      cases h
      have := length_of_attributeList hl
      simp
      omega
  · cases h

/-- The parts of a tag's head, and what stands behind them. -/
def headParts (cs : List Char) : Except ScanFault (List Token × List Char) :=
  match h : headPart cs with
  | .error e => .error e
  | .ok .none => .ok ([], cs)
  | .ok (.part token rest) =>
    have := length_of_headPart h
    match headParts rest with
    | .error e => .error e
    | .ok (more, rest) => .ok (token :: more, rest)
termination_by cs.length

theorem length_of_headParts {cs rest : List Char} {tokens : List Token}
    (h : headParts cs = .ok (tokens, rest)) : rest.length ≤ cs.length := by
  fun_induction headParts cs generalizing tokens rest with
  | case1 => cases h
  | case2 => cases h; exact Nat.le_refl _
  | case3 => cases h
  | case4 _ _ _ hp hlt _ _ hr ih =>
    cases h
    have := ih hr
    omega

/-- A filter's name and options. -/
def filterStatement (cs : List Char) : Except ScanFault Statement :=
  let name := nameOf cs
  let finish (options : List RawAttribute) (rest : List Char) : Except ScanFault Statement :=
    if isBlankText (currentLine rest) then
      .ok ⟨[.filter (String.ofList name) options], .text, belowLine rest⟩
    else .error .behindFilter
  if name.isEmpty then .error .filterWithoutName
  else
    match cs.drop name.length with
    | '(' :: rest =>
      match attributeList rest with
      | .error e => .error e
      | .ok (options, rest) => finish options rest
    | rest => finish [] rest

/-- The name and arguments of a call, and what stands behind them. -/
def callHead (cs : List Char) : Except ScanFault (Token × List Char) :=
  let name := nameOf cs
  if name.isEmpty then .error .callWithoutName
  else
    match cs.drop name.length with
    | '(' :: rest =>
      match balanced rest with
      | .error e => .error e
      | .ok (arguments, rest) =>
        .ok (.call (String.ofList name) (String.ofList arguments), rest)
    | rest => .ok (.call (String.ofList name) "", rest)

theorem length_of_readBalanced {n : Nesting} {inner cs text rest : List Char}
    (h : readBalanced n inner cs = .ok (text, rest)) : rest.length < cs.length := by
  induction cs generalizing n inner with
  | nil => simp [readBalanced] at h
  | cons c cs ih => grind [readBalanced]

theorem length_of_callHead {cs rest : List Char} {token : Token}
    (h : callHead cs = .ok (token, rest)) : rest.length ≤ cs.length := by
  unfold callHead at h
  dsimp only at h
  split at h
  · cases h
  · have hd : (cs.drop (nameOf cs).length).length ≤ cs.length := by simp
    split at h
    · rename_i heq
      rw [heq] at hd
      split at h
      · cases h
      · rename_i hb
        cases h
        have := length_of_readBalanced hb
        simp at hd
        omega
    · cases h
      exact hd

/-- The name of a tag and the parts of its head. A head may begin with a shorthand; the
tag is then a `div`. -/
def tagHead (cs : List Char) : Except ScanFault (List Token × List Char) :=
  let name := if headIs isLetter cs then tagNameFrom cs else []
  let tag := if name.isEmpty then "div" else String.ofList name
  match headParts (cs.drop name.length) with
  | .error e => .error e
  | .ok (parts, rest) => .ok (.tag tag :: parts, rest)

theorem length_of_tagHead {cs rest : List Char} {tokens : List Token}
    (h : tagHead cs = .ok (tokens, rest)) : rest.length ≤ cs.length := by
  unfold tagHead at h
  dsimp only at h
  split at h
  · cases h
  · rename_i hp
    cases h
    have := length_of_headParts hp
    have := List.length_drop (l := cs) (i := (if headIs isLetter cs then tagNameFrom cs else []).length)
    omega

/-- The statement behind a colon, when a colon and a blank are there, with the lines
below. -/
def behindColon? (cs : List Char) : Option (List Char) :=
  match cs with
  | ':' :: child =>
    if headIs isBlank (currentLine child) then
      some (trim (currentLine child) ++ belowLine child)
    else none
  | _ => none

theorem length_trimEnd_le (cs : List Char) : (trimEnd cs).length ≤ cs.length := by
  induction cs with
  | nil => simp [trimEnd]
  | cons c cs ih => grind [trimEnd]

theorem length_of_behindColon? {cs child : List Char} (h : behindColon? cs = some child) :
    child.length < cs.length := by
  unfold behindColon? at h
  split at h
  · rename_i text
    split at h
    · cases h
      have h1 := length_trimEnd_le (trimStart (currentLine text))
      have h2 := length_trimStart_le (currentLine text)
      have h3 := congrArg List.length (List.takeWhile_append_dropWhile (p := (· != '\n')) (l := text))
      simp only [List.length_append, trim, currentLine, belowLine, List.length_cons] at *
      omega
    · cases h
  · cases h

/-- What ends the statement of a tag behind its head and is no statement of its own:
nothing, a slash, a dot, an expression or text. -/
def tagTail (cs : List Char) : Except ScanFault (List Token × Below) :=
  match cs with
  | [] => .ok ([], .statements)
  | c :: rest =>
    if c == '/' && isBlankText rest then .ok ([.selfClose], .statements)
    else if c == '.' && isBlankText rest then .ok ([], .text)
    else if c == '!' && headIs (· == '=') rest then
      (codeToken (.output false) (rest.drop 1)).map fun t => ([t], .statements)
    else if c == '=' then (codeToken (.output true) rest).map fun t => ([t], .statements)
    else if isIndent c then
      .ok (if rest.isEmpty then [] else [.text (String.ofList rest)], .statements)
    else .error (.behindTag c)

/-- What a statement begins with. -/
inductive Opening where
  /-- A statement that is read to its end. -/
  | whole (statement : Statement)
  /-- A mixin call, without its plus sign. -/
  | call (text : List Char)
  /-- A tag. -/
  | tag (text : List Char)

/-- Reads a statement that begins with a word: a keyword's, or a tag's. -/
def openingWord (cs : List Char) : Except ScanFault Opening :=
  let line := currentLine cs
  let word := nameOf line
  let behind := line.drop word.length
  if word.isEmpty then .error (.strayCharacter (line.head?.getD ' '))
  else if behind.isEmpty || headIs isBlank behind then
    match keywordToken? word (trim behind) (belowLine cs) with
    | .error e => .error e
    | .ok (some (token, rest)) => .ok (.whole ⟨[token], .statements, rest⟩)
    | .ok none => .ok (.tag cs)
  else .ok (.tag cs)

/-- Reads a statement up to where it may hold another one. -/
def opening (cs : List Char) : Except ScanFault Opening :=
  let line := currentLine cs
  let rest := belowLine cs
  let single (token : Token) : Except ScanFault Opening :=
    .ok (.whole ⟨[token], .statements, rest⟩)
  let checked (token : Except ScanFault Token) : Except ScanFault Opening :=
    token.map fun t => .whole ⟨[t], .statements, rest⟩
  match line with
  | '/' :: '/' :: '-' :: _ => .ok (.whole ⟨[], .discarded, rest⟩)
  | '/' :: '/' :: text => .ok (.whole ⟨[.comment (String.ofList text)], .text, rest⟩)
  | '<' :: _ => single (.text (String.ofList line))
  | '|' :: ' ' :: text => single (.text (String.ofList text))
  | '|' :: text => single (.text (String.ofList text))
  | '!' :: '!' :: '!' :: text => single (.doctype (String.ofList (trim text)))
  | '!' :: '=' :: code => checked (codeToken (.output false) code)
  | '=' :: code => checked (codeToken (.output true) code)
  | '-' :: code => checked (codeToken .code code)
  | ':' :: _ => (filterStatement (cs.drop 1)).map .whole
  | '+' :: _ => .ok (.call (cs.drop 1))
  | '#' :: _ => .ok (.tag cs)
  | '.' :: _ => .ok (.tag cs)
  | _ => openingWord cs

/-- The text that an opening leaves to be read is no longer than the whole. -/
theorem length_of_opening {cs text : List Char}
    (h : opening cs = .ok (.call text) ∨ opening cs = .ok (.tag text)) :
    text.length ≤ cs.length := by
  have word : ∀ t, openingWord cs = .ok (.call t) ∨ openingWord cs = .ok (.tag t) →
      t.length ≤ cs.length := by
    intro t ht
    unfold openingWord at ht
    dsimp only at ht
    grind
  unfold opening at h
  dsimp only at h
  have whole {α : Type} (f : α → Statement) (x : Except ScanFault α) (o : Opening)
      (hx : (x.map fun a => .whole (f a)) = .ok o) : ∃ s, o = .whole s := by
    cases x with
    | error => cases hx
    | ok a => exact ⟨f a, by cases hx; rfl⟩
  split at h
  any_goals grind [List.length_drop]
  all_goals rcases h with h | h <;> obtain ⟨_, h⟩ := whole _ _ _ h <;> cases h

/-- Reads a statement with its lines below. -/
def readStatement (cs : List Char) : Except ScanFault Statement :=
  match h : opening cs with
  | .error e => .error e
  | .ok (.whole s) => .ok s
  | .ok (.call text) =>
    match hc : callHead text with
    | .error e => .error e
    | .ok (token, rest) =>
      match hb : behindColon? rest with
      | some child =>
        have : child.length < cs.length := by
          have := length_of_opening (.inl h)
          have := length_of_callHead hc
          have := length_of_behindColon? hb
          omega
        (readStatement child).map fun s => { s with tokens := token :: .colon :: s.tokens }
      | none =>
        if isBlankText (currentLine rest) then .ok ⟨[token], .statements, belowLine rest⟩
        else .error .behindCall
  | .ok (.tag text) =>
    match ht : tagHead text with
    | .error e => .error e
    | .ok (tokens, rest) =>
      match hb : behindColon? rest with
      | some child =>
        have : child.length < cs.length := by
          have := length_of_opening (.inr h)
          have := length_of_tagHead ht
          have := length_of_behindColon? hb
          omega
        (readStatement child).map fun s => { s with tokens := tokens ++ .colon :: s.tokens }
      | none =>
        (tagTail (currentLine rest)).map fun (tail, below) =>
          ⟨tokens ++ tail, below, belowLine rest⟩
termination_by cs.length

end Trellis.Source
