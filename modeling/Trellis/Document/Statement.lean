import Trellis.Document.Literal

/-!
# `Trellis.Document.Statement`: what a line says

`Head.read` reads the tokens of a line. All expressions in them are read here, from
left to right, so what a `Head` holds needs no more checking; what remains is to give
it its children.

A tag or a call may hold another statement on its own line, behind a colon. That
statement takes the children of the line.
-/

set_option autoImplicit false

namespace Trellis

open Source Text

/-- What a line says, without its children. -/
inductive Head where
  /-- A node that takes no children. -/
  | leaf (n : Node)
  | including (target : String)
  /-- A tag, whose content may begin on its line. -/
  | tag (name : String) (attributes : List Attribute) (content : List Node)
  | call (name : String) (arguments : List Expression)
  | tagAround (name : String) (attributes : List Attribute) (inner : Head)
  | callAround (name : String) (arguments : List Expression) (inner : Head)
  | cond (test : Expression) (negated : Bool)
  | each (item : String) (key : Option String) (collection : Expression)
  | caseOf (subject : Expression)
  | mixin (name : String) (parameters : List Parameter) (rest : Option String)
  | block (name : String) (mode : BlockMode)

/-- The text of a block of lines. -/
def joinLines (lines : List String) : String := "\n".intercalate lines

/-- Nothing may follow on the line. -/
def endOfLine : List Token → Except ParseFault Unit
  | [] => .ok ()
  | t :: _ => .error (.stray t)

/-- Compiles an expression that a token holds. -/
def compileText (s : String) : Except ParseFault Expression := compileIn s.toList

/-- The value of an attribute. A quoted text is fixed text, with interpolation if it
has any; all else is an expression. -/
def attributeOf (raw : RawAttribute) : Except ParseFault Attribute :=
  match raw.value with
  | none => .ok ⟨raw.name, .implicit, raw.escaped⟩
  | some source =>
    match quotedText? source.toList with
    | some text =>
      (interpolateQuoted text).map fun spans => ⟨raw.name, .spans spans, raw.escaped⟩
    | none => (compileText source).map fun e => ⟨raw.name, .expression e, raw.escaped⟩
where
  /-- Only a text that holds an opening sign is searched for interpolation, so that a
  backslash before one counts only there. -/
  interpolateQuoted (text : List Char) : Except ParseFault (List Span) :=
    if (find? ['#', '{'] text).isSome || (find? ['!', '{'] text).isSome then
      interpolate (String.ofList text)
    else .ok [.literal (String.ofList text)]

/-- An attribute with fixed text, as shorthand gives it. -/
def fixedAttribute (name text : String) : Attribute := ⟨name, .spans [.literal text], true⟩

/-- Applies a reader to each item, up to the first fault. -/
def readEach {α β : Type} (f : α → Except ParseFault β) : List α → Except ParseFault (List β)
  | [] => .ok []
  | x :: xs => do
    let y ← f x
    return y :: (← readEach f xs)

/-- The place of the equals sign of an assignment: the first that is no part of a
comparison. `before` is the character in front. -/
def assignmentSign? (before : Option Char) : List Char → Option Nat
  | [] => none
  | c :: cs =>
    if c == '=' && !headIs (· == '=') cs
        && !before.any (fun b => b == '=' || b == '!' || b == '<' || b == '>') then
      some 0
    else (assignmentSign? (some c) cs).map (· + 1)

/-- May the text be the target of an assignment? -/
def isTarget (cs : List Char) : Bool :=
  !cs.isEmpty && cs.all (fun c => isAlphanumeric c || c == '_' || c == '$')
    && !headIs Char.isDigit cs

/-- Code is an assignment, with or without the word `var` and semicolons. -/
def assignment (code : String) : Except ParseFault Node :=
  let cs := (trim code.toList).reverse.dropWhile (· == ';') |>.reverse
  let cs := trim ((after? "var ".toList cs).getD cs)
  match assignmentSign? none cs with
  | none => .error (.badCode (String.ofList cs))
  | some n =>
    let name := trim (cs.take n)
    if isTarget name then
      (compileIn (trim (cs.drop (n + 1)))).map fun e => .assign (String.ofList name) e
    else .error (.badAssignment (String.ofList name))

/-- The parameters of a mixin, and the one behind an ellipsis, which must be the
last. -/
def parametersOf : List (List Char) → Except ParseFault (List Parameter × Option String)
  | [] => .ok ([], none)
  | part :: parts =>
    match after? ['.', '.', '.'] part with
    | some rest =>
      if parts.isEmpty then .ok ([], some (String.ofList (trim rest))) else .error .behindRest
    | none => do
      let first ← parameterOf part
      let (more, rest) ← parametersOf parts
      return (first :: more, rest)
where
  /-- One parameter: a name, and the expression behind an equals sign. -/
  parameterOf (part : List Char) : Except ParseFault Parameter :=
    match splitAtFirst? (· == '=') part with
    | none => .ok ⟨String.ofList part, none⟩
    | some (name, default) =>
      (compileIn (trim default)).map fun e => ⟨String.ofList (trim name), some e⟩

/-- The options of a filter: a quoted text counts without its quotes, and an option
without a value is `true`. -/
def optionsOf (options : List RawAttribute) : Table String :=
  Table.ofList (options.map fun o =>
    match o.value with
    | none => (o.name, "true")
    | some value =>
      match quotedText? value.toList with
      | some text => (o.name, String.ofList text)
      | none => (o.name, value))

mutual

/-- Reads the tokens of a statement. -/
def Head.read : List Token → Except ParseFault Head
  | [] => .error .strayLineEnd
  | .doctype name :: rest => leafHead (.ok (.doctype name)) rest
  | .tag name :: rest => Head.readTag name [] rest
  | .text s :: rest => leafHead ((interpolate s).map .text) rest
  | .output escaped source :: rest =>
    leafHead ((compileText source).map fun e => .output e escaped) rest
  | .code statement :: rest => leafHead (assignment statement) rest
  | .comment text :: .textBlock lines :: rest =>
    leafHead (.ok (.comment (text ++ "\n" ++ joinLines lines ++ "\n"))) rest
  | .comment text :: rest => leafHead (.ok (.comment text)) rest
  | .cond test :: rest => closed ((compileText test).map fun e => .cond e false) rest
  | .unless test :: rest => closed ((compileText test).map fun e => .cond e true) rest
  | .each item key collection :: rest => closed ((compileText collection).map (.each item key)) rest
  | .caseOf subject :: rest => closed ((compileText subject).map .caseOf) rest
  | .mixin name parameters :: rest =>
    closed ((parametersOf (splitTopLevel parameters.toList)).map fun (ps, r) => .mixin name ps r)
      rest
  | .call name arguments :: .colon :: rest => do
    let args ← readEach compileIn (splitTopLevel arguments.toList)
    return .callAround name args (← Head.read rest)
  | .call name arguments :: rest =>
    closed ((readEach compileIn (splitTopLevel arguments.toList)).map (.call name)) rest
  | .block mode name :: rest =>
    if name.isEmpty then leafHead (.ok .content) rest else closed (.ok (.block name mode)) rest
  | .filter name options :: .textBlock lines :: rest =>
    leafHead (.ok (.filter name (joinLines lines) (optionsOf options))) rest
  | .filter name options :: rest => leafHead (.ok (.filter name "" (optionsOf options))) rest
  | .including target :: rest => closed (.ok (.including target)) rest
  | .extending _ :: _ => .error .lateExtends
  | .otherwise :: _ => .error .strayElse
  | .elseCond _ :: _ => .error .strayElse
  | .when _ :: _ => .error .strayWhen
  | .default :: _ => .error .strayWhen
  | t :: _ => .error (.stray t)
where
  /-- A head behind which the line ends. -/
  closed (head : Except ParseFault Head) (rest : List Token) : Except ParseFault Head := do
    let h ← head
    endOfLine rest
    return h
  /-- A node without children, behind which the line ends. -/
  leafHead (node : Except ParseFault Node) (rest : List Token) : Except ParseFault Head :=
    closed (node.map .leaf) rest

/-- Reads the tokens of a tag behind its name. `attributes` are those read so far. -/
def Head.readTag (name : String) (attributes : List Attribute) :
    List Token → Except ParseFault Head
  | .idName id :: rest => Head.readTag name (attributes ++ [fixedAttribute "id" id]) rest
  | .className c :: rest => Head.readTag name (attributes ++ [fixedAttribute "class" c]) rest
  | .attributes list :: rest => do
    let more ← readEach attributeOf list
    Head.readTag name (attributes ++ more) rest
  | .selfClose :: rest => do
    endOfLine rest
    return .leaf (.tag name attributes true [])
  | .colon :: rest => do return .tagAround name attributes (← Head.read rest)
  | .text s :: rest => do
    let spans ← interpolate s
    endOfLine rest
    return .tag name attributes [.text spans]
  | .textBlock lines :: rest => do
    let spans ← interpolate (joinLines lines)
    endOfLine rest
    return .tag name attributes [.text spans]
  | .output escaped source :: rest => do
    let e ← compileText source
    endOfLine rest
    return .tag name attributes [.output e escaped]
  | rest => do
    endOfLine rest
    return .tag name attributes []

end

end Trellis
