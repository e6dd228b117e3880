import Trellis.Document.Reader
import Trellis.Proofs.Levels
import Trellis.Proofs.Steps
import Trellis.Proofs.TagNames

/-!
# `Trellis.Proofs.Cursor`: reading a template from its stream of tokens

The reader of `Trellis.Document.Reader` works on an outline, where every line already has
its children. A reader of the stream has less to go by. It has a place in the stream, and
whatever it reads moves that place forward. It opens a level by reading an indent, and takes
the level to be over at the next outdent that it meets at this place.

`Reads` is what such a reader does, one rule for each choice it has. A part of a template is
read from some items, gives its nodes, and leaves the items behind it. `Head.readFront`
reads the tokens of a statement in the same manner and `ReadsDocument` reads a template.

Nothing in these rules says that a level ends where it should, or that a document ends at
the end of the stream. That is to be proved:

* `Head.readFront_of_read`: what is read of a line by itself is read from the front of the
  line, with no token left.
* `Reads.suffix`: reading moves forward.
* `Reads.leaves`: a part that begins when `n` levels are open ends when `n` levels are open,
  or one less if it is read to the end of its level.
* `ReadsDocument.rest_eq`: from the stream of a template, a document is read to the end.
-/

set_option autoImplicit false

namespace Trellis

open Source

/-! ### The tokens of a statement -/

mutual

/-- Reads a statement from the front of some tokens, and gives the tokens behind it. -/
def Head.readFront : List Token → Except ParseFault (Head × List Token)
  | [] => .error .strayLineEnd
  | .doctype name :: rest => .ok (.leaf (.doctype name), rest)
  | .tag name :: rest => Head.readTagFront name [] rest
  | .text s :: rest => (interpolate s).map fun spans => (.leaf (.text spans), rest)
  | .output escaped source :: rest =>
    (compileText source).map fun e => (.leaf (.output e escaped), rest)
  | .code statement :: rest => (assignment statement).map fun n => (.leaf n, rest)
  | .comment text :: .textBlock lines :: rest =>
    .ok (.leaf (.comment (text ++ "\n" ++ joinLines lines ++ "\n")), rest)
  | .comment text :: rest => .ok (.leaf (.comment text), rest)
  | .cond test :: rest => (compileText test).map fun e => (.cond e false, rest)
  | .unless test :: rest => (compileText test).map fun e => (.cond e true, rest)
  | .each item key collection :: rest =>
    (compileText collection).map fun e => (.each item key e, rest)
  | .caseOf subject :: rest => (compileText subject).map fun e => (.caseOf e, rest)
  | .mixin name parameters :: rest =>
    (parametersOf (splitTopLevel parameters.toList)).map fun (ps, r) => (.mixin name ps r, rest)
  | .call name arguments :: .colon :: rest => do
    let args ← readEach compileIn (splitTopLevel arguments.toList)
    let (inner, rest) ← Head.readFront rest
    return (.callAround name args inner, rest)
  | .call name arguments :: rest =>
    (readEach compileIn (splitTopLevel arguments.toList)).map fun args => (.call name args, rest)
  | .block mode name :: rest =>
    if name.isEmpty then .ok (.leaf .content, rest) else .ok (.block name mode, rest)
  | .filter name options :: .textBlock lines :: rest =>
    .ok (.leaf (.filter name (joinLines lines) (optionsOf options)), rest)
  | .filter name options :: rest => .ok (.leaf (.filter name "" (optionsOf options)), rest)
  | .including target :: rest => .ok (.including target, rest)
  | .extending _ :: _ => .error .lateExtends
  | .otherwise :: _ => .error .strayElse
  | .elseCond _ :: _ => .error .strayElse
  | .when _ :: _ => .error .strayWhen
  | .default :: _ => .error .strayWhen
  | t :: _ => .error (.stray t)

/-- Reads a tag behind its name from the front of some tokens. -/
def Head.readTagFront (name : String) (attributes : List Attribute) :
    List Token → Except ParseFault (Head × List Token)
  | .idName id :: rest => Head.readTagFront name (attributes ++ [fixedAttribute "id" id]) rest
  | .className c :: rest => Head.readTagFront name (attributes ++ [fixedAttribute "class" c]) rest
  | .attributes list :: rest => do
    let more ← readEach attributeOf list
    Head.readTagFront name (attributes ++ more) rest
  | .selfClose :: rest => .ok (.leaf (.tag name attributes true []), rest)
  | .colon :: rest => do
    let (inner, rest) ← Head.readFront rest
    return (.tagAround name attributes inner, rest)
  | .text s :: rest =>
    (interpolate s).map fun spans => (.tag name attributes [.text spans], rest)
  | .textBlock lines :: rest =>
    (interpolate (joinLines lines)).map fun spans => (.tag name attributes [.text spans], rest)
  | .output escaped source :: rest =>
    (compileText source).map fun e => (.tag name attributes [.output e escaped], rest)
  | rest => .ok (.tag name attributes [], rest)

end

/-- Only if no token is left, nothing follows on the line. -/
theorem endOfLine_eq_ok_iff {ts : List Token} : endOfLine ts = .ok () ↔ ts = [] := by
  cases ts with
  | nil => simp [endOfLine]
  | cons t ts => simp [endOfLine]

/-- What is read from the front of a line makes a whole line if no token is left. -/
def wholeLine (r : Except ParseFault (Head × List Token)) : Except ParseFault Head := do
  let (h, rest) ← r
  endOfLine rest
  return h

/-- A statement that ends with its line. -/
theorem wholeLine_map {α : Type} (x : Except ParseFault α) (f : α → Head) (rest : List Token) :
    wholeLine (x.map fun a => (f a, rest)) = Head.read.closed (x.map f) rest := by
  cases x <;> rfl

/-- A statement without children. -/
theorem wholeLine_map_leaf {α : Type} (x : Except ParseFault α) (f : α → Node)
    (rest : List Token) :
    wholeLine (x.map fun a => (.leaf (f a), rest)) = Head.read.leafHead (x.map f) rest := by
  cases x <;> rfl

/-- A tag whose content stands on its line. -/
theorem wholeLine_map_tag {α : Type} (x : Except ParseFault α) (f : α → Head)
    (rest : List Token) :
    wholeLine (x.map fun a => (f a, rest)) = (do let a ← x; endOfLine rest; return f a) := by
  cases x <;> rfl

/-- A statement behind a colon. -/
theorem wholeLine_bind (x : Except ParseFault (Head × List Token)) (f : Head → Head) :
    wholeLine (do let (inner, rest) ← x; return (f inner, rest)) =
      (do return f (← wholeLine x)) := by
  cases x with
  | error e => rfl
  | ok a =>
    obtain ⟨inner, rest⟩ := a
    cases rest <;> rfl

mutual

/-- **A line is read from its front to its end.** Most statements end with their line. A tag
goes on behind its name, and a call with a colon holds a statement of its own. -/
theorem Head.read_eq_wholeLine (ts : List Token) : Head.read ts = wholeLine (Head.readFront ts) := by
  rw [Head.read.eq_def]
  split
  case h_3 => exact Head.readTag_eq_wholeLine _ _ _
  case h_14 name arguments rest =>
    rw [Head.readFront, Head.read_eq_wholeLine rest]
    cases readEach compileIn (splitTopLevel arguments.toList) with
    | error e => rfl
    | ok args => exact (wholeLine_bind (Head.readFront rest) (.callAround name args)).symm
  case h_16 mode name rest =>
    rw [Head.readFront]
    cases name.isEmpty <;> rfl
  -- Statements without children that hold an expression or a text.
  case h_4 | h_5 =>
    rw [Head.readFront]
    exact (wholeLine_map_leaf _ _ _).symm
  case h_6 code rest =>
    rw [Head.readFront]
    exact (wholeLine_map (assignment code) .leaf rest).symm
  -- Statements with children that hold an expression.
  case h_9 | h_10 | h_11 | h_12 =>
    rw [Head.readFront]
    exact (wholeLine_map _ _ _).symm
  case h_13 name parameters rest =>
    rw [Head.readFront]
    cases parametersOf (splitTopLevel parameters.toList) <;> rfl
  case h_15 name arguments rest hcolon =>
    rw [Head.readFront]
    · exact (wholeLine_map _ (.call name) rest).symm
    · exact hcolon
  -- The others cannot fail, or do. Where several patterns fit, it is known that the earlier
  -- ones do not.
  all_goals
    rw [Head.readFront]
    · rfl
    all_goals assumption
termination_by ts.length

theorem Head.readTag_eq_wholeLine (name : String) (attributes : List Attribute)
    (ts : List Token) : Head.readTag name attributes ts =
      wholeLine (Head.readTagFront name attributes ts) := by
  rw [Head.readTag.eq_def]
  split
  case h_1 id rest =>
    rw [Head.readTagFront, Head.readTag_eq_wholeLine]
  case h_2 c rest =>
    rw [Head.readTagFront, Head.readTag_eq_wholeLine]
  case h_3 list rest =>
    rw [Head.readTagFront]
    cases readEach attributeOf list with
    | error e => rfl
    | ok more => exact Head.readTag_eq_wholeLine name (attributes ++ more) rest
  case h_5 rest =>
    rw [Head.readTagFront, Head.read_eq_wholeLine rest]
    exact (wholeLine_bind (Head.readFront rest) (.tagAround name attributes)).symm
  case h_6 | h_7 | h_8 =>
    rw [Head.readTagFront]
    exact (wholeLine_map_tag _ _ _).symm
  all_goals
    rw [Head.readTagFront]
    · rfl
    all_goals assumption
termination_by ts.length

end

theorem wholeLine_eq_ok {r : Except ParseFault (Head × List Token)} {h : Head}
    (hr : wholeLine r = .ok h) : r = .ok (h, []) := by
  cases r with
  | error e => cases hr
  | ok a =>
    obtain ⟨h', rest⟩ := a
    cases rest with
    | nil => cases hr; rfl
    | cons t ts => cases hr

theorem Head.readFront_of_read {ts : List Token} {h : Head} (hread : Head.read ts = .ok h) :
    Head.readFront ts = .ok (h, []) := by
  rw [Head.read_eq_wholeLine] at hread
  exact wholeLine_eq_ok hread

/-- The target of an include statement, also behind colons. -/
def Head.target? : Head → Option String
  | .including target => some target
  | .tagAround _ _ inner => inner.target?
  | .callAround _ _ inner => inner.target?
  | _ => none

/-- A statement was read from a front of some tokens. Its tags have the names that are
given already, and those from this front. A template that it includes is named there, too. -/
structure ReadOf (given : Multiset String) (ts : List Token) (h : Head) (left : List Token) :
    Prop where
  front : ∃ front, ts = front ++ left ∧ h.tagNames = given + tokenTagNames front ∧
    ∀ target ∈ h.target?, .including target ∈ front

/-- A token in front that gives no name to a tag. -/
theorem ReadOf.cons {given : Multiset String} {t : Token} {ts left : List Token} {h : Head}
    (hread : ReadOf given ts h left) (ht : tokenTagName? t = none) :
    ReadOf given (t :: ts) h left := by
  obtain ⟨front, rfl, hnames, htarget⟩ := hread
  refine ⟨t :: front, rfl, ?_, fun target h => List.mem_cons_of_mem _ (htarget target h)⟩
  rw [hnames, tokenTagNames, tokenTagNames, List.filterMap_cons_none ht]

/-- The name of a tag in front. -/
theorem ReadOf.cons_tag {name : String} {ts left : List Token} {h : Head}
    (hread : ReadOf {name} ts h left) : ReadOf 0 (.tag name :: ts) h left := by
  obtain ⟨front, rfl, hnames, htarget⟩ := hread
  refine ⟨.tag name :: front, rfl, ?_, fun target h => List.mem_cons_of_mem _ (htarget target h)⟩
  rw [hnames, zero_add]
  rfl

/-- A statement to which no further tokens belong. -/
theorem ReadOf.of_ok {given : Multiset String} {head h : Head} {rest left : List Token}
    (hhead : head.tagNames = given) (htarget : head.target? = none)
    (heq : (.ok (head, rest) : Except ParseFault (Head × List Token)) = .ok (h, left)) :
    ReadOf given rest h left := by
  cases heq
  refine ⟨[], rfl, ?_, fun target h => ?_⟩
  · rw [hhead, tokenTagNames_nil, add_zero]
  · rw [htarget] at h
    cases h

/-- A statement with an expression, to which no further tokens belong. -/
theorem ReadOf.of_map {given : Multiset String} {α : Type} {x : Except ParseFault α}
    {f : α → Head} {rest left : List Token} {h : Head}
    (hf : ∀ a, x = .ok a → (f a).tagNames = given) (htarget : ∀ a, (f a).target? = none)
    (hx : (x.map fun a => (f a, rest)) = .ok (h, left)) : ReadOf given rest h left := by
  cases x with
  | error e => cases hx
  | ok a => exact .of_ok (hf a rfl) (htarget a) hx

/-- An assignment has no tags. -/
theorem tagNames_of_assignment {code : String} {n : Node} (h : assignment code = .ok n) :
    n.tagNames = 0 := by
  unfold assignment at h
  dsimp only at h
  split at h
  · cases h
  · split at h
    · cases hx : compileIn _ with
      | error e => rw [hx] at h; cases h
      | ok e => rw [hx] at h; cases h; rfl
    · cases h

mutual

/-- **What is read from the front of some tokens is made of those that are not left.** -/
theorem Head.readOf_of_readFront {ts left : List Token} {h : Head}
    (hread : Head.readFront ts = .ok (h, left)) : ReadOf 0 ts h left := by
  rw [Head.readFront.eq_def] at hread
  split at hread
  case h_3 name rest => exact (Head.readOf_of_readTagFront hread).cons_tag
  case h_6 code rest =>
    exact .cons (.of_map (f := Head.leaf) (fun _ hn => tagNames_of_assignment hn)
      (fun _ => rfl) hread) rfl
  case h_14 name arguments rest =>
    -- The statement behind the colon is read from the tokens behind it.
    obtain ⟨args, -, hread⟩ := of_bind_eq_ok hread
    obtain ⟨⟨inner, behind⟩, hinner, hread⟩ := of_bind_eq_ok hread
    cases hread
    obtain ⟨front, hfront⟩ := Head.readOf_of_readFront hinner
    exact .cons (.cons ⟨front, hfront⟩ rfl) rfl
  case h_16 mode name rest =>
    refine .cons ?_ rfl
    split at hread <;> exact .of_ok rfl rfl hread
  case h_19 target rest =>
    cases hread
    refine ⟨[.including target], rfl, rfl, fun target' h => ?_⟩
    cases h
    exact List.mem_singleton_self _
  case h_4 | h_5 | h_9 | h_10 | h_11 | h_12 | h_13 | h_15 =>
    exact .cons (.of_map (fun _ _ => rfl) (fun _ => rfl) hread) rfl
  case h_2 | h_8 | h_18 => exact .cons (.of_ok rfl rfl hread) rfl
  case h_7 | h_17 => exact .cons (.cons (.of_ok rfl rfl hread) rfl) rfl
  all_goals cases hread
termination_by ts.length

theorem Head.readOf_of_readTagFront {name : String} {attributes : List Attribute}
    {ts left : List Token} {h : Head}
    (hread : Head.readTagFront name attributes ts = .ok (h, left)) :
    ReadOf {name} ts h left := by
  -- The content of a tag that stands on its line has no tags.
  have hcontent (n : Node) (hn : n.tagNames = 0) :
      (Head.tag name attributes [n]).tagNames = {name} := by
    rw [Head.tagNames, tagNamesOf_singleton, hn, add_zero]
  rw [Head.readTagFront.eq_def] at hread
  split at hread
  case h_3 list rest =>
    obtain ⟨more, -, hread⟩ := of_bind_eq_ok hread
    exact .cons (Head.readOf_of_readTagFront hread) rfl
  case h_5 rest =>
    obtain ⟨⟨inner, behind⟩, hinner, hread⟩ := of_bind_eq_ok hread
    cases hread
    obtain ⟨front, hfront, hnames, htarget⟩ := Head.readOf_of_readFront hinner
    refine .cons ⟨front, hfront, ?_, htarget⟩ rfl
    rw [Head.tagNames, hnames, zero_add]
  case h_1 | h_2 => exact .cons (Head.readOf_of_readTagFront hread) rfl
  case h_4 => exact .cons (.of_ok rfl rfl hread) rfl
  case h_6 | h_7 | h_8 =>
    exact .cons (.of_map (fun _ _ => hcontent _ rfl) (fun _ => rfl) hread) rfl
  case h_9 => exact .of_ok rfl rfl hread
termination_by ts.length

end

/-! ### The rules -/

/-- Behind the tokens of a line stands its end. The end of the stream ends a line, too, and
stays where it is. -/
inductive LineEnd : List Item → List Item → Prop
  | newline {is : List Item} : LineEnd (.newline :: is) is
  | finish {is : List Item} : LineEnd (.finish :: is) (.finish :: is)

/-- The items begin with a token of a given kind. -/
def StartsWith (p : Token → Prop) (is : List Item) : Prop := ∃ t rest, is = .token t :: rest ∧ p t

/-- A token that begins a further branch of a conditional. -/
def IsElseToken (t : Token) : Prop := t = .otherwise ∨ ∃ test, t = .elseCond test

/-- What a reader may be about to read. -/
inductive Part where
  /-- The statements of a level, to its end. -/
  | body
  /-- The end of a line, and what lies deeper behind it. -/
  | children
  | statement
  /-- What belongs to a statement behind its tokens. -/
  | behind (h : Head)
  /-- The further branches of a conditional. -/
  | branches
  /-- What is shown in place of an empty loop. -/
  | fallback
  /-- The alternatives of a case, to the end of their level. A default may have been met. -/
  | alternatives (default : Option (List Node))

/-- What comes of a part. -/
abbrev Part.Result : Part → Type
  | .body => List Node
  | .children => List Node
  | .statement => List Node
  | .behind _ => List Node
  | .branches => List Branch × Option (List Node)
  | .fallback => Option (List Node)
  | .alternatives _ => List When × Option (List Node)

/-- A part is read from the first items, gives a result, and leaves the second items. What
an include statement stands for is up to `included`. -/
inductive Reads (included : String → List Node → Prop) :
    (part : Part) → List Item → part.Result → List Item → Prop
  -- The statements of a level
  | blank {is rest : List Item} {ns : List Node} (later : Reads included .body is ns rest) :
    Reads included .body (.newline :: is) ns rest
  | outdent {rest : List Item} : Reads included .body (.outdent :: rest) [] rest
  | finish {rest : List Item} : Reads included .body (.finish :: rest) [] (.finish :: rest)
  | next {is between rest : List Item} {ns more : List Node}
    (first : Reads included .statement is ns between)
    (later : Reads included .body between more rest) :
    Reads included .body is (Node.join ns more) rest
  -- What lies deeper
  | flat {is rest : List Item} (line : LineEnd is rest) (flat : rest.head? ≠ some .indent) :
    Reads included .children is [] rest
  | deeper {is inside rest : List Item} {ns : List Node} (line : LineEnd is (.indent :: inside))
    (body : Reads included .body inside ns rest) : Reads included .children is ns rest
  -- Statements
  | statement {ts left : List Token} {behind rest : List Item} {h : Head} {ns : List Node}
    (whole : ¬StartsWith (fun _ => True) behind) (head : Head.readFront ts = .ok (h, left))
    (parts : Reads included (.behind h) (left.map Item.token ++ behind) ns rest) :
    Reads included .statement (ts.map Item.token ++ behind) ns rest
  | leaf {n : Node} {is rest : List Item} (line : LineEnd is rest)
    (flat : rest.head? ≠ some .indent) : Reads included (.behind (.leaf n)) is [n] rest
  | including {target : String} {is rest : List Item} {ns : List Node} (line : LineEnd is rest)
    (flat : rest.head? ≠ some .indent) (nodes : included target ns) :
    Reads included (.behind (.including target)) is ns rest
  | tag {name : String} {attributes : List Attribute} {content children : List Node}
    {is rest : List Item} (inside : Reads included .children is children rest) :
    Reads included (.behind (.tag name attributes content)) is
      [.tag name attributes false (Node.join content children)] rest
  | call {name : String} {arguments : List Expression} {body : List Node} {is rest : List Item}
    (inside : Reads included .children is body rest) :
    Reads included (.behind (.call name arguments)) is
      [.call name arguments (if body.isEmpty then none else some body)] rest
  | tagAround {name : String} {attributes : List Attribute} {inner : Head}
    {children : List Node} {is rest : List Item}
    (inside : Reads included (.behind inner) is children rest) :
    Reads included (.behind (.tagAround name attributes inner)) is
      [.tag name attributes false children] rest
  | callAround {name : String} {arguments : List Expression} {inner : Head} {body : List Node}
    {is rest : List Item} (inside : Reads included (.behind inner) is body rest) :
    Reads included (.behind (.callAround name arguments inner)) is
      [.call name arguments (if body.isEmpty then none else some body)] rest
  | cond {test : Expression} {negated : Bool} {body : List Node} {more : List Branch}
    {otherwise : Option (List Node)} {is between rest : List Item}
    (inside : Reads included .children is body between)
    (others : Reads included .branches between (more, otherwise) rest) :
    Reads included (.behind (.cond test negated)) is
      [.cond (⟨test, negated, body⟩ :: more) otherwise] rest
  | each {item : String} {key : Option String} {collection : Expression} {body : List Node}
    {instead : Option (List Node)} {is between rest : List Item}
    (inside : Reads included .children is body between)
    (others : Reads included .fallback between instead rest) :
    Reads included (.behind (.each item key collection)) is
      [.each item key collection body instead] rest
  | emptyCase {subject : Expression} {is rest : List Item} (line : LineEnd is rest)
    (flat : rest.head? ≠ some .indent) :
    Reads included (.behind (.caseOf subject)) is [.caseOf subject [] none] rest
  | caseOf {subject : Expression} {whens : List When} {default : Option (List Node)}
    {is inside rest : List Item} (line : LineEnd is (.indent :: inside))
    (alternatives : Reads included (.alternatives none) inside (whens, default) rest) :
    Reads included (.behind (.caseOf subject)) is [.caseOf subject whens default] rest
  | mixin {name : String} {parameters : List Parameter} {others : Option String}
    {body : List Node} {is rest : List Item} (inside : Reads included .children is body rest) :
    Reads included (.behind (.mixin name parameters others)) is
      [.mixin ⟨name, parameters, others, body⟩] rest
  | block {name : String} {mode : BlockMode} {children : List Node} {is rest : List Item}
    (inside : Reads included .children is children rest) :
    Reads included (.behind (.block name mode)) is [.block name mode children] rest
  -- Further branches
  | noBranch {rest : List Item} (none : ¬StartsWith IsElseToken rest) :
    Reads included .branches rest ([], .none) rest
  | elseCond {source : String} {test : Expression} {body : List Node} {more : List Branch}
    {otherwise : Option (List Node)} {is between rest : List Item}
    (compiled : compileText source = .ok test)
    (inside : Reads included .children is body between)
    (others : Reads included .branches between (more, otherwise) rest) :
    Reads included .branches (.token (.elseCond source) :: is)
      (⟨test, false, body⟩ :: more, otherwise) rest
  | otherwise {body : List Node} {is rest : List Item}
    (inside : Reads included .children is body rest) :
    Reads included .branches (.token .otherwise :: is) ([], some body) rest
  -- What is shown in place of an empty loop
  | noFallback {rest : List Item} (none : ¬StartsWith (· = .otherwise) rest) :
    Reads included .fallback rest .none rest
  | fallback {body : List Node} {is rest : List Item}
    (inside : Reads included .children is body rest) :
    Reads included .fallback (.token .otherwise :: is) (some body) rest
  -- Alternatives
  | blankAlternative {default : Option (List Node)} {is rest : List Item}
    {whens : List When} {result : Option (List Node)}
    (later : Reads included (.alternatives default) is (whens, result) rest) :
    Reads included (.alternatives default) (.newline :: is) (whens, result) rest
  | outdentCase {default : Option (List Node)} {rest : List Item} :
    Reads included (.alternatives default) (.outdent :: rest) ([], default) rest
  | finishCase {default : Option (List Node)} {rest : List Item} :
    Reads included (.alternatives default) (.finish :: rest) ([], default) rest
  | when {default result : Option (List Node)} {source : String} {value : Expression}
    {body : List Node} {whens : List When} {is between rest : List Item}
    (compiled : compileText source = .ok value)
    (inside : Reads included .children is body between)
    (later : Reads included (.alternatives default) between (whens, result) rest) :
    Reads included (.alternatives default) (.token (.when source) :: is)
      (⟨value, body⟩ :: whens, result) rest
  | default {body : List Node} {whens : List When} {result : Option (List Node)}
    {is between rest : List Item} (inside : Reads included .children is body between)
    (later : Reads included (.alternatives (some body)) between (whens, result) rest) :
    Reads included (.alternatives none) (.token .default :: is) (whens, result) rest

/-- A template is read: blank lines, the name of the template that it extends if it has one,
and the statements of its outermost level. -/
inductive ReadsDocument (included : String → List Node → Prop) :
    List Item → Option String → List Node → List Item → Prop
  | blank {is rest : List Item} {base : Option String} {ns : List Node}
    (later : ReadsDocument included is base ns rest) :
    ReadsDocument included (.newline :: is) base ns rest
  | extending {target : String} {is between rest : List Item} {ns : List Node}
    (line : LineEnd is between) (flat : between.head? ≠ some .indent)
    (body : Reads included .body between ns rest) :
    ReadsDocument included (.token (.extending target) :: is) (some target) ns rest
  | plain {is rest : List Item} {ns : List Node} (body : Reads included .body is ns rest) :
    ReadsDocument included is none ns rest

/-! ### Reading moves forward -/

theorem LineEnd.suffix {is rest : List Item} (h : LineEnd is rest) : rest <:+ is := by
  cases h with
  | newline => exact List.suffix_cons _ _
  | finish => exact List.suffix_rfl

theorem StartsWith.mono {p q : Token → Prop} {is : List Item} (h : StartsWith p is)
    (hpq : ∀ t, p t → q t) : StartsWith q is := by
  obtain ⟨t, rest, heq, ht⟩ := h
  exact ⟨t, rest, heq, hpq t ht⟩

/-- **Reading moves forward.** -/
theorem Reads.suffix {included : String → List Node → Prop} {part : Part} {is rest : List Item}
    {result : part.Result} (h : Reads included part is result rest) : rest <:+ is := by
  induction h with
  | blank later ih => exact ih.trans (List.suffix_cons _ _)
  | outdent => exact List.suffix_cons _ _
  | finish => exact List.suffix_rfl
  | next first later ihFirst ihLater => exact ihLater.trans ihFirst
  | flat line flat => exact line.suffix
  | deeper line body ih => exact (ih.trans (List.suffix_cons _ _)).trans line.suffix
  | statement whole head parts ih =>
    obtain ⟨front, rfl, -⟩ := Head.readOf_of_readFront head
    exact ih.trans ⟨front.map Item.token, by simp⟩
  | leaf line flat => exact line.suffix
  | including line flat nodes => exact line.suffix
  | tag inside ih => exact ih
  | call inside ih => exact ih
  | tagAround inside ih => exact ih
  | callAround inside ih => exact ih
  | cond inside others ihInside ihOthers => exact ihOthers.trans ihInside
  | each inside others ihInside ihOthers => exact ihOthers.trans ihInside
  | emptyCase line flat => exact line.suffix
  | caseOf line alternatives ih => exact (ih.trans (List.suffix_cons _ _)).trans line.suffix
  | mixin inside ih => exact ih
  | block inside ih => exact ih
  | noBranch none => exact List.suffix_rfl
  | elseCond compiled inside others ihInside ihOthers =>
    exact (ihOthers.trans ihInside).trans (List.suffix_cons _ _)
  | otherwise inside ih => exact ih.trans (List.suffix_cons _ _)
  | noFallback none => exact List.suffix_rfl
  | fallback inside ih => exact ih.trans (List.suffix_cons _ _)
  | blankAlternative later ih => exact ih.trans (List.suffix_cons _ _)
  | outdentCase => exact List.suffix_cons _ _
  | finishCase => exact List.suffix_cons _ _
  | when compiled inside later ihInside ihLater =>
    exact (ihLater.trans ihInside).trans (List.suffix_cons _ _)
  | default inside later ihInside ihLater =>
    exact (ihLater.trans ihInside).trans (List.suffix_cons _ _)

/-! ### Where reading ends -/

/-- The items close some levels and all that they open, and end the stream there. -/
def Closes : List Item → Nat → Prop
  | [], _ => False
  | .finish :: rest, n => n = 0 ∧ rest = []
  | .outdent :: rest, n => ∃ m, n = m + 1 ∧ Closes rest m
  | .indent :: rest, n => Closes rest (n + 1)
  | .newline :: rest, n => Closes rest n
  | .token _ :: rest, n => Closes rest n

theorem LineEnd.closes {n : Nat} {is rest : List Item} (h : LineEnd is rest)
    (hn : Closes is n) : Closes rest n := by
  cases h with
  | newline => exact hn
  | finish => exact hn

/-- Tokens open and close no level. -/
theorem closes_tokens_iff {n : Nat} (ts : List Token) (rest : List Item) :
    Closes (ts.map Item.token ++ rest) n ↔ Closes rest n := by
  induction ts with
  | nil => rfl
  | cons t ts ih => exact ih

/-- How the levels stand behind a part that begins when `n` of them are open. -/
def Part.Leaves (n : Nat) (rest : List Item) : Part → Prop
  | .body => (n = 0 ∧ rest = [.finish]) ∨ ∃ m, n = m + 1 ∧ Closes rest m
  | .alternatives _ => ∀ m, n = m + 1 → Closes rest m
  | _ => Closes rest n

/-- **A part ends on the level where it began**, or one further out if it is read to the end
of its level. The induction is on the rules. -/
theorem Reads.leaves {included : String → List Node → Prop} {part : Part} {is rest : List Item}
    {result : part.Result} (h : Reads included part is result rest) {n : Nat}
    (hn : Closes is n) : part.Leaves n rest := by
  induction h generalizing n with
  | blank later ih => exact ih hn
  | outdent => exact .inr hn
  | finish =>
    obtain ⟨rfl, rfl⟩ := hn
    exact .inl ⟨rfl, rfl⟩
  | next first later ihFirst ihLater => exact ihLater (ihFirst hn)
  | flat line flat => exact line.closes hn
  | deeper line body ih =>
    -- The body has a level of its own, so the outdent that ends it leaves the level of the line.
    rcases ih (line.closes hn) with ⟨h, -⟩ | ⟨m, hm, hrest⟩
    · cases h
    · cases hm
      exact hrest
  | statement whole head parts ih =>
    exact ih ((closes_tokens_iff _ _).mpr ((closes_tokens_iff _ _).mp hn))
  | leaf line flat => exact line.closes hn
  | including line flat nodes => exact line.closes hn
  | tag inside ih => exact ih hn
  | call inside ih => exact ih hn
  | tagAround inside ih => exact ih hn
  | callAround inside ih => exact ih hn
  | cond inside others ihInside ihOthers => exact ihOthers (ihInside hn)
  | each inside others ihInside ihOthers => exact ihOthers (ihInside hn)
  | emptyCase line flat => exact line.closes hn
  | caseOf line alternatives ih => exact ih (line.closes hn) n rfl
  | mixin inside ih => exact ih hn
  | block inside ih => exact ih hn
  | noBranch none => exact hn
  | elseCond compiled inside others ihInside ihOthers => exact ihOthers (ihInside hn)
  | otherwise inside ih => exact ih hn
  | noFallback none => exact hn
  | fallback inside ih => exact ih hn
  | blankAlternative later ih => exact ih hn
  | outdentCase =>
    intro m hm
    obtain ⟨m', rfl, hrest⟩ := hn
    cases hm
    exact hrest
  | finishCase =>
    -- The end of the stream closes no level, and a case has one.
    intro m hm
    exact absurd (hn.1.symm.trans hm) (Nat.succ_ne_zero m).symm
  | when compiled inside later ihInside ihLater => exact ihLater (ihInside hn)
  | default inside later ihInside ihLater => exact ihLater (ihInside hn)

/-- The items that lead to a line that is at most one level deeper. -/
theorem closes_levelItems {before after : Nat} (h : after ≤ before + 1) {rest : List Item}
    (hrest : Closes rest after) : Closes (levelItems before after ++ rest) before := by
  by_cases hdeeper : before < after
  · have hone : after = before + 1 := by omega
    subst hone
    rw [levelItems, if_pos hdeeper]
    exact hrest
  · obtain ⟨k, rfl⟩ := Nat.exists_eq_add_of_le (Nat.le_of_not_gt hdeeper)
    rw [levelItems, if_neg hdeeper, Nat.add_sub_cancel_left]
    clear h hdeeper
    induction k with
    | zero => exact hrest
    | succ k ih => exact ⟨after + k, rfl, ih⟩

/-- The stream of a run closes the levels that are open before it. -/
theorem closes_itemsFrom {widths : List Nat} {lines : List Line} (h : Run widths lines)
    (finish : Position) :
    Closes ((itemsFrom finish widths.length lines).map Prod.snd) widths.length := by
  induction h with
  | @done widths =>
    have hend : Closes [Item.finish] 0 := ⟨rfl, rfl⟩
    have hclosed := closes_levelItems (Nat.zero_le (widths.length + 1)) hend
    rw [itemsFrom, List.map_map]
    simpa [Function.comp_def] using hclosed
  | @line widths inside l rest moves depth column silent later ih =>
    have hline : (l.items widths.length).map Prod.snd =
        levelItems widths.length inside.length ++ (l.tokens.map Item.token ++ [.newline]) := by
      rw [Line.items, List.map_map, ← depth]
      simp [Function.comp_def]
    have htokens : Closes (l.tokens.map Item.token ++ [.newline] ++
        (itemsFrom finish inside.length rest).map Prod.snd) inside.length := by
      rw [List.append_assoc, closes_tokens_iff]
      exact ih
    rw [itemsFrom, List.map_append, hline, depth, List.append_assoc]
    exact closes_levelItems moves.length_le htokens

theorem closes_items {source : String} {l : Layout} (h : Layout.scan source = .ok l) :
    Closes (l.items.map Prod.snd) 0 :=
  closes_itemsFrom (run_of_scan h) l.finish

/-- **A document that is read from a stream in which all levels are closed is read to the
end.** -/
theorem ReadsDocument.rest_eq {included : String → List Node → Prop} {is rest : List Item}
    {base : Option String} {ns : List Node} (h : ReadsDocument included is base ns rest)
    (hn : Closes is 0) : rest = [.finish] := by
  have hbody {is rest : List Item} {ns : List Node} (hread : Reads included .body is ns rest)
      (hn : Closes is 0) : rest = [.finish] := by
    rcases hread.leaves hn with ⟨-, hrest⟩ | ⟨m, hm, -⟩
    · exact hrest
    · cases hm
  induction h with
  | blank later ih => exact ih hn
  | extending line flat body => exact hbody body (line.closes hn)
  | plain body => exact hbody body hn

/-! ### The names of tags -/

/-- The names of the tags in what came of a part. -/
def Part.tagNames : (part : Part) → part.Result → Multiset String
  | .body, ns => tagNamesOf ns
  | .children, ns => tagNamesOf ns
  | .statement, ns => tagNamesOf ns
  | .behind _, ns => tagNamesOf ns
  | .branches, (more, otherwise) => branchTagNames more + optionTagNames otherwise
  | .fallback, instead => optionTagNames instead
  | .alternatives _, (whens, default) => whenTagNames whens + optionTagNames default

/-- The names of the tags that a part has before it is read. -/
def Part.given : Part → Multiset String
  | .behind h => h.tagNames
  | .alternatives default => optionTagNames default
  | _ => 0

/-- The template that a part includes before it is read. -/
def Part.target? : Part → Option String
  | .behind h => h.target?
  | _ => none

/-- The stream has no include statement. -/
def NoIncludes (is : List Item) : Prop := ∀ target, .token (.including target) ∉ is

theorem NoIncludes.of_suffix {is rest : List Item} (h : NoIncludes is) (hrest : rest <:+ is) :
    NoIncludes rest := fun target hmem => h target (hrest.subset hmem)

theorem LineEnd.itemTagNames_eq {is rest : List Item} (h : LineEnd is rest) :
    itemTagNames rest = itemTagNames is := by
  cases h <;> rfl

/-- **A tag is read for every name of a tag, and no other.** The names that were read and
those that are left are those that were given and those that there were. -/
theorem Reads.tagNames_eq {included : String → List Node → Prop} {part : Part}
    {is rest : List Item} {result : part.Result} (h : Reads included part is result rest)
    (hno : NoIncludes is) (htarget : part.target? = none) :
    part.tagNames result + itemTagNames rest = part.given + itemTagNames is := by
  induction h with
  | blank later ih => exact ih (hno.of_suffix (List.suffix_cons _ _)) rfl
  | outdent => rfl
  | finish => rfl
  | next first later ihFirst ihLater =>
    have hfirst := ihFirst hno rfl
    have hlater := ihLater (hno.of_suffix first.suffix) rfl
    simp only [Part.tagNames, Part.given, tagNamesOf_join, zero_add, add_assoc] at hfirst hlater ⊢
    rw [hlater, hfirst]
  | flat line flat => exact congrArg (0 + ·) line.itemTagNames_eq
  | deeper line body ih =>
    have hinside := ih ((hno.of_suffix line.suffix).of_suffix (List.suffix_cons _ _)) rfl
    exact hinside.trans (congrArg (0 + ·) line.itemTagNames_eq)
  | @statement ts left behind rest h ns whole head parts ih =>
    obtain ⟨front, rfl, hnames, htarget⟩ := Head.readOf_of_readFront head
    have hbehind : NoIncludes (left.map Item.token ++ behind) :=
      hno.of_suffix ⟨front.map Item.token, by simp⟩
    have hparts := ih hbehind (by
      -- An include statement would be one of the tokens that were read.
      rw [Part.target?, Option.eq_none_iff_forall_not_mem]
      intro target hmem
      exact hno target (by simp [htarget target hmem]))
    simp only [Part.tagNames, Part.given, hnames, List.map_append, itemTagNames_append,
      itemTagNames_tokens, zero_add, add_assoc] at hparts ⊢
    exact hparts
  | leaf line flat =>
    simp only [Part.tagNames, Part.given, Head.tagNames, tagNamesOf_singleton,
      line.itemTagNames_eq]
  | including line flat nodes => cases htarget
  | tag inside ih =>
    have hinside := ih hno rfl
    simp only [Part.tagNames, Part.given, Head.tagNames, tagNamesOf_singleton, Node.tagNames,
      tagNamesOf_join, zero_add, add_assoc] at hinside ⊢
    rw [hinside]
  | call inside ih =>
    have hinside := ih hno rfl
    simpa only [Part.tagNames, Part.given, Head.tagNames, tagNamesOf_singleton, Node.tagNames,
      optionTagNames_of_body] using hinside
  | tagAround inside ih =>
    have hinside := ih hno htarget
    simp only [Part.tagNames, Part.given, Head.tagNames, tagNamesOf_singleton, Node.tagNames,
      add_assoc] at hinside ⊢
    rw [hinside]
  | callAround inside ih =>
    have hinside := ih hno htarget
    simpa only [Part.tagNames, Part.given, Head.tagNames, tagNamesOf_singleton, Node.tagNames,
      optionTagNames_of_body] using hinside
  | cond inside others ihInside ihOthers =>
    have hinside := ihInside hno rfl
    have hothers := ihOthers (hno.of_suffix inside.suffix) rfl
    simp only [Part.tagNames, Part.given, Head.tagNames, tagNamesOf_singleton, Node.tagNames,
      branchTagNames, zero_add, add_assoc] at hinside hothers ⊢
    rw [hothers, hinside]
  | each inside others ihInside ihOthers =>
    have hinside := ihInside hno rfl
    have hothers := ihOthers (hno.of_suffix inside.suffix) rfl
    simp only [Part.tagNames, Part.given, Head.tagNames, tagNamesOf_singleton, Node.tagNames,
      zero_add, add_assoc] at hinside hothers ⊢
    rw [hothers, hinside]
  | emptyCase line flat => exact congrArg (0 + ·) line.itemTagNames_eq
  | caseOf line alternatives ih =>
    have hinside := ih ((hno.of_suffix line.suffix).of_suffix (List.suffix_cons _ _)) rfl
    simp only [Part.tagNames, Part.given, Head.tagNames, tagNamesOf_singleton, Node.tagNames,
      optionTagNames] at hinside ⊢
    exact hinside.trans (congrArg (0 + ·) line.itemTagNames_eq)
  | mixin inside ih =>
    have hinside := ih hno rfl
    simpa only [Part.tagNames, Part.given, Head.tagNames, tagNamesOf_singleton, Node.tagNames]
      using hinside
  | block inside ih =>
    have hinside := ih hno rfl
    simpa only [Part.tagNames, Part.given, Head.tagNames, tagNamesOf_singleton, Node.tagNames]
      using hinside
  | noBranch none => rfl
  | elseCond compiled inside others ihInside ihOthers =>
    have hbehind := hno.of_suffix (List.suffix_cons _ _)
    have hinside := ihInside hbehind rfl
    have hothers := ihOthers (hbehind.of_suffix inside.suffix) rfl
    simp only [Part.tagNames, Part.given, branchTagNames, zero_add, add_assoc]
      at hinside hothers ⊢
    rw [hothers, hinside]
    rfl
  | otherwise inside ih =>
    have hinside := ih (hno.of_suffix (List.suffix_cons _ _)) rfl
    exact (congrArg (· + _) (zero_add _)).trans hinside
  | noFallback none => rfl
  | fallback inside ih => exact ih (hno.of_suffix (List.suffix_cons _ _)) rfl
  | blankAlternative later ih => exact ih (hno.of_suffix (List.suffix_cons _ _)) rfl
  | outdentCase => exact congrArg (· + _) (zero_add _)
  | finishCase => exact congrArg (· + _) (zero_add _)
  | when compiled inside later ihInside ihLater =>
    have hbehind := hno.of_suffix (List.suffix_cons _ _)
    have hinside := ihInside hbehind rfl
    have hlater := ihLater (hbehind.of_suffix inside.suffix) rfl
    simp only [Part.tagNames, Part.given, whenTagNames, zero_add, add_assoc] at hinside hlater ⊢
    rw [hlater, add_left_comm, hinside]
    rfl
  | default inside later ihInside ihLater =>
    have hbehind := hno.of_suffix (List.suffix_cons _ _)
    have hinside := ihInside hbehind rfl
    have hlater := ihLater (hbehind.of_suffix inside.suffix) rfl
    simp only [Part.tagNames, Part.given, optionTagNames, zero_add] at hinside hlater ⊢
    rw [hlater, hinside]
    rfl

/-- A template that includes and extends no other has a tag for every name of a tag in its
stream, and no other. -/
theorem ReadsDocument.tagNames_eq {included : String → List Node → Prop} {is : List Item}
    {ns : List Node} (h : ReadsDocument included is none ns [.finish]) (hno : NoIncludes is) :
    tagNamesOf ns = itemTagNames is := by
  generalize hrest : [Item.finish] = rest at h
  generalize hbase : (none : Option String) = base at h
  induction h with
  | blank later ih => exact ih (hno.of_suffix (List.suffix_cons _ _)) hrest hbase
  | extending line flat body => cases hbase
  | plain body =>
    subst hrest
    have hnames := body.tagNames_eq hno rfl
    have hend : itemTagNames [.finish] = 0 := rfl
    simpa only [Part.tagNames, Part.given, hend, zero_add, add_zero] using hnames

end Trellis
