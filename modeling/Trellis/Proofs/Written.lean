import Trellis.Document.Statement
import Trellis.Proofs.QuotedValue

/-!
# `Trellis.Proofs.Written`: the expressions that a line holds

Tokens hold expressions as texts. `writtenExpressions` lists those of a line, from left to right:
also those between the braces of its text, in its attributes and in its lists of arguments. The
text of a comment and of a filter is not searched for any.

`Head.compiles_read` says what becomes of them. If the line can be read, then all of them can. If
it is refused for an expression, then for the first of them that is none (`firstFault?`). It goes
along the two functions that read a line, and the parts of a line that hold expressions have one
lemma each below it.
-/

set_option autoImplicit false

namespace Trellis

open Source Text

/-! ### Expressions of a line -/

/-- What is wrong with a text as an expression, if something is. -/
def Expression.fault? (source : String) : Option ExpressionError :=
  match compile source with
  | .ok _ => none
  | .error e => some e

theorem Expression.fault?_eq_some_iff {source : String} {e : ExpressionError} :
    fault? source = some e ↔ compile source = .error e := by
  unfold fault?
  cases compile source <;> simp

theorem Expression.fault?_eq_none_iff {source : String} :
    fault? source = none ↔ ∃ e, compile source = .ok e := by
  unfold fault?
  cases compile source <;> simp

/-- What is wrong with the first of some texts that is no expression. -/
def firstFault? (texts : List String) : Option ExpressionError := texts.findSome? Expression.fault?

/-- What is wrong with an expression, if a fault is about one. -/
def ParseFault.expression? : ParseFault → Option ExpressionError
  | .badExpression e => some e
  | _ => none

theorem length_behindBrace {rest inner after : List Char}
    (h : splitAtBrace? .outside (rest.drop 1) = some (inner, after)) : after.length < rest.length := by
  have := length_of_splitAtBrace? h
  rw [List.length_drop] at this
  omega

/-- The expressions between the braces of a text. A backslash hides the sign behind it. -/
def interpolationsFrom (cs : List Char) : List String :=
  match cs with
  | [] => []
  | c :: rest =>
    if startsWith ['\\', '#', '{'] (c :: rest) || startsWith ['\\', '!', '{'] (c :: rest) then
      interpolationsFrom (rest.drop 2)
    else if (c == '#' || c == '!') && headIs (· == '{') rest then
      match h : splitAtBrace? .outside (rest.drop 1) with
      | none => []
      | some (inner, after) =>
        have := length_behindBrace h
        String.ofList (trim inner) :: interpolationsFrom after
    else interpolationsFrom rest
termination_by cs.length
decreasing_by
  all_goals
    simp only [List.length_cons, List.length_drop]
    omega

theorem interpolationsFrom_of_sign {c : Char} {rest inner after : List Char}
    (hescaped : ¬(startsWith ['\\', '#', '{'] (c :: rest) ||
      startsWith ['\\', '!', '{'] (c :: rest)) = true)
    (hsign : ((c == '#' || c == '!') && headIs (· == '{') rest) = true)
    (hsplit : splitAtBrace? .outside (rest.drop 1) = some (inner, after)) :
    interpolationsFrom (c :: rest) = String.ofList (trim inner) :: interpolationsFrom after := by
  rw [interpolationsFrom, if_neg hescaped, if_pos hsign]
  split
  · next hnone => cases hsplit.symm.trans hnone
  · next inner' after' hsome =>
    cases hsplit.symm.trans hsome
    rfl

theorem startsWith_of_cons {p c : Char} {start cs : List Char}
    (h : startsWith (p :: start) (c :: cs) = true) : startsWith start cs = true := by
  rw [startsWith, after?] at h
  split at h
  · exact h
  · cases h

theorem startsWith_of_find? {needle cs : List Char} (h : find? needle cs = none) :
    startsWith needle cs = false := by
  cases cs with
  | nil =>
    cases needle with
    | nil => cases h
    | cons c needle => rfl
  | cons c cs =>
    rw [find?] at h
    split at h
    · cases h
    · exact eq_false_of_ne_true ‹_›

/-- A text without an opening sign holds no expressions. -/
theorem interpolationsFrom_of_find? {cs : List Char} (hescaped : find? ['#', '{'] cs = none)
    (hraw : find? ['!', '{'] cs = none) : interpolationsFrom cs = [] := by
  have hsign {c : Char} {rest : List Char} (hescaped : find? ['#', '{'] (c :: rest) = none)
      (hraw : find? ['!', '{'] (c :: rest) = none) :
      ¬((c == '#' || c == '!') && headIs (· == '{') rest) = true := by
    intro hopens
    have hescaped := startsWith_of_find? hescaped
    have hraw := startsWith_of_find? hraw
    cases rest with
    | nil => simp [headIs] at hopens
    | cons d rest =>
      simp only [headIs, Bool.and_eq_true, Bool.or_eq_true, beq_iff_eq] at hopens
      obtain ⟨rfl | rfl, rfl⟩ := hopens
      · simp [startsWith, after?] at hescaped
      · simp [startsWith, after?] at hraw
  fun_induction interpolationsFrom cs with
  | case1 => rfl
  | case2 c rest hhidden ih =>
    -- The sign is found behind the backslash.
    rcases Bool.or_eq_true _ _ |>.mp hhidden with h | h
    · cases (startsWith_of_find? (find?_of_cons hescaped)).symm.trans (startsWith_of_cons h)
    · cases (startsWith_of_find? (find?_of_cons hraw)).symm.trans (startsWith_of_cons h)
  | case3 c rest _ hopens => exact absurd hopens (hsign hescaped hraw)
  | case4 c rest _ hopens => exact absurd hopens (hsign hescaped hraw)
  | case5 c rest _ _ ih => exact ih (find?_of_cons hescaped) (find?_of_cons hraw)

/-- The expressions between the braces of a text. -/
def interpolations (s : String) : List String := interpolationsFrom s.toList

/-- The value of an attribute is an expression, or a quoted text that may hold some. -/
def Source.RawAttribute.expressions (raw : RawAttribute) : List String :=
  match raw.value with
  | none => []
  | some source =>
    match quotedText? source.toList with
    | some text => interpolationsFrom text
    | none => [source]

/-- The right side of an assignment. -/
def assignedExpressions (code : String) : List String :=
  let cs := (trim code.toList).reverse.dropWhile (· == ';') |>.reverse
  let cs := trim ((after? "var ".toList cs).getD cs)
  match assignmentSign? none cs with
  | none => []
  | some n => [String.ofList (trim (cs.drop (n + 1)))]

/-- The expression for a missing argument, if a parameter has one. -/
def parameterExpressions (part : List Char) : List String :=
  match after? ['.', '.', '.'] part with
  | some _ => []
  | none =>
    match splitAtFirst? (· == '=') part with
    | none => []
    | some (_, default) => [String.ofList (trim default)]

/-- The expressions that a token holds. -/
def Source.Token.expressions : Token → List String
  | .cond test => [test]
  | .elseCond test => [test]
  | .unless test => [test]
  | .each _ _ collection => [collection]
  | .caseOf subject => [subject]
  | .when value => [value]
  | .output _ expression => [expression]
  | .code statement => assignedExpressions statement
  | .call _ arguments => (splitTopLevel arguments.toList).map String.ofList
  | .mixin _ parameters => (splitTopLevel parameters.toList).flatMap parameterExpressions
  | .attributes list => list.flatMap RawAttribute.expressions
  | .text s => interpolations s
  | .textBlock lines => interpolations (joinLines lines)
  | _ => []

/-- The expressions that a line holds. What follows a comment or the name of a filter is fixed
text. -/
def writtenExpressions : List Token → List String
  | [] => []
  | .comment _ :: _ => []
  | .filter _ _ :: _ => []
  | t :: rest => t.expressions ++ writtenExpressions rest

/-! ### Parts of a line -/

/-- Something is read that holds some expressions. If it can be read, so can they; and if it is
refused for an expression, then for the first of them that cannot be read. -/
structure Compiles {α : Type} (texts : List String) (x : Except ParseFault α) : Prop where
  passed : ∀ a, x = .ok a → firstFault? texts = none
  stopped : ∀ err, x = .error (.badExpression err) → firstFault? texts = some err

namespace Compiles

variable {α β : Type} {texts more : List String} {x : Except ParseFault α}

theorem result (a : α) : Compiles [] (.ok a) where
  passed _ _ := rfl
  stopped _ herr := by cases herr

/-- A fault that is not about an expression may stand before any. -/
theorem fault {f : ParseFault} (h : f.expression? = none) : Compiles (α := α) texts (.error f) where
  passed _ hok := by cases hok
  stopped err herr := by
    cases herr
    cases h

theorem bind {k : α → Except ParseFault β} (h : Compiles texts x) (hk : ∀ a, Compiles more (k a)) :
    Compiles (texts ++ more) (x >>= k) := by
  cases x with
  | ok a =>
    have hfirst : firstFault? (texts ++ more) = firstFault? more := by
      rw [firstFault?, List.findSome?_append, ← firstFault?, h.passed a rfl, Option.none_or]
      rfl
    refine ⟨fun b hb => ?_, fun err herr => ?_⟩
    · rw [hfirst, (hk a).passed b hb]
    · rw [hfirst, (hk a).stopped err herr]
  | error f =>
    refine ⟨fun _ hok => (by cases hok), fun err herr => ?_⟩
    cases herr
    rw [firstFault?, List.findSome?_append, ← firstFault?, h.stopped err rfl, Option.some_or]

theorem map (h : Compiles texts x) (f : α → β) : Compiles texts (x.map f) := by
  cases x with
  | ok a => exact ⟨fun _ _ => h.passed a rfl, fun _ herr => by cases herr⟩
  | error e =>
    refine ⟨fun _ hok => (by cases hok), fun err herr => h.stopped err ?_⟩
    cases herr
    rfl

/-- What is read at the end holds no expression. -/
theorem keep {k : α → Except ParseFault β} (h : Compiles texts x) (hk : ∀ a, Compiles [] (k a)) :
    Compiles texts (x >>= k) := by
  have hbind := h.bind hk
  rwa [List.append_nil] at hbind

theorem compileIn (cs : List Char) : Compiles [String.ofList cs] (Trellis.compileIn cs) := by
  have hone : firstFault? [String.ofList cs] = Expression.fault? (String.ofList cs) :=
    List.findSome?_singleton
  rw [Trellis.compileIn]
  cases hcompile : Expression.compile (String.ofList cs) with
  | ok e =>
    exact ⟨fun _ _ => hone.trans (Expression.fault?_eq_none_iff.mpr ⟨e, hcompile⟩),
      fun _ herr => by cases herr⟩
  | error err =>
    refine ⟨fun _ hok => (by cases hok), fun err' herr => ?_⟩
    cases herr
    exact hone.trans (Expression.fault?_eq_some_iff.mpr hcompile)

theorem compileText (s : String) : Compiles [s] (Trellis.compileText s) := by
  have h := compileIn s.toList
  rwa [String.ofList_toList] at h

theorem endOfLine (ts : List Token) : Compiles (writtenExpressions ts) (Trellis.endOfLine ts) := by
  cases ts with
  | nil => exact .result ()
  | cons t rest => exact .fault rfl

theorem interpolateFrom (text cs : List Char) :
    Compiles (interpolationsFrom cs) (Trellis.interpolateFrom text cs) := by
  fun_induction Trellis.interpolateFrom text cs with
  | case1 text =>
    rw [interpolationsFrom]
    exact .result _
  | case2 text c rest hescaped ih =>
    rw [interpolationsFrom, if_pos hescaped]
    exact ih
  | case3 => exact .fault rfl
  | case4 text c rest hescaped hsign inner after hsplit _ e he =>
    rw [interpolationsFrom_of_sign hescaped hsign hsplit]
    -- Nothing behind the expression has been read.
    have hbehind : Compiles (interpolationsFrom after)
        (.error .openInterpolation : Except ParseFault (List Span)) := .fault rfl
    have hrefused := (compileIn (trim inner)).bind fun _ => hbehind
    rw [he] at hrefused
    exact hrefused
  | case5 text c rest hescaped hsign inner after hsplit _ e he e' he' ih =>
    rw [interpolationsFrom_of_sign hescaped hsign hsplit]
    have hrefused := (compileIn (trim inner)).bind fun _ => ih
    rw [he, he'] at hrefused
    exact hrefused
  | case6 text c rest hescaped hsign inner after hsplit _ e he spans hspans ih =>
    rw [interpolationsFrom_of_sign hescaped hsign hsplit]
    have hread := (compileIn (trim inner)).bind fun e => ih.map fun spans =>
      literalSpan text ++ (if c == '!' then Span.raw e else Span.escaped e) :: spans
    rw [he, hspans] at hread
    exact hread
  | case7 text c rest hescaped hsign ih =>
    rw [interpolationsFrom, if_neg hescaped, if_neg hsign]
    exact ih

theorem interpolate (s : String) : Compiles (interpolations s) (Trellis.interpolate s) :=
  (interpolateFrom [] s.toList).map _

theorem readEach {f : α → Except ParseFault β} {g : α → List String}
    (h : ∀ a, Compiles (g a) (f a)) (as : List α) :
    Compiles (as.flatMap g) (Trellis.readEach f as) := by
  induction as with
  | nil => exact .result []
  | cons a rest ih =>
    rw [List.flatMap_cons]
    exact (h a).bind fun _ => ih.keep fun _ => .result _

theorem interpolateQuoted (text : List Char) :
    Compiles (interpolationsFrom text) (Trellis.attributeOf.interpolateQuoted text) := by
  unfold attributeOf.interpolateQuoted
  split
  · have h := interpolate (String.ofList text)
    rwa [interpolations, String.toList_ofList] at h
  · next hnone =>
    obtain ⟨hescaped, hraw⟩ : find? ['#', '{'] text = none ∧ find? ['!', '{'] text = none := by
      simpa using hnone
    rw [interpolationsFrom_of_find? hescaped hraw]
    exact .result _

theorem attributeOf (raw : RawAttribute) : Compiles raw.expressions (Trellis.attributeOf raw) := by
  rw [Trellis.attributeOf, RawAttribute.expressions]
  cases raw.value with
  | none => exact .result _
  | some source =>
    dsimp only
    cases quotedText? source.toList with
    | some text => exact (interpolateQuoted text).map _
    | none => exact (compileText source).map _

theorem assignment (code : String) :
    Compiles (assignedExpressions code) (Trellis.assignment code) := by
  rw [Trellis.assignment, assignedExpressions]
  dsimp only
  generalize trim _ = cs
  cases assignmentSign? none cs with
  | none => exact .fault rfl
  | some n =>
    dsimp only
    split
    · exact (compileIn _).map _
    · exact .fault rfl

theorem parametersOf (parts : List (List Char)) :
    Compiles (parts.flatMap parameterExpressions) (Trellis.parametersOf parts) := by
  induction parts with
  | nil => exact .result _
  | cons part parts ih =>
    rw [List.flatMap_cons]
    unfold Trellis.parametersOf
    split
    · next rest hrest =>
      split
      · next hlast =>
        rw [List.isEmpty_iff.mp hlast, parameterExpressions, hrest]
        exact .result _
      · exact .fault rfl
    · next hrest =>
      refine bind ?_ fun first => ih.keep fun _ => .result _
      rw [parameterExpressions, hrest]
      rw [parametersOf.parameterOf]
      cases splitAtFirst? (· == '=') part with
      | none => exact .result _
      | some parts => exact (compileIn _).map _

end Compiles

/-! ### Whole lines -/

namespace Compiles

variable {texts : List String}

/-- The line ends behind a statement. -/
theorem closed {x : Except ParseFault Head} (h : Compiles texts x) (rest : List Token) :
    Compiles (texts ++ writtenExpressions rest) (Head.read.closed x rest) :=
  h.bind fun _ => (endOfLine rest).keep fun _ => .result _

theorem leaf {x : Except ParseFault Node} (h : Compiles texts x) (rest : List Token) :
    Compiles (texts ++ writtenExpressions rest) (Head.read.leafHead x rest) :=
  (h.map Head.leaf).closed rest

/-- A statement behind which the line ends. -/
theorem last (head : Head) (rest : List Token) :
    Compiles (writtenExpressions rest) (do
      Trellis.endOfLine rest
      return head) :=
  (endOfLine rest).keep fun _ => .result head

/-- A comment or a filter. The line must end behind it, too. -/
theorem fixed (n : Node) (rest : List Token) : Compiles [] (Head.read.leafHead (.ok n) rest) := by
  cases rest with
  | nil => exact .result (Head.leaf n)
  | cons t rest => exact .fault rfl

theorem arguments (s : String) :
    Compiles ((splitTopLevel s.toList).map String.ofList)
      (Trellis.readEach Trellis.compileIn (splitTopLevel s.toList)) := by
  rw [List.map_eq_flatMap]
  exact readEach compileIn _

end Compiles

mutual

/-- **A line is refused for the first of its expressions that cannot be read**, if it is refused
for an expression. -/
theorem Head.compiles_read (ts : List Token) : Compiles (writtenExpressions ts) (Head.read ts) := by
  rw [Head.read.eq_def]
  split
  case h_3 name rest => exact Head.compiles_readTag name [] rest
  case h_14 name arguments rest =>
    exact .bind (.arguments arguments) fun _ => (Head.compiles_read rest).map _
  case h_16 mode name rest =>
    split
    · exact .leaf (.result _) rest
    · exact .closed (.result _) rest
  case h_19 target rest => exact .closed (.result _) rest
  -- Statements without children that hold an expression or a text.
  case h_4 s rest => exact .leaf ((Compiles.interpolate s).map _) rest
  case h_5 escaped source rest => exact .leaf ((Compiles.compileText source).map _) rest
  case h_6 code rest => exact .leaf (.assignment code) rest
  -- Statements with children that hold an expression.
  case h_9 test rest => exact .closed ((Compiles.compileText test).map _) rest
  case h_10 test rest => exact .closed ((Compiles.compileText test).map _) rest
  case h_11 collection rest => exact .closed ((Compiles.compileText collection).map _) rest
  case h_12 subject rest => exact .closed ((Compiles.compileText subject).map _) rest
  case h_13 name parameters rest => exact .closed ((Compiles.parametersOf _).map _) rest
  case h_15 name arguments rest _ => exact .closed ((Compiles.arguments arguments).map _) rest
  -- Statements that hold nothing to be read.
  case h_2 => exact .leaf (.result _) _
  case h_7 | h_8 | h_17 | h_18 => exact .fixed _ _
  -- Lines that are no statements.
  all_goals exact .fault rfl
termination_by ts.length

/-- The same of a line from behind the name of a tag on. -/
theorem Head.compiles_readTag (name : String) (attributes : List Attribute) (ts : List Token) :
    Compiles (writtenExpressions ts) (Head.readTag name attributes ts) := by
  rw [Head.readTag.eq_def]
  split
  case h_1 id rest => exact Head.compiles_readTag name _ rest
  case h_2 c rest => exact Head.compiles_readTag name _ rest
  case h_3 list rest =>
    exact .bind (.readEach .attributeOf list) fun more => Head.compiles_readTag name _ rest
  case h_4 rest => exact .last _ rest
  case h_5 rest => exact (Head.compiles_read rest).map _
  case h_6 s rest => exact .bind (.interpolate s) fun spans => .last _ rest
  case h_7 lines rest => exact .bind (.interpolate _) fun spans => .last _ rest
  case h_8 escaped source rest => exact .bind (.compileText source) fun e => .last _ rest
  case h_9 rest => exact .last _ _
termination_by ts.length

end

end Trellis
