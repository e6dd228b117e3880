import Trellis.Document.Resolution
import Trellis.Proofs.AttributeValue
import Trellis.Proofs.Lists
import Trellis.Proofs.Phases

/-!
# `Trellis.Proofs.Embedding`: expressions inside texts and lists

An expression stands in a template between other characters: in a pair of braces, in the list of a
call, or behind the name of a parameter. Four readers look for its end. None of them knows the
grammar of expressions, and all of them find it, whatever quotes, brackets, braces and commas the
expression has.

* `Embedded.splitAtBrace?`: the brace that closes an interpolation is the one behind its expression.
  The reader counts braces only, so it is followed with the braces among the awaited brackets.
* `readBalanced_listed` and `splitTopLevel_listed`: a list of expressions ends at its parenthesis and
  is taken apart at the commas between them.
* `parametersOf_withDefault`: a parameter is its name and the expression behind the equals sign.

`embedded_recovered` puts them together, through the statement of the line and the template around
it.
-/

set_option autoImplicit false

namespace Trellis

open Source Text

/-- A text on one line that is read as an expression. -/
structure Embedded where
  text : String
  tree : Expr
  reads : Expr.read text.toList = .ok tree
  oneLine : '\n' ∉ text.toList

/-- The expression without the blanks around it. -/
def Embedded.expression (e : Embedded) : Expression :=
  ⟨trimmed e.text, e.tree, by rw [trimmed, String.toList_ofList]; exact Expr.read_trim e.reads⟩

theorem Embedded.compileIn (e : Embedded) : compileIn (trim e.text.toList) = .ok e.expression := by
  have hcompile : Expression.compile (String.ofList (trim e.text.toList)) = .ok e.expression :=
    e.expression.compile_source
  rw [Trellis.compileIn, hcompile]
  rfl

/-! ### Interpolation -/

/-- The count of the reader that knows only braces. -/
def Source.Watch.braces (w : Watch) : Nesting := ⟨w.awaited.count '}', w.quote, w.hidden⟩

theorem splitAtBrace?_of_step {w w' : Watch} {c : Char} (h : w.Step c w') (cs : List Char) :
    splitAtBrace? w.braces (c :: cs) =
      (splitAtBrace? w'.braces cs).map fun p => (c :: p.1, p.2) := by
  rw [splitAtBrace?]
  cases h with
  | @quoted _ q c hq =>
    have hinside : w.braces.insideQuote q c = (w.insideQuote q c).braces := by
      grind [Nesting.insideQuote, Watch.insideQuote, Watch.braces]
    rw [show w.braces.quote = some q from hq]
    dsimp only
    rw [hinside]
  | quote hc => simp [Watch.braces, Watch.awaiting, hc]
  | opening hc =>
    rw [closer?.eq_def] at hc
    split at hc <;> cases hc <;> simp [Watch.braces, Watch.awaiting, isQuote]
  | closing hc =>
    simp only [closesBracket, Bool.or_eq_true, beq_iff_eq] at hc
    rcases hc with (rfl | rfl) | rfl <;> simp [Watch.braces, Watch.awaiting, isQuote]
  | comma => rfl
  | plain hc =>
    simp only [isPlain, Bool.and_eq_true, Bool.not_eq_true', opensBracket, closesBracket,
      Bool.or_eq_false_iff, beq_eq_false_iff_ne] at hc
    simp [Watch.braces, Watch.awaiting, hc]

theorem splitAtBrace?_of_run {w w' : Watch} {cs : List Char} (h : w.Run cs w') (rest : List Char) :
    splitAtBrace? w.braces (cs ++ rest) =
      (splitAtBrace? w'.braces rest).map fun p => (cs ++ p.1, p.2) := by
  induction h with
  | nil => simp
  | cons first _ ih =>
    rw [List.cons_append, splitAtBrace?_of_step first, ih, Option.map_map]
    rfl

/-- The brace behind an expression is the one that ends it. -/
theorem Embedded.splitAtBrace? (e : Embedded) (rest : List Char) :
    splitAtBrace? .outside (e.text.toList ++ '}' :: rest) = some (e.text.toList, rest) := by
  have h := splitAtBrace?_of_run (run_of_read e.reads []) ('}' :: rest)
  have hend : Trellis.splitAtBrace? .outside ('}' :: rest) = some ([], rest) := rfl
  rw [show (Watch.awaiting []).braces = .outside from rfl, hend] at h
  rw [h, Option.map_some, List.append_nil]

/-- There are spans unless there is nothing to read. -/
theorem eq_nil_of_interpolateFrom {text cs : List Char} (h : interpolateFrom text cs = .ok []) :
    text = [] ∧ cs = [] := by
  fun_induction interpolateFrom text cs with
  | case1 text =>
    cases text with
    | nil => exact ⟨rfl, rfl⟩
    | cons c text => cases h
  | case2 text c rest hmark ih =>
    -- A backslash is read together with the two characters behind it.
    have hempty := (ih h).1
    cases rest with
    | nil => simp [startsWith, after?] at hmark
    | cons d rest => simp at hempty
  | case3 => cases h
  | case4 => cases h
  | case5 => cases h
  | case6 => exact absurd (List.append_eq_nil_iff.1 (Except.ok.inj h)).2 (List.cons_ne_nil _ _)
  | case7 _ _ _ _ _ ih => cases (ih h).1

/-- An interpolation at the front of a text. -/
theorem interpolateFrom_embedded (e : Embedded) {mark : Char} (hmark : mark = '#' ∨ mark = '!')
    (rest : List Char) :
    interpolateFrom [] (mark :: '{' :: (e.text.toList ++ '}' :: rest)) =
      (interpolateFrom [] rest).map fun spans =>
        (if mark == '!' then .raw e.expression else .escaped e.expression) :: spans := by
  have hplain : (startsWith ['\\', '#', '{'] (mark :: '{' :: (e.text.toList ++ '}' :: rest)) ||
      startsWith ['\\', '!', '{'] (mark :: '{' :: (e.text.toList ++ '}' :: rest))) = false := by
    rcases hmark with rfl | rfl <;> rfl
  have hopens : ((mark == '#' || mark == '!') &&
      headIs (· == '{') ('{' :: (e.text.toList ++ '}' :: rest))) = true := by
    rcases hmark with rfl | rfl <;> rfl
  rw [interpolateFrom, if_neg (by simp [hplain]), if_pos hopens]
  split
  · next hsplit =>
    rw [List.drop_one, List.tail_cons, e.splitAtBrace?] at hsplit
    cases hsplit
  · next hsplit =>
    rw [List.drop_one, List.tail_cons, e.splitAtBrace?] at hsplit
    cases hsplit
    rw [e.compileIn]
    dsimp only
    cases interpolateFrom [] rest <;> rfl

theorem interpolate_embedded (e : Embedded) {mark : Char} (hmark : mark = '#' ∨ mark = '!')
    {s : String} {spans : List Span} (h : interpolate s = .ok spans) :
    interpolate (String.singleton mark ++ "\x7b" ++ e.text ++ "\x7d" ++ s) =
      .ok ((if mark == '!' then .raw e.expression else .escaped e.expression) ::
        if s = "" then [] else spans) := by
  have htext : (String.singleton mark ++ "\x7b" ++ e.text ++ "\x7d" ++ s).toList =
      mark :: '{' :: (e.text.toList ++ '}' :: s.toList) := by simp
  rw [interpolate] at h ⊢
  rw [htext, interpolateFrom_embedded e hmark]
  cases hrest : interpolateFrom [] s.toList with
  | error => rw [hrest] at h; cases h
  | ok later =>
    rw [hrest] at h
    cases h
    by_cases hs : s = ""
    · subst hs
      rw [String.toList_empty, interpolateFrom] at hrest
      cases hrest
      rfl
    · rw [if_neg hs]
      cases later with
      | nil => exact absurd (eq_nil_of_interpolateFrom hrest).2 (by simpa using hs)
      | cons => rfl

/-! ### Lists of expressions -/

/-- The expressions as they stand in a list. -/
def listed (es : List Embedded) : List Char := joinWith [',', ' '] (es.map fun e => e.text.toList)

theorem listed_cons_cons (e e' : Embedded) (es : List Embedded) :
    listed (e :: e' :: es) = e.text.toList ++ ',' :: ' ' :: listed (e' :: es) := by
  simp [listed, joinWith]

/-- A list of expressions is read up to the parenthesis behind it. -/
theorem readBalanced_listed (es : List Embedded) (inner rest : List Char) :
    readBalanced ⟨1, none, false⟩ inner (listed es ++ ')' :: rest) =
      .ok (trim (inner.reverse ++ listed es), rest) := by
  have hend (inner : List Char) :
      readBalanced ⟨1, none, false⟩ inner (')' :: rest) = .ok (trim inner.reverse, rest) := rfl
  match es with
  | [] => simp [listed, joinWith, hend]
  | [e] =>
    show readBalanced _ _ (e.text.toList ++ _) = _
    rw [readBalanced_of_run (run_of_read e.reads []) e.oneLine, hend]
    simp [listed, joinWith]
  | e :: e' :: es =>
    have hcomma (inner rest : List Char) : readBalanced ⟨1, none, false⟩ inner (',' :: ' ' :: rest) =
      readBalanced ⟨1, none, false⟩ (' ' :: ',' :: inner) rest := rfl
    rw [listed_cons_cons, List.append_assoc,
      readBalanced_of_run (run_of_read e.reads []) e.oneLine, List.cons_append, List.cons_append,
      hcomma, readBalanced_listed (e' :: es)]
    simp

/-- The commas between the expressions are those at which their list is taken apart. -/
theorem splitTopLevelFrom_listed (e : Embedded) (es : List Embedded) (part : List Char) :
    splitTopLevelFrom .outside part (listed (e :: es)) =
      (part.reverse ++ e.text.toList) :: es.map fun e => ' ' :: e.text.toList := by
  induction es generalizing e part with
  | nil =>
    have h := splitTopLevelFrom_of_run (run_of_read e.reads []) part []
    rw [List.append_nil, splitTopLevelFrom] at h
    simpa [listed, joinWith] using h
  | cons e' es ih =>
    have hcomma (part rest : List Char) : splitTopLevelFrom .outside part (',' :: ' ' :: rest) =
      part.reverse :: splitTopLevelFrom .outside [' '] rest := rfl
    rw [listed_cons_cons, splitTopLevelFrom_of_run (run_of_read e.reads []), hcomma, ih]
    simp

theorem Embedded.trim_ne_nil (e : Embedded) : trim e.text.toList ≠ [] := by
  intro h
  have hread := Expr.read_trim e.reads
  rw [h] at hread
  cases hread

/-- **A list is taken apart into its expressions.** -/
theorem splitTopLevel_listed (es : List Embedded) :
    splitTopLevel (listed es) = es.map fun e => trim e.text.toList := by
  cases es with
  | nil => rfl
  | cons e es =>
    have hspace (cs : List Char) : trim (' ' :: cs) = trim cs := rfl
    have hparts : (splitTopLevelFrom .outside [] (listed (e :: es))).map trim =
        (e :: es).map fun e => trim e.text.toList := by
      rw [splitTopLevelFrom_listed]
      simp [hspace, Function.comp_def]
    rw [splitTopLevel_eq, hparts, if_neg]
    intro h
    exact e.trim_ne_nil (List.cons.inj h).1

/-! ### Calls -/

theorem readEach_embedded (es : List Embedded) :
    readEach compileIn (es.map fun e => trim e.text.toList) = .ok (es.map Embedded.expression) := by
  induction es with
  | nil => rfl
  | cons e es ih =>
    rw [List.map_cons, readEach, e.compileIn, ih]
    rfl

theorem balanced_listed (es : List Embedded) :
    balanced (listed es ++ [')']) = .ok (trim (listed es), []) :=
  readBalanced_listed es [] []

theorem isBlank_of_isNameChar {c : Char} (h : isNameChar c = true) : isBlank c = false := by
  simp only [isNameChar, Bool.or_eq_true, beq_iff_eq] at h
  rcases h with (h | rfl) | rfl
  · exact Expr.isBlank_of_isWordPart (by simp [Expr.isWordPart, h])
  · rfl
  · rfl

/-- The name of what has a list behind it. -/
theorem nameOf_append_list {name : List Char} (hname : ∀ c ∈ name, isNameChar c = true)
    (list : List Char) : nameOf (name ++ '(' :: list) = name := by
  rw [nameOf, List.takeWhile_append_of_pos hname]
  exact List.append_nil name

theorem callHead_listed {name : List Char} (hne : name ≠ [])
    (hname : ∀ c ∈ name, isNameChar c = true) (es : List Embedded) :
    callHead (name ++ '(' :: (listed es ++ [')'])) =
      .ok (.call (String.ofList name) (String.ofList (trim (listed es))), []) := by
  rw [callHead]
  simp only [nameOf_append_list hname, List.isEmpty_eq_false_iff.mpr hne, Bool.false_eq_true,
    if_false, List.drop_left, balanced_listed]

theorem newline_notMem_listed (es : List Embedded) : '\n' ∉ listed es := by
  induction es with
  | nil => simp [listed, joinWith]
  | cons e es ih =>
    cases es with
    | nil => exact e.oneLine
    | cons e' es =>
      rw [listed_cons_cons]
      simp [e.oneLine, ih]

theorem readStatement_call {name : List Char} (hne : name ≠ [])
    (hname : ∀ c ∈ name, isNameChar c = true) (es : List Embedded) :
    readStatement ('+' :: (name ++ '(' :: (listed es ++ [')']))) =
      .ok ⟨[.call (String.ofList name) (String.ofList (trim (listed es)))], .statements, []⟩ := by
  rw [readStatement_of_call rfl (callHead_listed hne hname es)]
  rfl

/-- Nothing belongs to a line that stands alone. -/
def loneParts : Parts where
  noChildren := pure ()
  children := pure []
  alternatives := pure ([], none)
  branches := pure ([], none)
  fallback := pure none
  noElse := pure ()

/-- A template that is one line. -/
theorem readDocument_lone {position finish : Position} {tokens : List Token} {head : Head}
    (h : Head.read tokens = .ok head) (s : Surroundings) :
    readDocument s ⟨[⟨position, 0, tokens⟩], finish⟩ = collecting do
      let ns ← head.nodes s position.line loneParts
      return Node.join ns [] := by
  cases tokens with
  | nil => cases h
  | cons t rest =>
    have hentry : readEntry s (.mk position.line finish.line (t :: rest) [] none) =
        head.nodes s position.line loneParts := by
      rw [readEntry]
      · rw [h]
        rfl
      · intro hnil
        cases hnil
    have hread : readDocument s ⟨[⟨position, 0, t :: rest⟩], finish⟩ =
        collecting (readEntries s [.mk position.line finish.line (t :: rest) [] none]) := by
      cases t with
      | extending target => cases h
      | _ => rfl
    rw [hread, readEntries, hentry, readEntries]
    rfl

theorem readDocument_call {position finish : Position} {name arguments : String} {xs : List Expression}
    (h : Head.read [.call name arguments] = .ok (.call name xs)) (s : Surroundings)
    (asked : List String) :
    readDocument s ⟨[⟨position, 0, [.call name arguments]⟩], finish⟩ asked =
      .ok ⟨[.call name xs none], []⟩ asked := by
  rw [readDocument_lone h]
  rfl

/-- A mixin without a body. -/
theorem readDocument_mixin {position finish : Position} {name source : String}
    {parameters : List Parameter}
    (h : Head.read [.mixin name source] = .ok (.mixin name parameters none)) (s : Surroundings)
    (asked : List String) :
    readDocument s ⟨[⟨position, 0, [.mixin name source]⟩], finish⟩ asked =
      .ok ⟨[.mixin ⟨name, parameters, none, []⟩], [(name, ⟨name, parameters, none, []⟩)]⟩ asked := by
  rw [readDocument_lone h]
  rfl

/-! ### Parameters -/

/-- A character that may stand in the name of a parameter. -/
def isParameterChar (c : Char) : Bool := isPlain c && !isBlank c && c != '=' && c != '.'

/-- A parameter and the expression that stands for it by default. -/
def withDefault (p : List Char) (e : Embedded) : List Char := p ++ '=' :: e.text.toList

section
variable {p : List Char} (hp : ∀ c ∈ p, isParameterChar c = true)
include hp

theorem parameterChar_facts {c : Char} (hc : c ∈ p) :
    isPlain c = true ∧ isBlank c = false ∧ (c == '=') = false ∧ c ≠ '.' := by
  have h := hp c hc
  simp only [isParameterChar, Bool.and_eq_true, Bool.not_eq_true', bne_iff_ne, ne_eq] at h
  obtain ⟨⟨⟨hplain, hblank⟩, hsign⟩, hdot⟩ := h
  exact ⟨hplain, hblank, beq_eq_false_iff_ne.mpr hsign, hdot⟩

theorem run_withDefault (e : Embedded) :
    (Watch.awaiting []).Run (withDefault p e) (.awaiting []) :=
  (run_of_isPlain (fun _ hc => (parameterChar_facts hp hc).1) []).append
    (.cons (.plain rfl) (run_of_read e.reads []))

theorem newline_notMem_withDefault (e : Embedded) : '\n' ∉ withDefault p e := by
  have hname : '\n' ∉ p := fun hmem => absurd (hp _ hmem) (by decide)
  simp [withDefault, hname, e.oneLine]

theorem trim_withDefault (e : Embedded) :
    trim (withDefault p e) = p ++ '=' :: trimEnd e.text.toList := by
  have hstart : trimStart (withDefault p e) = withDefault p e := by
    cases p with
    | nil => rfl
    | cons c p =>
      obtain ⟨-, hblank, -⟩ := parameterChar_facts hp List.mem_cons_self
      exact List.dropWhile_cons_of_neg (by simp [hblank])
  rw [trim, hstart, withDefault, trimEnd_append_cons rfl]

theorem splitTopLevel_withDefault (e : Embedded) :
    splitTopLevel (withDefault p e) = [trim (withDefault p e)] := by
  have h := splitTopLevelFrom_of_run (run_withDefault hp e) [] []
  rw [List.append_nil, List.append_nil, splitTopLevelFrom, List.reverse_reverse] at h
  rw [splitTopLevel_eq, h, List.map_singleton, if_neg]
  rw [trim_withDefault hp]
  simp

/-- **A parameter has its expression as its default.** -/
theorem parametersOf_withDefault (e : Embedded) :
    parametersOf (splitTopLevel (withDefault p e)) =
      .ok ([⟨String.ofList p, some e.expression⟩], none) := by
  have hdots : after? ['.', '.', '.'] (p ++ '=' :: trimEnd e.text.toList) = none := by
    cases p with
    | nil => rfl
    | cons c p =>
      obtain ⟨-, -, -, hdot⟩ := parameterChar_facts hp List.mem_cons_self
      rw [List.cons_append, after?, if_neg (Ne.symm hdot)]
  have hsign : splitAtFirst? (· == '=') (p ++ '=' :: trimEnd e.text.toList) =
      some (p, trimEnd e.text.toList) :=
    splitAtFirst?_append_cons (fun _ hc => (parameterChar_facts hp hc).2.2.1) rfl _
  have hname : trim p = p := trim_of_ink fun _ hc => (parameterChar_facts hp hc).2.1
  rw [splitTopLevel_withDefault hp, trim_withDefault hp, parametersOf, hdots]
  dsimp only
  rw [parametersOf.parameterOf, hsign]
  dsimp only
  rw [shifts_trimEnd.trim, e.compileIn, hname]
  rfl

/-- The argument of the keyword is the name with its list. -/
theorem mixinToken_withDefault {name : List Char} (hne : name ≠ [])
    (hname : ∀ c ∈ name, isNameChar c = true) (e : Embedded) :
    mixinToken (name ++ '(' :: (withDefault p e ++ [')'])) [] =
      .ok (.mixin (String.ofList name) (String.ofList (trim (withDefault p e))), []) := by
  have hbalanced : balanced (withDefault p e ++ [')']) = .ok (trim (withDefault p e), []) := by
    rw [balanced, readBalanced_of_run (run_withDefault hp e) (newline_notMem_withDefault hp e)]
    show Except.ok (trim ((withDefault p e).reverse ++ []).reverse, []) = _
    simp
  rw [mixinToken]
  simp only [nameOf_append_list hname, List.isEmpty_eq_false_iff.mpr hne, Bool.false_eq_true,
    if_false, List.drop_left, List.append_nil, hbalanced]
  rfl

theorem readStatement_mixin {name : List Char} (hne : name ≠ [])
    (hname : ∀ c ∈ name, isNameChar c = true) (e : Embedded) :
    readStatement ("mixin ".toList ++ (name ++ '(' :: (withDefault p e ++ [')']))) =
      .ok ⟨[.mixin (String.ofList name) (String.ofList (trim (withDefault p e)))],
        .statements, []⟩ := by
  have hline : '\n' ∉ "mixin ".toList ++ (name ++ '(' :: (withDefault p e ++ [')'])) := by
    have hname : '\n' ∉ name := fun hmem => absurd (hname _ hmem) (by decide)
    simp [hname, newline_notMem_withDefault hp e]
  have hargument : trim (' ' :: (name ++ '(' :: (withDefault p e ++ [')']))) =
      name ++ '(' :: (withDefault p e ++ [')']) := by
    have hstart : trimStart (name ++ '(' :: (withDefault p e ++ [')'])) =
        name ++ '(' :: (withDefault p e ++ [')']) := by
      cases name with
      | nil => contradiction
      | cons c name =>
        have hc := isBlank_of_isNameChar (hname c List.mem_cons_self)
        exact List.dropWhile_cons_of_neg (by simp [hc])
    show trimEnd (trimStart (name ++ _)) = _
    rw [hstart, ← List.cons_append, ← List.append_assoc, trimEnd_append_singleton rfl]
  have hkeyword : nameOf ("mixin ".toList ++ (name ++ '(' :: (withDefault p e ++ [')']))) =
      "mixin".toList := by
    simp [nameOf, isNameChar, isAlphanumeric]
  have hbehind : ("mixin ".toList ++ (name ++ '(' :: (withDefault p e ++ [')']))).drop
      "mixin".toList.length = ' ' :: (name ++ '(' :: (withDefault p e ++ [')'])) := by
    simp
  have hcurrent := currentLine_of_notMem hline
  have hbelow : belowLine ("mixin ".toList ++ (name ++ '(' :: (withDefault p e ++ [')']))) = [] := by
    have h := belowLine_append_of_ends hline (rfl : currentLine [] = [])
    rwa [List.append_nil] at h
  have htoken := mixinToken_withDefault hp hne hname e
  refine readStatement_of_whole ?_
  have hword : openingWord ("mixin ".toList ++ (name ++ '(' :: (withDefault p e ++ [')']))) =
      .ok (.whole ⟨[.mixin (String.ofList name) (String.ofList (trim (withDefault p e)))],
        .statements, []⟩) := by
    rw [openingWord]
    simp only [hcurrent, hbelow, hkeyword, hbehind, hargument]
    simp [keywordToken?, htoken, headIs, isBlank, Except.map]
  rw [← hword, show "mixin ".toList = ['m', 'i', 'x', 'i', 'n', ' '] by decide]
  rfl

end

/-! ### Templates -/

theorem listed_eq (es : List Embedded) :
    listed es = (", ".intercalate (es.map Embedded.text)).toList := by
  rw [String.toList_intercalate, List.map_map]
  induction es with
  | nil => rfl
  | cons e es ih =>
    cases es with
    | nil => simp [listed, joinWith]
    | cons e' es =>
      rw [listed_cons_cons, ih]
      simp [List.intercalate]

section
variable {m : String} (hne : m ≠ "") (hm : ∀ c ∈ m.toList, isNameChar c = true)
include hne hm

/-- A call with a list of expressions, as the whole template. -/
theorem scan_call (es : List Embedded) :
    Layout.scan ("+" ++ m ++ "(" ++ ", ".intercalate (es.map Embedded.text) ++ ")") =
      .ok ⟨[⟨⟨1, 1⟩, 0, [.call m (trimmed (", ".intercalate (es.map Embedded.text)))]⟩], ⟨1, 1⟩⟩ := by
  have hne : m.toList ≠ [] := by simpa using hne
  have hname : '\n' ∉ m.toList := fun hmem => absurd (hm _ hmem) (by decide)
  have hsource : "+" ++ m ++ "(" ++ ", ".intercalate (es.map Embedded.text) ++ ")" =
      String.ofList (('+' :: (m.toList ++ '(' :: listed es)) ++ [')']) := by
    apply String.toList_inj.mp
    simp [listed_eq]
  have hline : '\n' ∉ '+' :: (m.toList ++ '(' :: listed es) := by
    simp [hname, newline_notMem_listed]
  have hread := readStatement_call hne hm es
  rw [hsource, scan_of_line hline rfl (by simpa using hread), trimmed, ← listed_eq]

/-- A mixin with one parameter, as the whole template. -/
theorem scan_mixin {p : String} (hp : ∀ c ∈ p.toList, isParameterChar c = true) (e : Embedded) :
    Layout.scan ("mixin " ++ m ++ "(" ++ (p ++ "=" ++ e.text) ++ ")") =
      .ok ⟨[⟨⟨1, 1⟩, 0, [.mixin m (trimmed (p ++ "=" ++ e.text))]⟩], ⟨1, 1⟩⟩ := by
  have hne : m.toList ≠ [] := by simpa using hne
  have hname : '\n' ∉ m.toList := fun hmem => absurd (hm _ hmem) (by decide)
  have hparameter : withDefault p.toList e = (p ++ "=" ++ e.text).toList := by
    simp [withDefault]
  have hsource : "mixin " ++ m ++ "(" ++ (p ++ "=" ++ e.text) ++ ")" =
      String.ofList (("mixin ".toList ++ (m.toList ++ '(' :: withDefault p.toList e)) ++ [')']) := by
    apply String.toList_inj.mp
    simp [withDefault]
  have hline : '\n' ∉ "mixin ".toList ++ (m.toList ++ '(' :: withDefault p.toList e) := by
    simp [hname, newline_notMem_withDefault hp]
  have hindent : indentOf (("mixin ".toList ++ (m.toList ++ '(' :: withDefault p.toList e)) ++ [')']) =
      [] := by
    simp [indentOf, isIndent]
  have hread := readStatement_mixin hp hne hm e
  rw [hsource, scan_of_line hline hindent (by simpa using hread), trimmed, ← hparameter]

end

theorem read_call (m : String) (es : List Embedded) :
    Head.read [.call m (trimmed (", ".intercalate (es.map Embedded.text)))] =
      .ok (.call m (es.map Embedded.expression)) := by
  rw [trimmed, ← listed_eq, Head.read]
  · rw [String.toList_ofList, splitTopLevel_trim, splitTopLevel_listed, readEach_embedded]
    rfl
  · intro rest hcolon
    cases hcolon

theorem read_mixin (m : String) {p : String} (hp : ∀ c ∈ p.toList, isParameterChar c = true)
    (e : Embedded) :
    Head.read [.mixin m (trimmed (p ++ "=" ++ e.text))] =
      .ok (.mixin m [⟨p, some e.expression⟩] none) := by
  have hparameter : (p ++ "=" ++ e.text).toList = withDefault p.toList e := by
    simp [withDefault]
  rw [trimmed, hparameter, Head.read, String.toList_ofList, splitTopLevel_trim,
    parametersOf_withDefault hp, String.ofList_toList]
  rfl

/-- **What is embedded in a template is recovered**: an expression in an interpolation, each of the
expressions in the list of a call, and the expression that a parameter has as its default. -/
theorem embedded_recovered (e : Embedded) (es : List Embedded) (m p : String) (hne : m ≠ "")
    (hm : ∀ c ∈ m.toList, isNameChar c = true) (hp : ∀ c ∈ p.toList, isParameterChar c = true) :
    (∀ s spans, interpolate s = .ok spans →
      interpolate ("#\x7b" ++ e.text ++ "\x7d" ++ s) =
          .ok (.escaped e.expression :: if s = "" then [] else spans) ∧
        interpolate ("!\x7b" ++ e.text ++ "\x7d" ++ s) =
          .ok (.raw e.expression :: if s = "" then [] else spans)) ∧
    (let arguments := ", ".intercalate (es.map Embedded.text)
      ∃ layout, Layout.scan ("+" ++ m ++ "(" ++ arguments ++ ")") = .ok layout ∧
        layout.items =
          [(⟨1, 1⟩, .token (.call m (trimmed arguments))), (⟨1, 1⟩, .newline),
            (⟨1, 1⟩, .finish)] ∧
        ∀ s asked, readDocument s layout asked =
          .ok ⟨[.call m (es.map Embedded.expression) none], []⟩ asked) ∧
    (let parameter := p ++ "=" ++ e.text
      let mixin : Mixin := ⟨m, [⟨p, some e.expression⟩], none, []⟩
      ∃ layout, Layout.scan ("mixin " ++ m ++ "(" ++ parameter ++ ")") = .ok layout ∧
        layout.items =
          [(⟨1, 1⟩, .token (.mixin m (trimmed parameter))), (⟨1, 1⟩, .newline),
            (⟨1, 1⟩, .finish)] ∧
        ∀ s asked, readDocument s layout asked = .ok ⟨[.mixin mixin], [(m, mixin)]⟩ asked) :=
  ⟨fun _ _ h => ⟨interpolate_embedded e (.inl rfl) h, interpolate_embedded e (.inr rfl) h⟩,
    ⟨_, scan_call hne hm es, rfl, readDocument_call (read_call m es)⟩,
    ⟨_, scan_mixin hne hm hp e, rfl, readDocument_mixin (read_mixin m hp e)⟩⟩

/-- A list of quoted brackets with an index, and a blank behind it. -/
def bracketsQuoted : Embedded where
  text := "[\")\", \"\x7d\"][i] "
  tree := .item (.list [.literal (.str ")"), .literal (.str "\x7d")]) (.variable "i")
  reads := by cbv
  oneLine := by decide

/-- Neither the brackets in quotes nor the comma between them end what they stand in. -/
theorem embedded_recovered_brackets :
    "card" ≠ "" ∧ (∀ c ∈ "card".toList, isNameChar c = true) ∧
      (∀ c ∈ "title".toList, isParameterChar c = true) ∧ interpolate "." = .ok [.literal "."] ∧
      interpolate ("#\x7b" ++ bracketsQuoted.text ++ "\x7d" ++ ".") =
        .ok [.escaped bracketsQuoted.expression, .literal "."] ∧
      (∃ layout, Layout.scan ("+" ++ "card" ++ "(" ++
          ", ".intercalate [bracketsQuoted.text, bracketsQuoted.text] ++ ")") = .ok layout ∧
        ∀ s asked, readDocument s layout asked =
          .ok ⟨[.call "card" [bracketsQuoted.expression, bracketsQuoted.expression] none], []⟩
            asked) := by
  have hname : ∀ c ∈ "card".toList, isNameChar c = true := List.all_eq_true.mp rfl
  have hparameter : ∀ c ∈ "title".toList, isParameterChar c = true := List.all_eq_true.mp rfl
  have hrest : interpolate "." = .ok [.literal "."] := by cbv
  obtain ⟨hspans, ⟨layout, hscan, -, hread⟩, -⟩ := embedded_recovered bracketsQuoted
    [bracketsQuoted, bracketsQuoted] "card" "title" (by decide) hname hparameter
  exact ⟨by decide, hname, hparameter, hrest, (hspans "." _ hrest).1, layout, hscan, hread⟩

end Trellis
