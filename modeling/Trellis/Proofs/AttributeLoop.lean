import Trellis.Proofs.AttributeValue
import Trellis.Proofs.Loops

/-!
# `Trellis.Proofs.AttributeLoop`: a list of attributes, read one turn at a time

A list of attributes is read in a loop: what separates attributes is passed over, then a name is
read, and a value if an equals sign follows. Names and values are loops themselves. `attributeTurn`
does one turn of whichever of them is under way, and `Phase` tells which. Where one loop is over
without taking a character, the turn is the first one of the loop that comes next; so there is no
turn that does nothing.

`progress_attributeList` says that this is what `attributeList` does, and that every turn advances the
cursor, which stays within its text and its lines. A closing bracket is only passed over inside of an
open one (`depth_pos_of_attributeTurn`).
-/

set_option autoImplicit false

namespace Trellis.Source

open Trellis.Text

/-! ### The turns -/

/-- Which loop is under way in a list of attributes, and what it knows: where its text begins, the
quote to look for, the name that was read, and whether the value is to be escaped. -/
inductive Phase where
  | between
  | quotedName (quote : Char) (start : Nat)
  | plainName (start : Nat)
  | behindName (name : List Char)
  | beforeValue (name : List Char) (escaped : Bool)
  | value (name : List Char) (escaped : Bool) (start : Nat) (n : Nesting)

/-- What a loop over a value knows of quotes and brackets. -/
def Phase.nesting? : Phase → Option Nesting
  | .value _ _ _ n => some n
  | _ => none

/-- The loop that is under way, the attributes that were read, and the cursor. -/
structure AttributeState where
  phase : Phase
  attributes : List RawAttribute
  cursor : Cursor

/-- What a turn gives in the end: the attributes, and the cursor behind the list. -/
abbrev AttributeTurn := Turn AttributeState (Except ScanFault (List RawAttribute × Cursor))

/-- An attribute as it was read. -/
def rawAttribute (name : List Char) (value : Option (List Char)) (escaped : Bool) : RawAttribute :=
  ⟨String.ofList name, value.map String.ofList, escaped⟩

/-- Does a character end a name without quotes, in front of what is behind it? -/
def endsName (d : Char) (behind : List Char) : Bool :=
  isBlank d || d == '=' || d == ',' || d == '(' || d == ')' || (d == '!' && headIs (· == '=') behind)

section
variable (lines : List (List Char)) (attributes : List RawAttribute) (c : Cursor)

/-- Passes over what separates attributes, and begins a name. -/
def betweenTurn : AttributeTurn :=
  match c.char? with
  | none => takeLine lines c (fun c => ⟨.between, attributes, c⟩) .openAttributes
  | some d =>
    if isSeparator d then .again ⟨.between, attributes, c.move 1⟩
    else if d == ')' then .stop (.ok (attributes, c.move 1))
    else if isQuote d then .again ⟨.quotedName d (c.place + 1), attributes, c.move 1⟩
    else if endsName d (c.move 1).ahead then .stop (.error (.strayInAttributes d))
    else .again ⟨.plainName c.place, attributes, c.move 1⟩

/-- Looks for an equals sign behind a name. Without one, the attribute has no value. -/
def behindNameTurn (name : List Char) : AttributeTurn :=
  match c.char? with
  | none => betweenTurn lines (attributes ++ [rawAttribute name none true]) c
  | some d =>
    if isIndent d then .again ⟨.behindName name, attributes, c.move 1⟩
    else if d == '!' && headIs (· == '=') (c.move 1).ahead then
      .again ⟨.beforeValue name false, attributes, c.move 2⟩
    else if d == '=' then .again ⟨.beforeValue name true, attributes, c.move 1⟩
    else betweenTurn lines (attributes ++ [rawAttribute name none true]) c

/-- Looks for the quote behind a name in quotes, on the same line. -/
def quotedNameTurn (q : Char) (start : Nat) : AttributeTurn :=
  match c.char? with
  | none => .stop (.error .openAttributeName)
  | some d =>
    if d == q then .again ⟨.behindName (c.span start), attributes, c.move 1⟩
    else .again ⟨.quotedName q start, attributes, c.move 1⟩

/-- Looks for the end of a name without quotes. -/
def plainNameTurn (start : Nat) : AttributeTurn :=
  match c.char? with
  | none => behindNameTurn lines attributes c (c.span start)
  | some d =>
    if endsName d (c.move 1).ahead then behindNameTurn lines attributes c (c.span start)
    else .again ⟨.plainName start, attributes, c.move 1⟩

/-- Ends a value whose text was read, and goes on with what separates attributes. -/
def endValue (name : List Char) (escaped : Bool) (text : List Char) : AttributeTurn :=
  let value := trim text
  if value.isEmpty then .stop (.error .missingValue)
  else betweenTurn lines (attributes ++ [rawAttribute name (some value) escaped]) c

/-- Looks for the end of a value. -/
def valueTurn (name : List Char) (escaped : Bool) (start : Nat) (n : Nesting) : AttributeTurn :=
  let goOn (n : Nesting) : AttributeTurn := .again ⟨.value name escaped start n, attributes, c.move 1⟩
  match c.char? with
  | none =>
    if n.quote.isSome then .stop (.error .openStringInValue)
    else if 0 < n.depth then
      takeLine lines c (fun c => ⟨.value name escaped start n, attributes, c⟩) .openAttributes
    else endValue lines attributes c name escaped (c.span start)
  | some d =>
    match n.quote with
    | some q => goOn (n.insideQuote q d)
    | none =>
      if isQuote d then goOn { n with quote := some d }
      else if opensBracket d then goOn { n with depth := n.depth + 1 }
      else if closesBracket d then
        if n.depth = 0 then endValue lines attributes c name escaped (c.span start)
        else goOn { n with depth := n.depth - 1 }
      else if d == ',' && n.depth == 0 then endValue lines attributes c name escaped (c.span start)
      else if isBlank d && n.depth == 0 && !(lastInk (c.span start)).any isOperator
          && !operatorFollows c.ahead then
        endValue lines attributes c name escaped (c.span start)
      else goOn n

/-- Passes over blanks and lines in front of a value, and begins it. -/
def beforeValueTurn (name : List Char) (escaped : Bool) : AttributeTurn :=
  match c.char? with
  | none => takeLine lines c (fun c => ⟨.beforeValue name escaped, attributes, c⟩) .missingValue
  | some d =>
    if isIndent d then .again ⟨.beforeValue name escaped, attributes, c.move 1⟩
    else valueTurn lines attributes c name escaped c.place .outside

end

/-- One turn of the loop that reads a list of attributes. -/
def attributeTurn (lines : List (List Char)) (s : AttributeState) : AttributeTurn :=
  match s.phase with
  | .between => betweenTurn lines s.attributes s.cursor
  | .quotedName q start => quotedNameTurn s.attributes s.cursor q start
  | .plainName start => plainNameTurn lines s.attributes s.cursor start
  | .behindName name => behindNameTurn lines s.attributes s.cursor name
  | .beforeValue name escaped => beforeValueTurn lines s.attributes s.cursor name escaped
  | .value name escaped start n => valueTurn lines s.attributes s.cursor name escaped start n

/-! ### Every turn advances -/

/-- The turn advances the cursor, also where the list is over. -/
def Progresses (lines : List (List Char)) (c : Cursor) : AttributeTurn → Prop
  | .again s => c.Advances lines s.cursor
  | .stop (.ok (_, c')) => c.Advances lines c'
  | .stop (.error _) => True

section
variable {lines : List (List Char)} {attributes : List RawAttribute} {c : Cursor} {d : Char}

theorem progresses_move (h : c.char? = some d) (phase : Phase) (attributes : List RawAttribute) :
    Progresses lines c (.again ⟨phase, attributes, c.move 1⟩) := Cursor.advances_of_char? h

theorem progresses_takeLine (hc : c.Within lines) (h : c.char? = none) (phase : Phase)
    (attributes : List RawAttribute) (fault : ScanFault) :
    Progresses lines c (takeLine lines c (fun c => ⟨phase, attributes, c⟩) fault) := by
  unfold takeLine
  split
  · next c' hext => exact Cursor.advances_of_extend? hc h hext
  · trivial

theorem betweenTurn_progresses (hc : c.Within lines) (attributes : List RawAttribute) :
    Progresses lines c (betweenTurn lines attributes c) := by
  unfold betweenTurn
  split
  · next h => exact progresses_takeLine hc h _ _ _
  next d h =>
  split
  · exact progresses_move h _ _
  split
  · exact Cursor.advances_of_char? h
  split
  · exact progresses_move h _ _
  split
  · trivial
  · exact progresses_move h _ _

theorem behindNameTurn_progresses (hc : c.Within lines) (attributes : List RawAttribute)
    (name : List Char) : Progresses lines c (behindNameTurn lines attributes c name) := by
  unfold behindNameTurn
  split
  · exact betweenTurn_progresses hc _
  next d h =>
  split
  · exact progresses_move h _ _
  split
  · next hsign =>
    -- The equals sign stands in the text as well.
    have hequals : headIs (· == '=') (c.move 1).ahead = true := (Bool.and_eq_true_iff.mp hsign).2
    refine .move Nat.two_pos ?_
    by_contra hlong
    have hnil : (c.move 1).ahead = [] := List.drop_eq_nil_iff.mpr
      (show c.text.length ≤ c.place + 1 by omega)
    rw [hnil] at hequals
    cases hequals
  split
  · exact progresses_move h _ _
  · exact betweenTurn_progresses hc _

theorem quotedNameTurn_progresses (attributes : List RawAttribute) (q : Char) (start : Nat) :
    Progresses lines c (quotedNameTurn attributes c q start) := by
  unfold quotedNameTurn
  split
  · trivial
  · next d h => split <;> exact progresses_move h _ _

theorem plainNameTurn_progresses (hc : c.Within lines) (attributes : List RawAttribute) (start : Nat) :
    Progresses lines c (plainNameTurn lines attributes c start) := by
  unfold plainNameTurn
  split
  · exact behindNameTurn_progresses hc _ _
  next d h =>
  split
  · exact behindNameTurn_progresses hc _ _
  · exact progresses_move h _ _

theorem endValue_progresses (hc : c.Within lines) (attributes : List RawAttribute) (name : List Char)
    (escaped : Bool) (text : List Char) :
    Progresses lines c (endValue lines attributes c name escaped text) := by
  unfold endValue
  dsimp only
  split
  · trivial
  · exact betweenTurn_progresses hc _

theorem valueTurn_progresses (hc : c.Within lines) (attributes : List RawAttribute) (name : List Char)
    (escaped : Bool) (start : Nat) (n : Nesting) :
    Progresses lines c (valueTurn lines attributes c name escaped start n) := by
  have hend := endValue_progresses hc attributes name escaped (c.span start)
  unfold valueTurn
  dsimp only
  split
  · next h =>
    split
    · trivial
    split
    · exact progresses_takeLine hc h _ _ _
    · exact hend
  next d h =>
  have goOn (n : Nesting) : Progresses lines c
      (.again ⟨.value name escaped start n, attributes, c.move 1⟩) := progresses_move h _ _
  split
  · exact goOn _
  split
  · exact goOn _
  split
  · exact goOn _
  split
  · split
    · exact hend
    · exact goOn _
  split
  · exact hend
  split
  · exact hend
  · exact goOn _

theorem beforeValueTurn_progresses (hc : c.Within lines) (attributes : List RawAttribute)
    (name : List Char) (escaped : Bool) :
    Progresses lines c (beforeValueTurn lines attributes c name escaped) := by
  unfold beforeValueTurn
  split
  · next h => exact progresses_takeLine hc h _ _ _
  next d h =>
  split
  · exact progresses_move h _ _
  · exact valueTurn_progresses hc _ _ _ _ _

/-- **One turn of the loop** advances. -/
theorem attributeTurn_progresses (s : AttributeState) (hs : s.cursor.Within lines) :
    Progresses lines s.cursor (attributeTurn lines s) := by
  unfold attributeTurn
  split
  · exact betweenTurn_progresses hs _
  · exact quotedNameTurn_progresses _ _ _
  · exact plainNameTurn_progresses hs _ _
  · exact behindNameTurn_progresses hs _ _
  · exact beforeValueTurn_progresses hs _ _ _
  · exact valueTurn_progresses hs _ _ _ _ _

theorem advances_of_attributeTurn {s s' : AttributeState} (hs : s.cursor.Within lines)
    (h : attributeTurn lines s = .again s') : s.cursor.Advances lines s'.cursor := by
  have hprogress := attributeTurn_progresses s hs
  rwa [h] at hprogress

/-- Behind the list, the cursor comes of the one in front by advancing. -/
theorem reaches_of_finishes (hlines : AreLines lines) {s : AttributeState} (hs : s.cursor.Within lines)
    {list : List RawAttribute} {c' : Cursor} (h : Finishes (attributeTurn lines) s (.ok (list, c'))) :
    s.cursor.Reaches lines c' := by
  generalize hresult : (.ok (list, c') : Except ScanFault (List RawAttribute × Cursor)) = result at h
  induction h with
  | @stop s result h =>
    subst hresult
    have hprogress := attributeTurn_progresses s hs
    rw [h] at hprogress
    exact .single hprogress
  | again h _ ih =>
    have hadv := advances_of_attributeTurn hs h
    exact .head hadv (ih (hadv.within hlines hs) hresult)

/-! ### Brackets in a value -/

/-- Between attributes, no value is read after one turn either. -/
theorem nesting?_of_betweenTurn {s : AttributeState} (h : betweenTurn lines attributes c = .again s) :
    s.phase.nesting? = none := by
  unfold betweenTurn at h
  split at h
  · obtain ⟨c', -, rfl⟩ := of_takeLine h
    rfl
  split at h
  · cases h
    rfl
  split at h
  · cases h
  split at h
  · cases h
    rfl
  split at h
  · cases h
  · cases h
    rfl

/-- **The depth never falls below nothing**: a value goes on behind a closing bracket only where a
bracket is open. -/
theorem depth_pos_of_attributeTurn {s s' : AttributeState} {n n' : Nesting}
    (h : attributeTurn lines s = .again s') (hn : s.phase.nesting? = some n)
    (hn' : s'.phase.nesting? = some n') (hquote : n.quote = none) (hd : s.cursor.char? = some d)
    (hcloses : closesBracket d = true) : 0 < n.depth := by
  obtain ⟨phase, attributes, c⟩ := s
  cases phase with
  | value name escaped start n =>
    cases hn
    by_contra hnone
    have hzero : n.depth = 0 := by omega
    obtain ⟨hq, hopens, -⟩ := of_closesBracket hcloses
    have hturn : attributeTurn lines ⟨.value name escaped start n, attributes, c⟩ =
        endValue lines attributes c name escaped (c.span start) := by
      simp [attributeTurn, valueTurn, hd, hquote, hq, hopens, hcloses, hzero]
    rw [hturn, endValue] at h
    split at h
    · cases h
    · rw [nesting?_of_betweenTurn h] at hn'
      cases hn'
  | _ => cases hn

/-! ### What the loop reads -/

theorem isSeparator_newline : isSeparator '\n' = true := by decide

/-- What is left begins with what stands ahead, and then there are lines. -/
theorem currentLine_left (hc : c.Within lines) : currentLine (c.left lines) = c.ahead := by
  refine currentLine_append_of_ends (fun h => hc.line (List.mem_of_mem_drop h)) ?_
  cases lines.drop c.next <;> rfl

theorem headIs_left (hc : c.Within lines) {p : Char → Bool} (hp : p '\n' = false) :
    headIs p (c.left lines) = headIs p c.ahead := by
  refine headIs_of_currentLine ?_ hp
  rw [currentLine_left hc]
  exact (currentLine_of_notMem fun h => hc.line (List.mem_of_mem_drop h)).symm

theorem endsName_left (hc : c.Within lines) (d : Char) :
    endsName d (c.left lines) = endsName d c.ahead := by
  unfold endsName
  rw [headIs_left hc rfl]

theorem operatorFollows_left (hc : c.Within lines) :
    operatorFollows (c.left lines) = operatorFollows c.ahead := by
  refine operatorFollows_of_currentLine ?_
  rw [currentLine_left hc]
  exact (currentLine_of_notMem fun h => hc.line (List.mem_of_mem_drop h)).symm

theorem plainName_cons (d : Char) (cs : List Char) :
    plainName (d :: cs) =
      if endsName d cs then ([], d :: cs) else (d :: (plainName cs).1, (plainName cs).2) := rfl

/-- The loop goes along with a reader: it fails as the reader does, or goes on with `next` for what
was read, in front of what is left. -/
def GoesAlong {α : Type} (lines : List (List Char)) (s : AttributeState)
    (read : Except ScanFault (α × List Char)) (next : α → Cursor → AttributeTurn) : Prop :=
  match read with
  | .error e => Finishes (attributeTurn lines) s (.error e)
  | .ok (x, rest) => ∃ c, c.Within lines ∧ c.left lines = rest ∧
      GoesOnWith (attributeTurn lines) s (next x c)

section
variable {α : Type} {s s' : AttributeState} {read : Except ScanFault (α × List Char)}
  {next : α → Cursor → AttributeTurn}

/-- A loop that comes to a state goes along from there. -/
theorem GoesAlong.behind (h : GoesOnWith (attributeTurn lines) s (.again s'))
    (h' : GoesAlong lines s' read next) : GoesAlong lines s read next := by
  unfold GoesAlong at h' ⊢
  split at h'
  · exact h _ h'
  · obtain ⟨c, hc, hleft, hgoes⟩ := h'
    exact ⟨c, hc, hleft, fun r hr => h r (hgoes r hr)⟩

theorem GoesAlong.step (h : attributeTurn lines s = .again s') (h' : GoesAlong lines s' read next) :
    GoesAlong lines s read next := .behind (.step h (.refl _)) h'

theorem GoesAlong.congr (h : attributeTurn lines s = attributeTurn lines s')
    (h' : GoesAlong lines s' read next) : GoesAlong lines s read next := .behind (.congr h (.refl _)) h'

end

/-- What separates attributes is passed over. -/
theorem goesOnWith_between (hlines : AreLines lines) {c : Cursor} (hc : c.Within lines)
    (attributes : List RawAttribute) :
    ∃ c', c'.Within lines ∧ c'.left lines = (c.left lines).dropWhile isSeparator ∧
      GoesOnWith (attributeTurn lines) ⟨.between, attributes, c⟩ (.again ⟨.between, attributes, c'⟩) := by
  cases Cursor.here hc with
  | nothing h hext hleft => exact ⟨c, hc, by rw [hleft]; rfl, .refl _⟩
  | line c₁ h hext hblank hleft =>
    have hc₁ := hc.take hlines h hext
    have hmove := hc₁.pass hblank
    obtain ⟨c', hc', hleft', hgoes⟩ := goesOnWith_between hlines hmove attributes
    have hline : attributeTurn lines ⟨.between, attributes, c⟩ = .again ⟨.between, attributes, c₁⟩ := by
      simp only [attributeTurn, betweenTurn, takeLine, h, hext]
    have hturn : attributeTurn lines ⟨.between, attributes, c₁⟩ =
        .again ⟨.between, attributes, c₁.move 1⟩ := by
      simp only [attributeTurn, betweenTurn, hblank]
      rfl
    refine ⟨c', hc', ?_, .step hline (.step hturn hgoes)⟩
    rw [hleft, List.dropWhile_cons_of_pos isSeparator_newline, hleft']
  | char d h hd hleft =>
    have hmove := hc.pass h
    by_cases hsep : isSeparator d = true
    · obtain ⟨c', hc', hleft', hgoes⟩ := goesOnWith_between hlines hmove attributes
      have hturn : attributeTurn lines ⟨.between, attributes, c⟩ =
          .again ⟨.between, attributes, c.move 1⟩ := by
        simp only [attributeTurn, betweenTurn, h, if_pos hsep]
      exact ⟨c', hc', by rw [hleft, List.dropWhile_cons_of_pos hsep, hleft'], .step hturn hgoes⟩
    · exact ⟨c, hc, by rw [hleft, List.dropWhile_cons_of_neg hsep], .refl _⟩
termination_by (c.left lines).length
decreasing_by all_goals simp [hleft]

/-- A name in quotes is over at the next quote on the line. -/
theorem goesOnWith_quotedName {c : Cursor} (hc : c.Within lines) (attributes : List RawAttribute)
    (q : Char) {start : Nat} (hstart : start ≤ c.place) :
    match splitAtFirst? (· == q) c.ahead with
    | none => Finishes (attributeTurn lines) ⟨.quotedName q start, attributes, c⟩
        (.error .openAttributeName)
    | some (name, _) => (c.move (name.length + 1)).Within lines ∧
        GoesOnWith (attributeTurn lines) ⟨.quotedName q start, attributes, c⟩
          (behindNameTurn lines attributes (c.move (name.length + 1)) (c.span start ++ name)) := by
  cases h : c.char? with
  | none =>
    have hend : c.ahead = [] := List.drop_eq_nil_iff.mpr (List.getElem?_eq_none_iff.mp h)
    rw [hend]
    exact .stop (by simp only [attributeTurn, quotedNameTurn, h])
  | some d =>
    have hmove := hc.pass h
    rw [Cursor.ahead_of_char? h, splitAtFirst?]
    by_cases hq : (d == q) = true
    · rw [if_pos hq]
      have hturn : attributeTurn lines ⟨.quotedName q start, attributes, c⟩ =
          .again ⟨.behindName (c.span start), attributes, c.move 1⟩ := by
        simp only [attributeTurn, quotedNameTurn, h, if_pos hq]
      refine ⟨hmove, .step hturn (.of_eq ?_)⟩
      rw [List.append_nil]
      rfl
    · rw [if_neg hq]
      have hturn : attributeTurn lines ⟨.quotedName q start, attributes, c⟩ =
          .again ⟨.quotedName q start, attributes, c.move 1⟩ := by
        simp only [attributeTurn, quotedNameTurn, h, if_neg hq]
      have hbehind : start ≤ (c.move 1).place := hstart.trans (Nat.le_succ _)
      have hrest := goesOnWith_quotedName hmove attributes q hbehind
      cases hsplit : splitAtFirst? (· == q) (c.move 1).ahead with
      | none =>
        rw [hsplit] at hrest
        exact .again hturn hrest
      | some found =>
        obtain ⟨name, behind⟩ := found
        rw [hsplit] at hrest
        obtain ⟨hwithin, hgoes⟩ := hrest
        have hlength : 1 + (name.length + 1) = (d :: name).length + 1 := by
          rw [List.length_cons]
          omega
        rw [Cursor.move_move, hlength] at hwithin hgoes
        rw [Cursor.span_move hstart h, List.append_assoc] at hgoes
        exact ⟨hwithin, .step hturn hgoes⟩
termination_by (c.left lines).length
decreasing_by simp [Cursor.left_of_char? h]

/-- A name without quotes is over at the first character that cannot be in it. -/
theorem goesOnWith_plainName {c : Cursor} (hc : c.Within lines) (attributes : List RawAttribute)
    {start : Nat} (hstart : start ≤ c.place) {name rest : List Char} (hname : plainName (c.left lines) = (name, rest)) :
    ∃ c', c'.Within lines ∧ c'.left lines = rest ∧
      GoesOnWith (attributeTurn lines) ⟨.plainName start, attributes, c⟩
        (behindNameTurn lines attributes c' (c.span start ++ name)) := by
  -- Where the name is over, the loop goes on behind it.
  have ends (hnil : name = []) (hrest : c.left lines = rest)
      (hturn : plainNameTurn lines attributes c start = behindNameTurn lines attributes c (c.span start)) :
      ∃ c', c'.Within lines ∧ c'.left lines = rest ∧
        GoesOnWith (attributeTurn lines) ⟨.plainName start, attributes, c⟩
          (behindNameTurn lines attributes c' (c.span start ++ name)) := by
    refine ⟨c, hc, hrest, .of_eq ?_⟩
    rw [hnil, List.append_nil]
    exact hturn
  cases Cursor.here hc with
  | nothing h hext hleft =>
    rw [hleft] at hname
    cases hname
    exact ends rfl hleft (by simp only [plainNameTurn, h])
  | line c₁ h hext hblank hleft =>
    rw [hleft] at hname
    cases hname
    exact ends rfl hleft (by simp only [plainNameTurn, h])
  | char d h hd hleft =>
    have hmove := hc.pass h
    rw [hleft, plainName_cons, endsName_left hmove] at hname
    by_cases hend : endsName d (c.move 1).ahead = true
    · rw [if_pos hend] at hname
      cases hname
      exact ends rfl hleft (by simp only [plainNameTurn, h, if_pos hend])
    · rw [if_neg hend] at hname
      cases hname
      have hbehind : start ≤ (c.move 1).place := hstart.trans (Nat.le_succ _)
      obtain ⟨c', hc', hleft', hgoes⟩ := goesOnWith_plainName hmove attributes hbehind rfl
      have hturn : attributeTurn lines ⟨.plainName start, attributes, c⟩ =
          .again ⟨.plainName start, attributes, c.move 1⟩ := by
        simp only [attributeTurn, plainNameTurn, h, if_neg hend]
      rw [Cursor.span_move hstart h, List.append_assoc] at hgoes
      exact ⟨c', hc', hleft', .step hturn hgoes⟩
termination_by (c.left lines).length
decreasing_by simp [hleft]

/-- Where a name begins, the loop goes along with the reader of names. -/
theorem goesAlong_attributeName (hc : c.Within lines) (h : c.char? = some d)
    (hsep : ¬isSeparator d = true) (hclose : ¬(d == ')') = true) :
    GoesAlong lines ⟨.between, attributes, c⟩ (attributeName (c.left lines))
      fun name c => behindNameTurn lines attributes c name := by
  have hmove := hc.pass h
  have hspan : (c.move 1).span c.place = [d] := by
    rw [Cursor.span_move (le_refl _) h, Cursor.span_self, List.nil_append]
  rw [Cursor.left_of_char? h, attributeName]
  by_cases hq : isQuote d = true
  · rw [if_pos hq, currentLine_left hmove]
    have hturn : attributeTurn lines ⟨.between, attributes, c⟩ =
        .again ⟨.quotedName d (c.move 1).place, attributes, c.move 1⟩ := by
      simp only [attributeTurn, betweenTurn, h, if_neg hsep, if_neg hclose, if_pos hq]
      rfl
    refine GoesAlong.step hturn ?_
    have hname := goesOnWith_quotedName hmove attributes d (le_refl (c.move 1).place)
    cases hsplit : splitAtFirst? (· == d) (c.move 1).ahead with
    | none =>
      rw [hsplit] at hname
      exact hname
    | some found =>
      obtain ⟨name, behind⟩ := found
      rw [hsplit] at hname
      obtain ⟨hwithin, hgoes⟩ := hname
      rw [Cursor.span_self, List.nil_append] at hgoes
      exact ⟨_, hwithin, Cursor.left_move hwithin.place, hgoes⟩
  · rw [if_neg hq]
    rw [plainName_cons, endsName_left hmove]
    by_cases hend : endsName d (c.move 1).ahead = true
    · rw [if_pos hend]
      exact .stop (by
        simp only [attributeTurn, betweenTurn, h, if_neg hsep, if_neg hclose, if_neg hq, if_pos hend])
    · rw [if_neg hend]
      have hturn : attributeTurn lines ⟨.between, attributes, c⟩ =
          .again ⟨.plainName c.place, attributes, c.move 1⟩ := by
        simp only [attributeTurn, betweenTurn, h, if_neg hsep, if_neg hclose, if_neg hq, if_neg hend]
      have hbehind : c.place ≤ (c.move 1).place := Nat.le_succ _
      obtain ⟨c', hc', hleft', hgoes⟩ := goesOnWith_plainName hmove attributes hbehind rfl
      rw [hspan] at hgoes
      exact ⟨c', hc', hleft', .step hturn hgoes⟩

/-- What a value makes of a character outside quotes that is no quote and no bracket. -/
theorem readValue_plain {n : Nesting} (last : Option Char) (value cs : List Char)
    (hquote : n.quote = none) (hd : d ≠ '\n') (hq : ¬isQuote d = true) (hopens : ¬opensBracket d = true)
    (hcloses : ¬closesBracket d = true) :
    readValue n last value (d :: cs) =
      if d == ',' && n.depth == 0 then .ok (value.reverse, d :: cs)
      else if isBlank d && n.depth == 0 && !last.any isOperator && !operatorFollows (d :: cs) then
        .ok (value.reverse, d :: cs)
      else readValue n (if isBlank d then last else some d) (d :: value) cs := by
  rw [readValue, hquote]
  dsimp only
  rw [if_neg (by simpa using hd), if_neg hq, if_neg hopens, if_neg hcloses]

/-- Behind what separates attributes, the loop goes along with the reader of names, unless the list is
over. -/
theorem goesAlong_name (hlines : AreLines lines) (hc : c.Within lines)
    (attributes : List RawAttribute) (hnil : (c.left lines).dropWhile isSeparator ≠ [])
    (hclose : ∀ rest, (c.left lines).dropWhile isSeparator ≠ ')' :: rest) :
    GoesAlong lines ⟨.between, attributes, c⟩ (attributeName ((c.left lines).dropWhile isSeparator))
      fun name c => behindNameTurn lines attributes c name := by
  obtain ⟨c', hc', hleft, hgoes⟩ := goesOnWith_between hlines hc attributes
  obtain ⟨d, cs, hstart⟩ := List.exists_cons_of_ne_nil hnil
  have hsep : ¬isSeparator d = true := by
    have hhead := List.head?_dropWhile_not isSeparator (c.left lines)
    rw [hstart] at hhead
    simpa using hhead
  rw [hstart] at hleft
  obtain ⟨hchar, -⟩ := Cursor.char?_of_left hc' (by rintro rfl; exact hsep isSeparator_newline) hleft
  rw [hstart, ← hleft]
  refine GoesAlong.behind hgoes (goesAlong_attributeName hc' hchar hsep fun hd => ?_)
  exact hclose cs (by rw [hstart, beq_iff_eq.mp hd])

/-- What a character does to the loop over a value and to the reader of values alike: both go on with the
same nesting, or the value is over in front of it. -/
inductive ValueAlike (lines : List (List Char)) (attributes : List RawAttribute) (c : Cursor)
    (name : List Char) (escaped : Bool) (start : Nat) (n : Nesting) (d : Char) : Prop
  | goesOn (n' : Nesting)
    (hturn : valueTurn lines attributes c name escaped start n =
      .again ⟨.value name escaped start n', attributes, c.move 1⟩)
    (hread : ∀ value, readValue n (lastInk (c.span start)) value (d :: (c.move 1).left lines) =
      readValue n' (if isBlank d then lastInk (c.span start) else some d) (d :: value) ((c.move 1).left lines))
  | ends (hturn : valueTurn lines attributes c name escaped start n =
      endValue lines attributes c name escaped (c.span start))
    (hread : ∀ value, readValue n (lastInk (c.span start)) value (d :: (c.move 1).left lines) =
      .ok (value.reverse, d :: (c.move 1).left lines))

theorem valueAlike (hc : c.Within lines) (h : c.char? = some d) (name : List Char) (escaped : Bool)
    (start : Nat) (n : Nesting) : ValueAlike lines attributes c name escaped start n d := by
  have hd := Cursor.ne_newline_of_char? hc h
  cases hquote : n.quote with
  | some q =>
    exact .goesOn (n.insideQuote q d) (by simp [valueTurn, h, hquote])
      fun value => by simp [readValue, hquote, hd]
  | none =>
    by_cases hq : isQuote d = true
    · exact .goesOn { n with quote := some d } (by simp [valueTurn, h, hquote, hq])
        fun value => by simp [readValue, hquote, hd, hq]
    by_cases hopens : opensBracket d = true
    · exact .goesOn { n with depth := n.depth + 1 } (by simp [valueTurn, h, hquote, hq, hopens])
        fun value => by simp [readValue, hquote, hd, hq, hopens]
    by_cases hcloses : closesBracket d = true
    · by_cases hdepth : n.depth = 0
      · exact .ends (by simp [valueTurn, h, hquote, hq, hopens, hcloses, hdepth])
          fun value => by simp [readValue, hquote, hd, hq, hopens, hcloses, hdepth]
      · exact .goesOn { n with depth := n.depth - 1 }
          (by simp [valueTurn, h, hquote, hq, hopens, hcloses, hdepth])
          fun value => by simp [readValue, hquote, hd, hq, hopens, hcloses, hdepth]
    -- Any other character is told by the nesting, and a blank by what stands beside it.
    have hread (value : List Char) := readValue_plain (lastInk (c.span start)) value
      ((c.move 1).left lines) hquote hd hq hopens hcloses
    rw [← Cursor.left_of_char? h, operatorFollows_left hc] at hread
    rw [Cursor.left_of_char? h] at hread
    by_cases hcomma : (d == ',' && n.depth == 0) = true
    · refine .ends ?_ fun value => by rw [hread, if_pos hcomma]
      simp only [valueTurn, h, hquote, if_neg hq, if_neg hopens, if_neg hcloses, if_pos hcomma]
    by_cases hblank : (isBlank d && n.depth == 0 && !(lastInk (c.span start)).any isOperator
        && !operatorFollows c.ahead) = true
    · refine .ends ?_ fun value => by rw [hread, if_neg hcomma, if_pos hblank]
      simp only [valueTurn, h, hquote, if_neg hq, if_neg hopens, if_neg hcloses, if_neg hcomma, if_pos hblank]
    · refine .goesOn n ?_ fun value => by rw [hread, if_neg hcomma, if_neg hblank]
      simp only [valueTurn, h, hquote, if_neg hq, if_neg hopens, if_neg hcloses, if_neg hcomma, if_neg hblank]

/-- In a value, the loop goes along with the reader of values. -/
theorem goesAlong_readValue (hlines : AreLines lines) {c : Cursor} (hc : c.Within lines) {start : Nat}
    (hstart : start ≤ c.place) (attributes : List RawAttribute) (name : List Char) (escaped : Bool)
    (n : Nesting) :
    GoesAlong lines ⟨.value name escaped start n, attributes, c⟩
      (readValue n (lastInk (c.span start)) (c.span start).reverse (c.left lines))
      fun text c => endValue lines attributes c name escaped text := by
  -- Where the value is over, the loop goes on behind it.
  have ends (hturn : valueTurn lines attributes c name escaped start n =
      endValue lines attributes c name escaped (c.span start)) :
      GoesAlong lines ⟨.value name escaped start n, attributes, c⟩
        (.ok ((c.span start).reverse.reverse, c.left lines))
        fun text c => endValue lines attributes c name escaped text := by
    refine ⟨c, hc, rfl, .of_eq ?_⟩
    rw [List.reverse_reverse]
    exact hturn
  cases Cursor.here hc with
  | nothing h hext hleft =>
    by_cases hquote : n.quote.isSome = true
    · rw [hleft, readValue, if_pos hquote]
      exact .stop (by simp only [attributeTurn, valueTurn, h, if_pos hquote])
    by_cases hdepth : 0 < n.depth
    · rw [hleft, readValue, if_neg hquote, if_pos hdepth]
      exact .stop (by simp only [attributeTurn, valueTurn, takeLine, h, hext, if_neg hquote, if_pos hdepth])
    · have hends := ends (by simp only [valueTurn, h, if_neg hquote, if_neg hdepth])
      rw [hleft] at hends ⊢
      rw [readValue, if_neg hquote, if_neg hdepth]
      exact hends
  | line c₁ h hext hblank hleft =>
    have hc₁ := hc.take hlines h hext
    have hmove := hc₁.pass hblank
    obtain ⟨hspan, hplace⟩ := Cursor.span_of_extend? hc hext start
    cases hquote : n.quote with
    | some q =>
      -- A text in quotes has to end on its line.
      simp only [hleft, readValue, hquote]
      exact .stop (by simp [attributeTurn, valueTurn, h, hquote])
    | none =>
      by_cases hdepth : 0 < n.depth
      · have hline : attributeTurn lines ⟨.value name escaped start n, attributes, c⟩ =
            .again ⟨.value name escaped start n, attributes, c₁⟩ := by
          simp [attributeTurn, valueTurn, takeLine, h, hext, hquote, hdepth]
        have hturn : attributeTurn lines ⟨.value name escaped start n, attributes, c₁⟩ =
            .again ⟨.value name escaped start n, attributes, c₁.move 1⟩ := by
          have hne : n.depth ≠ 0 := by omega
          simp [attributeTurn, valueTurn, hblank, hquote, hne, isQuote, opensBracket, closesBracket]
        have hbehind : start ≤ (c₁.move 1).place := by
          show start ≤ c₁.place + 1
          omega
        have hrest := goesAlong_readValue hlines hmove hbehind attributes name escaped n
        rw [Cursor.span_move (by omega) hblank, hspan, lastInk_append_singleton, List.reverse_append] at hrest
        have hread : readValue n (lastInk (c.span start)) (c.span start).reverse (c.left lines) =
            readValue n (lastInk (c.span start)) (' ' :: (c.span start).reverse) ((c₁.move 1).left lines) := by
          rw [hleft]
          simp [readValue, hquote, hdepth]
        rw [hread]
        exact .step hline (.step hturn hrest)
      · have hread : readValue n (lastInk (c.span start)) (c.span start).reverse (c.left lines) =
            .ok ((c.span start).reverse.reverse, c.left lines) := by
          rw [hleft]
          simp [readValue, hquote, hdepth]
        rw [hread]
        exact ends (by simp [valueTurn, h, hquote, hdepth])
  | char d h hd hleft =>
    cases (valueAlike hc h name escaped start n : ValueAlike lines attributes c name escaped start n d) with
    | goesOn n' hturn hread =>
      have hbehind : start ≤ (c.move 1).place := hstart.trans (Nat.le_succ _)
      have hrest := goesAlong_readValue hlines (hc.pass h) hbehind attributes name escaped n'
      rw [Cursor.span_move hstart h, lastInk_append_singleton, List.reverse_append] at hrest
      rw [hleft, hread]
      exact .step hturn hrest
    | ends hturn hread =>
      rw [hleft, hread, ← hleft]
      exact ends hturn
termination_by (c.left lines).length
decreasing_by all_goals simp [hleft]

/-- What is passed over in front of a value does not matter to its reader. -/
theorem attributeValue_skip {d : Char} {cs : List Char} (hd : (isIndent d || d == '\n') = true) :
    attributeValue (d :: cs) = attributeValue cs := by
  unfold attributeValue
  rw [List.dropWhile_cons_of_pos (p := fun c => isIndent c || c == '\n') hd]

/-- At any other character, the value begins. -/
theorem attributeValue_begin {d : Char} {cs : List Char} (hd : ¬(isIndent d || d == '\n') = true) :
    attributeValue (d :: cs) = readValue .outside none [] (d :: cs) >>= fun r =>
      if (trim r.1).isEmpty then .error .missingValue else .ok (trim r.1, r.2) := by
  unfold attributeValue
  rw [List.dropWhile_cons_of_neg (p := fun c => isIndent c || c == '\n') hd]
  dsimp only
  cases readValue .outside none [] (d :: cs) <;> rfl

/-- Behind an equals sign, the loop goes along with the reader of values and the blanks in front of
them. -/
theorem goesAlong_attributeValue (hlines : AreLines lines) {c : Cursor} (hc : c.Within lines)
    (attributes : List RawAttribute) (name : List Char) (escaped : Bool) :
    GoesAlong lines ⟨.beforeValue name escaped, attributes, c⟩ (attributeValue (c.left lines))
      fun value c => betweenTurn lines (attributes ++ [rawAttribute name (some value) escaped]) c := by
  cases Cursor.here hc with
  | nothing h hext hleft =>
    rw [hleft]
    exact .stop (by simp only [attributeTurn, beforeValueTurn, takeLine, h, hext])
  | line c₁ h hext hblank hleft =>
    have hc₁ := hc.take hlines h hext
    have hmove := hc₁.pass hblank
    have hline : attributeTurn lines ⟨.beforeValue name escaped, attributes, c⟩ =
        .again ⟨.beforeValue name escaped, attributes, c₁⟩ := by
      simp only [attributeTurn, beforeValueTurn, takeLine, h, hext]
    have hturn : attributeTurn lines ⟨.beforeValue name escaped, attributes, c₁⟩ =
        .again ⟨.beforeValue name escaped, attributes, c₁.move 1⟩ := by
      simp only [attributeTurn, beforeValueTurn, hblank]
      rfl
    rw [hleft, attributeValue_skip rfl]
    exact .step hline (.step hturn (goesAlong_attributeValue hlines hmove attributes name escaped))
  | char d h hd hleft =>
    have hmove := hc.pass h
    by_cases hindent : isIndent d = true
    · have hturn : attributeTurn lines ⟨.beforeValue name escaped, attributes, c⟩ =
          .again ⟨.beforeValue name escaped, attributes, c.move 1⟩ := by
        simp only [attributeTurn, beforeValueTurn, h, if_pos hindent]
      rw [hleft, attributeValue_skip (by rw [hindent, Bool.true_or])]
      exact .step hturn (goesAlong_attributeValue hlines hmove attributes name escaped)
    · -- Here the value begins.
      have hsame : attributeTurn lines ⟨.beforeValue name escaped, attributes, c⟩ =
          attributeTurn lines ⟨.value name escaped c.place .outside, attributes, c⟩ := by
        simp only [attributeTurn, beforeValueTurn, h, if_neg hindent]
      have hvalue := GoesAlong.congr hsame (goesAlong_readValue hlines hc (le_refl c.place)
        attributes name escaped .outside)
      rw [Cursor.span_self, hleft] at hvalue
      replace hvalue : GoesAlong lines _ (readValue .outside none [] (d :: (c.move 1).left lines)) _ := hvalue
      rw [hleft, attributeValue_begin (by simp [hindent, hd])]
      cases hread : readValue .outside none [] (d :: (c.move 1).left lines) with
      | error e =>
        rw [hread] at hvalue
        exact hvalue
      | ok r =>
        obtain ⟨text, rest⟩ := r
        rw [hread] at hvalue
        obtain ⟨c', hc', hleft', hgoes⟩ := hvalue
        replace hgoes : GoesOnWith _ _ (endValue lines attributes c' name escaped text) := hgoes
        rw [bind_eq_of_ok rfl]
        split
        · next hempty => exact hgoes _ (by rw [endValue, if_pos hempty]; rfl)
        · next hink =>
          rw [endValue, if_neg hink] at hgoes
          exact ⟨c', hc', hleft', hgoes⟩
termination_by (c.left lines).length
decreasing_by all_goals simp [hleft]

/-- In front of the sign that decides, blanks do not matter. -/
theorem valuePart_skip {d : Char} {cs : List Char} (hd : isIndent d = true) :
    valuePart (d :: cs) = valuePart cs := by
  unfold valuePart
  rw [List.dropWhile_cons_of_pos hd]

theorem valuePart_notEqual (cs : List Char) :
    valuePart ('!' :: '=' :: cs) = (attributeValue cs).map fun (v, rest) => (some v, false, rest) := rfl

theorem valuePart_equal (cs : List Char) :
    valuePart ('=' :: cs) = (attributeValue cs).map fun (v, rest) => (some v, true, rest) := rfl

/-- Any other text leaves the attribute without a value. -/
theorem valuePart_none {d : Char} {cs : List Char} (hd : ¬isIndent d = true)
    (hnot : ¬(d == '!' && headIs (· == '=') cs) = true) (hequal : ¬(d == '=') = true) :
    valuePart (d :: cs) = .ok (none, true, d :: cs) := by
  unfold valuePart
  rw [List.dropWhile_cons_of_neg hd]
  split
  · next heq =>
    cases heq
    exact absurd rfl hnot
  · next heq =>
    cases heq
    exact absurd rfl hequal
  · rfl

/-- Behind a name, the loop goes along with the reader of what may follow it. -/
theorem goesAlong_valuePart (hlines : AreLines lines) {c : Cursor} (hc : c.Within lines)
    (attributes : List RawAttribute) (name : List Char) :
    GoesAlong lines ⟨.behindName name, attributes, c⟩
      ((valuePart (c.left lines)).map fun (value, escaped, rest) => ((value, escaped), rest))
      fun part c => betweenTurn lines (attributes ++ [rawAttribute name part.1 part.2]) c := by
  have ends (hturn : behindNameTurn lines attributes c name =
        betweenTurn lines (attributes ++ [rawAttribute name none true]) c)
      (hpart : valuePart (c.left lines) = .ok (none, true, c.left lines)) :
      GoesAlong lines ⟨.behindName name, attributes, c⟩
        ((valuePart (c.left lines)).map fun (value, escaped, rest) => ((value, escaped), rest))
        fun part c => betweenTurn lines (attributes ++ [rawAttribute name part.1 part.2]) c := by
    rw [hpart]
    exact ⟨c, hc, rfl, .of_eq hturn⟩
  -- Behind a sign the value is read.
  have value {c' : Cursor} (hc' : c'.Within lines) (escaped : Bool)
      (hturn : behindNameTurn lines attributes c name = .again ⟨.beforeValue name escaped, attributes, c'⟩)
      (hpart : valuePart (c.left lines) =
        (attributeValue (c'.left lines)).map fun (v, rest) => (some v, escaped, rest)) :
      GoesAlong lines ⟨.behindName name, attributes, c⟩
        ((valuePart (c.left lines)).map fun (value, escaped, rest) => ((value, escaped), rest))
        fun part c => betweenTurn lines (attributes ++ [rawAttribute name part.1 part.2]) c := by
    have hvalue := goesAlong_attributeValue hlines hc' attributes name escaped
    rw [hpart]
    refine GoesAlong.step hturn ?_
    cases hread : attributeValue (c'.left lines) with
    | error e =>
      rw [hread] at hvalue
      exact hvalue
    | ok r =>
      rw [hread] at hvalue
      exact hvalue
  cases Cursor.here hc with
  | nothing h hext hleft => exact ends (by simp only [behindNameTurn, h]) (by rw [hleft]; rfl)
  | line c₁ h hext hblank hleft => exact ends (by simp only [behindNameTurn, h]) (by rw [hleft]; rfl)
  | char d h hd hleft =>
    have hmove := hc.pass h
    by_cases hindent : isIndent d = true
    · have hturn : attributeTurn lines ⟨.behindName name, attributes, c⟩ =
          .again ⟨.behindName name, attributes, c.move 1⟩ := by
        simp only [attributeTurn, behindNameTurn, h, if_pos hindent]
      rw [hleft, valuePart_skip hindent]
      exact .step hturn (goesAlong_valuePart hlines hmove attributes name)
    by_cases hnot : (d == '!' && headIs (· == '=') (c.move 1).ahead) = true
    · obtain ⟨hexclamation, hsign⟩ := Bool.and_eq_true_iff.mp hnot
      obtain rfl := beq_iff_eq.mp hexclamation
      have hequals : (c.move 1).char? = some '=' := by
        have hhead : (c.move 1).char? = (c.move 1).ahead.head? := List.head?_drop.symm
        rw [hhead]
        cases hahead : (c.move 1).ahead with
        | nil =>
          rw [hahead] at hsign
          cases hsign
        | cons e behind =>
          rw [hahead] at hsign
          rw [beq_iff_eq.mp hsign]
          rfl
      have hmove₂ := hmove.pass hequals
      rw [Cursor.move_move] at hmove₂
      refine value hmove₂ false ?_ ?_
      · simp only [behindNameTurn, h, if_neg hindent, if_pos hnot]
      · rw [hleft, Cursor.left_of_char? hequals, Cursor.move_move, valuePart_notEqual]
    by_cases hequal : (d == '=') = true
    · obtain rfl := beq_iff_eq.mp hequal
      refine value hmove true ?_ (by rw [hleft, valuePart_equal])
      simp only [behindNameTurn, h, if_neg hindent, if_neg hnot, if_pos hequal]
    · refine ends ?_ ?_
      · simp only [behindNameTurn, h, if_neg hindent, if_neg hnot, if_neg hequal]
      · rw [hleft, valuePart_none hindent (by rwa [headIs_left hmove rfl]) hequal]
termination_by (c.left lines).length
decreasing_by simp [hleft]

/-- One attribute is read, and the loop goes on behind it. -/
theorem goesOnWith_attribute (hlines : AreLines lines) (hc : c.Within lines)
    (hnil : (c.left lines).dropWhile isSeparator ≠ [])
    (hclose : ∀ rest, (c.left lines).dropWhile isSeparator ≠ ')' :: rest) {name behind rest : List Char}
    {value : Option (List Char)} {escaped : Bool}
    (hname : attributeName ((c.left lines).dropWhile isSeparator) = .ok (name, behind))
    (hpart : valuePart behind = .ok (value, escaped, rest)) :
    ∃ c', c'.Within lines ∧ c'.left lines = rest ∧
      GoesOnWith (attributeTurn lines) ⟨.between, attributes, c⟩
        (attributeTurn lines ⟨.between, attributes ++ [rawAttribute name value escaped], c'⟩) := by
  have hread := goesAlong_name hlines hc attributes hnil hclose
  rw [hname] at hread
  obtain ⟨c₁, hc₁, hleft₁, hgoes₁⟩ := hread
  have hvalue := goesAlong_valuePart hlines hc₁ attributes name
  rw [hleft₁, hpart] at hvalue
  obtain ⟨c₂, hc₂, hleft₂, hgoes₂⟩ := hvalue
  exact ⟨c₂, hc₂, hleft₂, fun r hr => hgoes₁ r (finishes_iff.mp (hgoes₂ r hr))⟩

/-- Between attributes, the loop reads the rest of the list. The induction is along the reader. -/
theorem finishes_between (hlines : AreLines lines) {c : Cursor} (hc : c.Within lines)
    (attributes : List RawAttribute) :
    ∃ r, Finishes (attributeTurn lines) ⟨.between, attributes, c⟩ r ∧
      readTo lines r = (attributeList (c.left lines)).map fun (list, rest) => (attributes ++ list, rest) := by
  generalize hcs : c.left lines = cs
  fun_induction attributeList cs generalizing c attributes with
  | case1 cs hs =>
    obtain ⟨c', hc', hleft, hgoes⟩ := goesOnWith_between hlines hc attributes
    rw [hcs, hs] at hleft
    obtain ⟨hend, hext⟩ := Cursor.end_of_left hc' hleft
    refine ⟨.error .openAttributes, hgoes _ (.stop ?_), rfl⟩
    simp only [attributeTurn, betweenTurn, takeLine, hend, hext]
  | case2 cs rest hs =>
    obtain ⟨c', hc', hleft, hgoes⟩ := goesOnWith_between hlines hc attributes
    rw [hcs, hs] at hleft
    obtain ⟨hchar, hrest⟩ := Cursor.char?_of_left hc' (by decide) hleft
    refine ⟨.ok (attributes, c'.move 1), hgoes _ (.stop ?_), ?_⟩
    · simp only [attributeTurn, betweenTurn, hchar]
      rfl
    · simp [readTo, Except.map, hrest]
  | case3 cs e hnil hclose hname =>
    have hread := goesAlong_name hlines hc attributes (hcs ▸ hnil) (hcs ▸ hclose)
    rw [hcs, hname] at hread
    exact ⟨.error e, hread, rfl⟩
  | case4 cs name behind e hpart hnil hclose hname =>
    have hread := goesAlong_name hlines hc attributes (hcs ▸ hnil) (hcs ▸ hclose)
    rw [hcs, hname] at hread
    obtain ⟨c₁, hc₁, hleft₁, hgoes₁⟩ := hread
    have hvalue := goesAlong_valuePart hlines hc₁ attributes name
    rw [hleft₁, hpart] at hvalue
    exact ⟨.error e, hgoes₁ _ (finishes_iff.mp hvalue), rfl⟩
  | case5 cs name behind value escaped rest hpart e hrest hnil hclose hname hshorter ih =>
    subst hcs
    obtain ⟨c', hc', hleft, hgoes⟩ := goesOnWith_attribute hlines hc hnil hclose hname hpart
    obtain ⟨r, hr, hread⟩ := ih hc' (attributes ++ [rawAttribute name value escaped]) hleft
    refine ⟨r, hgoes r (finishes_iff.mp hr), ?_⟩
    rw [hread, hrest]
    rfl
  | case6 cs name behind value escaped rest hpart more rest' hrest hnil hclose hname hshorter ih =>
    subst hcs
    obtain ⟨c', hc', hleft, hgoes⟩ := goesOnWith_attribute hlines hc hnil hclose hname hpart
    obtain ⟨r, hr, hread⟩ := ih hc' (attributes ++ [rawAttribute name value escaped]) hleft
    refine ⟨r, hgoes r (finishes_iff.mp hr), ?_⟩
    rw [hread, hrest]
    simp [Except.map, rawAttribute]

/-- **The loop does what `attributeList` does**, from behind the parenthesis on. -/
theorem finishes_attributeList (hlines : AreLines lines) (hc : c.Within lines) :
    ∃ r, Finishes (attributeTurn lines) ⟨.between, [], c⟩ r ∧ attributeList (c.left lines) = readTo lines r := by
  obtain ⟨r, hr, hread⟩ := finishes_between hlines hc []
  refine ⟨r, hr, ?_⟩
  rw [hread]
  cases attributeList (c.left lines) <;> rfl

/-- **The loop makes progress**, and does what `attributeList` does. -/
theorem progress_attributeList (hlines : AreLines lines) (hc : c.Within lines) :
    ∃ r, Progress lines (attributeTurn lines) AttributeState.cursor ⟨.between, [], c⟩ r ∧
      attributeList (c.left lines) = readTo lines r := by
  obtain ⟨r, hfinishes, hread⟩ := finishes_attributeList hlines hc
  refine ⟨r, ⟨hfinishes, fun s hs => ?_⟩, hread⟩
  have hwithin : s.cursor.Within lines :=
    hs.keeps (P := fun s => s.cursor.Within lines)
      (fun s s' hs hturn => (advances_of_attributeTurn hs hturn).within hlines hs) hc
  exact ⟨hwithin, fun s' hturn => advances_of_attributeTurn hwithin hturn⟩

end

end Trellis.Source
