import Trellis.Proofs.Lexing
import Trellis.Source.Bracket

/-!
# `Trellis.Proofs.Brackets`: the brackets of an expression

In an expression each bracket is closed by one of its kind, and commas stand in brackets.

* For tokens, `awaitedAfter?` goes along with a stack of the closing brackets that are awaited. What
  is read as an expression leaves the stack as it was (`Derives.awaited`), by induction over the
  rules of the grammar.
* For characters, `Watch.Run` goes along with the same stack and with the quotes. Quoted texts are
  passed over, with a backslash that hides the character behind it. The characters of a token do to
  the stack what the token does (`run_of_readToken`, with one lemma for each kind of token).

`run_of_read` puts both together. A reader that knows no tokens and counts only some brackets can
be followed along a `Watch.Run`, whichever brackets it counts.
-/

set_option autoImplicit false

namespace Trellis

open Text

namespace Expr

/-! ### Tokens -/

/-- The bracket that closes what the mark opens. -/
def Mark.closer? : Mark → Option Char
  | .openParen => some ')'
  | .openBracket => some ']'
  | .openBrace => some '}'
  | _ => none

/-- The closing bracket that the mark is. -/
def Mark.closing? : Mark → Option Char
  | .closeParen => some ')'
  | .closeBracket => some ']'
  | .closeBrace => some '}'
  | _ => none

/-- What is awaited behind a token. There is no answer for a bracket that is not awaited, and for a
comma outside all brackets. -/
def Token.awaited? (awaited : List Char) : Token → Option (List Char)
  | .mark m =>
    match m.closer?, m.closing? with
    | some c, _ => some (c :: awaited)
    | none, some c => if awaited.head? = some c then some awaited.tail else none
    | none, none => if m = .comma ∧ awaited = [] then none else some awaited
  | _ => some awaited

/-- What is awaited behind some tokens. -/
def awaitedAfter? (awaited : List Char) : List Token → Option (List Char)
  | [] => some awaited
  | t :: ts => (t.awaited? awaited).bind fun awaited => awaitedAfter? awaited ts

/-- The bracket that a form closes. -/
def Form.closes : Form → List Char
  | .items close => close.closing?.toList
  | .entries => ['}']
  | _ => []

/-- A list ends with a closing bracket. -/
def Form.IsClosed : Form → Prop
  | .items close => close.closing?.isSome
  | _ => True

section
variable {awaited : List Char} {t : Token} {ts : List Token}

/-- A token that is no bracket and no comma leaves the stack as it is. -/
theorem awaitedAfter?_cons (h : t.awaited? awaited = some awaited) :
    awaitedAfter? awaited (t :: ts) = awaitedAfter? awaited ts := by
  rw [awaitedAfter?, h, Option.bind_some]

theorem awaitedAfter?_open {m : Mark} {c : Char} (h : m.closer? = some c) :
    awaitedAfter? awaited (.mark m :: ts) = awaitedAfter? (c :: awaited) ts := by
  rw [awaitedAfter?, Token.awaited?, h, Option.bind_some]

theorem awaitedAfter?_close {m : Mark} {c : Char} (h : m.closing? = some c) :
    awaitedAfter? (c :: awaited) (.mark m :: ts) = awaitedAfter? awaited ts := by
  have hm : m.closer? = none := by cases m <;> first | rfl | cases h
  rw [awaitedAfter?, Token.awaited?, hm, h]
  simp

theorem awaitedAfter?_comma {c : Char} :
    awaitedAfter? (c :: awaited) (.mark .comma :: ts) = awaitedAfter? (c :: awaited) ts :=
  awaitedAfter?_cons rfl

theorem awaited?_of_binary {op : BinaryOp} (h : BinaryOp.ofToken? t = some op) :
    t.awaited? awaited = some awaited := by
  cases t with
  | mark m => cases m <;> first | rfl | cases h
  | _ => rfl

theorem awaited?_of_unary {op : UnaryOp} (h : UnaryOp.ofToken? t = some op) :
    t.awaited? awaited = some awaited := by
  cases t with
  | mark m => cases m <;> first | rfl | cases h
  | _ => rfl

/-- A key of a map is no mark. -/
theorem awaited?_of_key {key : String} (h : keyOf t = .ok key) :
    t.awaited? awaited = some awaited := by
  cases t with
  | mark m => cases h
  | _ => rfl

theorem awaited?_of_atom {e : Expr} (h : t.atom? = some e) : t.awaited? awaited = some awaited := by
  cases t with
  | mark m => cases h
  | _ => rfl

end

/-- **What is read as an expression leaves the stack as it was.** A list takes its closing bracket
along. -/
theorem Derives.awaited {form : Form} {ts rest : List Token} {result : form.Result}
    (h : Derives form ts result rest) (hform : form.IsClosed) (awaited : List Char) :
    awaitedAfter? (form.closes ++ awaited) ts = awaitedAfter? awaited rest := by
  induction h generalizing awaited with
  | plain _ _ ih => exact ih trivial awaited
  | choose _ _ _ ih ihfirst ihsecond =>
    refine (ih trivial awaited).trans ?_
    rw [awaitedAfter?_cons rfl]
    refine (ihfirst trivial awaited).trans ?_
    rw [awaitedAfter?_cons rfl]
    exact ihsecond trivial awaited
  | operators _ _ ih ihothers => exact (ih trivial awaited).trans (ihothers trivial awaited)
  | noOperand => rfl
  | operand operator _ _ _ ih ihothers =>
    show awaitedAfter? awaited _ = _
    rw [awaitedAfter?_cons (awaited?_of_binary operator)]
    exact (ih trivial awaited).trans (ihothers trivial awaited)
  | unary operator _ ih =>
    show awaitedAfter? awaited _ = _
    rw [awaitedAfter?_cons (awaited?_of_unary operator)]
    exact ih trivial awaited
  | simple _ _ _ ih ihothers => exact (ih trivial awaited).trans (ihothers trivial awaited)
  | noAccess => rfl
  | member _ ih => exact ih trivial awaited
  | place _ ih => exact ih trivial awaited
  | item _ _ ih ihothers =>
    show awaitedAfter? awaited _ = _
    rw [awaitedAfter?_open rfl]
    refine (ih trivial _).trans ?_
    rw [awaitedAfter?_close rfl]
    exact ihothers trivial awaited
  | call _ _ ih ihothers =>
    show awaitedAfter? awaited _ = _
    rw [awaitedAfter?_open rfl]
    exact (ih rfl awaited).trans (ihothers trivial awaited)
  | atom atom => exact awaitedAfter?_cons (awaited?_of_atom atom)
  | parentheses _ ih =>
    show awaitedAfter? awaited _ = _
    rw [awaitedAfter?_open rfl]
    refine (ih trivial _).trans ?_
    rw [awaitedAfter?_close rfl]
  | list _ ih =>
    show awaitedAfter? awaited _ = _
    rw [awaitedAfter?_open rfl]
    exact ih rfl awaited
  | map _ ih =>
    show awaitedAfter? awaited _ = _
    rw [awaitedAfter?_open rfl]
    exact ih trivial awaited
  | noItem =>
    obtain ⟨c, hc⟩ := Option.isSome_iff_exists.1 hform
    show awaitedAfter? (Option.toList _ ++ awaited) _ = _
    rw [hc]
    exact awaitedAfter?_close hc
  | lastItem _ _ _ ih =>
    obtain ⟨c, hc⟩ := Option.isSome_iff_exists.1 hform
    refine (ih trivial _).trans ?_
    show awaitedAfter? (Option.toList _ ++ awaited) _ = _
    rw [hc]
    exact awaitedAfter?_close hc
  | nextItem _ _ _ ih ihothers =>
    obtain ⟨c, hc⟩ := Option.isSome_iff_exists.1 hform
    have hothers := ihothers hform awaited
    refine (ih trivial _).trans ?_
    simp only [Form.closes, hc] at hothers ⊢
    exact awaitedAfter?_comma.trans hothers
  | noEntry => exact awaitedAfter?_close rfl
  | lastEntry isKey _ ih =>
    show awaitedAfter? ('}' :: awaited) _ = _
    rw [awaitedAfter?_cons (awaited?_of_key isKey), awaitedAfter?_cons rfl]
    refine (ih trivial _).trans ?_
    rw [awaitedAfter?_close rfl]
  | nextEntry isKey _ _ ih ihothers =>
    show awaitedAfter? ('}' :: awaited) _ = _
    rw [awaitedAfter?_cons (awaited?_of_key isKey), awaitedAfter?_cons rfl]
    refine (ih trivial _).trans ?_
    rw [awaitedAfter?_comma]
    exact ihothers trivial awaited

end Expr

namespace Source

/-! ### Characters -/

/-- Where a reader stands that knows which closing brackets are awaited, the next one first. -/
structure Watch where
  awaited : List Char
  quote : Option Char
  hidden : Bool

namespace Watch

/-- Outside quotes. -/
def awaiting (awaited : List Char) : Watch := ⟨awaited, none, false⟩

/-- How a character inside quotes moves on. -/
def insideQuote (w : Watch) (q c : Char) : Watch :=
  if w.hidden then { w with hidden := false }
  else if c == '\\' then { w with hidden := true }
  else if c == q then { w with quote := none }
  else w

end Watch

/-- The bracket that closes another one. -/
def closer? : Char → Option Char
  | '(' => some ')'
  | '[' => some ']'
  | '{' => some '}'
  | _ => none

/-- A character that is no quote, no bracket and no comma. -/
def isPlain (c : Char) : Bool :=
  !isQuote c && !opensBracket c && !closesBracket c && c != ','

/-- How a character moves on. A bracket closes only if it is awaited, and a comma stands in
brackets. -/
inductive Watch.Step : Watch → Char → Watch → Prop
  | quoted {w : Watch} {q : Char} (c : Char) (h : w.quote = some q) : Step w c (w.insideQuote q c)
  | quote {awaited : List Char} {c : Char} (hc : isQuote c = true) :
    Step (.awaiting awaited) c ⟨awaited, some c, false⟩
  | opening {awaited : List Char} {c d : Char} (hc : closer? c = some d) :
    Step (.awaiting awaited) c (.awaiting (d :: awaited))
  | closing {awaited : List Char} {c : Char} (hc : closesBracket c = true) :
    Step (.awaiting (c :: awaited)) c (.awaiting awaited)
  | comma {awaited : List Char} (h : awaited ≠ []) : Step (.awaiting awaited) ',' (.awaiting awaited)
  | plain {awaited : List Char} {c : Char} (hc : isPlain c = true) :
    Step (.awaiting awaited) c (.awaiting awaited)

/-- How characters move on. -/
inductive Watch.Run : Watch → List Char → Watch → Prop
  | nil {w : Watch} : Run w [] w
  | cons {w w' w'' : Watch} {c : Char} {cs : List Char} (first : Step w c w') (later : Run w' cs w'') :
    Run w (c :: cs) w''

theorem Watch.Run.append {w w' w'' : Watch} {cs ds : List Char} (h : Run w cs w')
    (h' : Run w' ds w'') : Run w (cs ++ ds) w'' := by
  induction h with
  | nil => exact h'
  | cons first _ ih => exact .cons first (ih h')

/-- Plain characters leave the stack alone. -/
theorem run_of_isPlain {cs : List Char} (h : ∀ c ∈ cs, isPlain c = true) (awaited : List Char) :
    Watch.Run (.awaiting awaited) cs (.awaiting awaited) := by
  induction cs with
  | nil => exact .nil
  | cons c cs ih =>
    exact .cons (.plain (h c List.mem_cons_self)) (ih fun c hc => h c (List.mem_cons_of_mem _ hc))

/-- The characters that are not plain. -/
def nestingMarks : List Char := ['"', '\'', '(', '[', '{', ')', ']', '}', ',']

/-- A class of characters that has none of these is one of plain characters. -/
theorem isPlain_of_class {p : Char → Bool} (hp : nestingMarks.any p = false) {c : Char}
    (h : p c = true) : isPlain c = true := by
  have hc : c ∉ nestingMarks := fun hmem => by simp [List.any_eq_true.mpr ⟨c, hmem, h⟩] at hp
  simp only [nestingMarks, List.mem_cons, List.not_mem_nil, or_false, not_or] at hc
  obtain ⟨h1, h2, h3, h4, h5, h6, h7, h8, h9⟩ := hc
  simp [isPlain, isQuote, opensBracket, closesBracket, *]

/-! ### From tokens to characters -/

/-- A quoted text is passed over to its closing quote. -/
theorem run_of_readString? {q : Char} {cs text : List Char} {n : Nat}
    (h : Expr.readString? q cs = some (text, n)) (awaited : List Char) :
    Watch.Run ⟨awaited, some q, false⟩ (cs.take n) (.awaiting awaited) := by
  induction cs using Expr.readStringInduction generalizing text n with
  | nil => cases h
  | pair c cs ih =>
    -- A backslash and the character that it hides.
    obtain ⟨⟨s, m⟩, hs, heq⟩ := Option.map_eq_some_iff.mp h
    cases heq
    exact .cons (.quoted '\\' rfl) (.cons (.quoted c rfl) (ih hs))
  | backslash => cases h
  | plain c cs hc ih =>
    rw [Expr.readString?_cons hc] at h
    have hstep : Watch.Step ⟨awaited, some q, false⟩ c _ := .quoted c rfl
    simp only [Watch.insideQuote, beq_iff_eq, hc, Bool.false_eq_true, if_false] at hstep
    split at h
    · next hq =>
      cases h
      rw [if_pos hq] at hstep
      exact .cons hstep .nil
    · next hq =>
      obtain ⟨⟨s, m⟩, hs, heq⟩ := Option.map_eq_some_iff.mp h
      cases heq
      rw [if_neg hq] at hstep
      exact .cons hstep (ih hs)

/-- A mark does to the stack what it does as a token. -/
theorem run_of_mark {m : Expr.Mark} {awaited awaited' : List Char}
    (h : (Expr.Token.mark m).awaited? awaited = some awaited') :
    Watch.Run (.awaiting awaited) m.text.toList (.awaiting awaited') := by
  have closing {c : Char} (hm : m.closer? = none) (hc : m.closing? = some c)
      (hclose : closesBracket c = true) (htext : m.text.toList = [c]) :
      Watch.Run (.awaiting awaited) m.text.toList (.awaiting awaited') := by
    rw [Expr.Token.awaited?, hm, hc] at h
    dsimp only at h
    split at h
    · next hhead =>
      obtain ⟨outer, rfl⟩ := List.head?_eq_some_iff.1 hhead
      cases h
      rw [htext]
      exact .cons (.closing hclose) .nil
    · cases h
  cases m with
  | openParen => cases h; exact .cons (.opening rfl) .nil
  | openBracket => cases h; exact .cons (.opening rfl) .nil
  | openBrace => cases h; exact .cons (.opening rfl) .nil
  | closeParen => exact closing rfl rfl rfl rfl
  | closeBracket => exact closing rfl rfl rfl rfl
  | closeBrace => exact closing rfl rfl rfl rfl
  | comma =>
    cases awaited with
    | nil => cases h
    | cons c awaited =>
      cases h
      exact .cons (.comma (List.cons_ne_nil _ _)) .nil
  | _ =>
    cases h
    exact run_of_isPlain (List.all_eq_true.mp rfl) awaited

/-- What a number takes is digits and a point, at least one of them. -/
theorem isPlain_of_readNumber {c : Char} {cs : List Char} (hc : c.isDigit = true)
    {t : Expr.Token} {n : Nat} (h : Expr.readNumber (c :: cs) = (t, n)) :
    (∀ d ∈ (c :: cs).take n, isPlain d = true) ∧ 0 < n ∧
      ∀ awaited, t.awaited? awaited = some awaited := by
  have hdigits : ∀ ds : List Char, ∀ d ∈ ds.takeWhile Char.isDigit, isPlain d = true :=
    fun ds d hd => isPlain_of_class rfl (List.mem_takeWhile_imp hd)
  have htake : ∀ ds : List Char,
      ds.take (ds.takeWhile Char.isDigit).length = ds.takeWhile Char.isDigit :=
    fun ds => (List.prefix_iff_eq_take.mp (List.takeWhile_prefix _)).symm
  have hwhole : ∀ ds awaited, (Expr.readNumber.ofWhole ds).awaited? awaited = some awaited := by
    intro ds awaited
    rw [Expr.readNumber.ofWhole]
    split <;> rfl
  have hpos : 0 < ((c :: cs).takeWhile Char.isDigit).length := by simp [hc]
  rw [Expr.readNumber] at h
  dsimp only at h
  split at h
  · next rest hrest =>
    split at h
    · cases h
      exact ⟨by rw [htake]; exact hdigits _, hpos, hwhole _⟩
    · -- The whole part, the point and the fraction.
      cases h
      refine ⟨?_, by omega, fun _ => rfl⟩
      rw [Nat.add_assoc, List.take_add, htake, hrest, Nat.add_comm, List.take_succ_cons, htake]
      intro d hd
      rcases List.mem_append.mp hd with hd | hd
      · exact hdigits _ d hd
      · rcases List.mem_cons.mp hd with rfl | hd
        · rfl
        · exact hdigits _ d hd
  · cases h
    exact ⟨by rw [htake]; exact hdigits _, hpos, hwhole _⟩

/-- The characters of a token do to the stack what the token does. -/
theorem run_of_readToken {offset : Nat} {c : Char} {cs : List Char} {t : Expr.Token} {n : Nat}
    (h : Expr.readToken offset c cs = .ok (some t, n)) {awaited awaited' : List Char}
    (ht : t.awaited? awaited = some awaited') :
    Watch.Run (.awaiting awaited) (c :: cs.take (n - 1)) (.awaiting awaited') := by
  have hfront (k : Nat) (hk : 0 < k) : c :: cs.take (k - 1) = (c :: cs).take k := by
    obtain ⟨k, rfl⟩ : ∃ j, k = j + 1 := ⟨k - 1, by omega⟩
    rfl
  rw [Expr.readToken] at h
  split at h
  · cases h
  · split at h
    · next hdigit =>
      cases h
      obtain ⟨hchars, hpos, hsame⟩ := isPlain_of_readNumber hdigit rfl
      rw [hsame] at ht
      cases ht
      rw [hfront _ hpos]
      exact run_of_isPlain hchars awaited
    · split at h
      · next hquote =>
        split at h
        · next s n hs =>
          cases h
          cases ht
          exact .cons (.quote hquote) (run_of_readString? hs awaited)
        · cases h
      · split at h
        · next hword =>
          cases h
          cases ht
          -- A word has its first character at least, so it gets on.
          have hstart := Expr.isWordPart_of_isWordStart hword
          rw [hfront _ (by simp [hstart]), ← List.prefix_iff_eq_take.mp (List.takeWhile_prefix _)]
          exact run_of_isPlain (fun d hd => isPlain_of_class rfl (List.mem_takeWhile_imp hd)) awaited
        · split at h
          · next m hm =>
            cases h
            have hpos : 0 < m.text.length := by cases m <;> decide
            have hchars : (c :: cs).take m.text.length = m.text.toList := by
              rw [Expr.append_of_start? hm, ← String.length_toList, List.take_left]
            rw [hfront _ hpos, hchars]
            exact run_of_mark ht
          · cases h

/-- The characters of a text do to the stack what its tokens do. -/
theorem run_of_lexes {cs : List Char} {ts : List Expr.Token} (h : Expr.Lexes cs ts)
    {awaited awaited' : List Char} (hts : Expr.awaitedAfter? awaited ts = some awaited') :
    Watch.Run (.awaiting awaited) cs (.awaiting awaited') := by
  induction h generalizing awaited with
  | nil =>
    cases hts
    exact .nil
  | space space _ ih => exact .cons (.plain (isPlain_of_class rfl space)) (ih hts)
  | @token c cs t n ts first _ ih =>
    obtain ⟨between, ht, hrest⟩ := Option.bind_eq_some_iff.mp hts
    have hall := (run_of_readToken first ht).append (ih hrest)
    rwa [List.cons_append, List.take_append_drop] at hall

/-- **A text that is read as an expression** is passed over, and everything that it opens is closed
in it. -/
theorem run_of_read {cs : List Char} {e : Expr} (h : Expr.read cs = .ok e) (awaited : List Char) :
    Watch.Run (.awaiting awaited) cs (.awaiting awaited) := by
  obtain ⟨ts, hts, hderives⟩ := Expr.read_eq_ok_iff_lexes.1 h
  exact run_of_lexes hts (hderives.awaited trivial awaited)

end Source

end Trellis
