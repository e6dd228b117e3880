import Trellis.Proofs.Brackets

/-!
# `Trellis.Proofs.Nesting`: the text of an expression, counted by brackets

The readers of lists in brackets know no tokens: they count brackets and pass over quoted
texts, one character at a time. `Nesting.next` is the step that they share. A count is what is
left of a `Watch` when the kinds of the awaited brackets are forgotten (`Watch.nesting`), so it
follows the expression along (`Watch.Step.next`) and meets none of the characters at which a
reader may stop (`Watch.Step.goesOn`).

* `Watch.Run.follow`: a reader that collects characters, and does nothing else as long as it may
  not stop, takes all characters of an expression.
* `pass?_of_read`: a text that is read as an expression is passed over, and leaves the
  reader where it found it.
-/

set_option autoImplicit false

namespace Trellis

open Text

namespace Source

/-! ### Where a reader stands -/

/-- How a character moves on, in the count that all readers of lists in brackets keep. -/
def Nesting.next (n : Nesting) (c : Char) : Nesting :=
  match n.quote with
  | some q => n.insideQuote q c
  | none =>
    if isQuote c then { n with quote := some c }
    else if opensBracket c then { n with depth := n.depth + 1 }
    else if closesBracket c then { n with depth := n.depth - 1 }
    else n

/-- Where a reader stands behind some characters. -/
def Nesting.after (n : Nesting) (cs : List Char) : Nesting := cs.foldl next n

/-- Does a reader stand outside all quotes and brackets? -/
def Nesting.isOutside (n : Nesting) : Bool := n.depth == 0 && n.quote.isNone

/-- Passes over characters; none if a bracket closes that was not opened, or if there is a
comma outside all quotes and brackets. -/
def Nesting.pass? (n : Nesting) : List Char → Option Nesting
  | [] => some n
  | c :: cs => if n.isOutside && (closesBracket c || c == ',') then none else pass? (n.next c) cs

/-- May a reader that began inside `outer` brackets stop at the character? -/
def Nesting.MayStop (outer : Nat) (n : Nesting) (c : Char) : Prop :=
  n.quote = none ∧ n.depth ≤ outer ∧ (closesBracket c = true ∨ c = ',')

/-- The count that is kept inside `outer` further brackets. -/
def Watch.nesting (outer : Nat) (w : Watch) : Nesting :=
  ⟨w.awaited.length + outer, w.quote, w.hidden⟩

theorem nesting_insideQuote (outer : Nat) (w : Watch) (q c : Char) :
    (w.nesting outer).insideQuote q c = (w.insideQuote q c).nesting outer := by
  grind [Nesting.insideQuote, Watch.insideQuote, Watch.nesting]

theorem opensBracket_of_closer? {c d : Char} (h : closer? c = some d) :
    isQuote c = false ∧ opensBracket c = true := by
  rw [closer?.eq_def] at h
  split at h
  · exact ⟨rfl, rfl⟩
  · exact ⟨rfl, rfl⟩
  · exact ⟨rfl, rfl⟩
  · cases h

/-- A closing bracket is no quote and opens nothing. -/
theorem of_closesBracket {c : Char} (h : closesBracket c = true) :
    isQuote c = false ∧ opensBracket c = false ∧ c ≠ ',' := by
  simp only [closesBracket, Bool.or_eq_true, beq_iff_eq] at h
  rcases h with (rfl | rfl) | rfl <;> decide

/-! ### Along an expression -/

/-- The count moves on as the stack does. -/
theorem Watch.Step.next {w w' : Watch} {c : Char} (h : Step w c w') (outer : Nat) :
    (w.nesting outer).next c = w'.nesting outer := by
  rw [Nesting.next]
  cases h with
  | quoted c hq =>
    rw [show (w.nesting outer).quote = some _ from hq]
    exact nesting_insideQuote outer w _ c
  | quote hc => simp [Watch.nesting, Watch.awaiting, hc]
  | opening hc =>
    obtain ⟨hquote, hopen⟩ := opensBracket_of_closer? hc
    simp [Watch.nesting, Watch.awaiting, hquote, hopen, Nat.add_right_comm]
  | closing hc =>
    obtain ⟨hquote, hopen, -⟩ := of_closesBracket hc
    simp [Watch.nesting, Watch.awaiting, hquote, hopen, hc, Nat.add_right_comm]
  | comma => rfl
  | plain hc =>
    simp only [isPlain, Bool.and_eq_true, Bool.not_eq_true'] at hc
    obtain ⟨⟨⟨hquote, hopen⟩, hclose⟩, -⟩ := hc
    simp [Watch.nesting, Watch.awaiting, hquote, hopen, hclose]

/-- Inside an expression a reader does not stop. -/
theorem Watch.Step.goesOn {w w' : Watch} {c : Char} (h : Step w c w') (outer : Nat) :
    ¬(w.nesting outer).MayStop outer c := by
  rintro ⟨hquote, hdepth, hc⟩
  have hnone : w.awaited = [] := by
    have hlength : w.awaited.length + outer ≤ outer := hdepth
    exact List.length_eq_zero_iff.1 (by omega)
  cases h with
  | quoted c hq => exact absurd (hq.symm.trans hquote) nofun
  | quote hq =>
    simp only [isQuote, Bool.or_eq_true, beq_iff_eq] at hq
    rcases hq with rfl | rfl <;> revert hc <;> decide
  | opening ho =>
    rw [closer?.eq_def] at ho
    split at ho
    · revert hc; decide
    · revert hc; decide
    · revert hc; decide
    · cases ho
  | closing => cases hnone
  | comma hne => exact hne hnone
  | plain hp =>
    simp only [isPlain, Bool.and_eq_true, Bool.not_eq_true', bne_iff_ne] at hp
    rcases hc with hc | hc
    · rw [hp.1.2] at hc
      cases hc
    · exact hp.2 hc

/-- **A reader that collects characters takes all those of an expression**, if it does nothing
else as long as it may not stop. -/
theorem Watch.Run.follow {α : Type} (read : Nesting → List Char → List Char → α) (outer : Nat)
    {w w' : Watch} {cs : List Char} (h : Run w cs w')
    (hread : ∀ c ∈ cs, ∀ n part rest, ¬n.MayStop outer c →
      read n part (c :: rest) = read (n.next c) (c :: part) rest)
    (part rest : List Char) :
    read (w.nesting outer) part (cs ++ rest) = read (w'.nesting outer) (cs.reverse ++ part) rest := by
  induction h generalizing part with
  | nil => rfl
  | cons first _ ih =>
    rw [List.cons_append, hread _ List.mem_cons_self _ _ _ (first.goesOn outer), first.next outer,
      ih (fun c hc => hread c (List.mem_cons_of_mem _ hc)), List.reverse_cons, List.append_assoc]
    rfl

theorem pass?_of_run {w w' : Watch} {cs : List Char} (h : w.Run cs w') :
    (w.nesting 0).pass? cs = some (w'.nesting 0) := by
  induction h with
  | nil => rfl
  | cons first _ ih =>
    rw [Nesting.pass?, if_neg, first.next, ih]
    intro hstop
    simp only [Nesting.isOutside, Bool.and_eq_true, Bool.or_eq_true, beq_iff_eq,
      Option.isNone_iff_eq_none] at hstop
    exact first.goesOn 0 ⟨hstop.1.2, hstop.1.1.le, hstop.2⟩

/-- In a text that is read as an expression no bracket closes that was not opened, every
bracket and every quote closes, and commas stand in brackets. -/
theorem pass?_of_read {cs : List Char} {e : Expr} (h : Expr.read cs = .ok e) :
    Nesting.outside.pass? cs = some .outside :=
  pass?_of_run (run_of_read h [])

end Source

end Trellis
