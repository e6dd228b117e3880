import Mathlib
import Trellis.Proofs.Lists

/-!
# `Trellis.Proofs.Pairing`: which bracket closes which

The reader of lists counts brackets, whatever their kinds are. `Nested` says without counting
what a text is whose brackets are closed: it is made of quoted texts, of other characters, and
of brackets around such a text. Which bracket may close which is a parameter, either any
(`AnyKind`) or its own (`OwnKind`).

* `balanced_splits`: the reader stops at the bracket that closes the first one when all kinds
  count alike.
* `nested_of_parts`: what stands between the commas of a list decides for the whole list. A part
  that is read as an expression has each bracket closed by one of its kind (`nested_of_read`).
-/

set_option autoImplicit false

namespace Trellis.Source

open Text

/-! ### Nested texts -/

/-- A character that is no quote and no bracket. -/
def isLoose (c : Char) : Bool := !isQuote c && !opensBracket c && !closesBracket c

/-- What may stand between two quotes: a backslash hides the character behind it. -/
inductive Quoted (q : Char) : List Char → Prop
  | nil : Quoted q []
  | plain {c : Char} {cs : List Char} (hquote : c ≠ q) (hback : c ≠ '\\') (later : Quoted q cs) :
    Quoted q (c :: cs)
  | hidden {c : Char} {cs : List Char} (later : Quoted q cs) : Quoted q ('\\' :: c :: cs)

/-- A text in which all brackets outside quotes are closed, each by one that makes a pair with
it. -/
inductive Nested (Pair : Char → Char → Prop) : List Char → Prop
  | nil : Nested Pair []
  | loose {c : Char} {cs : List Char} (hc : isLoose c = true) (later : Nested Pair cs) :
    Nested Pair (c :: cs)
  | quoted {q : Char} {text cs : List Char} (hq : isQuote q = true) (inside : Quoted q text)
    (later : Nested Pair cs) : Nested Pair (q :: (text ++ q :: cs))
  | brackets {o d : Char} {inner cs : List Char} (pair : Pair o d) (inside : Nested Pair inner)
    (later : Nested Pair cs) : Nested Pair (o :: (inner ++ d :: cs))

/-- Any bracket closes any other. -/
def AnyKind (o d : Char) : Prop := opensBracket o = true ∧ closesBracket d = true

/-- A bracket closes those of its kind. -/
def OwnKind (o d : Char) : Prop := closer? o = some d

namespace Nested

variable {Pair : Char → Char → Prop} {cs ds : List Char}

theorem append (h : Nested Pair cs) (h' : Nested Pair ds) : Nested Pair (cs ++ ds) := by
  induction h with
  | nil => exact h'
  | loose hc _ ih => exact .loose hc ih
  | quoted hq inside _ ih =>
    rw [List.cons_append, List.append_assoc]
    exact .quoted hq inside ih
  | brackets pair inside _ _ ih =>
    rw [List.cons_append, List.append_assoc]
    exact .brackets pair inside ih

theorem of_loose (h : ∀ c ∈ cs, isLoose c = true) : Nested Pair cs := by
  induction cs with
  | nil => exact .nil
  | cons c cs ih =>
    exact .loose (h c List.mem_cons_self) (ih fun d hd => h d (List.mem_cons_of_mem _ hd))

end Nested

theorem isLoose_of_isPlain {c : Char} (h : isPlain c = true) : isLoose c = true := by
  simp only [isPlain, Bool.and_eq_true] at h
  simp only [isLoose, Bool.and_eq_true]
  exact h.1

theorem isLoose_of_isBlank {c : Char} (h : isBlank c = true) : isLoose c = true :=
  isLoose_of_isPlain (isPlain_of_isBlank h)

/-! ### Texts on one line -/

/-- A text with its lines joined by blanks. -/
def oneLine (cs : List Char) : List Char := cs.map fun c => if c = '\n' then ' ' else c

theorem oneLine_append (cs ds : List Char) : oneLine (cs ++ ds) = oneLine cs ++ oneLine ds :=
  List.map_append

theorem oneLine_cons {c : Char} (h : c ≠ '\n') (cs : List Char) :
    oneLine (c :: cs) = c :: oneLine cs := by
  show (if c = '\n' then ' ' else c) :: oneLine cs = _
  rw [if_neg h]

theorem oneLine_of_notMem {cs : List Char} (h : '\n' ∉ cs) : oneLine cs = cs := by
  induction cs with
  | nil => rfl
  | cons c cs ih =>
    rw [List.mem_cons, not_or] at h
    rw [oneLine_cons (Ne.symm h.1), ih h.2]

/-! ### The reader of a list -/

section
variable {q c : Char} {k : Nat} {front cs text rest : List Char}

/-- Inside quotes a line does not end. -/
theorem readBalanced_inQuotes {hidden : Bool}
    (h : readBalanced ⟨k, some q, hidden⟩ front (c :: cs) = .ok (text, rest)) :
    c ≠ '\n' ∧
      readBalanced (Nesting.insideQuote ⟨k, some q, hidden⟩ q c) (c :: front) cs = .ok (text, rest) := by
  have hline : c ≠ '\n' := by
    intro heq
    subst heq
    cases h
  rw [readBalanced_cons hline fun hstop => Option.some_ne_none _ hstop.1] at h
  exact ⟨hline, h⟩

/-- Inside quotes the reader goes on to the next quote that is not hidden. -/
theorem quoted_of_readBalanced
    (h : readBalanced ⟨k, some q, false⟩ front cs = .ok (text, rest)) :
    ∃ body later, cs = body ++ q :: later ∧ Quoted q body ∧ '\n' ∉ body ∧
      readBalanced ⟨k, none, false⟩ (q :: (body.reverse ++ front)) later = .ok (text, rest) := by
  induction cs using Expr.readStringInduction generalizing front with
  | nil => cases h
  | pair c cs ih =>
    -- A backslash and the character that it hides.
    obtain ⟨-, h⟩ := readBalanced_inQuotes h
    have h : readBalanced ⟨k, some q, true⟩ ('\\' :: front) (c :: cs) = .ok (text, rest) := h
    obtain ⟨hline, h⟩ := readBalanced_inQuotes h
    obtain ⟨body, later, rfl, hbody, hlines, hread⟩ := ih h
    refine ⟨'\\' :: c :: body, later, rfl, .hidden hbody, ?_, ?_⟩
    · simp [hlines, Ne.symm hline]
    · simpa using hread
  | backslash =>
    obtain ⟨-, h⟩ := readBalanced_inQuotes h
    cases h
  | plain c cs hc ih =>
    obtain ⟨hline, h⟩ := readBalanced_inQuotes h
    have hback : (c == '\\') = false := beq_false_of_ne hc
    by_cases heq : c = q
    · subst heq
      simp only [Nesting.insideQuote, hback, beq_self_eq_true, Bool.false_eq_true, if_false, if_true] at h
      exact ⟨[], cs, rfl, .nil, List.not_mem_nil, h⟩
    · have hother : (c == q) = false := beq_false_of_ne heq
      simp only [Nesting.insideQuote, hback, hother, Bool.false_eq_true, if_false] at h
      obtain ⟨body, later, rfl, hbody, hlines, hread⟩ := ih h
      refine ⟨c :: body, later, rfl, .plain heq hc hbody, ?_, ?_⟩
      · simp [hlines, Ne.symm hline]
      · simpa using hread

end

theorem ne_newline_of_closesBracket {d : Char} (hd : closesBracket d = true) : d ≠ '\n' := by
  intro heq
  subst heq
  cases hd

/-- At a closing bracket the list ends, if no other bracket is open. -/
theorem readBalanced_closing {d : Char} (hd : closesBracket d = true) (k : Nat)
    (front cs : List Char) :
    readBalanced ⟨k + 1, none, false⟩ front (d :: cs) =
      if k = 0 then .ok (trim front.reverse, cs) else readBalanced ⟨k, none, false⟩ (d :: front) cs := by
  obtain ⟨hquote, hopens, -⟩ := of_closesBracket hd
  rw [readBalanced]
  simp [ne_newline_of_closesBracket hd, hquote, hopens, hd]

/-- The reader goes on to the next bracket that closes one which it did not open. -/
theorem nested_of_readBalanced {k : Nat} {front cs text rest : List Char}
    (h : readBalanced ⟨k + 1, none, false⟩ front cs = .ok (text, rest)) :
    ∃ inner d later, cs = inner ++ d :: later ∧ closesBracket d = true ∧ Nested AnyKind inner ∧
      readBalanced ⟨k + 1, none, false⟩ ((oneLine inner).reverse ++ front) (d :: later) =
        .ok (text, rest) := by
  match cs, h with
  | [], h => cases h
  | c :: cs, h =>
    by_cases hline : c = '\n'
    · -- A line feed is a blank.
      subst hline
      obtain ⟨inner, d, later, rfl, hd, hinner, hread⟩ :=
        nested_of_readBalanced (show readBalanced ⟨k + 1, none, false⟩ (' ' :: front) cs = _ from h)
      refine ⟨'\n' :: inner, d, later, rfl, hd, .loose rfl hinner, ?_⟩
      simpa [oneLine] using hread
    by_cases hclose : closesBracket c = true
    · exact ⟨[], c, cs, rfl, hclose, .nil, h⟩
    rw [readBalanced] at h
    dsimp only at h
    rw [if_neg (by simpa using hline)] at h
    split at h
    · next hquote =>
      -- A quoted text, and what follows it.
      obtain ⟨body, later, rfl, hbody, hlines, h⟩ := quoted_of_readBalanced h
      obtain ⟨inner, d, later, rfl, hd, hinner, hread⟩ := nested_of_readBalanced h
      refine ⟨c :: (body ++ c :: inner), d, later, by simp, hd, .quoted hquote hbody hinner, ?_⟩
      rw [oneLine_cons hline, oneLine_append, oneLine_cons hline, oneLine_of_notMem hlines]
      simpa using hread
    split at h
    · next hopen =>
      -- A bracket with what it encloses, and what follows the one that closes it.
      obtain ⟨inner, d, between, rfl, hd, hinner, h⟩ := nested_of_readBalanced h
      rw [readBalanced_closing hd, if_neg (Nat.succ_ne_zero k)] at h
      obtain ⟨inner', d', later, rfl, hd', hinner', hread⟩ := nested_of_readBalanced h
      refine ⟨c :: (inner ++ d :: inner'), d', later, by simp, hd',
        .brackets ⟨hopen, hd⟩ hinner hinner', ?_⟩
      rw [oneLine_cons hline, oneLine_append, oneLine_cons (ne_newline_of_closesBracket hd)]
      simpa using hread
    · next hopen =>
      obtain ⟨inner, d, later, rfl, hd, hinner, hread⟩ := nested_of_readBalanced h
      refine ⟨c :: inner, d, later, rfl, hd, .loose ?_ hinner, ?_⟩
      · simp_all [isLoose]
      · rw [oneLine_cons hline]
        simpa using hread
termination_by cs.length

/-- **A list ends at the bracket that closes the first one**, when all kinds count alike. Its text is
what stands between them, on one line. -/
theorem balanced_splits {cs text rest : List Char} (h : balanced cs = .ok (text, rest)) :
    ∃ inner d, cs = inner ++ d :: rest ∧ closesBracket d = true ∧ Nested AnyKind inner ∧
      text = trim (oneLine inner) := by
  obtain ⟨inner, d, later, rfl, hd, hinner, hread⟩ := nested_of_readBalanced h
  rw [readBalanced_closing hd, if_pos rfl] at hread
  cases hread
  exact ⟨inner, d, rfl, hd, hinner, by simp⟩

/-! ### Expressions -/

namespace Watch

section
variable {q c : Char} {awaited cs : List Char} {w : Watch}

theorem Run.inQuotes {hidden : Bool} (h : Run ⟨awaited, some q, hidden⟩ (c :: cs) w) :
    Run (insideQuote ⟨awaited, some q, hidden⟩ q c) cs w := by
  cases h with
  | cons first later =>
    cases first with
    | quoted _ hquote =>
      cases hquote
      exact later

/-- A quote that opens is closed, if it is so at the end. -/
theorem Run.quoted (h : Run ⟨awaited, some q, false⟩ cs (.awaiting [])) :
    ∃ body later, cs = body ++ q :: later ∧ Quoted q body ∧
      Run (.awaiting awaited) later (.awaiting []) := by
  induction cs using Expr.readStringInduction with
  | nil => cases h
  | pair c cs ih =>
    have hhidden : Run ⟨awaited, some q, true⟩ (c :: cs) (.awaiting []) := h.inQuotes
    obtain ⟨body, later, rfl, hbody, hlater⟩ := ih hhidden.inQuotes
    exact ⟨'\\' :: c :: body, later, rfl, .hidden hbody, hlater⟩
  | backslash => cases h.inQuotes
  | plain c cs hc ih =>
    have hnext := h.inQuotes
    have hback : (c == '\\') = false := beq_false_of_ne hc
    by_cases heq : c = q
    · subst heq
      simp only [insideQuote, hback, beq_self_eq_true, Bool.false_eq_true, if_false, if_true] at hnext
      exact ⟨[], cs, rfl, .nil, hnext⟩
    · have hother : (c == q) = false := beq_false_of_ne heq
      simp only [insideQuote, hback, hother, Bool.false_eq_true, if_false] at hnext
      obtain ⟨body, later, rfl, hbody, hlater⟩ := ih hnext
      exact ⟨c :: body, later, rfl, .plain heq hc hbody, hlater⟩

end

end Watch

/-- A text that closes the awaited brackets, the next one first, and is nested otherwise. -/
inductive Closes : List Char → List Char → Prop
  | done {cs : List Char} (nested : Nested OwnKind cs) : Closes [] cs
  | next {d : Char} {outer inner cs : List Char} (nested : Nested OwnKind inner)
    (later : Closes outer cs) : Closes (d :: outer) (inner ++ d :: cs)

theorem Closes.prepend {awaited front cs : List Char} (h : Closes awaited cs)
    (hfront : Nested OwnKind front) : Closes awaited (front ++ cs) := by
  cases h with
  | done nested => exact .done (hfront.append nested)
  | next nested later =>
    rw [← List.append_assoc]
    exact .next (hfront.append nested) later

/-- What is awaited comes, if nothing is awaited at the end. -/
theorem Watch.Run.closes {awaited cs : List Char} (h : Watch.Run (.awaiting awaited) cs (.awaiting [])) :
    Closes awaited cs := by
  match cs, h with
  | [], h =>
    cases h
    exact .done .nil
  | c :: cs, .cons first later =>
    cases first with
    | quoted _ hquote => cases hquote
    | quote hc =>
      obtain ⟨body, between, heq, hbody, hlater⟩ := later.quoted
      have hshort : between.length < cs.length := by
        rw [heq, List.length_append, List.length_cons]
        omega
      have h := hlater.closes.prepend (.quoted hc hbody .nil)
      rwa [List.cons_append, List.append_assoc, List.singleton_append, ← heq] at h
    | opening hc =>
      -- What the bracket encloses ends where its own kind closes.
      cases later.closes with
      | next nested hclosed =>
        have h := hclosed.prepend (.brackets hc nested .nil)
        rwa [List.cons_append, List.append_assoc] at h
    | closing hc => exact .next .nil later.closes
    | comma => exact later.closes.prepend (.loose rfl .nil)
    | plain hc => exact later.closes.prepend (.loose (isLoose_of_isPlain hc) .nil)
termination_by cs.length

/-- **In an expression each bracket is closed by one of its kind.** -/
theorem nested_of_read {cs : List Char} {e : Expr} (h : Expr.read cs = .ok e) : Nested OwnKind cs := by
  cases (run_of_read h []).closes with
  | done nested => exact nested

/-! ### Parts of a list -/

/-- Blanks around a text do not matter. -/
theorem nested_of_trim {cs : List Char} (h : Nested OwnKind (trim cs)) : Nested OwnKind cs := by
  obtain ⟨front, behind, hfront, hbehind, hcs⟩ := exists_trim cs
  have hblank {blanks : List Char} (hblanks : isBlankText blanks = true) : Nested OwnKind blanks :=
    .of_loose fun c hc => isLoose_of_isBlank (List.all_eq_true.mp hblanks c hc)
  rw [hcs]
  exact ((hblank hfront).append h).append (hblank hbehind)

theorem nested_of_splitTopLevelFrom {n : Nesting} {part cs : List Char}
    (h : ∀ p ∈ splitTopLevelFrom n part cs, Nested OwnKind p) : Nested OwnKind (part.reverse ++ cs) := by
  induction cs generalizing n part with
  | nil => simpa [splitTopLevelFrom] using h
  | cons c cs ih =>
    have hmore : part.reverse ++ c :: cs = (c :: part).reverse ++ cs := by simp
    rw [splitTopLevelFrom] at h
    split at h
    · rw [hmore]
      exact ih h
    repeat' split at h
    · rw [hmore]
      exact ih h
    · rw [hmore]
      exact ih h
    · rw [hmore]
      exact ih h
    · -- The part ends at the comma.
      next hcomma =>
      have hc : c = ',' := by simp_all
      obtain ⟨hpart, hrest⟩ := List.forall_mem_cons.mp h
      rw [hc]
      exact hpart.append (.loose rfl (ih hrest))
    · rw [hmore]
      exact ih h

/-- **A list is nested if its parts are.** -/
theorem nested_of_parts {cs : List Char} (h : ∀ part ∈ splitTopLevel cs, Nested OwnKind part) :
    Nested OwnKind cs := by
  have hparts : (∀ p ∈ splitTopLevelFrom .outside [] cs, Nested OwnKind p) → Nested OwnKind cs :=
    nested_of_splitTopLevelFrom
  refine hparts fun p hp => nested_of_trim ?_
  have hmem : trim p ∈ (splitTopLevelFrom .outside [] cs).map trim := List.mem_map_of_mem hp
  rw [splitTopLevel_eq] at h
  split at h
  · next hblank =>
    rw [hblank, List.mem_singleton] at hmem
    rw [hmem]
    exact .nil
  · exact h _ hmem

/-! ### Texts of several lines -/

/-- A character that comes out as one that is no blank was that before. -/
theorem cons_of_oneLine {d : Char} (hd : d ≠ ' ') {cs ds : List Char} (h : oneLine cs = d :: ds) :
    ∃ behind, cs = d :: behind ∧ oneLine behind = ds := by
  obtain ⟨c, behind, rfl, hc, hbehind⟩ := List.map_eq_cons_iff.mp h
  split at hc
  · exact absurd hc.symm hd
  · exact ⟨behind, by rw [hc], hbehind⟩

theorem quoted_of_oneLine {q : Char} (hq : isQuote q = true) {cs : List Char}
    (h : Quoted q (oneLine cs)) : Quoted q cs := by
  generalize hone : oneLine cs = ds at h
  induction h generalizing cs with
  | nil =>
    rw [List.map_eq_nil_iff.mp hone]
    exact .nil
  | @plain d ds hquote hback _ ih =>
    obtain ⟨c, cs, rfl, hc, hrest⟩ := List.map_eq_cons_iff.mp hone
    split at hc
    · next hline =>
      -- A line feed is neither a quote nor a backslash.
      subst hline
      refine .plain ?_ (by decide) (ih hrest)
      rintro rfl
      cases hq
    · subst hc
      exact .plain hquote hback (ih hrest)
  | @hidden d ds _ ih =>
    obtain ⟨behind, rfl, hbehind⟩ := cons_of_oneLine (by decide) hone
    obtain ⟨c, cs, rfl, -, hrest⟩ := List.map_eq_cons_iff.mp hbehind
    exact .hidden (ih hrest)

/-- Line feeds are loose as blanks are. -/
theorem nested_of_oneLine {cs : List Char} (h : Nested OwnKind (oneLine cs)) : Nested OwnKind cs := by
  generalize hone : oneLine cs = ds at h
  induction h generalizing cs with
  | nil =>
    rw [List.map_eq_nil_iff.mp hone]
    exact .nil
  | loose hloose _ ih =>
    obtain ⟨c, cs, rfl, hc, hrest⟩ := List.map_eq_cons_iff.mp hone
    refine .loose ?_ (ih hrest)
    split at hc
    · next hline => rw [hline]; rfl
    · rwa [hc]
  | quoted hq inside _ ih =>
    have hblank : ∀ d, isQuote d = true → d ≠ ' ' := by
      rintro d hd rfl
      cases hd
    obtain ⟨behind, rfl, hbehind⟩ := cons_of_oneLine (hblank _ hq) hone
    obtain ⟨text, later, rfl, rfl, hlater⟩ := List.map_eq_append_iff.mp hbehind
    obtain ⟨rest, rfl, hrest⟩ := cons_of_oneLine (hblank _ hq) hlater
    exact .quoted hq (quoted_of_oneLine hq inside) (ih hrest)
  | @brackets o d _ _ pair _ _ ihinside ih =>
    have hblank : o ≠ ' ' ∧ d ≠ ' ' := by
      revert pair
      unfold OwnKind closer?
      split <;> simp +contextual [eq_comm]
    obtain ⟨behind, rfl, hbehind⟩ := cons_of_oneLine hblank.1 hone
    obtain ⟨inner, later, rfl, hinner, hlater⟩ := List.map_eq_append_iff.mp hbehind
    obtain ⟨rest, rfl, hrest⟩ := cons_of_oneLine hblank.2 hlater
    exact .brackets pair (ihinside hinner) (ih hrest)

end Trellis.Source
