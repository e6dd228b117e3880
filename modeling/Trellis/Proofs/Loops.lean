import Mathlib.Logic.Relation
import Trellis.Proofs.Placement

/-!
# `Trellis.Proofs.Loops`: a place in a text that grows

The readers of lists in brackets are given the text of a statement together with all lines below it.
A reader that goes through a template by itself has less in hand: the text that it has joined so far,
a place in it, and the number of lines that are used up. That is a `Cursor`. Where its text ends, a
loop may take in one further line (`Cursor.extend?`), which is trimmed and put behind a blank.
`Cursor.left` is what a reader of the text with all lines below would be given at this place.

Here a loop is a function that does one `Turn`. Nothing in it says that the loop ends; `Finishes`
does, and `GoesOnWith` puts runs together. `Cursor.Advances` is what one turn may do to a
cursor: it moves the place within the text, or takes in the next line. Then the cursor stays
`Within` its text and its lines (`Cursor.Advances.within`).

The loop of this module is `balancedTurn`, which looks for the bracket that closes a list. It does
what `balanced` does and every turn of it advances (`progress_balanced`), and it meets no closing
bracket without an open one (`depth_pos_of_comes`). `Trellis.Proofs.AttributeLoop` goes on to
attributes.
-/

set_option autoImplicit false

namespace Trellis.Source

open Trellis.Text

/-! ### Loops -/

/-- What one turn of a loop comes to. -/
inductive Turn (σ ρ : Type) where
  | again (s : σ)
  | stop (result : ρ)

section
variable {σ ρ : Type} {turn : σ → Turn σ ρ} {s s' : σ}

/-- From the state, the loop is over after finitely many turns and gives the result. -/
inductive Finishes (turn : σ → Turn σ ρ) : σ → ρ → Prop
  | stop {s : σ} {result : ρ} (h : turn s = .stop result) : Finishes turn s result
  | again {s s' : σ} {result : ρ} (h : turn s = .again s') (rest : Finishes turn s' result) :
    Finishes turn s result

/-- The loop comes from one state to the other. -/
def Comes (turn : σ → Turn σ ρ) : σ → σ → Prop :=
  Relation.ReflTransGen fun s s' => turn s = .again s'

/-- What every turn keeps, the loop keeps. -/
theorem Comes.keeps {P : σ → Prop} (hturn : ∀ s s', P s → turn s = .again s' → P s')
    (h : Comes turn s s') (hs : P s) : P s' := by
  induction h with
  | refl => exact hs
  | tail _ hlast ih => exact hturn _ _ ih hlast

/-- A turn leads to a result, at once or after the turns that follow. -/
def Turn.Gives (turn : σ → Turn σ ρ) : Turn σ ρ → ρ → Prop
  | .again s, result => Finishes turn s result
  | .stop result', result => result' = result

theorem finishes_iff {result : ρ} : Finishes turn s result ↔ (turn s).Gives turn result := by
  constructor
  · rintro (h | ⟨h, rest⟩)
    · rw [h]
      rfl
    · rwa [h]
  · intro h
    cases hturn : turn s with
    | again s' =>
      rw [hturn] at h
      exact .again hturn h
    | stop result' =>
      rw [hturn] at h
      exact .stop (hturn.trans (congrArg Turn.stop h))

/-- From the state, the loop gives whatever a turn of another state leads to. -/
def GoesOnWith (turn : σ → Turn σ ρ) (s : σ) (t : Turn σ ρ) : Prop :=
  ∀ result, t.Gives turn result → Finishes turn s result

theorem GoesOnWith.of_eq {t : Turn σ ρ} (h : turn s = t) : GoesOnWith turn s t := by
  intro result hresult
  rw [finishes_iff, h]
  exact hresult

/-- Two states with the same turn go on alike. -/
theorem GoesOnWith.congr {t : Turn σ ρ} (h : turn s = turn s') (h' : GoesOnWith turn s' t) :
    GoesOnWith turn s t := by
  intro result hresult
  rw [finishes_iff, h, ← finishes_iff]
  exact h' result hresult

theorem GoesOnWith.refl (s : σ) : GoesOnWith turn s (.again s) := fun _ h => h

/-- One turn more in front. -/
theorem GoesOnWith.step {t : Turn σ ρ} (h : turn s = .again s') (h' : GoesOnWith turn s' t) :
    GoesOnWith turn s t := fun result hresult => .again h (h' result hresult)

end

/-! ### Cursors -/

theorem drop_of_getElem? {α : Type} {xs : List α} {n : Nat} {x : α} (h : xs[n]? = some x) :
    xs.drop n = x :: xs.drop (n + 1) :=
  List.drop_eq_getElem?_toList_append.trans (by rw [h]; rfl)

/-- A text that was joined from some lines, a place in it, and the number of lines of the template
that are used up. -/
structure Cursor where
  text : List Char
  place : Nat
  next : Nat

/-- The lines behind each other, each after a line feed and trimmed. -/
def trimmedLines (lines : List (List Char)) : List Char := lines.flatMap fun line => '\n' :: trim line

namespace Cursor

/-- The character at the place. -/
def char? (c : Cursor) : Option Char := c.text[c.place]?

/-- What stands from the place on. -/
def ahead (c : Cursor) : List Char := c.text.drop c.place

/-- What stands between a place before and the place. -/
def span (start : Nat) (c : Cursor) : List Char := (c.text.take c.place).drop start

/-- Moves the place forward. -/
def move (c : Cursor) (k : Nat) : Cursor := { c with place := c.place + k }

/-- Takes in the next line, if there is one: behind a blank, and trimmed. -/
def extend? (lines : List (List Char)) (c : Cursor) : Option Cursor :=
  lines[c.next]?.map fun line => { c with text := c.text ++ ' ' :: trim line, next := c.next + 1 }

/-- What is left to be read: the text from the place on, and the lines that are not used up. -/
def left (lines : List (List Char)) (c : Cursor) : List Char :=
  c.ahead ++ trimmedLines (lines.drop c.next)

/-- The place is in the text, no more lines are used than there are, and the text is one line. -/
structure Within (lines : List (List Char)) (c : Cursor) : Prop where
  place : c.place ≤ c.text.length
  next : c.next ≤ lines.length
  line : '\n' ∉ c.text

/-- What one turn does to a cursor: it moves forward in the text, or it takes in the next line at the
end of the text. -/
inductive Advances (lines : List (List Char)) : Cursor → Cursor → Prop
  | move {c : Cursor} {k : Nat} (hk : 0 < k) (h : c.place + k ≤ c.text.length) :
    Advances lines c (c.move k)
  | extend {c c' : Cursor} (hend : c.place = c.text.length) (h : c.extend? lines = some c') :
    Advances lines c c'

variable {lines : List (List Char)} {c c' : Cursor} {d : Char}

theorem move_move (c : Cursor) (j k : Nat) : (c.move j).move k = c.move (j + k) := by
  simp [move, Nat.add_assoc]

@[simp] theorem span_self (c : Cursor) : c.span c.place = [] :=
  List.drop_eq_nil_iff.mpr (List.length_take_le _ _)

/-- Characters of the text that are passed over are those that are left first. -/
theorem left_move {k : Nat} (h : c.place + k ≤ c.text.length) :
    (c.move k).left lines = (c.left lines).drop k := by
  show c.text.drop (c.place + k) ++ _ = (c.text.drop c.place ++ _).drop k
  rw [List.drop_append_of_le_length (by rw [List.length_drop]; omega), List.drop_drop]
  rfl

theorem lt_of_char? (h : c.char? = some d) : c.place < c.text.length :=
  (List.getElem?_eq_some_iff.mp h).1

theorem ahead_of_char? (h : c.char? = some d) : c.ahead = d :: (c.move 1).ahead := drop_of_getElem? h

/-- In front of the end of the text, the first character that is left is the one at the place. -/
theorem left_of_char? (h : c.char? = some d) : c.left lines = d :: (c.move 1).left lines := by
  rw [left, ahead_of_char? h]
  rfl

theorem ne_newline_of_char? (hc : c.Within lines) (h : c.char? = some d) : d ≠ '\n' := by
  rintro rfl
  exact hc.line (List.mem_of_getElem? h)

/-- At the end of the text, only lines are left. -/
theorem left_of_end (h : c.char? = none) : c.left lines = trimmedLines (lines.drop c.next) := by
  have hend : c.ahead = [] := List.drop_eq_nil_iff.mpr (List.getElem?_eq_none_iff.mp h)
  rw [left, hend, List.nil_append]

theorem place_of_end (hc : c.Within lines) (h : c.char? = none) : c.place = c.text.length :=
  hc.place.antisymm (List.getElem?_eq_none_iff.mp h)

/-- If a line is taken in, the line feed in front of it becomes a blank. -/
theorem left_of_extend? (hc : c.Within lines) (h : c.char? = none) (hext : c.extend? lines = some c') :
    c'.char? = some ' ' ∧ c.left lines = '\n' :: (c'.move 1).left lines := by
  obtain ⟨line, hline, rfl⟩ := Option.map_eq_some_iff.mp hext
  have hplace := place_of_end hc h
  constructor
  · rw [char?, hplace, List.getElem?_append_right (Nat.le_refl _)]
    simp
  · rw [left_of_end h, drop_of_getElem? hline]
    simp [left, ahead, move, hplace, trimmedLines]

theorem left_of_end_of_lines (h : c.char? = none) (hext : c.extend? lines = none) : c.left lines = [] := by
  have hnone : lines.length ≤ c.next := List.getElem?_eq_none_iff.mp (Option.map_eq_none_iff.mp hext)
  rw [left_of_end h, List.drop_eq_nil_of_le hnone]
  rfl

/-- What there is at a place: a character, the end of the text with a line below, or nothing more. -/
inductive Here (lines : List (List Char)) (c : Cursor) : Prop
  | char (d : Char) (h : c.char? = some d) (hd : d ≠ '\n')
    (hleft : c.left lines = d :: (c.move 1).left lines)
  | line (c' : Cursor) (h : c.char? = none) (hext : c.extend? lines = some c') (hblank : c'.char? = some ' ')
    (hleft : c.left lines = '\n' :: (c'.move 1).left lines)
  | nothing (h : c.char? = none) (hext : c.extend? lines = none) (hleft : c.left lines = [])

theorem here (hc : c.Within lines) : c.Here lines := by
  cases h : c.char? with
  | some d => exact .char d h (ne_newline_of_char? hc h) (left_of_char? h)
  | none =>
    cases hext : c.extend? lines with
    | some c' => exact .line c' h hext (left_of_extend? hc h hext).1 (left_of_extend? hc h hext).2
    | none => exact .nothing h hext (left_of_end_of_lines h hext)

/-- A character that is left first and is no line feed stands at the place. -/
theorem char?_of_left (hc : c.Within lines) {cs : List Char} (hd : d ≠ '\n') (h : c.left lines = d :: cs) :
    c.char? = some d ∧ (c.move 1).left lines = cs := by
  cases here hc with
  | char d' hchar _ hleft =>
    obtain ⟨rfl, hrest⟩ := List.cons.inj (hleft.symm.trans h)
    exact ⟨hchar, hrest⟩
  | line c' _ _ _ hleft => exact absurd (List.cons.inj (h.symm.trans hleft)).1 hd
  | nothing _ _ hleft => cases h.symm.trans hleft

/-- Where nothing is left, the text ends and there is no further line. -/
theorem end_of_left (hc : c.Within lines) (h : c.left lines = []) :
    c.char? = none ∧ c.extend? lines = none := by
  cases here hc with
  | char d' _ _ hleft => cases h.symm.trans hleft
  | line c' _ _ _ hleft => cases h.symm.trans hleft
  | nothing hend hext _ => exact ⟨hend, hext⟩

/-- **Whatever advances stays within the text and the lines.** -/
theorem Advances.within (hlines : AreLines lines) (hc : c.Within lines) (h : c.Advances lines c') :
    c'.Within lines := by
  cases h with
  | move _ h => exact ⟨h, hc.next, hc.line⟩
  | extend hend h =>
    obtain ⟨line, hline, rfl⟩ := Option.map_eq_some_iff.mp h
    have hplace := hc.place
    refine ⟨?_, (List.getElem?_eq_some_iff.mp hline).1, ?_⟩
    · show c.place ≤ (c.text ++ ' ' :: trim line).length
      rw [List.length_append]
      omega
    · intro hmem
      rcases List.mem_append.mp hmem with hmem | hmem
      · exact hc.line hmem
      rcases List.mem_cons.mp hmem with hmem | hmem
      · cases hmem
      · exact hlines line (List.mem_of_getElem? hline) (trim_subset line hmem)

theorem advances_of_char? (h : c.char? = some d) : c.Advances lines (c.move 1) :=
  .move Nat.one_pos (lt_of_char? h)

theorem advances_of_extend? (hc : c.Within lines) (h : c.char? = none)
    (hext : c.extend? lines = some c') : c.Advances lines c' :=
  .extend (place_of_end hc h) hext

theorem Within.pass (hc : c.Within lines) (h : c.char? = some d) : (c.move 1).Within lines :=
  ⟨lt_of_char? h, hc.next, hc.line⟩

theorem Within.take (hc : c.Within lines) (hlines : AreLines lines) (h : c.char? = none)
    (hext : c.extend? lines = some c') : c'.Within lines :=
  (advances_of_extend? hc h hext).within hlines hc

/-- Lines that are used up stay used up. -/
theorem Advances.next_le (h : c.Advances lines c') : c.next ≤ c'.next := by
  cases h with
  | move => exact le_refl _
  | extend _ h =>
    obtain ⟨line, -, rfl⟩ := Option.map_eq_some_iff.mp h
    exact Nat.le_succ _

/-- One cursor comes of another by advancing. -/
def Reaches (lines : List (List Char)) : Cursor → Cursor → Prop := Relation.ReflTransGen (Advances lines)

theorem Reaches.within (hlines : AreLines lines) (hc : c.Within lines) (h : c.Reaches lines c') :
    c'.Within lines := by
  induction h with
  | refl => exact hc
  | tail _ hlast ih => exact hlast.within hlines ih

theorem Reaches.next_le (h : c.Reaches lines c') : c.next ≤ c'.next := by
  induction h with
  | refl => exact le_refl _
  | tail _ hlast ih => exact ih.trans hlast.next_le

/-- One character more is behind the place. -/
theorem span_move {start : Nat} (hstart : start ≤ c.place) (h : c.char? = some d) :
    (c.move 1).span start = c.span start ++ [d] := by
  have hlt := lt_of_char? h
  show (c.text.take (c.place + 1)).drop start = (c.text.take c.place).drop start ++ [d]
  rw [List.take_add_one, show c.text[c.place]? = some d from h, Option.toList_some,
    List.drop_append_of_le_length (by rw [List.length_take]; omega)]

/-- A line that is taken in leaves alone what stands behind the place. -/
theorem span_of_extend? (hc : c.Within lines) (hext : c.extend? lines = some c') (start : Nat) :
    c'.span start = c.span start ∧ c'.place = c.place := by
  obtain ⟨line, -, rfl⟩ := Option.map_eq_some_iff.mp hext
  refine ⟨?_, rfl⟩
  show ((c.text ++ _).take c.place).drop start = _
  rw [List.take_append_of_le_length hc.place]
  rfl

end Cursor

/-- A loop over a text comes to an end with a result. Until then, every turn advances the cursor, which
stays within its text and its lines. -/
structure Progress {σ ρ : Type} (lines : List (List Char)) (turn : σ → Turn σ ρ) (cursor : σ → Cursor)
    (start : σ) (result : ρ) : Prop where
  finishes : Finishes turn start result
  turns : ∀ s, Comes turn start s → (cursor s).Within lines ∧
    ∀ s', turn s = .again s' → (cursor s).Advances lines (cursor s')

/-- Takes in the next line, at a place where the text ends too early; without one it is a fault. -/
def takeLine {σ ρ : Type} (lines : List (List Char)) (c : Cursor) (again : Cursor → σ) (fault : ScanFault) :
    Turn σ (Except ScanFault ρ) :=
  match c.extend? lines with
  | some c => .again (again c)
  | none => .stop (.error fault)

/-! ### The bracket that closes a list -/

/-- One turn of the loop that looks for the end of a list, whose text begins at `start`. -/
def balancedTurn (lines : List (List Char)) (start : Nat) :
    Nesting × Cursor → Turn (Nesting × Cursor) (Except ScanFault (List Char × Cursor))
  | (n, c) =>
    match c.char? with
    | none =>
      if n.quote.isSome then .stop (.error .openString)
      else takeLine lines c (fun c => (n, c)) .openParenthesis
    | some d =>
      match n.quote with
      | some q => .again (n.insideQuote q d, c.move 1)
      | none =>
        if isQuote d then .again ({ n with quote := some d }, c.move 1)
        else if opensBracket d then .again ({ n with depth := n.depth + 1 }, c.move 1)
        else if closesBracket d then
          if n.depth - 1 = 0 then .stop (.ok (trim (c.span start), c.move 1))
          else .again ({ n with depth := n.depth - 1 }, c.move 1)
        else .again (n, c.move 1)

variable {lines : List (List Char)} {start : Nat}

theorem depth_insideQuote (n : Nesting) (q d : Char) : (n.insideQuote q d).depth = n.depth := by
  unfold Nesting.insideQuote
  split
  · rfl
  split
  · rfl
  split <;> rfl

/-- A loop that goes on with the next line has taken it in. -/
theorem of_takeLine {σ ρ : Type} {c : Cursor} {again : Cursor → σ} {fault : ScanFault} {s : σ}
    (h : (takeLine lines c again fault : Turn σ (Except ScanFault ρ)) = .again s) :
    ∃ c', c.extend? lines = some c' ∧ s = again c' := by
  unfold takeLine at h
  split at h
  · next c' hext =>
    cases h
    exact ⟨c', hext, rfl⟩
  · cases h

/-- What is read and the cursor behind it, as what is read and what is left. -/
def readTo {α : Type} (lines : List (List Char)) (r : Except ScanFault (α × Cursor)) :
    Except ScanFault (α × List Char) :=
  r.map fun p => (p.1, p.2.left lines)

/-- What a character inside the list does to the loop and to the reader alike: both go on with the same
nesting, or the list is over behind it. -/
inductive BalancedAlike (lines : List (List Char)) (start : Nat) (n : Nesting) (c : Cursor) (d : Char) : Prop
  | goesOn (n' : Nesting) (hdepth : 0 < n'.depth)
    (hturn : balancedTurn lines start (n, c) = .again (n', c.move 1))
    (hread : ∀ inner cs, readBalanced n inner (d :: cs) = readBalanced n' (d :: inner) cs)
  | closes (hturn : balancedTurn lines start (n, c) = .stop (.ok (trim (c.span start), c.move 1)))
    (hread : ∀ inner cs, readBalanced n inner (d :: cs) = .ok (trim inner.reverse, cs))

theorem balancedAlike {n : Nesting} {c : Cursor} {d : Char} (h : c.char? = some d) (hd : d ≠ '\n')
    (hdepth : 0 < n.depth) : BalancedAlike lines start n c d := by
  cases hquote : n.quote with
  | some q =>
    refine .goesOn (n.insideQuote q d) ?_ (by simp only [balancedTurn, h, hquote]) fun inner cs => ?_
    · rwa [depth_insideQuote]
    · simp [readBalanced, hquote, hd]
  | none =>
    by_cases hq : isQuote d = true
    · exact .goesOn { n with quote := some d } hdepth (by simp [balancedTurn, h, hquote, hq])
        fun inner cs => by simp [readBalanced, hquote, hd, hq]
    by_cases hopens : opensBracket d = true
    · exact .goesOn { n with depth := n.depth + 1 } (Nat.succ_pos _)
        (by simp [balancedTurn, h, hquote, hq, hopens])
        fun inner cs => by simp [readBalanced, hquote, hd, hq, hopens]
    by_cases hcloses : closesBracket d = true
    · by_cases hlast : n.depth ≤ 1
      · -- The bracket that was looked for.
        have hzero : n.depth - 1 = 0 := by omega
        exact .closes (by simp [balancedTurn, h, hquote, hq, hopens, hcloses, hzero])
          fun inner cs => by simp [readBalanced, hquote, hd, hq, hopens, hcloses, hlast]
      · have hmore : n.depth - 1 ≠ 0 := by omega
        exact .goesOn { n with depth := n.depth - 1 } (by show 0 < n.depth - 1; omega)
          (by simp [balancedTurn, h, hquote, hq, hopens, hcloses, hmore])
          fun inner cs => by simp [readBalanced, hquote, hd, hq, hopens, hcloses, hlast]
    · exact .goesOn n hdepth (by simp [balancedTurn, h, hquote, hq, hopens, hcloses])
        fun inner cs => by simp [readBalanced, hquote, hd, hq, hopens, hcloses]

/-- Inside the list, the loop does what the reader does with what is left. A further line takes two
turns, one for the line and one for the blank in front of it. -/
theorem finishes_readBalanced (hlines : AreLines lines) {n : Nesting} {c : Cursor}
    (hc : c.Within lines) (hstart : start ≤ c.place) (hdepth : 0 < n.depth) :
    ∃ r, Finishes (balancedTurn lines start) (n, c) r ∧
      readBalanced n (c.span start).reverse (c.left lines) = readTo lines r := by
  cases Cursor.here hc with
  | nothing h hext hleft =>
    rw [hleft]
    refine ⟨.error (if n.quote.isSome then .openString else .openParenthesis), .stop ?_, rfl⟩
    simp only [balancedTurn, takeLine, h, hext]
    split <;> rfl
  | line c' h hext hblank hleft =>
    have hc' := hc.take hlines h hext
    cases hquote : n.quote with
    | some q =>
      -- A text in quotes has to end on its line.
      refine ⟨.error .openString, .stop ?_, ?_⟩
      · simp only [balancedTurn, h, hquote]
        rfl
      · rw [hleft, readBalanced, hquote]
        rfl
    | none =>
      obtain ⟨hspan, hplace⟩ := Cursor.span_of_extend? hc hext start
      have hmove := hc'.pass hblank
      obtain ⟨r, hr, hread⟩ := finishes_readBalanced hlines (n := n) hmove
        (by show start ≤ c'.place + 1; omega) hdepth
      have hline : balancedTurn lines start (n, c) = .again (n, c') := by
        simp only [balancedTurn, takeLine, h, hext, hquote]
        rfl
      have hturn : balancedTurn lines start (n, c') = .again (n, c'.move 1) := by
        simp only [balancedTurn, hblank, hquote]
        rfl
      refine ⟨r, .again hline (.again hturn hr), ?_⟩
      rw [hleft, readBalanced, hquote, ← hread, Cursor.span_move (by omega) hblank, hspan]
      simp
  | char d h hd hleft =>
    cases (balancedAlike h hd hdepth : BalancedAlike lines start n c d) with
    | goesOn n' hdepth' hturn hread =>
      obtain ⟨r, hr, hrest⟩ := finishes_readBalanced hlines (n := n') (hc.pass h)
        (by show start ≤ c.place + 1; omega) hdepth'
      refine ⟨r, .again hturn hr, ?_⟩
      rw [hleft, hread, ← hrest, Cursor.span_move hstart h, List.reverse_append]
      rfl
    | closes hturn hread =>
      refine ⟨.ok (trim (c.span start), c.move 1), .stop hturn, ?_⟩
      rw [hleft, hread, List.reverse_reverse]
      rfl
termination_by (c.left lines).length
decreasing_by all_goals simp [hleft]

/-- **The loop does what `balanced` does**, from the parenthesis in front of the list on. -/
theorem finishes_balanced (hlines : AreLines lines) {c : Cursor} (hc : c.Within lines)
    (h : c.char? = some '(') :
    ∃ r, Finishes (balancedTurn lines (c.place + 1)) (.outside, c) r ∧
      balanced ((c.move 1).left lines) = readTo lines r := by
  have hmove := hc.pass h
  obtain ⟨r, hr, hread⟩ := finishes_readBalanced hlines (n := ⟨1, none, false⟩) hmove
    (le_refl (c.place + 1)) Nat.one_pos
  refine ⟨r, .again ?_ hr, ?_⟩
  · simp only [balancedTurn, h]
    rfl
  · rw [balanced, ← hread]
    simp [Cursor.span, Cursor.move]

/-- What holds whenever the loop that looks for the end of a list takes a turn: the cursor is within
its text and its lines, and the loop is inside a bracket unless it has just begun. -/
structure BalancedStand (lines : List (List Char)) (s : Nesting × Cursor) : Prop where
  within : s.2.Within lines
  inside : 0 < s.1.depth ∨ s.1 = .outside ∧ s.2.char? = some '('

/-- **One turn of the loop** advances, and the loop stays inside a bracket. -/
theorem BalancedStand.turn (hlines : AreLines lines) {s s' : Nesting × Cursor}
    (hs : BalancedStand lines s) (h : balancedTurn lines start s = .again s') :
    s.2.Advances lines s'.2 ∧ BalancedStand lines s' := by
  obtain ⟨n, c⟩ := s
  obtain ⟨hc, hinside⟩ := hs
  have moves (n' : Nesting) (hdepth : 0 < n'.depth) {d : Char} (hd : c.char? = some d) :
      c.Advances lines (c.move 1) ∧ BalancedStand lines (n', c.move 1) :=
    have hadv := Cursor.advances_of_char? hd
    ⟨hadv, hadv.within hlines hc, .inl hdepth⟩
  rcases hinside with hdepth | ⟨rfl, hopen⟩
  case inr =>
    -- The first turn passes over the parenthesis.
    simp only [balancedTurn, hopen] at h
    cases h
    exact moves ⟨1, none, false⟩ Nat.one_pos hopen
  dsimp only at hdepth
  cases hchar : c.char? with
  | none =>
    simp only [balancedTurn, hchar] at h
    split at h
    · cases h
    obtain ⟨c', hext, rfl⟩ := of_takeLine h
    have hadv := Cursor.advances_of_extend? hc hchar hext
    exact ⟨hadv, hadv.within hlines hc, .inl hdepth⟩
  | some d =>
    have hd := Cursor.ne_newline_of_char? hc hchar
    cases (balancedAlike hchar hd hdepth : BalancedAlike lines start n c d) with
    | goesOn n' hdepth' hturn =>
      cases h.symm.trans hturn
      exact moves n' hdepth' hchar
    | closes hturn => cases h.symm.trans hturn

/-- Behind the list, the cursor has advanced once more. -/
theorem advances_of_stop {s : Nesting × Cursor} {inner : List Char} {c' : Cursor}
    (h : balancedTurn lines start s = .stop (.ok (inner, c'))) : s.2.Advances lines c' := by
  obtain ⟨n, c⟩ := s
  rw [balancedTurn] at h
  split at h
  · split at h
    · cases h
    · unfold takeLine at h
      split at h <;> cases h
  next d hd =>
  split at h
  · cases h
  split at h
  · cases h
  split at h
  · cases h
  split at h
  · split at h
    · cases h
      exact Cursor.advances_of_char? hd
    · cases h
  · cases h

/-- Behind the list, the cursor comes of the one in front by advancing. -/
theorem BalancedStand.reaches (hlines : AreLines lines) {s : Nesting × Cursor} (hs : BalancedStand lines s)
    {inner : List Char} {c' : Cursor} (h : Finishes (balancedTurn lines start) s (.ok (inner, c'))) :
    s.2.Reaches lines c' := by
  generalize hresult : (.ok (inner, c') : Except ScanFault (List Char × Cursor)) = result at h
  induction h with
  | stop h =>
    subst hresult
    exact .single (advances_of_stop h)
  | again h _ ih =>
    obtain ⟨hadv, hs'⟩ := hs.turn hlines h
    exact .head hadv (ih hs' hresult)

section
variable {c : Cursor}

/-- Whenever the loop takes a turn. -/
theorem balancedStand_of_comes (hlines : AreLines lines) (hc : c.Within lines) (h : c.char? = some '(')
    {s : Nesting × Cursor} (hs : Comes (balancedTurn lines start) (.outside, c) s) : BalancedStand lines s :=
  hs.keeps (fun _ _ hs hturn => (hs.turn hlines hturn).2) ⟨hc, .inr ⟨rfl, h⟩⟩

/-- **The loop makes progress**, and does what `balanced` does. -/
theorem progress_balanced (hlines : AreLines lines) (hc : c.Within lines) (h : c.char? = some '(') :
    ∃ r, Progress lines (balancedTurn lines (c.place + 1)) Prod.snd (.outside, c) r ∧
      balanced ((c.move 1).left lines) = readTo lines r := by
  obtain ⟨r, hfinishes, hread⟩ := finishes_balanced hlines hc h
  refine ⟨r, ⟨hfinishes, fun s hs => ?_⟩, hread⟩
  have hstand := balancedStand_of_comes hlines hc h hs
  exact ⟨hstand.within, fun s' hturn => (hstand.turn hlines hturn).1⟩

/-- **The depth never falls below nothing**: where the loop comes to a closing bracket, a bracket is
open. -/
theorem depth_pos_of_comes (hlines : AreLines lines) (hc : c.Within lines) (h : c.char? = some '(')
    {s : Nesting × Cursor} (hs : Comes (balancedTurn lines start) (.outside, c) s) {d : Char}
    (hd : s.2.char? = some d) (hcloses : closesBracket d = true) : 0 < s.1.depth := by
  rcases (balancedStand_of_comes hlines hc h hs).inside with hdepth | ⟨-, hopen⟩
  · exact hdepth
  · rw [hopen] at hd
    cases hd
    cases hcloses

end

end Trellis.Source
