import Mathlib.Data.List.TakeWhile
import Trellis.Proofs.Steps
import Trellis.Source.Line

/-!
# `Trellis.Proofs.LineEnds`: readers of lists in brackets and the lines below

A reader is given the text of a statement with all lines below it, since brackets may run over
some of them. It looks at no more than the line on which it stops. So what it reads does not
depend on the lines behind that one: `Local` says this of a reader.

This module is about lines in a text, and about the readers of lists in brackets: balanced texts,
attribute values, attribute names, and whole attribute lists. `Trellis.Proofs.Locality` goes on to
statements.
-/

set_option autoImplicit false

namespace Trellis.Source

open Trellis.Text

/-! ### Lines -/

theorem currentLine_append {rest rest' : List Char} (h : currentLine rest' = currentLine rest)
    (front : List Char) : currentLine (front ++ rest') = currentLine (front ++ rest) := by
  induction front with
  | nil => exact h
  | cons c front ih =>
    unfold currentLine at ih ⊢
    rw [List.cons_append, List.cons_append, List.takeWhile_cons, List.takeWhile_cons, ih]

theorem currentLine_append_belowLine (cs : List Char) : currentLine cs ++ belowLine cs = cs :=
  List.takeWhile_append_dropWhile

theorem newline_notMem_currentLine (cs : List Char) : '\n' ∉ currentLine cs := by
  intro h
  have := List.mem_takeWhile_imp h
  simp at this

theorem currentLine_of_notMem {cs : List Char} (h : '\n' ∉ cs) : currentLine cs = cs := by
  refine List.takeWhile_eq_self_iff.mpr fun c hc => ?_
  have hne : c ≠ '\n' := fun heq => h (heq ▸ hc)
  simpa using hne

/-- Behind a line there is nothing, or a line feed. -/
theorem currentLine_belowLine (cs : List Char) : currentLine (belowLine cs) = [] := by
  have h := List.head?_dropWhile_not (· != '\n') cs
  unfold belowLine currentLine
  cases hcs : cs.dropWhile (· != '\n') with
  | nil => rfl
  | cons c rest =>
    rw [hcs] at h
    have hc : (c != '\n') = false := by simpa using h
    rw [List.takeWhile_cons, hc]
    rfl

/-- A line is followed by what is below. -/
theorem currentLine_append_of_ends {line below : List Char} (hline : '\n' ∉ line)
    (hbelow : currentLine below = []) : currentLine (line ++ below) = line := by
  have h : currentLine below = currentLine ([] : List Char) := hbelow
  rw [currentLine_append h, List.append_nil, currentLine_of_notMem hline]

theorem belowLine_append_of_ends {line below : List Char} (hline : '\n' ∉ line)
    (hbelow : currentLine below = []) : belowLine (line ++ below) = below := by
  have h := currentLine_append_belowLine (line ++ below)
  rw [currentLine_append_of_ends hline hbelow] at h
  exact List.append_cancel_left h

/-- Texts with the same line begin with the same character, unless it ends a line. -/
theorem headIs_of_currentLine {rest rest' : List Char} (h : currentLine rest' = currentLine rest)
    {p : Char → Bool} (hp : p '\n' = false) : headIs p rest' = headIs p rest := by
  have hhead : ∀ cs, headIs p cs = headIs p (currentLine cs) := by
    intro cs
    cases cs with
    | nil => rfl
    | cons c cs =>
      unfold currentLine
      rw [List.takeWhile_cons]
      by_cases hc : c = '\n'
      · subst hc
        exact hp
      · rw [if_pos (by simpa using hc)]
        rfl
  rw [hhead, h, ← hhead]

/-- A text whose line goes on with a character begins with it. -/
theorem eq_cons_of_currentLine {c : Char} (hc : c ≠ '\n') {cs rest' : List Char}
    (h : currentLine rest' = currentLine (c :: cs)) :
    ∃ cs', rest' = c :: cs' ∧ currentLine cs' = currentLine cs := by
  unfold currentLine at h ⊢
  rw [List.takeWhile_cons, if_pos (by simpa using hc)] at h
  cases rest' with
  | nil => cases h
  | cons c' cs' =>
    rw [List.takeWhile_cons] at h
    split at h
    · obtain ⟨rfl, hrest⟩ := List.cons.inj h
      exact ⟨cs', rfl, hrest⟩
    · cases h

/-- A text with an empty line is at an end. -/
theorem eq_nil_or_of_currentLine {rest : List Char} (h : currentLine rest = []) :
    rest = [] ∨ ∃ cs, rest = '\n' :: cs := by
  cases rest with
  | nil => exact .inl rfl
  | cons c cs =>
    by_cases hc : c = '\n'
    · exact .inr ⟨cs, by rw [hc]⟩
    · unfold currentLine at h
      rw [List.takeWhile_cons, if_pos (by simpa using hc)] at h
      cases h

/-! ### Runs of characters -/

section
variable {p : Char → Bool}

theorem takeWhile_append_of_not {cs rest' : List Char} (h : headIs p rest' = false) :
    (cs.takeWhile p ++ rest').takeWhile p = cs.takeWhile p := by
  have hall : ∀ c ∈ cs.takeWhile p, p c = true := fun c hc => List.mem_takeWhile_imp hc
  rw [List.takeWhile_append_of_pos hall]
  cases rest' with
  | nil => exact List.append_nil _
  | cons c rest' =>
    rw [List.takeWhile_cons_of_neg (by simpa [headIs] using h), List.append_nil]

theorem dropWhile_append_of_not {cs rest' : List Char} (h : headIs p rest' = false) :
    (cs.takeWhile p ++ rest').dropWhile p = rest' := by
  have hall : ∀ c ∈ cs.takeWhile p, p c = true := fun c hc => List.mem_takeWhile_imp hc
  rw [List.dropWhile_append_of_pos hall]
  cases rest' with
  | nil => rfl
  | cons c rest' => exact List.dropWhile_cons_of_neg (by simpa [headIs] using h)

theorem headIs_dropWhile (cs : List Char) : headIs p (cs.dropWhile p) = false := by
  have h := List.head?_dropWhile_not p cs
  cases hcs : cs.dropWhile p with
  | nil => rfl
  | cons c rest =>
    rw [hcs] at h
    simpa [headIs] using h

theorem drop_takeWhile (cs : List Char) : cs.drop (cs.takeWhile p).length = cs.dropWhile p := by
  conv => lhs; arg 2; rw [← List.takeWhile_append_dropWhile (p := p) (l := cs)]
  exact List.drop_left

end

/-! ### Readers -/

/-- Whatever is read is read from the front, and would be read as well if other lines stood below
the one on which the reader stops. -/
def Local {α : Type} (read : List Char → Except ScanFault (α × List Char)) : Prop :=
  ∀ cs x rest, read cs = .ok (x, rest) →
    ∃ front, cs = front ++ rest ∧
      ∀ rest', currentLine rest' = currentLine rest → read (front ++ rest') = .ok (x, rest')

/-- What one character does to the reader of a list in brackets: it goes on, the list is over, or it
cannot be read. What stands behind the character has no part in it. -/
inductive BalancedStep (f : List Char → Except ScanFault (List Char × List Char)) : Prop
  | goesOn (n : Nesting) (inner : List Char) (h : ∀ cs, f cs = readBalanced n inner cs)
  | ends (inner : List Char) (h : ∀ cs, f cs = .ok (inner, cs))
  | fails (e : ScanFault) (h : ∀ cs, f cs = .error e)

theorem balancedStep_readBalanced (n : Nesting) (inner : List Char) (c : Char) :
    BalancedStep fun cs => readBalanced n inner (c :: cs) := by
  simp only [readBalanced]
  split
  · split
    · exact .fails _ fun _ => rfl
    · exact .goesOn _ _ fun _ => rfl
  · split
    · exact .goesOn _ _ fun _ => rfl
    split
    · exact .goesOn _ _ fun _ => rfl
    split
    · exact .goesOn _ _ fun _ => rfl
    split
    · split
      · exact .ends _ fun _ => rfl
      · exact .goesOn _ _ fun _ => rfl
    · exact .goesOn _ _ fun _ => rfl

theorem local_readBalanced (n : Nesting) (inner : List Char) : Local (readBalanced n inner) := by
  intro cs text rest h
  induction cs generalizing n inner with
  | nil => cases h
  | cons c cs ih =>
    cases balancedStep_readBalanced n inner c with
    | goesOn n' inner' hstep =>
      rw [hstep] at h
      obtain ⟨front, rfl, hfront⟩ := ih n' inner' h
      refine ⟨c :: front, rfl, fun rest' hrest => ?_⟩
      rw [List.cons_append, hstep, hfront rest' hrest]
    | ends inner' hstep =>
      rw [hstep] at h
      cases h
      exact ⟨[c], rfl, fun rest' _ => hstep rest'⟩
    | fails e hstep =>
      rw [hstep] at h
      cases h

/-- What one character does to the reader of a value: it goes on, the value is over in front of the
character, or it cannot be read. All that the reader looks for behind the character is an operator on
its line, and `b` tells whether there is one. -/
inductive ValueStep (value : List Char) (c : Char) (b : Bool)
    (f : List Char → Except ScanFault (List Char × List Char)) : Prop
  | goesOn (n : Nesting) (last : Option Char) (value' : List Char)
    (h : ∀ cs, operatorFollows (c :: cs) = b → f cs = readValue n last value' cs)
  | ends (h : ∀ cs, operatorFollows (c :: cs) = b → f cs = .ok (value.reverse, c :: cs))
  | fails (e : ScanFault) (h : ∀ cs, f cs = .error e)

theorem valueStep_readValue (n : Nesting) (last : Option Char) (value : List Char) (c : Char)
    (b : Bool) : ValueStep value c b fun cs => readValue n last value (c :: cs) := by
  simp only [readValue]
  split
  · split
    · exact .fails _ fun _ => rfl
    · exact .goesOn _ _ _ fun _ _ => rfl
  · split
    · split
      · exact .goesOn _ _ _ fun _ _ => rfl
      · exact .ends fun _ _ => rfl
    split
    · exact .goesOn _ _ _ fun _ _ => rfl
    split
    · exact .goesOn _ _ _ fun _ _ => rfl
    split
    · split
      · exact .ends fun _ _ => rfl
      · exact .goesOn _ _ _ fun _ _ => rfl
    split
    · exact .ends fun _ _ => rfl
    by_cases hend : (isBlank c && n.depth == 0 && !last.any isOperator && !b) = true
    · exact .ends fun cs hb => by rw [hb, if_pos hend]
    · exact .goesOn _ _ _ fun cs hb => by rw [hb, if_neg hend]

/-- Outside all brackets and quotes a value is over where the line is. -/
theorem readValue_of_ends {n : Nesting} (hquote : n.quote = none) (hdepth : n.depth = 0)
    (last : Option Char) (value : List Char) {rest : List Char} (h : currentLine rest = []) :
    readValue n last value rest = .ok (value.reverse, rest) := by
  rcases eq_nil_or_of_currentLine h with rfl | ⟨cs, rfl⟩
  · simp [readValue, hquote, hdepth]
  · simp [readValue, hquote, hdepth]

theorem operatorFollows_of_currentLine {rest rest' : List Char}
    (h : currentLine rest' = currentLine rest) : operatorFollows rest' = operatorFollows rest := by
  rw [operatorFollows, operatorFollows, h]

theorem local_readValue (n : Nesting) (last : Option Char) (value : List Char) :
    Local (readValue n last value) := by
  intro cs text rest h
  induction cs generalizing n last value with
  | nil =>
    rw [readValue] at h
    split at h
    · cases h
    next hquote =>
    split at h
    · cases h
    next hdepth =>
    cases h
    exact ⟨[], rfl, fun rest' hrest => readValue_of_ends (by simpa using hquote) (by omega) _ _ hrest⟩
  | cons c cs ih =>
    -- One character more at the front.
    have hcons {n' : Nesting} {last' : Option Char} {value' : List Char}
        (hstep : ∀ cs', operatorFollows (c :: cs') = operatorFollows (c :: cs) →
          readValue n last value (c :: cs') = readValue n' last' value' cs') :
        ∃ front, c :: cs = front ++ rest ∧ ∀ rest', currentLine rest' = currentLine rest →
          readValue n last value (front ++ rest') = .ok (text, rest') := by
      rw [hstep cs rfl] at h
      obtain ⟨front, rfl, hfront⟩ := ih n' last' value' h
      refine ⟨c :: front, rfl, fun rest' hrest => ?_⟩
      have hline := currentLine_append hrest (c :: front)
      exact (hstep _ (operatorFollows_of_currentLine hline)).trans (hfront rest' hrest)
    by_cases hc : c = '\n'
    · subst hc
      cases hquote : n.quote with
      | some q => simp [readValue, hquote] at h
      | none =>
        by_cases hdepth : n.depth = 0
        · have hends : currentLine ('\n' :: cs) = [] := rfl
          rw [readValue_of_ends hquote hdepth last value hends] at h
          cases h
          exact ⟨[], rfl, fun rest' hrest => readValue_of_ends hquote hdepth _ _ hrest⟩
        · have hopen : n.depth > 0 := by omega
          exact hcons fun cs' _ => by
            simp only [readValue, hquote]
            simp [hopen]
            rfl
    · cases valueStep_readValue n last value c (operatorFollows (c :: cs)) with
      | goesOn n' last' value' hstep => exact hcons hstep
      | ends hstep =>
        rw [hstep cs rfl] at h
        cases h
        refine ⟨[], rfl, fun rest' hrest => ?_⟩
        have hfollows := operatorFollows_of_currentLine hrest
        obtain ⟨cs', rfl, -⟩ := eq_cons_of_currentLine hc hrest
        exact hstep cs' hfollows
      | fails e hstep =>
        rw [hstep] at h
        cases h

/-- What is passed over in front of a text is passed over as well if the text goes on in another
way below its line. -/
theorem dropWhile_append_of_currentLine {p : Char → Bool} {cs start start' : List Char}
    (hstart : cs.dropWhile p = start) (hline : currentLine start' = currentLine start)
    (hp : p '\n' = false ∨ currentLine start ≠ []) :
    (cs.takeWhile p ++ start').dropWhile p = start' := by
  refine dropWhile_append_of_not ?_
  have hnot : headIs p start = false := hstart ▸ headIs_dropWhile cs
  rcases hp with hp | hp
  · rw [headIs_of_currentLine hline hp, hnot]
  · cases start with
    | nil => exact absurd rfl hp
    | cons c start =>
      have hc : c ≠ '\n' := by
        rintro rfl
        exact hp rfl
      obtain ⟨cs', rfl, -⟩ := eq_cons_of_currentLine hc hline
      exact hnot

theorem local_attributeValue : Local attributeValue := by
  intro cs text rest h
  unfold attributeValue at h
  cases hstart : cs.dropWhile fun c => isIndent c || c == '\n' with
  | nil =>
    rw [hstart] at h
    cases h
  | cons c start =>
    have hc : c ≠ '\n' := by
      rintro rfl
      have := headIs_dropWhile (p := fun c => isIndent c || c == '\n') cs
      rw [hstart] at this
      simp [headIs] at this
    rw [hstart] at h
    dsimp only at h
    cases hread : readValue .outside none [] (c :: start) with
    | error e =>
      rw [hread] at h
      cases h
    | ok r =>
      obtain ⟨value, behind⟩ := r
      rw [hread] at h
      dsimp only at h
      split at h
      · cases h
      next hvalue =>
      cases h
      obtain ⟨front, hfront, hlocal⟩ := local_readValue _ _ _ _ _ _ hread
      refine ⟨cs.takeWhile (fun c => isIndent c || c == '\n') ++ front, ?_, fun rest' hrest => ?_⟩
      · rw [List.append_assoc, ← hfront, ← hstart, List.takeWhile_append_dropWhile]
      · -- The value begins with the same character, so the same is passed over.
        have hline : currentLine (front ++ rest') = currentLine (c :: start) := by
          rw [hfront]
          exact currentLine_append hrest front
        have hdrop := dropWhile_append_of_currentLine hstart hline
          (.inr (by simp [currentLine, hc]))
        obtain ⟨start', hcons, -⟩ := eq_cons_of_currentLine hc hline
        unfold attributeValue
        rw [List.append_assoc, hdrop, hcons]
        dsimp only
        rw [← hcons, hlocal rest' hrest]
        dsimp only
        rw [if_neg hvalue]

/-- A name ends on its line. -/
theorem plainName_append {cs name rest : List Char} (h : plainName cs = (name, rest)) :
    cs = name ++ rest ∧
      ∀ rest', currentLine rest' = currentLine rest → plainName (name ++ rest') = (name, rest') := by
  induction cs generalizing name with
  | nil =>
    cases h
    refine ⟨rfl, fun rest' hrest => ?_⟩
    rcases eq_nil_or_of_currentLine hrest with rfl | ⟨cs, rfl⟩
    · rfl
    · simp [plainName, isBlank]
  | cons c cs ih =>
    rw [plainName] at h
    split at h
    · next hend =>
      cases h
      refine ⟨rfl, fun rest' hrest => ?_⟩
      by_cases hc : c = '\n'
      · subst hc
        rcases eq_nil_or_of_currentLine hrest with rfl | ⟨cs, rfl⟩
        · rfl
        · simp [plainName, isBlank]
      · obtain ⟨cs', rfl, hline⟩ := eq_cons_of_currentLine hc hrest
        rw [List.nil_append, plainName, headIs_of_currentLine hline (by decide), if_pos hend]
    · next hgo =>
      cases h
      obtain ⟨hcs, hlocal⟩ := ih rfl
      refine ⟨by rw [List.cons_append, ← hcs], fun rest' hrest => ?_⟩
      have hline : currentLine ((plainName cs).1 ++ rest') = currentLine cs := by
        conv => rhs; rw [hcs]
        exact currentLine_append hrest _
      rw [List.cons_append, plainName, headIs_of_currentLine hline (by decide), if_neg hgo,
        hlocal rest' hrest]

/-- A quoted name ends on its line. -/
theorem splitAtFirst?_currentLine {p : Char → Bool} {cs name behind : List Char}
    (h : splitAtFirst? p (currentLine cs) = some (name, behind)) :
    ∃ c, cs = name ++ c :: cs.drop (name.length + 1) ∧
      ∀ rest', ∃ behind', splitAtFirst? p (currentLine (name ++ c :: rest')) = some (name, behind') := by
  induction cs generalizing name with
  | nil => cases h
  | cons d cs ih =>
    by_cases hd : d = '\n'
    · subst hd
      cases h
    have hline (cs : List Char) : currentLine (d :: cs) = d :: currentLine cs := by
      simp [currentLine, hd]
    rw [hline, splitAtFirst?] at h
    split at h
    · next hp =>
      cases h
      refine ⟨d, rfl, fun rest' => ⟨currentLine rest', ?_⟩⟩
      rw [List.nil_append, hline, splitAtFirst?, if_pos hp]
    · next hp =>
      obtain ⟨⟨name', behind'⟩, hsplit, heq⟩ := Option.map_eq_some_iff.mp h
      cases heq
      obtain ⟨c, hcs, hlocal⟩ := ih hsplit
      refine ⟨c, by rw [List.cons_append, List.length_cons, List.drop_succ_cons, ← hcs],
        fun rest' => ?_⟩
      obtain ⟨behind, hrest⟩ := hlocal rest'
      refine ⟨behind, ?_⟩
      rw [List.cons_append, hline, splitAtFirst?, if_neg hp, hrest]
      rfl

theorem local_attributeName : Local attributeName := by
  intro cs name rest h
  cases cs with
  | nil => cases h
  | cons c cs =>
    rw [attributeName] at h
    split at h
    · next hquote =>
      split at h
      · next name' behind hsplit =>
        cases h
        obtain ⟨d, hcs, hlocal⟩ := splitAtFirst?_currentLine hsplit
        refine ⟨c :: (name ++ [d]), by simpa using hcs, fun rest' _ => ?_⟩
        obtain ⟨behind', hrest⟩ := hlocal rest'
        rw [List.cons_append, List.append_assoc, List.singleton_append, attributeName, if_pos hquote,
          hrest]
        simp
      · cases h
    · next hquote =>
      cases hplain : plainName (c :: cs) with
      | mk name' rest' =>
        rw [hplain] at h
        cases name' with
        | nil => cases h
        | cons d name' =>
          cases h
          obtain ⟨hcs, hlocal⟩ := plainName_append hplain
          obtain ⟨rfl, -⟩ := List.cons.inj hcs
          refine ⟨c :: name', hcs, fun rest' hrest => ?_⟩
          have hplain' := hlocal rest' hrest
          rw [List.cons_append] at hplain' ⊢
          rw [attributeName, if_neg hquote, hplain']

/-- Blanks in front of a value are passed over. -/
theorem valuePart_append {blanks : List Char} (h : ∀ c ∈ blanks, isIndent c = true)
    (cs : List Char) : valuePart (blanks ++ cs) = valuePart cs := by
  unfold valuePart
  rw [List.dropWhile_append_of_pos h]

/-- A value, if there is one, ends where it would with other lines below. -/
theorem valuePart_local {cs rest : List Char} {value : Option (List Char)} {escaped : Bool}
    (h : valuePart cs = .ok (value, escaped, rest)) :
    ∃ front, cs = front ++ rest ∧ ∀ rest', currentLine rest' = currentLine rest →
      valuePart (front ++ rest') = .ok (value, escaped, rest') := by
  -- A sign, and the value behind it.
  have hvalue {sign more : List Char} {e : Bool}
      (hsign : ∀ more, valuePart (sign ++ more) = (attributeValue more).map fun r => (some r.1, e, r.2))
      (h : valuePart (sign ++ more) = .ok (value, escaped, rest)) :
      ∃ front, sign ++ more = front ++ rest ∧ ∀ rest', currentLine rest' = currentLine rest →
        valuePart (front ++ rest') = .ok (value, escaped, rest') := by
    rw [hsign] at h
    cases hread : attributeValue more with
    | error e =>
      rw [hread] at h
      cases h
    | ok r =>
      obtain ⟨text, behind⟩ := r
      rw [hread] at h
      cases h
      obtain ⟨front, rfl, hlocal⟩ := local_attributeValue _ _ _ hread
      refine ⟨sign ++ front, (List.append_assoc _ _ _).symm, fun rest' hrest => ?_⟩
      rw [List.append_assoc, hsign, hlocal rest' hrest]
      rfl
  have hblanks : ∀ c ∈ cs.takeWhile isIndent, isIndent c = true :=
    fun c hc => List.mem_takeWhile_imp hc
  have hcs := List.takeWhile_append_dropWhile (p := isIndent) (l := cs)
  have hhead := headIs_dropWhile (p := isIndent) cs
  rw [← hcs, valuePart_append hblanks] at h
  suffices hstart : ∃ front, cs.dropWhile isIndent = front ++ rest ∧
      ∀ rest', currentLine rest' = currentLine rest →
        valuePart (front ++ rest') = .ok (value, escaped, rest') by
    obtain ⟨front, hfront, hlocal⟩ := hstart
    refine ⟨cs.takeWhile isIndent ++ front, ?_, fun rest' hrest => ?_⟩
    · rw [List.append_assoc, ← hfront, hcs]
    · rw [List.append_assoc, valuePart_append hblanks, hlocal rest' hrest]
  generalize cs.dropWhile isIndent = start at h hhead
  by_cases hunescaped : ∃ more, start = ['!', '='] ++ more
  · obtain ⟨more, rfl⟩ := hunescaped
    exact hvalue (fun _ => rfl) h
  by_cases hescaped : ∃ more, start = ['='] ++ more
  · obtain ⟨more, rfl⟩ := hescaped
    exact hvalue (fun _ => rfl) h
  -- There is no sign, and there is none if the line goes on below in another way.
  have hnone {start : List Char} (hhead : headIs isIndent start = false)
      (hunescaped : ¬ ∃ more, start = ['!', '='] ++ more) (hescaped : ¬ ∃ more, start = ['='] ++ more) :
      valuePart start = .ok (none, true, start) := by
    unfold valuePart
    have hdrop : start.dropWhile isIndent = start := by
      cases start with
      | nil => rfl
      | cons c start => exact List.dropWhile_cons_of_neg (by simpa [headIs] using hhead)
    rw [hdrop]
    split
    · next more => exact absurd ⟨more, rfl⟩ hunescaped
    · next more => exact absurd ⟨more, rfl⟩ hescaped
    · rfl
  rw [hnone hhead hunescaped hescaped] at h
  cases h
  refine ⟨[], rfl, fun rest' hrest => ?_⟩
  refine hnone ((headIs_of_currentLine hrest rfl).trans hhead) ?_ ?_
  · rintro ⟨more, rfl⟩
    obtain ⟨cs', rfl, hline⟩ := eq_cons_of_currentLine (by decide) hrest.symm
    obtain ⟨cs'', rfl, -⟩ := eq_cons_of_currentLine (by decide) hline
    exact hunescaped ⟨cs'', rfl⟩
  · rintro ⟨more, rfl⟩
    obtain ⟨cs', rfl, -⟩ := eq_cons_of_currentLine (by decide) hrest.symm
    exact hescaped ⟨cs', rfl⟩

/-- A list of no attributes. -/
theorem attributeList_of_closed {cs rest : List Char} (hstart : cs.dropWhile isSeparator = ')' :: rest) :
    attributeList cs = .ok ([], rest) := by
  rw [attributeList]
  split <;> simp_all

/-- The first attribute of a list, behind blanks and commas, and those that follow. -/
theorem attributeList_of_attribute {cs start name behind rest more : List Char} {c : Char}
    {value : Option (List Char)} {escaped : Bool} {list : List RawAttribute}
    (hstart : cs.dropWhile isSeparator = c :: start) (hopen : c ≠ ')')
    (hname : attributeName (c :: start) = .ok (name, behind))
    (hvalue : valuePart behind = .ok (value, escaped, rest))
    (hrest : attributeList rest = .ok (list, more)) :
    attributeList cs =
      .ok (⟨String.ofList name, value.map String.ofList, escaped⟩ :: list, more) := by
  rw [attributeList]
  split
  · simp_all
  · next hclosed =>
    rw [hstart] at hclosed
    cases hclosed
    contradiction
  · -- The readers of the name and the value are asked again with the proofs of their lengths.
    split
    · simp_all
    · next hn =>
      rw [hstart, hname] at hn
      cases hn
      split
      · simp_all
      · next hv =>
        rw [hvalue] at hv
        cases hv
        rw [hrest]

/-- A part of a head and the parts behind it. -/
theorem headParts_of_part {cs rest more : List Char} {token : Token} {tokens : List Token}
    (hpart : headPart cs = .ok (.part token rest)) (hmore : headParts rest = .ok (tokens, more)) :
    headParts cs = .ok (token :: tokens, more) := by
  rw [headParts]
  split
  · simp_all
  · simp_all
  · next h =>
    rw [hpart] at h
    cases h
    rw [hmore]

theorem local_attributeList : Local attributeList := by
  intro cs list rest h
  fun_induction attributeList cs generalizing list rest with
  | case1 => cases h
  | case2 cs more hs =>
    cases h
    have hcs := List.takeWhile_append_dropWhile (p := isSeparator) (l := cs)
    refine ⟨cs.takeWhile isSeparator ++ [')'], ?_, fun rest' hrest => ?_⟩
    · rw [List.append_assoc, List.singleton_append, ← hs, hcs]
    · refine attributeList_of_closed ?_
      rw [List.append_assoc, List.singleton_append]
      exact dropWhile_append_of_not rfl
  | case3 => cases h
  | case4 => cases h
  | case5 => cases h
  | case6 cs name behind value escaped last hv more left hmore hnil hclosed hn _ ih =>
    cases h
    have hcs := List.takeWhile_append_dropWhile (p := isSeparator) (l := cs)
    have hhead := headIs_dropWhile (p := isSeparator) cs
    cases hstart : cs.dropWhile isSeparator with
    | nil => exact (hnil hstart).elim
    | cons c start =>
      rw [hstart] at hn hcs hhead
      have hopen : c ≠ ')' := by
        rintro rfl
        exact hclosed start hstart
      have hc : c ≠ '\n' := by
        rintro rfl
        cases hhead
      obtain ⟨front₁, hname, hlocal₁⟩ := local_attributeName _ _ _ hn
      obtain ⟨front₂, rfl, hlocal₂⟩ := valuePart_local hv
      obtain ⟨front₃, rfl, hlocal₃⟩ := ih _ _ hmore
      refine ⟨cs.takeWhile isSeparator ++ (front₁ ++ (front₂ ++ front₃)), ?_, fun rest' hrest => ?_⟩
      · simpa [hname] using hcs.symm
      · have hline₃ := currentLine_append hrest front₃
        have hline₂ := currentLine_append hline₃ front₂
        have hline₁ := currentLine_append hline₂ front₁
        rw [← hname] at hline₁
        obtain ⟨start', hcons, -⟩ := eq_cons_of_currentLine hc hline₁
        have hn' := hlocal₁ _ hline₂
        rw [hcons] at hn'
        refine attributeList_of_attribute ?_ hopen hn' (hlocal₂ _ hline₃) (hlocal₃ _ hrest)
        rw [List.append_assoc, List.append_assoc, List.append_assoc, hcons]
        exact dropWhile_append_of_not hhead

/-! ### Statements -/

/-- What stands behind the head of a call or a tag: another statement behind a colon, or what ends
the line. -/
def behindHead (wrap : List Token → List Token)
    (line : List Char → Except ScanFault (List Token × Below)) (rest : List Char) :
    Except ScanFault Statement :=
  match behindColon? rest with
  | some child => (readStatement child).map fun s => { s with tokens := wrap s.tokens }
  | none => (line (currentLine rest)).map fun r => ⟨r.1, r.2, belowLine rest⟩

/-- Behind the head of a call nothing else may end the line. -/
def callEnd (token : Token) (line : List Char) : Except ScanFault (List Token × Below) :=
  if isBlankText line then .ok ([token], .statements) else .error .behindCall

/-- Behind the head of a tag there may be its content. -/
def tagEnd (tokens : List Token) (line : List Char) : Except ScanFault (List Token × Below) :=
  (tagTail line).map fun r => (tokens ++ r.1, r.2)

/-- What is read of a statement once its first characters are known. -/
def Opening.statement : Opening → Except ScanFault Statement
  | .whole s => .ok s
  | .call text => callHead text >>= fun r =>
    behindHead (fun ts => r.1 :: .colon :: ts) (callEnd r.1) r.2
  | .tag text => tagHead text >>= fun r =>
    behindHead (fun ts => r.1 ++ .colon :: ts) (tagEnd r.1) r.2

theorem readStatement_eq (cs : List Char) :
    readStatement cs = opening cs >>= Opening.statement := by
  rw [readStatement]
  split
  · next hopening =>
    rw [hopening]
    rfl
  · next s hopening =>
    rw [bind_eq_of_ok hopening]
    rfl
  · next text hopening =>
    rw [bind_eq_of_ok hopening, Opening.statement]
    split
    · next hcall =>
      rw [hcall]
      rfl
    · next token rest hcall =>
      rw [bind_eq_of_ok hcall, behindHead]
      split
      · next hcolon => simp only [hcolon]
      · next hcolon =>
        simp only [hcolon, callEnd]
        split <;> rfl
  · next text hopening =>
    rw [bind_eq_of_ok hopening, Opening.statement]
    split
    · next htag =>
      rw [htag]
      rfl
    · next tokens rest htag =>
      rw [bind_eq_of_ok htag, behindHead]
      split
      · next hcolon => simp only [hcolon]
      · next hcolon =>
        simp only [hcolon, tagEnd]
        cases tagTail (currentLine rest) <;> rfl

section
variable {cs text rest : List Char} {token : Token} {tokens : List Token}

theorem readStatement_of_whole {s : Statement} (h : opening cs = .ok (.whole s)) :
    readStatement cs = .ok s := by
  rw [readStatement_eq, bind_eq_of_ok h, Opening.statement]

theorem readStatement_of_call (h : opening cs = .ok (.call text))
    (hcall : callHead text = .ok (token, rest)) :
    readStatement cs = behindHead (fun ts => token :: .colon :: ts) (callEnd token) rest := by
  rw [readStatement_eq, bind_eq_of_ok h, Opening.statement, bind_eq_of_ok hcall]

theorem readStatement_of_head (h : opening cs = .ok (.tag text))
    (htag : tagHead text = .ok (tokens, rest)) :
    readStatement cs = behindHead (fun ts => tokens ++ .colon :: ts) (tagEnd tokens) rest := by
  rw [readStatement_eq, bind_eq_of_ok h, Opening.statement, bind_eq_of_ok htag]

end

end Trellis.Source
