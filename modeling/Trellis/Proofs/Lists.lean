import Trellis.Proofs.Nesting
import Trellis.Proofs.Placement

/-!
# `Trellis.Proofs.Lists`: the readers of lists

What a list of expressions goes through: the reader that looks for the bracket behind it, and the
one that takes it apart at its commas. Both follow an expression along (`readBalanced_of_run`,
`splitTopLevelFrom_of_run`). The first trims the list, and the second gives the same parts for it
(`splitTopLevel_trim`), since the blanks at the ends of a list belong to its first and its last part,
which are trimmed as well.
-/

set_option autoImplicit false

namespace Trellis.Source

open Text

/-! ### Readers along an expression -/

theorem readBalanced_cons {c : Char} (hline : c ≠ '\n') {n : Nesting} {inner rest : List Char}
    (h : ¬n.MayStop 1 c) :
    readBalanced n inner (c :: rest) = readBalanced (n.next c) (c :: inner) rest := by
  rw [readBalanced, Nesting.next]
  cases hquote : n.quote with
  | some q => simp [hline]
  | none =>
    dsimp only
    rw [if_neg (by simpa using hline)]
    split
    · rfl
    split
    · rfl
    split
    · next hclose =>
      rw [if_neg fun hdepth => h ⟨hquote, hdepth, .inl hclose⟩]
    · rfl

/-- Any character but a comma outside all quotes and brackets belongs to the part under way. -/
theorem splitTopLevelFrom_next {c : Char} {n : Nesting} {part rest : List Char}
    (h : ¬(n.isOutside = true ∧ c = ',')) :
    splitTopLevelFrom n part (c :: rest) = splitTopLevelFrom (n.next c) (c :: part) rest := by
  rw [splitTopLevelFrom, Nesting.next]
  cases hquote : n.quote with
  | some q => rfl
  | none =>
    dsimp only
    split
    · rfl
    split
    · rfl
    split
    · rfl
    · rw [if_neg]
      simpa [Nesting.isOutside, hquote, and_comm] using h

theorem splitTopLevelFrom_cons {c : Char} {n : Nesting} {part rest : List Char}
    (h : ¬n.MayStop 0 c) :
    splitTopLevelFrom n part (c :: rest) = splitTopLevelFrom (n.next c) (c :: part) rest := by
  refine splitTopLevelFrom_next fun ⟨hout, hcomma⟩ => h ?_
  simp only [Nesting.isOutside, Bool.and_eq_true, beq_iff_eq, Option.isNone_iff_eq_none] at hout
  exact ⟨hout.2, hout.1.le, .inr hcomma⟩

section
variable {cs : List Char} (h : (Watch.awaiting []).Run cs (.awaiting []))
include h

theorem readBalanced_of_run (hline : '\n' ∉ cs) (inner rest : List Char) :
    readBalanced ⟨1, none, false⟩ inner (cs ++ rest) =
      readBalanced ⟨1, none, false⟩ (cs.reverse ++ inner) rest :=
  h.follow readBalanced 1 (fun _ hc _ _ _ => readBalanced_cons fun heq => hline (heq ▸ hc)) inner rest

theorem splitTopLevelFrom_of_run (part rest : List Char) :
    splitTopLevelFrom .outside part (cs ++ rest) =
      splitTopLevelFrom .outside (cs.reverse ++ part) rest :=
  h.follow splitTopLevelFrom 0 (fun _ _ _ _ _ => splitTopLevelFrom_cons) part rest

end

/-- A text is split at the first character that is looked for. -/
theorem splitAtFirst?_append_cons {f : Char → Bool} {front : List Char}
    (hfront : ∀ c ∈ front, f c = false) {c : Char} (hc : f c = true) (cs : List Char) :
    splitAtFirst? f (front ++ c :: cs) = some (front, cs) := by
  induction front with
  | nil => rw [List.nil_append, splitAtFirst?, if_pos hc]
  | cons d front ih =>
    rw [List.cons_append, splitAtFirst?, if_neg (by simp [hfront d List.mem_cons_self]),
      ih fun c hc => hfront c (List.mem_cons_of_mem _ hc)]
    rfl

/-! ### Blanks around a list -/

theorem trim_append_blank {bs : List Char} (hbs : isBlankText bs = true) (cs : List Char) :
    trim (cs ++ bs) = trim cs := by
  rw [← shifts_trimEnd.trim (cs ++ bs), ← shifts_trimEnd.trim cs, trimEnd_append_blank _ hbs]

theorem trim_blank_append {bs : List Char} (hbs : isBlankText bs = true) (cs : List Char) :
    trim (bs ++ cs) = trim cs := by
  rw [trim, trimStart, List.dropWhile_append_of_pos (List.all_eq_true.mp hbs)]
  rfl

/-- The text behind a character that is not blank is trimmed by itself. -/
theorem trimEnd_append_cons {c : Char} (hc : isBlank c = false) (front cs : List Char) :
    trimEnd (front ++ c :: cs) = front ++ c :: trimEnd cs := by
  induction front with
  | nil =>
    rw [List.nil_append, List.nil_append, trimEnd]
    cases trimEnd cs <;> simp [hc]
  | cons d front ih =>
    rw [List.cons_append, trimEnd, ih]
    cases front <;> rfl

/-- A text without blanks. -/
theorem trim_of_ink {cs : List Char} (h : ∀ c ∈ cs, isBlank c = false) : trim cs = cs := by
  have hend : trimEnd cs = cs := by
    induction cs with
    | nil => rfl
    | cons c cs ih =>
      have hfront := trimEnd_append_cons (h c List.mem_cons_self) [] cs
      rw [List.nil_append, List.nil_append] at hfront
      rw [hfront, ih fun c hc => h c (List.mem_cons_of_mem _ hc)]
  have hstart : trimStart cs = cs := by
    cases cs with
    | nil => rfl
    | cons c cs => exact List.dropWhile_cons_of_neg (by simp [h c List.mem_cons_self])
  rw [trim, hstart, hend]

/-- A character that is blank is none that a reader of lists looks for. -/
theorem isPlain_of_isBlank {c : Char} (h : isBlank c = true) : isPlain c = true :=
  isPlain_of_class rfl h

theorem splitTopLevelFrom_of_isPlain {c : Char} (hc : isPlain c = true) (n : Nesting)
    (part cs : List Char) :
    splitTopLevelFrom n part (c :: cs) = splitTopLevelFrom (n.next c) (c :: part) cs := by
  refine splitTopLevelFrom_next ?_
  rintro ⟨-, rfl⟩
  cases hc

theorem splitTopLevelFrom_blank {bs : List Char} (hbs : isBlankText bs = true) (n : Nesting)
    (part : List Char) : splitTopLevelFrom n part bs = [part.reverse ++ bs] := by
  induction bs generalizing n part with
  | nil => simp [splitTopLevelFrom]
  | cons b bs ih =>
    rw [isBlankText, List.all_cons, Bool.and_eq_true] at hbs
    rw [splitTopLevelFrom_of_isPlain (isPlain_of_isBlank hbs.1), ih hbs.2]
    simp

/-- Blanks behind a list have no part in its trimmed parts. -/
theorem map_trim_append_blank {bs : List Char} (hbs : isBlankText bs = true) (n : Nesting)
    (part cs : List Char) :
    (splitTopLevelFrom n part (cs ++ bs)).map trim = (splitTopLevelFrom n part cs).map trim := by
  induction cs generalizing n part with
  | nil =>
    rw [List.nil_append, splitTopLevelFrom_blank hbs, splitTopLevelFrom, List.map_singleton,
      List.map_singleton, trim_append_blank hbs]
  | cons c cs ih =>
    rw [List.cons_append, splitTopLevelFrom, splitTopLevelFrom]
    split
    · exact ih _ _
    repeat' split
    · exact ih _ _
    · exact ih _ _
    · exact ih _ _
    · rw [List.map_cons, List.map_cons, ih]
    · exact ih _ _

/-- Nor have blanks in front of it. -/
theorem map_trim_of_blank {bs : List Char} (hbs : isBlankText bs = true) (n : Nesting)
    (part cs : List Char) :
    (splitTopLevelFrom n (part ++ bs.reverse) cs).map trim =
      (splitTopLevelFrom n part cs).map trim := by
  have hpart (part : List Char) : trim (part ++ bs.reverse).reverse = trim part.reverse := by
    rw [List.reverse_append, List.reverse_reverse, trim_blank_append hbs]
  induction cs generalizing n part with
  | nil => simp only [splitTopLevelFrom, List.map_singleton, hpart]
  | cons c cs ih =>
    rw [splitTopLevelFrom, splitTopLevelFrom]
    split
    · exact ih _ (c :: part)
    repeat' split
    · exact ih _ (c :: part)
    · exact ih _ (c :: part)
    · exact ih _ (c :: part)
    · rw [List.map_cons, List.map_cons, hpart]
    · exact ih _ (c :: part)

/-- Nothing but blanks is trimmed at the ends. -/
theorem exists_trim (cs : List Char) : ∃ front behind,
    isBlankText front = true ∧ isBlankText behind = true ∧ cs = front ++ trim cs ++ behind := by
  obtain ⟨behind, hend, hbehind⟩ := exists_trimEnd (trimStart cs)
  have hfront : isBlankText (cs.takeWhile isBlank) = true :=
    List.all_eq_true.mpr fun c hc => List.mem_takeWhile_imp hc
  refine ⟨cs.takeWhile isBlank, behind, hfront, hbehind, ?_⟩
  rw [trim, List.append_assoc, ← hend]
  exact List.takeWhile_append_dropWhile.symm

theorem isBlankText_iff (cs : List Char) : isBlankText cs = true ↔ trim cs = [] := by
  constructor
  · intro h
    simpa [trim, trimStart, trimEnd] using trim_blank_append h []
  · intro h
    obtain ⟨front, behind, hfront, hbehind, hcs⟩ := exists_trim cs
    rw [h, List.append_nil] at hcs
    unfold isBlankText at hfront hbehind ⊢
    rw [hcs, List.all_append, hfront, hbehind, Bool.and_true]

theorem splitTopLevel_eq (cs : List Char) :
    splitTopLevel cs =
      if (splitTopLevelFrom .outside [] cs).map trim = [[]] then []
      else (splitTopLevelFrom .outside [] cs).map trim := by
  rw [splitTopLevel]
  split
  · next part hpart =>
    simp only [isBlankText_iff, hpart, List.map_singleton, List.cons.injEq, and_true]
  · next hparts =>
    rw [if_neg]
    intro h
    obtain ⟨part, hpart, -⟩ := List.map_eq_singleton_iff.1 h
    exact hparts part hpart

/-- A list has the same parts without the blanks around it. -/
theorem splitTopLevel_trim (cs : List Char) : splitTopLevel (trim cs) = splitTopLevel cs := by
  suffices h : (splitTopLevelFrom .outside [] (trim cs)).map trim =
      (splitTopLevelFrom .outside [] cs).map trim by rw [splitTopLevel_eq, splitTopLevel_eq, h]
  obtain ⟨front, behind, hfront, hbehind, hcs⟩ := exists_trim cs
  have hrun : (Watch.awaiting []).Run front (.awaiting []) :=
    run_of_isPlain (fun c hc => isPlain_of_isBlank (List.all_eq_true.mp hfront c hc)) []
  calc (splitTopLevelFrom .outside [] (trim cs)).map trim
      = (splitTopLevelFrom .outside [] (trim cs ++ behind)).map trim :=
        (map_trim_append_blank hbehind _ _ _).symm
    _ = (splitTopLevelFrom .outside ([] ++ front.reverse) (trim cs ++ behind)).map trim :=
        (map_trim_of_blank hfront _ _ _).symm
    _ = (splitTopLevelFrom .outside [] (front ++ (trim cs ++ behind))).map trim := by
        rw [splitTopLevelFrom_of_run hrun, List.nil_append, List.append_nil]
    _ = (splitTopLevelFrom .outside [] cs).map trim := by
        rw [← List.append_assoc, ← hcs]

end Trellis.Source
