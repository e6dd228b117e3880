import Trellis.Proofs.Levels
import Trellis.Proofs.Locality

/-!
# `Trellis.Proofs.Placement`: a statement among other lines

What a statement is read from is its line and some of the lines below: those that its brackets run
over, and those that are its text because they are indented deeper. `Takes` says which tokens come
of it and how many lines below are used up.

The tokens stay the same

* if other lines stand below those that are used up, as long as they do not begin deeper
  (`Takes.replace`);
* if all lines are indented further by the same blanks (`Takes.indented`);
* if blanks at the ends of lines are left out (`Takes.trimmed`).
-/

set_option autoImplicit false

namespace Trellis.Source

open Trellis.Text

/-- The statement that begins with the line `raw` has some tokens and uses up so many of the lines
below. -/
def Takes (raw : List Char) (below : List (List Char)) (tokens : List Token) (used : Nat) : Prop :=
  ∃ s, readStatement (trimEnd (raw.drop (indentOf raw).length) ++
      textBelow (trimEnd (raw.drop (indentOf raw).length)) below) = .ok s ∧
    ∃ joined block,
      joined = (textBelow (trimEnd (raw.drop (indentOf raw).length)) below).count '\n' -
        s.rest.count '\n' ∧
      block = (if s.below = .statements then []
        else deeperLines (indentOf raw).length (below.drop joined)) ∧
      tokens = s.withBlock block ∧ used = joined + block.length

theorem Takes.unique {raw : List Char} {below : List (List Char)} {tokens tokens' : List Token}
    {used used' : Nat} (h : Takes raw below tokens used) (h' : Takes raw below tokens' used') :
    tokens = tokens' ∧ used = used' := by
  obtain ⟨s, hs, joined, block, rfl, rfl, rfl, rfl⟩ := h
  obtain ⟨s', hs', joined', block', rfl, rfl, rfl, rfl⟩ := h'
  cases hs.symm.trans hs'
  exact ⟨rfl, rfl⟩

/-! ### Lines without line feeds -/

/-- Some lines, none of which holds a line feed. -/
def AreLines (lines : List (List Char)) : Prop := ∀ line ∈ lines, '\n' ∉ line

theorem AreLines.append {lines more : List (List Char)} (h : AreLines lines) (h' : AreLines more) :
    AreLines (lines ++ more) := fun line hline =>
  (List.mem_append.mp hline).elim (h line) (h' line)

theorem count_textBelow {statement : List Char} (h : statement.contains '(' = true)
    {below : List (List Char)} (hlines : AreLines below) :
    (textBelow statement below).count '\n' = below.length := by
  rw [textBelow, if_pos h]
  induction below with
  | nil => rfl
  | cons line below ih =>
    have hline : '\n' ∉ trim line := fun hmem => hlines line List.mem_cons_self (trim_subset line hmem)
    rw [List.flatMap_cons, List.count_append, List.count_cons_self, List.count_eq_zero.mpr hline,
      ih fun l hl => hlines l (List.mem_cons_of_mem _ hl), List.length_cons]
    omega

theorem textBelow_append (statement : List Char) (below more : List (List Char)) :
    textBelow statement (below ++ more) = textBelow statement below ++ textBelow statement more := by
  unfold textBelow
  split
  · exact List.flatMap_append
  · rfl

/-- The text below is at the end of a line. -/
theorem currentLine_textBelow (statement : List Char) (below : List (List Char)) :
    currentLine (textBelow statement below) = [] := by
  unfold textBelow
  split
  · cases below <;> rfl
  · rfl

/-! ### Deeper lines -/

/-- The first line that is not blank begins no deeper than a width. -/
def BeginsWithin (width : Nat) (lines : List (List Char)) : Prop :=
  ∀ line ∈ firstStatement? lines, (indentOf line).length ≤ width

theorem dropLastBlank_of_blank {lines : List (List Char)} (h : ∀ line ∈ lines, isBlankText line = true) :
    dropLastBlank lines = [] := by
  induction lines with
  | nil => rfl
  | cons line rest ih =>
    rw [dropLastBlank, ih fun l hl => h l (List.mem_cons_of_mem _ hl)]
    simp [h line List.mem_cons_self]

theorem dropLastBlank_append_of_blank (lines : List (List Char)) {blank : List (List Char)}
    (h : ∀ line ∈ blank, isBlankText line = true) :
    dropLastBlank (lines ++ blank) = dropLastBlank lines := by
  induction lines with
  | nil => exact dropLastBlank_of_blank h
  | cons line rest ih => rw [List.cons_append, dropLastBlank, dropLastBlank, ih]

/-- What is kept reaches up to the last line that is not blank. -/
theorem length_lt_dropLastBlank (front behind : List (List Char)) {line : List Char}
    (h : isBlankText line = false) : front.length < (dropLastBlank (front ++ line :: behind)).length := by
  induction front with
  | nil =>
    rw [List.nil_append, dropLastBlank]
    split
    · simp [h]
    · exact Nat.succ_pos _
  | cons first front ih =>
    rw [List.cons_append, dropLastBlank]
    split
    · next hnil =>
      rw [hnil] at ih
      cases ih
    · exact Nat.succ_lt_succ ih

/-- Only blank lines are passed over in front of a line that is not deeper. -/
theorem beginsWithin_iff (width : Nat) (lines : List (List Char)) :
    BeginsWithin width lines ↔
      ∀ line ∈ lines.takeWhile (fun line => isBlankText line || width < (indentOf line).length),
        isBlankText line = true := by
  induction lines with
  | nil => simp [BeginsWithin, firstStatement?]
  | cons line rest ih =>
    unfold BeginsWithin firstStatement? at ih ⊢
    cases hblank : isBlankText line with
    | true =>
      rw [List.find?_cons_of_neg (by simp [hblank]), List.takeWhile_cons_of_pos (by simp [hblank]),
        List.forall_mem_cons, ih]
      simp [hblank]
    | false =>
      rw [List.find?_cons_of_pos (by simp [hblank]), List.takeWhile_cons]
      by_cases hdeep : width < (indentOf line).length
      · simp [hblank, hdeep]
      · have hwithin : (indentOf line).length ≤ width := Nat.le_of_not_gt hdeep
        simp [hblank, hdeep, hwithin]

/-- The lines behind those that are used up do not matter if they do not begin deeper. -/
theorem deeperLines_replace {width : Nat} {lines rest rest' : List (List Char)}
    (hlength : (deeperLines width (lines ++ rest)).length ≤ lines.length)
    (hstop : BeginsWithin width rest → BeginsWithin width rest') :
    deeperLines width (lines ++ rest') = deeperLines width (lines ++ rest) := by
  unfold deeperLines at hlength ⊢
  rw [List.takeWhile_append] at hlength
  rw [List.takeWhile_append, List.takeWhile_append]
  split
  · next hall =>
    rw [if_pos hall] at hlength
    -- All lines in front are deeper, so nothing but blank lines may follow among the deeper ones.
    have hblank : BeginsWithin width rest := by
      rw [beginsWithin_iff]
      intro line hline
      by_contra hink
      obtain ⟨front, behind, hsplit⟩ := List.append_of_mem hline
      have hlong := length_lt_dropLastBlank (lines ++ front) behind (eq_false_of_ne_true hink)
      rw [List.append_assoc, ← hsplit, List.length_append] at hlong
      omega
    rw [dropLastBlank_append_of_blank _ ((beginsWithin_iff _ _).mp hblank),
      dropLastBlank_append_of_blank _ ((beginsWithin_iff _ _).mp (hstop hblank))]
  · rfl

/-! ### Other lines below -/

/-- The lines that the brackets of a statement run over are its own. -/
theorem readStatement_textBelow {text : List Char} {lines rest : List (List Char)} {s : Statement}
    (h : readStatement (text ++ textBelow text (lines ++ rest)) = .ok s)
    (hjoined : (textBelow text (lines ++ rest)).count '\n' - s.rest.count '\n' ≤ lines.length)
    (hlines : AreLines lines) (rest' : List (List Char)) :
    ∃ left, readStatement (text ++ textBelow text (lines ++ rest')) = .ok { s with rest := left } ∧
      (textBelow text (lines ++ rest')).count '\n' - left.count '\n' =
        (textBelow text (lines ++ rest)).count '\n' - s.rest.count '\n' := by
  cases hopen : text.contains '(' with
  | false =>
    have hnone (below : List (List Char)) : textBelow text below = [] := by
      rw [textBelow, hopen, if_neg Bool.false_ne_true]
    refine ⟨s.rest, ?_, ?_⟩
    · rw [hnone] at h ⊢
      exact h
    · rw [hnone, hnone]
  | true =>
    have hcount := count_textBelow hopen hlines
    rw [textBelow_append, List.count_append, hcount] at hjoined
    rw [textBelow_append, ← List.append_assoc] at h
    obtain ⟨front, hsplit, hends, hlocal⟩ := local_readStatement _ _ h
    have hbelow := currentLine_textBelow text rest
    -- What is left begins no later than the lines that are exchanged.
    have hleft : ∃ left, text ++ textBelow text lines = front ++ left ∧
        s.rest = left ++ textBelow text rest := by
      rcases List.append_eq_append_iff.mp hsplit with ⟨more, hfront, hrest⟩ | ⟨more, hmore, hrest⟩
      · have hnil : more = [] := by
          rw [hrest] at hbelow hjoined
          rw [List.count_append] at hjoined
          cases more with
          | nil => rfl
          | cons c more =>
            rcases eq_nil_or_of_currentLine hbelow with hc | ⟨cs, hc⟩
            · cases hc
            · cases hc
              rw [List.count_cons_self] at hjoined
              omega
        subst hnil
        exact ⟨[], by simpa using hfront.symm, by simpa using hrest.symm⟩
      · exact ⟨more, hmore, hrest⟩
    obtain ⟨left, hfront, hrest⟩ := hleft
    refine ⟨left ++ textBelow text rest', ?_, ?_⟩
    · have hline : currentLine (left ++ textBelow text rest') = [] := by
        rw [currentLine_append ((currentLine_textBelow text rest').trans hbelow.symm), ← hrest, hends]
      rw [textBelow_append, ← List.append_assoc, hfront, List.append_assoc]
      exact hlocal _ hline
    · rw [textBelow_append, textBelow_append, hrest]
      simp only [List.count_append]
      omega

/-- **What stands below the lines that are used up does not matter**, as long as it does not begin
deeper. -/
theorem Takes.replace {raw : List Char} {lines rest rest' : List (List Char)} {tokens : List Token}
    {used : Nat} (h : Takes raw (lines ++ rest) tokens used) (hused : used ≤ lines.length)
    (hlines : AreLines lines)
    (hstop : BeginsWithin (indentOf raw).length rest → BeginsWithin (indentOf raw).length rest') :
    Takes raw (lines ++ rest') tokens used := by
  obtain ⟨s, hread, joined, block, hjoined, hblock, rfl, rfl⟩ := h
  obtain ⟨left, hread', hjoined'⟩ := readStatement_textBelow hread (by omega) hlines rest'
  refine ⟨_, hread', joined, block, by rw [hjoined', hjoined], ?_, rfl, rfl⟩
  rw [hblock]
  dsimp only
  split
  · rfl
  next hbelow =>
  have hdrop (rest : List (List Char)) : (lines ++ rest).drop joined = lines.drop joined ++ rest :=
    List.drop_append_of_le_length (by omega)
  rw [hblock, if_neg hbelow, hdrop] at hused
  rw [hdrop, hdrop]
  refine (deeperLines_replace ?_ hstop).symm
  rw [List.length_drop]
  omega

/-- A statement uses up no more lines than there are. -/
theorem Takes.used_le {raw : List Char} {below : List (List Char)} {tokens : List Token} {used : Nat}
    (h : Takes raw below tokens used) (hlines : AreLines below) : used ≤ below.length := by
  obtain ⟨s, -, joined, block, hjoined, hblock, -, rfl⟩ := h
  have hjoin : joined ≤ below.length := by
    generalize trimEnd (raw.drop (indentOf raw).length) = text at hjoined
    cases hopen : text.contains '(' with
    | true =>
      rw [count_textBelow hopen hlines] at hjoined
      omega
    | false =>
      rw [textBelow, hopen, if_neg Bool.false_ne_true, List.count_nil] at hjoined
      omega
  have hdeeper (width : Nat) (lines : List (List Char)) :
      (deeperLines width lines).length ≤ lines.length := by
    unfold deeperLines
    obtain ⟨blank, hsplit, -⟩ := append_of_dropLastBlank
      (lines.takeWhile fun line => isBlankText line || width < (indentOf line).length)
    have hshorter := (List.takeWhile_prefix (l := lines) fun line =>
      isBlankText line || decide (width < (indentOf line).length)).length_le
    have hlength := congrArg List.length hsplit
    rw [List.length_append] at hlength
    omega
  rw [hblock]
  split
  · simpa using hjoin
  · have := hdeeper (indentOf raw).length (below.drop joined)
    rw [List.length_drop] at this
    omega

/-! ### Lines that are shifted -/

/-- A change of single lines that keeps what they say and shifts what is not blank by a width. -/
structure Shifts (f : List Char → List Char) (k : Nat) : Prop where
  blank (line : List Char) : isBlankText (f line) = isBlankText line
  indent (line : List Char) : isBlankText line = false →
    (indentOf (f line)).length = (indentOf line).length + k
  text (line : List Char) (n : Nat) : isBlankText line = false →
    trimEnd ((f line).drop (n + k)) = trimEnd (line.drop n)
  trim (line : List Char) : trim (f line) = trim line

namespace Shifts

variable {f : List Char → List Char} {k : Nat}

theorem textBelow (h : Shifts f k) (statement : List Char) (below : List (List Char)) :
    textBelow statement (below.map f) = Source.textBelow statement below := by
  unfold Source.textBelow
  split
  · rw [List.flatMap_map]
    simp only [h.trim]
  · rfl

theorem dropLastBlank (h : Shifts f k) (lines : List (List Char)) :
    dropLastBlank (lines.map f) = (Source.dropLastBlank lines).map f := by
  induction lines with
  | nil => rfl
  | cons line rest ih =>
    rw [List.map_cons, Source.dropLastBlank, Source.dropLastBlank, ih]
    cases Source.dropLastBlank rest with
    | nil =>
      rw [List.map_nil]
      dsimp only
      rw [h.blank]
      split <;> rfl
    | cons line' rest' => rfl

theorem deeperLines (h : Shifts f k) (width : Nat) (below : List (List Char)) :
    deeperLines (width + k) (below.map f) = (Source.deeperLines width below).map f := by
  unfold Source.deeperLines
  rw [List.takeWhile_map, h.dropLastBlank]
  congr 3
  funext line
  show (isBlankText (f line) || decide (width + k < (indentOf (f line)).length)) = _
  rw [h.blank]
  cases hblank : isBlankText line with
  | true => rfl
  | false =>
    rw [h.indent line hblank]
    simp

end Shifts

theorem min?_map_add (k : Nat) (ns : List Nat) : (ns.map (· + k)).min? = ns.min?.map (· + k) := by
  cases ns with
  | nil => rfl
  | cons n ns =>
    rw [List.map_cons, List.min?_cons', List.min?_cons', List.foldl_map, Option.map_some]
    congr 1
    induction ns generalizing n with
    | nil => rfl
    | cons m ns ih =>
      rw [List.foldl_cons, List.foldl_cons, ← ih (min n m)]
      congr 1
      omega

namespace Shifts

variable {f : List Char → List Char} {k : Nat}

theorem blockText (h : Shifts f k) (lines : List (List Char)) :
    blockText (lines.map f) = Source.blockText lines := by
  have hfilter : (lines.map f).filter (fun line => !isBlankText line) =
      (lines.filter fun line => !isBlankText line).map f := by
    rw [List.filter_map]
    congr 2
    funext line
    show (!isBlankText (f line)) = _
    rw [h.blank]
  have hindent : ((lines.filter fun line => !isBlankText line).map f).map (fun line => (indentOf line).length) =
      ((lines.filter fun line => !isBlankText line).map fun line => (indentOf line).length).map (· + k) := by
    rw [List.map_map, List.map_map]
    refine List.map_congr_left fun line hline => ?_
    have hink : isBlankText line = false := by simpa using (List.mem_filter.mp hline).2
    exact h.indent line hink
  unfold Source.blockText
  rw [List.map_map]
  refine List.map_congr_left fun line hline => ?_
  show (if isBlankText (f line) then "" else _) = _
  rw [h.blank]
  split
  · rfl
  next hink =>
  -- There is a line that is not blank, so what all of them share is shifted as well.
  have hmem : line ∈ lines.filter fun line => !isBlankText line :=
    List.mem_filter.mpr ⟨hline, by simp [hink]⟩
  have hcommon : commonIndent (lines.map f) = commonIndent lines + k := by
    unfold commonIndent
    rw [hfilter, hindent, min?_map_add]
    cases hmin : ((lines.filter fun line => !isBlankText line).map fun line => (indentOf line).length).min? with
    | none =>
      have := List.min?_eq_none_iff.mp hmin
      rw [List.map_eq_nil_iff.mp this] at hmem
      cases hmem
    | some n => rfl
  rw [hcommon, h.text line _ (eq_false_of_ne_true hink)]

theorem withBlock (h : Shifts f k) (s : Statement) (block : List (List Char)) :
    s.withBlock (block.map f) = s.withBlock block := by
  unfold Statement.withBlock
  rw [h.blockText]
  simp

end Shifts

/-- **Shifted lines say the same.** -/
theorem Takes.map {f : List Char → List Char} {k : Nat} (hf : Shifts f k) {raw : List Char}
    {below : List (List Char)} {tokens : List Token} {used : Nat} (hraw : isBlankText raw = false)
    (h : Takes raw below tokens used) : Takes (f raw) (below.map f) tokens used := by
  obtain ⟨s, hread, joined, block, hjoined, hblock, rfl, rfl⟩ := h
  have htext : trimEnd ((f raw).drop (indentOf (f raw)).length) = trimEnd (raw.drop (indentOf raw).length) := by
    rw [hf.indent raw hraw, hf.text raw _ hraw]
  unfold Takes
  rw [htext, hf.textBelow, hf.indent raw hraw]
  refine ⟨s, hread, joined, block.map f, hjoined, ?_, (hf.withBlock s block).symm, by rw [List.length_map]⟩
  rw [hblock]
  split
  · rfl
  · rw [← List.map_drop, hf.deeperLines]

/-! ### Blanks in front and behind -/

theorem trimEnd_of_blank {cs : List Char} (h : isBlankText cs = true) : trimEnd cs = [] := by
  induction cs with
  | nil => rfl
  | cons c cs ih =>
    unfold isBlankText at h ih
    rw [List.all_cons, Bool.and_eq_true] at h
    rw [trimEnd, ih h.2]
    simp [h.1]

theorem trimEnd_append_blank (cs : List Char) {blanks : List Char} (h : isBlankText blanks = true) :
    trimEnd (cs ++ blanks) = trimEnd cs := by
  induction cs with
  | nil => exact trimEnd_of_blank h
  | cons c cs ih => rw [List.cons_append, trimEnd, trimEnd, ih]

/-- Nothing but blanks is trimmed. -/
theorem exists_trimEnd (cs : List Char) : ∃ blanks, cs = trimEnd cs ++ blanks ∧ isBlankText blanks = true := by
  induction cs with
  | nil => exact ⟨[], rfl, rfl⟩
  | cons c cs ih =>
    obtain ⟨blanks, hcs, hblank⟩ := ih
    rw [trimEnd]
    split
    · next hnil =>
      rw [hnil, List.nil_append] at hcs
      split
      · next hc => exact ⟨c :: cs, rfl, by rw [hcs]; simpa [isBlankText, hc] using hblank⟩
      · exact ⟨blanks, by rw [List.singleton_append, ← hcs], hblank⟩
    · exact ⟨blanks, by rw [List.cons_append, ← hcs], hblank⟩

theorem isBlank_of_isIndent {c : Char} (h : isIndent c = true) : isBlank c = true := by
  unfold isIndent at h
  rw [Bool.or_eq_true, beq_iff_eq, beq_iff_eq] at h
  rcases h with rfl | rfl <;> rfl

/-- A line that is indented further, unless it is blank. -/
def indentedBy (w line : List Char) : List Char := if isBlankText line then line else w ++ line

theorem shifts_indentedBy {w : List Char} (hw : ∀ c ∈ w, isIndent c = true) :
    Shifts (indentedBy w) w.length where
  blank line := by
    unfold indentedBy
    split
    · rfl
    · next hink =>
      unfold isBlankText at hink ⊢
      rw [List.all_append, eq_false_of_ne_true hink, Bool.and_false]
  indent line hink := by
    unfold indentedBy indentOf
    rw [if_neg (by simp [hink]), List.takeWhile_append_of_pos hw, List.length_append, Nat.add_comm]
  text line n hink := by
    unfold indentedBy
    rw [if_neg (by simp [hink]), Nat.add_comm, ← List.drop_drop, List.drop_left]
  trim line := by
    unfold indentedBy
    split
    · rfl
    · unfold Text.trim trimStart
      rw [List.dropWhile_append_of_pos fun c hc => isBlank_of_isIndent (hw c hc)]

theorem shifts_trimEnd : Shifts trimEnd 0 where
  blank line := by
    obtain ⟨blanks, hline, hblank⟩ := exists_trimEnd line
    conv => rhs; rw [hline]
    unfold isBlankText at hblank ⊢
    rw [List.all_append, hblank, Bool.and_true]
  indent line hink := by
    obtain ⟨blanks, hline, hblank⟩ := exists_trimEnd line
    unfold indentOf
    conv => rhs; rw [hline]
    rw [List.takeWhile_append, if_neg, Nat.add_zero]
    -- The line would be blank if all that is not trimmed belonged to the indentation.
    intro hall
    have hself := List.takeWhile_eq_self_iff.mp ((List.takeWhile_prefix isIndent).eq_of_length hall)
    rw [hline] at hink
    unfold isBlankText at hink hblank
    rw [List.all_append, hblank, Bool.and_true, List.all_eq_true.mpr fun c hc =>
      isBlank_of_isIndent (hself c hc)] at hink
    cases hink
  text line n _ := by
    obtain ⟨blanks, hline, hblank⟩ := exists_trimEnd line
    conv => rhs; rw [hline]
    rw [List.drop_append, Nat.add_zero, trimEnd_append_blank]
    unfold isBlankText at hblank ⊢
    exact List.all_eq_true.mpr fun c hc => List.all_eq_true.mp hblank c (List.mem_of_mem_drop hc)
  trim line := by
    obtain ⟨blanks, hline, hblank⟩ := exists_trimEnd line
    unfold Text.trim trimStart
    conv => rhs; rw [hline]
    rw [List.dropWhile_append]
    split
    · next hempty =>
      have hall : blanks.dropWhile isBlank = [] :=
        List.dropWhile_eq_nil_iff.mpr fun c hc => List.all_eq_true.mp hblank c hc
      rw [hall, List.isEmpty_iff.mp hempty]
    · exact (trimEnd_append_blank _ hblank).symm

end Trellis.Source
