import Trellis.Proofs.Comments
import Trellis.Proofs.Confinement
import Trellis.Proofs.Cycles

/-!
# `Trellis.Proofs.Reindentation`: only the order of the widths of indentation matters

A `Reindentation` gives every width another one, in the same order, and indents with another character.
The scanner compares widths with each other only, and cuts off of a line just the indentation of that
line, so it finds the same statements in the same lines (`Reindentation.scan_source`). The margin of the
lines so far is that of the lines as they were, with other widths (`Reindentation.admits_margin`), which
carries the induction over the lines.

A block of text is the exception. It keeps what its lines are indented further than the least of them,
and that is a difference of widths, so the source must not have one.

Statements in the same lines are read alike, with the same faults (`Layout.Alike.readDocument`). And what
is read alike in all surroundings is resolved alike in all libraries (`Library.Replaced.document_eq`).
-/

set_option autoImplicit false

namespace Trellis

open Text

theorem Text.dropReturn_append {front : List Char} (h : '\r' ∉ front) (back : List Char) :
    dropReturn (front ++ back) = front ++ dropReturn back := by
  induction front with
  | nil => rfl
  | cons c front ih =>
    obtain ⟨hc, hfront⟩ := not_or.mp (List.mem_cons.not.mp h)
    have hcons (cs : List Char) : dropReturn (c :: cs) = c :: dropReturn cs := by
      rw [dropReturn.eq_3]
      rintro rfl -
      exact hc rfl
    rw [List.cons_append, hcons, ih hfront]
    rfl

/-- What is done to each line is done to the lines of the text. An empty line must stay so, for at the end
of a text it is no line. -/
theorem Text.lines_joinWith_map {g : List Char → List Char} {cs : List Char}
    (hline : ∀ part ∈ splitAll '\n' cs, '\n' ∉ g part)
    (hreturn : ∀ part ∈ splitAll '\n' cs, dropReturn (g part) = g (dropReturn part))
    (hempty : ∀ part ∈ splitAll '\n' cs, (g part).isEmpty = part.isEmpty) :
    lines (joinWith ['\n'] ((splitAll '\n' cs).map g)) = (lines cs).map g := by
  have hsplit : splitAll '\n' (joinWith ['\n'] ((splitAll '\n' cs).map g)) = (splitAll '\n' cs).map g := by
    refine splitAll_joinWith (by simpa using splitAll_ne_nil '\n' cs) fun p hp => ?_
    obtain ⟨part, hpart, rfl⟩ := List.mem_map.mp hp
    exact hline part hpart
  unfold lines
  rw [hsplit]
  generalize splitAll '\n' cs = parts at hreturn hempty
  induction parts with
  | nil => rfl
  | cons part parts ih =>
    obtain ⟨hpart, hparts⟩ := List.forall_mem_cons.mp hreturn
    obtain ⟨hpart', hparts'⟩ := List.forall_mem_cons.mp hempty
    cases parts with
    | nil =>
      show (if (g part).isEmpty then [] else [g part]) = List.map g (if part.isEmpty then [] else [part])
      rw [hpart']
      split <;> rfl
    | cons next parts =>
      show dropReturn (g part) :: lines.go (List.map g (next :: parts)) = _
      rw [hpart, ih hparts hparts']
      rfl

namespace Source

/-- Another width for every width, in the same order, and a character that indents. -/
structure Reindentation where
  width : Nat → Nat
  strict : StrictMono width
  zero : width 0 = 0
  unit : Char
  indents : isIndent unit = true

/-- The line is indented with spaces, if at all. -/
def InSpaces (line : List Char) : Prop := ∀ c ∈ indentOf line, c = ' '

namespace Reindentation

variable (r : Reindentation)

/-- The indentation that takes the place of one of the given width. -/
def indent (width : Nat) : List Char := List.replicate (r.width width) r.unit

/-- The line with the other indentation. -/
def line (line : List Char) : List Char :=
  r.indent (indentOf line).length ++ line.drop (indentOf line).length

/-- The source with the other indentation in every line. -/
def source (source : String) : String :=
  String.ofList (joinWith ['\n'] ((splitAll '\n' source.toList).map r.line))

/-! ### Single lines -/

theorem isIndent_of_mem_indent {width : Nat} {c : Char} (h : c ∈ r.indent width) : isIndent c = true := by
  rw [List.eq_of_mem_replicate h]
  exact r.indents

theorem drop_indentOf (line : List Char) :
    line.drop (indentOf line).length = line.dropWhile isIndent := by
  conv => lhs; arg 2; rw [← List.takeWhile_append_dropWhile (p := isIndent) (l := line)]
  exact List.drop_left

theorem indentOf_append_dropWhile {indent : List Char} (h : ∀ c ∈ indent, isIndent c = true)
    (line : List Char) : indentOf (indent ++ line.dropWhile isIndent) = indent := by
  have hnone : (line.dropWhile isIndent).takeWhile isIndent = [] := by
    cases hrest : line.dropWhile isIndent with
    | nil => rfl
    | cons c rest =>
      have hc := List.head?_dropWhile_not isIndent line
      rw [hrest] at hc
      exact List.takeWhile_cons_of_neg (by simpa using hc)
  rw [indentOf, List.takeWhile_append_of_pos h, hnone, List.append_nil]

theorem line_eq (line : List Char) :
    r.line line = r.indent (indentOf line).length ++ line.dropWhile isIndent := by
  rw [Reindentation.line, drop_indentOf]

theorem indentOf_line (line : List Char) : indentOf (r.line line) = r.indent (indentOf line).length := by
  rw [line_eq, indentOf_append_dropWhile fun c hc => r.isIndent_of_mem_indent hc]

theorem length_indentOf_line (line : List Char) :
    (indentOf (r.line line)).length = r.width (indentOf line).length := by
  rw [indentOf_line, indent, List.length_replicate]

/-- What stands behind the indentation is the same. -/
theorem drop_line (line : List Char) :
    (r.line line).drop (indentOf (r.line line)).length = line.drop (indentOf line).length := by
  rw [indentOf_line, Reindentation.line, List.drop_left]

theorem isBlankText_line (line : List Char) : isBlankText (r.line line) = isBlankText line := by
  have hblank {indent : List Char} (h : ∀ c ∈ indent, isIndent c = true) (rest : List Char) :
      isBlankText (indent ++ rest) = isBlankText rest := by
    unfold isBlankText
    rw [List.all_append, List.all_eq_true.mpr fun c hc => isBlank_of_isIndent (h c hc), Bool.true_and]
  conv => rhs; rw [← List.takeWhile_append_dropWhile (p := isIndent) (l := line)]
  rw [line_eq, hblank fun c hc => r.isIndent_of_mem_indent hc, hblank fun c hc => List.mem_takeWhile_imp hc]

theorem trim_line (line : List Char) : trim (r.line line) = trim line := by
  have htrim {indent : List Char} (h : ∀ c ∈ indent, isIndent c = true) (rest : List Char) :
      trim (indent ++ rest) = trim rest := by
    unfold trim trimStart
    rw [List.dropWhile_append_of_pos fun c hc => isBlank_of_isIndent (h c hc)]
  conv => rhs; rw [← List.takeWhile_append_dropWhile (p := isIndent) (l := line)]
  rw [line_eq, htrim fun c hc => r.isIndent_of_mem_indent hc, htrim fun c hc => List.mem_takeWhile_imp hc]

theorem isEmpty_line (line : List Char) : (r.line line).isEmpty = line.isEmpty := by
  cases line with
  | nil =>
    show (r.indent 0 ++ []).isEmpty = true
    rw [indent, r.zero]
    rfl
  | cons c line =>
    have hne : r.line (c :: line) ≠ [] := by
      rw [line_eq]
      by_cases hc : isIndent c = true
      · -- An indented line stays one.
        have hpos : r.width 0 < r.width (indentOf (c :: line)).length := by
          refine r.strict ?_
          rw [indentOf, List.takeWhile_cons_of_pos hc]
          exact Nat.succ_pos _
        refine List.append_ne_nil_of_left_ne_nil ?_ _
        rw [indent, ne_eq, List.replicate_eq_nil_iff]
        omega
      · rw [List.dropWhile_cons_of_neg hc]
        exact List.append_ne_nil_of_right_ne_nil _ (List.cons_ne_nil _ _)
    exact List.isEmpty_eq_false_iff.mpr hne

theorem notMem_line {c : Char} (hc : isIndent c = false) {line : List Char} (h : c ∉ line) :
    c ∉ r.line line := by
  intro hmem
  rcases List.mem_append.mp hmem with hmem | hmem
  · rw [r.isIndent_of_mem_indent hmem] at hc
    cases hc
  · exact h (List.mem_of_mem_drop hmem)

theorem dropReturn_line (line : List Char) : dropReturn (r.line line) = r.line (dropReturn line) := by
  have hindent {indent : List Char} (h : ∀ c ∈ indent, isIndent c = true) : '\r' ∉ indent :=
    fun hmem => by cases h _ hmem
  have hreturn : dropReturn line = indentOf line ++ dropReturn (line.dropWhile isIndent) := by
    conv => lhs; rw [← List.takeWhile_append_dropWhile (p := isIndent) (l := line)]
    exact dropReturn_append (hindent fun c hc => List.mem_takeWhile_imp hc) _
  -- Without the carriage return, the rest of the line is not indented either.
  have hrest : (dropReturn (line.dropWhile isIndent)).dropWhile isIndent =
      dropReturn (line.dropWhile isIndent) := by
    cases hrest : line.dropWhile isIndent with
    | nil => rfl
    | cons c rest =>
      have hc := List.head?_dropWhile_not isIndent line
      rw [hrest] at hc
      have hc : isIndent c = false := by simpa using hc
      unfold dropReturn
      split
      · rfl
      · rfl
      · next heq =>
        cases heq
        exact List.dropWhile_cons_of_neg (ne_true_of_eq_false hc)
  have hindentOf : indentOf (dropReturn line) = indentOf line := by
    rw [hreturn, ← hrest]
    exact indentOf_append_dropWhile (fun c hc => List.mem_takeWhile_imp hc) _
  rw [line_eq, dropReturn_append (hindent fun c hc => r.isIndent_of_mem_indent hc), Reindentation.line,
    hindentOf, hreturn, List.drop_left]

theorem lines_source (source : String) :
    Text.lines (r.source source).toList = (Text.lines source.toList).map r.line := by
  unfold Reindentation.source
  rw [String.toList_ofList]
  refine lines_joinWith_map (fun part hpart => ?_) (fun part _ => r.dropReturn_line part)
    fun part _ => r.isEmpty_line part
  exact r.notMem_line rfl (notMem_of_mem_splitAll hpart)

/-! ### The margin -/

/-- The margin of the lines with the other indentation. -/
def margin (m : Margin) : Margin := ⟨m.widths.map r.width, m.unit.map fun _ => r.unit⟩

theorem width_margin (m : Margin) : (r.margin m).width = r.width m.width := by
  unfold margin Margin.width
  cases m.widths with
  | nil => exact r.zero.symm
  | cons w widths => rfl

/-- The character is noted in both, and nothing else. -/
theorem checkUnit_margin {m noted : Margin} {indent : List Char} (hunit : ∀ c ∈ m.unit, c = ' ')
    (hspaces : ∀ c ∈ indent, c = ' ') (h : m.checkUnit indent = .ok noted) :
    (r.margin m).checkUnit (r.indent indent.length) = .ok (r.margin noted) ∧
      ∀ c ∈ noted.unit, c = ' ' := by
  cases indent with
  | nil =>
    cases h
    refine ⟨?_, hunit⟩
    rw [Reindentation.indent, List.length_nil, r.zero]
    rfl
  | cons c rest =>
    obtain ⟨-, hnoted⟩ := Margin.unit_of_checkUnit h
    have hwidths := Margin.widths_of_checkUnit h
    obtain rfl : c = ' ' := hspaces c List.mem_cons_self
    refine ⟨?_, by simp [hnoted]⟩
    have hmargin : r.margin noted = ⟨m.widths.map r.width, some r.unit⟩ := by
      rw [margin, hwidths, hnoted]
      rfl
    -- The character of the indentation is one only.
    have hpos : r.width 0 < r.width (' ' :: rest).length := r.strict (Nat.succ_pos _)
    obtain ⟨k, hk⟩ := Nat.exists_eq_succ_of_ne_zero (Nat.ne_zero_of_lt hpos)
    have hmixed : ¬((r.indent (' ' :: rest).length).contains '\t' &&
        (r.indent (' ' :: rest).length).contains ' ') = true := by
      rw [Bool.and_eq_true, List.contains_iff_mem, List.contains_iff_mem]
      rintro ⟨htab, hspace⟩
      have := (List.eq_of_mem_replicate htab).trans (List.eq_of_mem_replicate hspace).symm
      cases this
    have hindent : r.indent (' ' :: rest).length = r.unit :: List.replicate k r.unit := by
      rw [Reindentation.indent, hk]
      rfl
    rw [hindent] at hmixed ⊢
    unfold Margin.checkUnit
    dsimp only
    rw [if_neg hmixed, hmargin]
    cases hm : m.unit with
    | none =>
      simp [margin, hm]
    | some expected =>
      simp [margin, hm]

theorem dropWhile_map_width (widths : List Nat) (width : Nat) :
    (widths.map r.width).dropWhile (· > r.width width) =
      (widths.dropWhile (· > width)).map r.width := by
  rw [List.dropWhile_map]
  congr 2
  funext v
  show decide (r.width v > r.width width) = decide (v > width)
  rw [decide_eq_decide]
  exact r.strict.lt_iff_lt

/-- The same levels are opened and closed. -/
theorem moveTo_margin {m inside : Margin} {width : Nat} (h : m.moveTo width = .ok inside) :
    (r.margin m).moveTo (r.width width) = .ok (r.margin inside) := by
  unfold Margin.moveTo
  rw [r.width_margin]
  rcases Margin.moveTo_cases h with ⟨hdeeper, rfl⟩ | ⟨hback, hwidth, rfl⟩
  · rw [if_pos (r.strict hdeeper)]
    rfl
  · rw [if_neg (Nat.not_lt.mpr (r.strict.monotone hback))]
    have hkept : ({ r.margin m with widths := (r.margin m).widths.dropWhile (· > r.width width) } : Margin) =
        r.margin { m with widths := m.widths.dropWhile (· > width) } := by
      unfold margin
      rw [r.dropWhile_map_width]
    rw [hkept]
    exact if_pos (by rw [r.width_margin, hwidth])

/-- **A line is admitted at its other width**, behind lines with other widths. -/
theorem admits_margin {m inside : Margin} {line : List Char} (hunit : ∀ c ∈ m.unit, c = ' ')
    (hspaces : InSpaces line) (h : m.Admits (indentOf line) inside) :
    (r.margin m).Admits (indentOf (r.line line)) (r.margin inside) ∧ ∀ c ∈ inside.unit, c = ' ' := by
  obtain ⟨noted, hnoted, hinside⟩ := h
  obtain ⟨hnoted', hunit'⟩ := r.checkUnit_margin hunit hspaces hnoted
  have hmoved := r.moveTo_margin hinside
  rw [r.indentOf_line]
  refine ⟨⟨r.margin noted, hnoted', ?_⟩, ?_⟩
  · rwa [Reindentation.indent, List.length_replicate]
  · obtain ⟨-, -, hkept⟩ := Margin.moves_of_moveTo hinside
    rwa [hkept]

/-! ### What a line takes -/

theorem textBelow_line (statement : List Char) (below : List (List Char)) :
    textBelow statement (below.map r.line) = textBelow statement below := by
  unfold textBelow
  split
  · rw [List.flatMap_map]
    simp only [r.trim_line]
  · rfl

theorem dropLastBlank_line (lines : List (List Char)) :
    dropLastBlank (lines.map r.line) = (dropLastBlank lines).map r.line := by
  induction lines with
  | nil => rfl
  | cons line rest ih =>
    rw [List.map_cons, dropLastBlank, dropLastBlank, ih]
    cases dropLastBlank rest with
    | nil =>
      rw [List.map_nil]
      dsimp only
      rw [r.isBlankText_line]
      split <;> rfl
    | cons line' rest' => rfl

/-- The same lines are deeper. -/
theorem deeperLines_line (width : Nat) (below : List (List Char)) :
    deeperLines (r.width width) (below.map r.line) = (deeperLines width below).map r.line := by
  unfold deeperLines
  rw [List.takeWhile_map, r.dropLastBlank_line]
  congr 3
  funext line
  show (isBlankText (r.line line) || decide (r.width width < (indentOf (r.line line)).length)) = _
  rw [r.isBlankText_line, r.length_indentOf_line]
  congr 1
  rw [decide_eq_decide]
  exact r.strict.lt_iff_lt

/-- **A line takes the same tokens and the same lines**, if it has no block of text. -/
theorem takes_line {raw : List Char} {below : List (List Char)} {tokens : List Token} {used : Nat}
    (h : Takes raw below tokens used) (hblocks : ∀ texts, Token.textBlock texts ∉ tokens) :
    Takes (r.line raw) (below.map r.line) tokens used := by
  obtain ⟨s, hread, joined, block, hjoined, hblock, rfl, rfl⟩ := h
  unfold Takes
  rw [r.drop_line, r.textBelow_line, r.length_indentOf_line]
  refine ⟨s, hread, joined, block.map r.line, hjoined, ?_, ?_, by rw [List.length_map]⟩
  · rw [hblock]
    split
    · rfl
    · rw [← List.map_drop, r.deeperLines_line]
  · -- Deeper lines are no text of the statement, or there are none.
    unfold Statement.withBlock at hblocks ⊢
    by_cases htext : s.below = .text ∧ block ≠ []
    · rw [if_pos htext] at hblocks
      exact absurd (List.mem_append_right _ List.mem_cons_self) (hblocks (blockText block))
    · rw [if_neg htext, if_neg (by simpa using htext)]

end Reindentation

/-! ### The statements of the lines -/

/-- In which line a statement begins, how deep it stands, and what it says. -/
def Line.told (l : Line) : Nat × Nat × List Token := (l.position.line, l.depth, l.tokens)

theorem Line.told_eq_iff {l l' : Line} : l'.told = l.told ↔
    l'.position.line = l.position.line ∧ l'.depth = l.depth ∧ l'.tokens = l.tokens := by
  simp [Line.told]

/-- The same statements in the same lines, but maybe at other columns. -/
structure Layout.Alike (l l' : Layout) : Prop where
  lines : l'.lines.map Line.told = l.lines.map Line.told
  finish : l'.finish.line = l.finish.line

namespace Reindentation

variable (r : Reindentation)

/-- **The lines have the same statements**, by induction on the lines. -/
theorem scanFrom_line {m : Margin} {number skip : Nat} {last last' : Position} {lines : List (List Char)}
    {l : Layout} (hunit : ∀ c ∈ m.unit, c = ' ') (hspaces : ∀ line ∈ lines, InSpaces line)
    (hlast : last'.line = last.line) (h : Layout.scanFrom m number last skip lines = .ok l)
    (hblocks : ∀ line ∈ l.lines, ∀ texts, Token.textBlock texts ∉ line.tokens) :
    ∃ l', Layout.scanFrom (r.margin m) number last' skip (lines.map r.line) = .ok l' ∧ l.Alike l' := by
  induction lines generalizing m number skip last last' l with
  | nil =>
    rw [Layout.scanFrom] at h
    cases h
    exact ⟨⟨[], last'⟩, rfl, rfl, hlast⟩
  | cons raw below ih =>
    obtain ⟨hraw, hbelow⟩ := List.forall_mem_cons.mp hspaces
    rw [List.map_cons]
    cases skip with
    | succ k =>
      rw [Layout.scanFrom] at h ⊢
      exact ih hunit hbelow hlast h hblocks
    | zero =>
      rw [Layout.scanFrom] at h ⊢
      rw [r.isBlankText_line]
      split at h
      · next hblank =>
        rw [if_pos hblank]
        have hplace : Position.line ⟨number, last'.column⟩ = Position.line ⟨number, last.column⟩ := rfl
        exact ih hunit hbelow hplace h hblocks
      next hink =>
      rw [if_neg hink]
      split at h
      · cases h
      next p hp =>
      split at h
      · cases h
      next rest hrest =>
      cases h
      obtain ⟨hline, hlater⟩ := List.forall_mem_cons.mp hblocks
      obtain ⟨inside, tokens, used, hadmits, htakes, rfl⟩ := placeStatement_eq_ok_iff.mp hp
      obtain ⟨hadmits', hunit'⟩ := r.admits_margin hunit hraw hadmits
      have hplace : Position.line ⟨number, (indentOf (r.line raw)).length + 1⟩ =
        Position.line ⟨number, (indentOf raw).length + 1⟩ := rfl
      obtain ⟨rest', hrest', halike⟩ := ih hunit' hbelow hplace hrest hlater
      rw [placeStatement_eq_ok_iff.mpr ⟨_, tokens, used, hadmits', r.takes_line htakes hline, rfl⟩]
      dsimp only
      rw [hrest']
      refine ⟨_, rfl, ?_, halike.finish⟩
      rw [List.map_cons, List.map_cons, halike.lines]
      simp [Line.told, margin]

/-- **The source with the other indentation** has the same statements in the same lines. -/
theorem scan_source {source : String} {l : Layout}
    (hspaces : ∀ line ∈ Text.lines source.toList, InSpaces line) (h : Layout.scan source = .ok l)
    (hblocks : ∀ line ∈ l.lines, ∀ texts, Token.textBlock texts ∉ line.tokens) :
    ∃ l', Layout.scan (r.source source) = .ok l' ∧ l.Alike l' := by
  obtain ⟨l', hscan, halike⟩ := r.scanFrom_line (m := .start) nofun hspaces rfl h hblocks
  refine ⟨l', ?_, halike⟩
  rw [Layout.scan, r.lines_source]
  exact hscan

end Reindentation

/-! ### What is read -/

namespace Layout.Alike

variable {l l' : Layout} (h : l.Alike l')
include h

/-- The streams of tokens are the same, line by line. -/
theorem items : l'.items.map (fun i => (i.1.line, i.2)) = l.items.map fun i => (i.1.line, i.2) := by
  have hitems (before : Nat) {lines lines' : List Line} (hlines : lines'.map Line.told = lines.map Line.told) :
      (itemsFrom l'.finish before lines').map (fun i => (i.1.line, i.2)) =
        (itemsFrom l.finish before lines).map fun i => (i.1.line, i.2) := by
    induction lines generalizing before lines' with
    | nil =>
      rw [List.map_eq_nil_iff.mp hlines]
      simp [itemsFrom, h.finish]
    | cons line lines ih =>
      obtain ⟨line', lines', rfl, hline, hlines⟩ := List.map_eq_cons_iff.mp hlines
      obtain ⟨hnumber, hdepth, htokens⟩ := Line.told_eq_iff.mp hline
      rw [itemsFrom, itemsFrom, List.map_append, List.map_append, hdepth, ih _ hlines, Line.items,
        Line.items, List.map_map, List.map_map, hdepth, htokens]
      congr 2
      funext i
      show (line'.position.line, i) = (line.position.line, i)
      rw [hnumber]
  exact hitems 0 h.lines

/-- The forests are the same, with the numbers of the lines. -/
theorem forest : Entry.forest l' = Entry.forest l := by
  have harrange {lines lines' : List Line} (hlines : lines'.map Line.told = lines.map Line.told) :
      Entry.arrange l'.finish.line lines' = Entry.arrange l.finish.line lines := by
    induction lines generalizing lines' with
    | nil =>
      rw [List.map_eq_nil_iff.mp hlines]
      rfl
    | cons line lines ih =>
      obtain ⟨line', lines', rfl, hline, hlines⟩ := List.map_eq_cons_iff.mp hlines
      obtain ⟨hnumber, hdepth, htokens⟩ := Line.told_eq_iff.mp hline
      rw [Entry.arrange.eq_def, Entry.arrange.eq_def _ (line :: lines)]
      dsimp only
      rw [ih hlines, hnumber, hdepth, htokens]
      -- The number of the next line is the same, too.
      cases lines with
      | nil =>
        rw [List.map_eq_nil_iff.mp hlines, h.finish]
      | cons next lines =>
        obtain ⟨next', lines', rfl, hnext, -⟩ := List.map_eq_cons_iff.mp hlines
        have hnext : next'.position.line = next.position.line := congrArg Prod.fst hnext
        dsimp only
        rw [hnext]
  unfold Entry.forest
  rw [harrange h.lines]

/-- **The documents are the same, and the faults.** -/
theorem readDocument (s : Surroundings) : readDocument s l' = Trellis.readDocument s l := by
  have hlines := h.lines
  unfold Trellis.readDocument
  rw [h.forest]
  cases hfirst : l.lines with
  | nil =>
    rw [hfirst] at hlines
    rw [List.map_eq_nil_iff.mp hlines]
  | cons line lines =>
    rw [hfirst] at hlines
    obtain ⟨line', lines', hfirst', hline, -⟩ := List.map_eq_cons_iff.mp hlines
    obtain ⟨hnumber, hdepth, -⟩ := Line.told_eq_iff.mp hline
    rw [hfirst']
    dsimp only [List.head?_cons]
    rw [hnumber, hdepth]

end Layout.Alike

end Source

open Source

/-! ### Libraries with another source -/

/-- Of the texts of sources, a template only includes raw ones. -/
theorem parse_congr_fetch {template : String} {fetch fetch' : String → Asking String}
    {load : String → Asking Document} (h : ∀ name, Reference.isRaw name = true → fetch' name = fetch name)
    (source : String) : (Surroundings.mk template fetch' load).parse source =
      (Surroundings.mk template fetch load).parse source := by
  have hrelated : Surroundings.RelatedAsking (fun a a' => a = a') (fun a a' => a = a')
      (fun _ => True) (fun _ => True) ⟨template, fetch', load⟩ ⟨template, fetch, load⟩ :=
    { template := rfl
      includeNodes := fun line target _ => by
        unfold Surroundings.includeNodes
        dsimp only
        split
        · next hraw =>
          rw [h _ hraw]
          rfl
        · rfl
      base := fun line target _ => rfl }
  unfold Surroundings.parse
  split
  · rfl
  · next layout _ => exact readDocument_related respectsAsking_eq hrelated layout.namesOnly_true

theorem bind_apply_of_ok {ε σ α β : Type} {a : EStateM ε σ α} {k : α → EStateM ε σ β} {x : α}
    {p between : σ} (h : a p = .ok x between) : (a >>= k) p = k x between := by
  show EStateM.bind a k p = _
  rw [EStateM.bind, h]

theorem Library.ask_eq_ok {l : Library} {name source : String} (h : l.source name = .ok source)
    (asked : List String) : l.ask name asked = .ok source (name :: asked) := by
  rw [ask, h]

namespace Library.Replaced

variable {l l' : Library} {source source' : String} (h : l.Replaced source source' l')
  (hparse : ∀ s : Surroundings, s.parse source' = s.parse source)
include h hparse

/-- A template is resolved alike if what it loads is. -/
theorem resolve_eq {unused chain : List String} {name : String}
    (hload : l'.load unused (chain ++ [name]) = l.load unused (chain ++ [name])) :
    l'.resolve unused chain name = l.resolve unused chain name := by
  have hfetch (name : String) (hraw : Reference.isRaw name = true) : l'.ask name = l.ask name := by
    rcases h.source name with hsame | ⟨hnotRaw, -⟩
    · unfold ask
      rw [hsame]
    · rw [hraw] at hnotRaw
      cases hnotRaw
  rw [resolve_eq_parse, resolve_eq_parse, hload]
  funext asked
  rcases h.source name with hsame | ⟨-, hsource, hsource'⟩
  · have hask : l'.ask name = l.ask name := by
      unfold ask
      rw [hsame]
    rw [hask]
    simp only [parse_congr_fetch hfetch]
  · rw [bind_apply_of_ok (ask_eq_ok hsource asked), bind_apply_of_ok (ask_eq_ok hsource' asked), hparse,
      parse_congr_fetch hfetch]

/-- **What is loaded from both libraries is the same**, by induction on the names that are left. -/
theorem load_eq (unused under : List String) : l'.load unused under = l.load unused under := by
  induction hn : unused.length using Nat.strongRecOn generalizing unused under with
  | ind n ih =>
  funext target
  unfold load
  split
  · rfl
  · split
    · next hmem =>
      have hshorter : (unused.erase target).length < n := hn ▸ length_erase_lt hmem
      exact h.resolve_eq hparse (ih _ hshorter _ _ rfl)
    · -- The source is asked for, but not read.
      funext asked
      rcases h.source target with hsame | ⟨-, hsource, hsource'⟩
      · unfold ask
        rw [hsame]
      · rw [bind_apply_of_ok (ask_eq_ok hsource asked), bind_apply_of_ok (ask_eq_ok hsource' asked)]

/-- The documents, the faults, and the names that were asked for are the same. -/
theorem document_eq (name : String) : l'.document name = l.document name := by
  unfold document
  rw [h.names, h.resolve_eq hparse (h.load_eq hparse _ _)]

end Library.Replaced

/-- **Only the order of the widths of indentation matters.** Take a source that is indented with spaces
and has no blocks of text. Give its lines other widths in the same order, in spaces or in tabs. Then the
stream of tokens is the same, line by line. The source is read as the same document or has the same
fault, whatever the template is called and refers to. So it also is for all templates that refer to it. -/
theorem parse_reindented (r : Reindentation) (source : String) (layout : Layout)
    (hspaces : ∀ line ∈ Text.lines source.toList, InSpaces line) (hscan : Layout.scan source = .ok layout)
    (hblocks : ∀ line ∈ layout.lines, ∀ texts, Token.textBlock texts ∉ line.tokens) :
    (∃ layout', Layout.scan (r.source source) = .ok layout' ∧
      layout'.items.map (fun i => (i.1.line, i.2)) = layout.items.map fun i => (i.1.line, i.2)) ∧
    (∀ s : Surroundings, s.parse (r.source source) = s.parse source) ∧
    ∀ l l' : Library, l.Replaced source (r.source source) l' →
      ∀ name, l'.document name = l.document name := by
  obtain ⟨layout', hscan', halike⟩ := r.scan_source hspaces hscan hblocks
  have hparse (s : Surroundings) : s.parse (r.source source) = s.parse source := by
    unfold Surroundings.parse
    rw [hscan', hscan]
    exact halike.readDocument s
  exact ⟨⟨layout', hscan', halike.items⟩, hparse, fun l l' hl name => hl.document_eq hparse name⟩

/-- Two tabs for every space. -/
def doubledTabs : Reindentation where
  width v := 2 * v
  strict _ _ h := Nat.mul_lt_mul_of_pos_left h Nat.two_pos
  zero := rfl
  unit := '\t'
  indents := rfl

/-- Texts inside conditions. -/
def nestedTests : String := "if a\n  if b\n    | x\n  | y"

/-- The statements of the texts. -/
def nestedLayout : Layout where
  lines := [⟨⟨1, 1⟩, 0, [.cond "a"]⟩, ⟨⟨2, 3⟩, 1, [.cond "b"]⟩, ⟨⟨3, 5⟩, 2, [.text "x"]⟩,
    ⟨⟨4, 3⟩, 1, [.text "y"]⟩]
  finish := ⟨4, 3⟩

/-- The texts are read alike with four tabs for each two spaces. -/
theorem parse_reindented_nestedTests :
    Layout.scan nestedTests = .ok nestedLayout ∧
      doubledTabs.source nestedTests = "if a\n\t\t\t\tif b\n\t\t\t\t\t\t\t\t| x\n\t\t\t\t| y" ∧
      ∀ s : Surroundings,
        s.parse "if a\n\t\t\t\tif b\n\t\t\t\t\t\t\t\t| x\n\t\t\t\t| y" = s.parse nestedTests := by
  have hscan : Layout.scan nestedTests = .ok nestedLayout := by cbv
  have hsource : doubledTabs.source nestedTests =
      "if a\n\t\t\t\tif b\n\t\t\t\t\t\t\t\t| x\n\t\t\t\t| y" := by cbv
  refine ⟨hscan, hsource, ?_⟩
  rw [← hsource]
  have hlines : Text.lines nestedTests.toList = ["if a".toList, "  if b".toList, "    | x".toList,
      "  | y".toList] := by cbv
  have hspaces : ∀ line ∈ Text.lines nestedTests.toList, InSpaces line := by
    rw [hlines]
    simp [InSpaces, indentOf, isIndent]
  obtain ⟨-, hparse, -⟩ := parse_reindented doubledTabs nestedTests _ hspaces hscan (by simp [nestedLayout])
  exact hparse

end Trellis
