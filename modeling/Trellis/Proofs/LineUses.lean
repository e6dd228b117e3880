import Trellis.Proofs.Passing
import Trellis.Proofs.RawBlocks
import Trellis.Proofs.Scanning
import Trellis.Proofs.Transclusion

/-!
# `Trellis.Proofs.LineUses`: every line is used once

The scanner of a template is a loop as well: `scanTurn` does what is to be done with the next line that
is not used up. It passes over a blank line, or places the statement that begins there and goes on
behind the lines that this uses up. `finishes_scan` says that this is what the scanner does, and
`scan_turns` that the number of lines that are used up grows with every turn and never passes the
number of lines.

Where a template is accepted, its lines fall into a row of `Stretch`es: a blank line, or a statement with
the lines that its lists in brackets run over and with its block. `Stretch.StandsAt` ties a stretch to
what the scanner has done at its first line: the cursor that goes through the statement takes in exactly
the lines that continue it (`exists_passes`, `exists_stretch`). `exists_tiles` puts the stretches
together.

`scan_progress` is all of it, with the two loops over lists in brackets.
-/

set_option autoImplicit false

namespace Trellis.Source

open Trellis.Text

/-! ### The loop over the lines -/

/-- Where the scanner stands: the margin, how many lines are used up, the place of the last statement or
blank line, and the statements so far. -/
structure ScanState where
  margin : Margin
  next : Nat
  last : Position
  done : List Line

/-- In front of the first line. -/
def ScanState.start : ScanState := ⟨.start, 0, ⟨0, 1⟩, []⟩

/-- One turn of the loop over the lines of a template. -/
def scanTurn (lines : List (List Char)) (s : ScanState) : Turn ScanState (Except ScanError Layout) :=
  match lines[s.next]? with
  | none => .stop (.ok ⟨s.done, s.last⟩)
  | some raw =>
    if isBlankText raw then
      .again { s with next := s.next + 1, last := ⟨s.next + 1, s.last.column⟩ }
    else
      match placeStatement s.margin (s.next + 1) raw (lines.drop (s.next + 1)) with
      | .error e => .stop (.error e)
      | .ok p => .again ⟨p.margin, s.next + 1 + p.used, p.line.position, s.done ++ [p.line]⟩

section
variable {lines : List (List Char)} {s s' : ScanState}

theorem AreLines.drop (h : AreLines lines) (n : Nat) : AreLines (lines.drop n) :=
  fun line hline => h line (List.mem_of_mem_drop hline)

/-- A statement uses up no more than the lines below it. -/
theorem used_le_of_placeStatement {n : Nat} {m : Margin} {raw : List Char} {p : Placed} (hlines : AreLines lines)
    (hraw : lines[n]? = some raw) (h : placeStatement m (n + 1) raw (lines.drop (n + 1)) = .ok p) :
    n + 1 + p.used ≤ lines.length := by
  have hn := (List.getElem?_eq_some_iff.mp hraw).1
  have hused := (takes_of_placeStatement h).2.1.used_le (hlines.drop _)
  rw [List.length_drop] at hused
  omega

/-- **One turn of the loop** uses up lines, and no more than there are. -/
theorem next_lt_of_scanTurn (hlines : AreLines lines) (h : scanTurn lines s = .again s') :
    s.next < s'.next ∧ s'.next ≤ lines.length := by
  unfold scanTurn at h
  split at h
  · cases h
  next raw hraw =>
  have hn := (List.getElem?_eq_some_iff.mp hraw).1
  split at h
  · cases h
    exact ⟨Nat.lt_succ_self _, hn⟩
  split at h
  · cases h
  · next p hp =>
    cases h
    refine ⟨?_, used_le_of_placeStatement hlines hraw hp⟩
    show s.next < s.next + 1 + p.used
    omega

/-- **Every turn of the loop.** -/
theorem scan_turns (hlines : AreLines lines) (hs : Comes (scanTurn lines) .start s) :
    s.next ≤ lines.length ∧ ∀ s', scanTurn lines s = .again s' → s.next < s'.next := by
  have hnext : s.next ≤ lines.length :=
    hs.keeps (P := fun s => s.next ≤ lines.length) (fun _ _ _ h => (next_lt_of_scanTurn hlines h).2)
      (Nat.zero_le _)
  exact ⟨hnext, fun s' h => (next_lt_of_scanTurn hlines h).1⟩

/-- The scan goes on behind the lines that are used up. -/
theorem scanFrom_drop (m : Margin) (number : Nat) (last : Position) {used : Nat}
    {below : List (List Char)} (h : used ≤ below.length) :
    Layout.scanFrom m number last used below =
      Layout.scanFrom m (number + used) last 0 (below.drop used) := by
  have hused := scanFrom_used m number last (below.take used) (below.drop used)
  rwa [List.take_append_drop, List.length_take_of_le h] at hused

/-- The loop does what is left of the scan. -/
theorem finishes_scanFrom (hlines : AreLines lines) (s : ScanState) :
    Finishes (scanTurn lines) s
      ((Layout.scanFrom s.margin (s.next + 1) s.last 0 (lines.drop s.next)).map fun l =>
        { l with lines := s.done ++ l.lines }) := by
  cases hraw : lines[s.next]? with
  | none =>
    rw [List.drop_eq_nil_of_le (List.getElem?_eq_none_iff.mp hraw), Layout.scanFrom]
    refine .stop ?_
    simp [scanTurn, hraw, Except.map]
  | some raw =>
    have hn := (List.getElem?_eq_some_iff.mp hraw).1
    rw [drop_of_getElem? hraw, Layout.scanFrom]
    split
    · next hblank =>
      have hrest := finishes_scanFrom hlines
        { s with next := s.next + 1, last := ⟨s.next + 1, s.last.column⟩ }
      refine .again ?_ hrest
      simp only [scanTurn, hraw, if_pos hblank]
    · next hink =>
      split
      · next e hplace =>
        refine .stop ?_
        simp only [scanTurn, hraw, if_neg hink, hplace]
        rfl
      · next p hplace =>
        have hused := used_le_of_placeStatement hlines hraw hplace
        have hrest := finishes_scanFrom hlines
          ⟨p.margin, s.next + 1 + p.used, p.line.position, s.done ++ [p.line]⟩
        have hturn : scanTurn lines s =
            .again ⟨p.margin, s.next + 1 + p.used, p.line.position, s.done ++ [p.line]⟩ := by
          simp only [scanTurn, hraw, if_neg hink, hplace]
        have hbelow : p.used ≤ (lines.drop (s.next + 1)).length := by
          rw [List.length_drop]
          omega
        rw [scanFrom_drop p.margin (s.next + 1 + 1) p.line.position hbelow, List.drop_drop,
          show s.next + 1 + 1 + p.used = s.next + 1 + p.used + 1 by omega]
        refine .again hturn ?_
        cases hscan : Layout.scanFrom p.margin (s.next + 1 + p.used + 1) p.line.position 0
            (lines.drop (s.next + 1 + p.used)) with
        | error e => simpa [hscan, Except.map] using hrest
        | ok rest => simpa [hscan, Except.map] using hrest
termination_by lines.length - s.next
decreasing_by all_goals omega

/-- **The loop does what the scanner does.** -/
theorem finishes_scan (source : String) :
    Finishes (scanTurn (Text.lines source.toList)) .start (Layout.scan source) := by
  have hscan := finishes_scanFrom (areLines_lines source.toList) .start
  unfold Layout.scan
  cases hfrom : Layout.scanFrom .start 1 ⟨0, 1⟩ 0 (Text.lines source.toList) with
  | error e => simpa [ScanState.start, hfrom, Except.map] using hscan
  | ok l => simpa [ScanState.start, hfrom, Except.map] using hscan

end

/-! ### The lines of a statement -/

section
variable {lines : List (List Char)} {text : List Char} {n : Nat} {s : Statement}

theorem count_trimmedLines {lines : List (List Char)} (hlines : AreLines lines) :
    (trimmedLines lines).count '\n' = lines.length :=
  count_textBelow (show ['('].contains '(' = true from rfl) hlines

theorem trimmedLines_append (front behind : List (List Char)) :
    trimmedLines (front ++ behind) = trimmedLines front ++ trimmedLines behind := List.flatMap_append

theorem textBelow_of_mem (h : '(' ∈ text) (below : List (List Char)) :
    textBelow text below = trimmedLines below := by
  rw [textBelow, if_pos (by simpa using h)]
  rfl

theorem textBelow_of_notMem (h : '(' ∉ text) (below : List (List Char)) : textBelow text below = [] := by
  rw [textBelow, if_neg (by simpa using h)]

/-- **The lines that continue a statement** are those that a cursor takes in on its way through. They
are just the ones that the statement needs to be read. -/
theorem exists_passes (hlines : AreLines lines) (hn : n ≤ lines.length) (hline : '\n' ∉ text)
    (h : readStatement (text ++ textBelow text (lines.drop n)) = .ok s) :
    ∃ c : Cursor, (Cursor.mk text 0 n).Passes lines c ∧ c.Within lines ∧ c.place = c.text.length ∧
      c.next = n + ((textBelow text (lines.drop n)).count '\n' - s.rest.count '\n') ∧
      readStatement (text ++ trimmedLines ((lines.drop n).take (c.next - n))) = .ok { s with rest := [] } := by
  have hstart : (Cursor.mk text 0 n).Within lines := ⟨Nat.zero_le _, hn, hline⟩
  by_cases hopen : '(' ∈ text
  · rw [textBelow_of_mem hopen] at h ⊢
    obtain ⟨c, hpasses, hplace, hrest⟩ := passes_readStatement hlines hstart h
    obtain ⟨hwithin, hnext⟩ := hpasses.within_next hlines hstart
    replace hnext : n ≤ c.next := hnext
    have hle := hwithin.next
    refine ⟨c, hpasses, hwithin, hplace, ?_, ?_⟩
    · rw [hrest, count_trimmedLines (hlines.drop _), count_trimmedLines (hlines.drop _),
        List.length_drop, List.length_drop]
      omega
    · obtain ⟨front, hsplit, -, hlocal⟩ := local_readStatement _ _ h
      have hbelow : trimmedLines (lines.drop n) =
          trimmedLines ((lines.drop n).take (c.next - n)) ++ trimmedLines (lines.drop c.next) := by
        have hdrop : lines.drop c.next = (lines.drop n).drop (c.next - n) := by
          rw [List.drop_drop, Nat.add_sub_cancel' hnext]
        rw [hdrop, ← trimmedLines_append, List.take_append_drop]
      rw [hbelow, hrest, ← List.append_assoc] at hsplit
      have hread := hlocal [] rfl
      rwa [List.append_nil, ← List.append_cancel_right hsplit] at hread
  · -- Without a parenthesis, it is as if the template ended with the line.
    rw [textBelow_of_notMem hopen] at h ⊢
    have htake : (lines.take n).drop n = [] := List.drop_eq_nil_of_le (List.length_take_le _ _)
    have hstart' : (Cursor.mk text 0 n).Within (lines.take n) :=
      ⟨Nat.zero_le _, (List.length_take_of_le hn).ge, hline⟩
    have hleft : (Cursor.mk text 0 n).left (lines.take n) = text ++ [] := by
      show text ++ trimmedLines ((lines.take n).drop n) = text ++ []
      rw [htake]
      rfl
    have hlines' : AreLines (lines.take n) := fun line hmem => hlines line (List.mem_of_mem_take hmem)
    obtain ⟨c, hpasses, hplace, hrest⟩ := passes_readStatement hlines' hstart' (hleft ▸ h)
    obtain ⟨hnext, hpasses'⟩ := hpasses.of_noBracket hopen lines
    replace hnext : c.next = n := hnext
    rw [hnext, htake] at hrest
    refine ⟨c, hpasses', (hpasses'.within_next hlines hstart).1, hplace, ?_, ?_⟩
    · rw [hnext, List.count_nil, Nat.zero_sub, Nat.add_zero]
    · rw [hnext, Nat.sub_self, List.take_zero]
      have hs : s = { s with rest := [] } := by
        cases s
        cases hrest
        rfl
      rwa [← hs]

end

/-! ### Stretches -/

/-- What some lines behind each other are used for: a blank line is passed over, and a statement has its
first line, the lines that continue it inside brackets, and its block. -/
inductive Stretch where
  | blank (line : List Char)
  | statement (first : List Char) (continuations block : List (List Char)) (line : Line)

/-- The lines of a template that a stretch takes up. -/
def Stretch.lines : Stretch → List (List Char)
  | .blank line => [line]
  | .statement first continuations block _ => first :: (continuations ++ block)

/-- The statement of a stretch. -/
def Stretch.line? : Stretch → Option Line
  | .blank _ => none
  | .statement _ _ _ line => some line

/-- The stretch begins with the line that stands behind `n` others. A cursor that goes through the
statement takes in the lines that continue it, and comes to an end behind them. The block is what is
indented deeper, where that is text or is discarded. -/
inductive Stretch.StandsAt (lines : List (List Char)) (n : Nat) : Stretch → Prop
  | blank {line : List Char} (h : isBlankText line = true) : StandsAt lines n (.blank line)
  | statement {first text : List Char} {continuations block : List (List Char)} {line : Line}
    {s : Statement} {c : Cursor} (ink : isBlankText first = false)
    (position : line.position = ⟨n + 1, (indentOf first).length + 1⟩)
    (htext : text = trimEnd (first.drop (indentOf first).length))
    (reads : readStatement (text ++ trimmedLines continuations) = .ok s) (rest : s.rest = [])
    (passes : (Cursor.mk text 0 (n + 1)).Passes lines c) (place : c.place = c.text.length)
    (next : c.next = n + 1 + continuations.length)
    (hblock : block = if s.below = .statements then []
      else deeperLines (indentOf first).length (lines.drop c.next))
    (tokens : line.tokens = s.withBlock block) : StandsAt lines n (.statement first continuations block line)

/-- The stretches follow each other from the line behind `n` others on to the last line. -/
inductive Tiles (lines : List (List Char)) : Nat → List Stretch → Prop
  | done : Tiles lines lines.length []
  | next {n : Nat} {x : Stretch} {xs : List Stretch} (front : x.lines <+: lines.drop n)
    (stands : x.StandsAt lines n) (rest : Tiles lines (n + x.lines.length) xs) : Tiles lines n (x :: xs)

section
variable {lines : List (List Char)} {n : Nat}

theorem deeperLines_isPrefix (width : Nat) (below : List (List Char)) : deeperLines width below <+: below := by
  obtain ⟨blank, hsplit, -⟩ := append_of_dropLastBlank
    (below.takeWhile fun line => isBlankText line || width < (indentOf line).length)
  refine List.IsPrefix.trans ⟨blank, hsplit.symm⟩ (List.takeWhile_prefix _)

/-- **A statement makes a stretch.** -/
theorem exists_stretch {raw : List Char} {m : Margin} {p : Placed} (hlines : AreLines lines)
    (hraw : lines[n]? = some raw) (hink : isBlankText raw = false)
    (h : placeStatement m (n + 1) raw (lines.drop (n + 1)) = .ok p) :
    ∃ x : Stretch, x.StandsAt lines n ∧ x.line? = some p.line ∧ x.lines <+: lines.drop n ∧
      n + x.lines.length = n + 1 + p.used := by
  obtain ⟨-, ⟨s, hread, joined, block, hjoined, hblock, htokens, hused⟩, hline⟩ := takes_of_placeStatement h
  have hn := (List.getElem?_eq_some_iff.mp hraw).1
  have htext : '\n' ∉ trimEnd (raw.drop (indentOf raw).length) := fun hmem =>
    hlines raw (List.mem_of_getElem? hraw) (List.mem_of_mem_drop ((trimEnd_isPrefix _).subset hmem))
  obtain ⟨c, hpasses, hwithin, hplace, hnext, hreads⟩ := exists_passes hlines hn htext hread
  have hle := hwithin.next
  rw [← hjoined] at hnext
  rw [hnext, Nat.add_sub_cancel_left] at hreads
  have hlength : ((lines.drop (n + 1)).take joined).length = joined := by
    refine List.length_take_of_le ?_
    rw [List.length_drop]
    omega
  refine ⟨.statement raw ((lines.drop (n + 1)).take joined) block p.line, ?_, rfl, ?_, ?_⟩
  · refine .statement hink (by rw [hline]) rfl hreads rfl hpasses hplace (by rw [hlength, hnext]) ?_ htokens
    rw [hblock, List.drop_drop, hnext]
  · have hprefix : block <+: (lines.drop (n + 1)).drop joined := by
      rw [hblock]
      split
      · exact List.nil_prefix
      · exact deeperLines_isPrefix _ _
    rw [drop_of_getElem? hraw]
    refine List.cons_prefix_cons.mpr ⟨rfl, ?_⟩
    have hsplit := (List.prefix_append_right_inj ((lines.drop (n + 1)).take joined)).mpr hprefix
    rwa [List.take_append_drop] at hsplit
  · rw [Stretch.lines, List.length_cons, List.length_append, hlength, hused]
    omega

/-- **The lines that are scanned fall into stretches**, and the statements are those of the stretches. -/
theorem exists_tiles (hlines : AreLines lines) {n : Nat} (hn : n ≤ lines.length) {m : Margin}
    {last : Position} {l : Layout} (h : Layout.scanFrom m (n + 1) last 0 (lines.drop n) = .ok l) :
    ∃ stretches, Tiles lines n stretches ∧ l.lines = stretches.filterMap Stretch.line? := by
  cases hraw : lines[n]? with
  | none =>
    have hlength := List.getElem?_eq_none_iff.mp hraw
    rw [List.drop_eq_nil_of_le hlength, Layout.scanFrom] at h
    cases h
    obtain rfl : n = lines.length := hn.antisymm hlength
    exact ⟨[], .done, rfl⟩
  | some raw =>
    have hlt := (List.getElem?_eq_some_iff.mp hraw).1
    have hdrop := drop_of_getElem? hraw
    rw [hdrop, Layout.scanFrom] at h
    split at h
    · next hblank =>
      obtain ⟨stretches, htiles, hstatements⟩ := exists_tiles hlines hlt h
      refine ⟨.blank raw :: stretches, .next ?_ (.blank hblank) htiles, hstatements⟩
      rw [hdrop]
      exact List.prefix_append [raw] _
    next hink =>
    split at h
    · cases h
    next p hplace =>
    have hused := used_le_of_placeStatement hlines hraw hplace
    have hbelow : p.used ≤ (lines.drop (n + 1)).length := by
      rw [List.length_drop]
      omega
    rw [scanFrom_drop p.margin (n + 1 + 1) p.line.position hbelow, List.drop_drop,
      show n + 1 + 1 + p.used = n + 1 + p.used + 1 by omega] at h
    split at h
    · cases h
    next rest hrest =>
    cases h
    obtain ⟨stretches, htiles, hstatements⟩ := exists_tiles hlines hused hrest
    obtain ⟨x, hx, hline, hfront, hlength⟩ := exists_stretch hlines hraw (eq_false_of_ne_true hink) hplace
    refine ⟨x :: stretches, .next hfront hx (hlength ▸ htiles), ?_⟩
    rw [List.filterMap_cons_some hline, ← hstatements]
termination_by lines.length - n
decreasing_by all_goals omega

theorem Tiles.eq_flatMap {stretches : List Stretch} (h : Tiles lines n stretches) :
    lines.drop n = stretches.flatMap Stretch.lines := by
  induction h with
  | done => exact List.drop_length
  | @next n x xs front _ _ ih =>
    rw [List.flatMap_cons, ← ih, ← List.drop_drop]
    exact (List.prefix_iff_eq_append.mp front).symm

/-- Every stretch stands behind the lines of those in front of it. -/
theorem Tiles.standsAt {stretches before after : List Stretch} {x : Stretch} (h : Tiles lines n stretches)
    (hsplit : stretches = before ++ x :: after) :
    x.StandsAt lines (n + (before.flatMap Stretch.lines).length) := by
  induction h generalizing before with
  | done => simp at hsplit
  | @next n y ys _ stands _ ih =>
    cases before with
    | nil =>
      cases hsplit
      exact stands
    | cons z before =>
      cases hsplit
      rw [List.flatMap_cons, List.length_append, ← Nat.add_assoc]
      exact ih rfl

end

/-! ### Progress -/

/-- **The scanner makes progress and uses each line once.** The loop over the lines comes to an end, and
every turn of it uses up lines that were not used up before. Where a template is accepted, its lines
fall into stretches in one row. And wherever a list in brackets begins, the loop that reads it comes
to an end, every turn of it advances the cursor within its text or by one line, and no bracket is
closed that is not open. -/
theorem scan_progress (source : String) :
    let lines := Text.lines source.toList
    Finishes (scanTurn lines) .start (Layout.scan source) ∧
    (∀ s, Comes (scanTurn lines) .start s →
      s.next ≤ lines.length ∧ ∀ s', scanTurn lines s = .again s' → s.next < s'.next) ∧
    (∀ l, Layout.scan source = .ok l → ∃ stretches : List Stretch,
      lines = stretches.flatMap Stretch.lines ∧ l.lines = stretches.filterMap Stretch.line? ∧
      ∀ before x after, stretches = before ++ x :: after →
        x.StandsAt lines (before.flatMap Stretch.lines).length) ∧
    ∀ c : Cursor, c.Within lines → c.char? = some '(' →
      (∃ r, Progress lines (balancedTurn lines (c.place + 1)) Prod.snd (.outside, c) r ∧
        balanced ((c.move 1).left lines) = readTo lines r) ∧
      (∀ s d, Comes (balancedTurn lines (c.place + 1)) (.outside, c) s → s.2.char? = some d →
        closesBracket d = true → 0 < s.1.depth) ∧
      (∃ r, Progress lines (attributeTurn lines) AttributeState.cursor ⟨.between, [], c.move 1⟩ r ∧
        attributeList ((c.move 1).left lines) = readTo lines r) ∧
      ∀ s s' n n' d, attributeTurn lines s = .again s' → s.phase.nesting? = some n →
        s'.phase.nesting? = some n' → n.quote = none → s.cursor.char? = some d →
        closesBracket d = true → 0 < n.depth := by
  intro lines
  have hlines : AreLines lines := areLines_lines source.toList
  refine ⟨finishes_scan source, fun s hs => scan_turns hlines hs, fun l hl => ?_, fun c hc hopen => ?_⟩
  · obtain ⟨stretches, htiles, hstatements⟩ := exists_tiles hlines (Nat.zero_le _) hl
    refine ⟨stretches, htiles.eq_flatMap, hstatements, fun before x after hsplit => ?_⟩
    have hstands := htiles.standsAt hsplit
    rwa [Nat.zero_add] at hstands
  · refine ⟨progress_balanced hlines hc hopen, fun s d hs => depth_pos_of_comes hlines hc hopen hs,
      progress_attributeList hlines (hc.pass hopen), ?_⟩
    intro s s' n n' d hturn hn hn' hquote hd hcloses
    exact depth_pos_of_attributeTurn hturn hn hn' hquote hd hcloses

end Trellis.Source
