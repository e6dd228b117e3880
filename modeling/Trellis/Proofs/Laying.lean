import Trellis.Proofs.Lists
import Trellis.Proofs.Scanning

/-!
# `Trellis.Proofs.Laying`: a silent comment among the lines of a template

`Laid` says how deep the statements of some lines stand and what they say, without the numbers of the
lines. It is exactly what the scanner gives (`laid_iff`), so that it also tells when the scanner fails.

A silent comment begins with two slashes and a hyphen. It can be put in front of any statement, at the
same indentation, unless the line of the statement is one that another statement has used up
(`StandsFree`). Then it is one more line without tokens, at the depth of the statement, and nothing else
changes (`SilentComment.lays`). The induction is on the lines in front, with a step for each of them.
-/

set_option autoImplicit false

namespace Trellis.Source

open Text

/-! ### The margin of a line -/

/-- Behind an indented line it is known which character indents. -/
theorem Margin.unit_of_checkUnit {m noted : Margin} {unit : Char} {rest : List Char}
    (h : m.checkUnit (unit :: rest) = .ok noted) :
    ¬((unit :: rest).contains '\t' && (unit :: rest).contains ' ') = true ∧ noted.unit = some unit := by
  unfold Margin.checkUnit at h
  grind

/-- A line with some indentation can stand behind lines that have left a margin, and leaves another
one. -/
def Margin.Admits (m : Margin) (indent : List Char) (inside : Margin) : Prop :=
  ∃ noted, m.checkUnit indent = .ok noted ∧ noted.moveTo indent.length = .ok inside

namespace Margin.Admits

variable {m inside inside' : Margin} {indent : List Char}

theorem unique (h : m.Admits indent inside) (h' : m.Admits indent inside') : inside = inside' := by
  obtain ⟨noted, hnoted, hinside⟩ := h
  obtain ⟨noted', hnoted', hinside'⟩ := h'
  cases hnoted.symm.trans hnoted'
  cases hinside.symm.trans hinside'
  rfl

/-- Another line with the same indentation changes the margin no more. -/
theorem again (h : m.Admits indent inside) : inside.Admits indent inside := by
  obtain ⟨noted, hnoted, hinside⟩ := h
  obtain ⟨-, hwidth, hunit⟩ := Margin.moves_of_moveTo hinside
  refine ⟨inside, ?_, ?_⟩
  · cases indent with
    | nil => rfl
    | cons unit rest =>
      obtain ⟨hmixed, hnoted⟩ := Margin.unit_of_checkUnit hnoted
      unfold Margin.checkUnit
      dsimp only
      rw [if_neg hmixed, hunit, hnoted]
      exact if_pos rfl
  · have hdrop : inside.widths.dropWhile (· > indent.length) = inside.widths :=
      Arrives.dropWhile_of_le (by rw [← Margin.width_eq_headD, hwidth])
    unfold Margin.moveTo
    rw [if_neg (by omega), hdrop]
    exact if_pos hwidth

end Margin.Admits

/-- **What it takes to place a statement**: the margin admits its line, and its text is read. -/
theorem placeStatement_eq_ok_iff {m : Margin} {number : Nat} {raw : List Char} {below : List (List Char)}
    {p : Placed} : placeStatement m number raw below = .ok p ↔
      ∃ inside tokens used, m.Admits (indentOf raw) inside ∧ Takes raw below tokens used ∧
        p = ⟨inside, ⟨⟨number, (indentOf raw).length + 1⟩, inside.widths.length, tokens⟩, used⟩ := by
  constructor
  · intro h
    have htakes := (takes_of_placeStatement h).2.1
    unfold placeStatement at h
    dsimp only at h
    split at h
    · cases h
    next noted hnoted =>
    split at h
    · cases h
    next inside hinside =>
    split at h
    · cases h
    cases h
    exact ⟨inside, _, _, ⟨noted, hnoted, hinside⟩, htakes, rfl⟩
  · rintro ⟨inside, tokens, used, ⟨noted, hnoted, hinside⟩, hreads, rfl⟩
    obtain ⟨s, hs, joined, block, rfl, rfl, rfl, rfl⟩ := hreads
    unfold placeStatement
    dsimp only
    rw [hnoted]
    dsimp only
    rw [hinside]
    dsimp only
    rw [hs]

/-! ### The statements of lines -/

/-- How deep the statements of lines stand and what they say, behind lines that have left a margin and
have used up the first `skip` of them. -/
inductive Laid : Margin → Nat → List (List Char) → List (Nat × List Token) → Prop
  | done {m : Margin} {skip : Nat} : Laid m skip [] []
  | used {m : Margin} {skip : Nat} {raw : List Char} {below : List (List Char)}
    {ss : List (Nat × List Token)} (later : Laid m skip below ss) : Laid m (skip + 1) (raw :: below) ss
  | blank {m : Margin} {raw : List Char} {below : List (List Char)} {ss : List (Nat × List Token)}
    (blank : isBlankText raw = true) (later : Laid m 0 below ss) : Laid m 0 (raw :: below) ss
  | line {m inside : Margin} {used : Nat} {raw : List Char} {below : List (List Char)}
    {tokens : List Token} {ss : List (Nat × List Token)} (ink : isBlankText raw = false)
    (admits : m.Admits (indentOf raw) inside) (takes : Takes raw below tokens used)
    (later : Laid inside used below ss) : Laid m 0 (raw :: below) ((inside.widths.length, tokens) :: ss)

/-- **The scanner gives the statements of the lines**, or it fails when there are none. -/
theorem laid_iff {m : Margin} {number skip : Nat} {last : Position} {lines : List (List Char)}
    {ss : List (Nat × List Token)} : Laid m skip lines ss ↔
      ∃ l, Layout.scanFrom m number last skip lines = .ok l ∧ l.lines.map Line.shape = ss := by
  constructor
  · intro h
    induction h generalizing number last with
    | done => exact ⟨_, rfl, rfl⟩
    | used later ih => exact ih
    | blank hblank later ih =>
      rw [Layout.scanFrom, if_pos hblank]
      exact ih
    | @line m inside used raw below tokens ss ink admits takes later ih =>
      obtain ⟨l, hl, hss⟩ := @ih (number + 1) ⟨number, (indentOf raw).length + 1⟩
      rw [Layout.scanFrom, if_neg (ne_true_of_eq_false ink),
        placeStatement_eq_ok_iff.mpr ⟨inside, tokens, used, admits, takes, rfl⟩]
      dsimp only
      rw [hl]
      exact ⟨_, rfl, congrArg _ hss⟩
  · rintro ⟨l, h, rfl⟩
    induction lines generalizing m number skip last l with
    | nil =>
      rw [Layout.scanFrom] at h
      cases h
      exact .done
    | cons raw below ih =>
      cases skip with
      | succ k =>
        rw [Layout.scanFrom] at h
        exact .used (ih _ h)
      | zero =>
        rw [Layout.scanFrom] at h
        split at h
        · next hblank => exact .blank hblank (ih _ h)
        next hink =>
        split at h
        · cases h
        next p hp =>
        split at h
        · cases h
        next rest hrest =>
        cases h
        obtain ⟨inside, tokens, used, admits, takes, rfl⟩ := placeStatement_eq_ok_iff.mp hp
        exact .line (eq_false_of_ne_true hink) admits takes (ih _ hrest)

section
variable {m : Margin} {raw : List Char} {below : List (List Char)} {ss : List (Nat × List Token)}

theorem laid_used_iff {skip : Nat} : Laid m (skip + 1) (raw :: below) ss ↔ Laid m skip below ss :=
  ⟨fun | .used later => later, .used⟩

theorem laid_blank_iff (hblank : isBlankText raw = true) :
    Laid m 0 (raw :: below) ss ↔ Laid m 0 below ss := by
  refine ⟨fun h => ?_, .blank hblank⟩
  cases h with
  | blank _ later => exact later
  | line ink =>
    rw [hblank] at ink
    cases ink

theorem laid_line_iff (hink : isBlankText raw = false) : Laid m 0 (raw :: below) ss ↔
    ∃ inside tokens used later, m.Admits (indentOf raw) inside ∧ Takes raw below tokens used ∧
      Laid inside used below later ∧ ss = (inside.widths.length, tokens) :: later := by
  constructor
  · intro h
    cases h with
    | blank hblank =>
      rw [hblank] at hink
      cases hink
    | line _ admits takes later => exact ⟨_, _, _, _, admits, takes, later, rfl⟩
  · rintro ⟨inside, tokens, used, later, admits, takes, hlater, rfl⟩
    exact .line hink admits takes hlater

/-- The statement of a line of which it is known what it takes and which margin it leaves. -/
theorem laid_admitted_iff (hink : isBlankText raw = false) {inside : Margin}
    (hadmits : m.Admits (indentOf raw) inside) {tokens : List Token} {used : Nat}
    (htakes : Takes raw below tokens used) : Laid m 0 (raw :: below) ss ↔
      ∃ later, Laid inside used below later ∧ ss = [(inside.widths.length, tokens)] ++ later := by
  rw [laid_line_iff hink]
  constructor
  · rintro ⟨inside', tokens', used', later, admits, takes, hlater, rfl⟩
    cases hadmits.unique admits
    obtain ⟨rfl, rfl⟩ := takes.unique htakes
    exact ⟨later, hlater, rfl⟩
  · rintro ⟨later, hlater, rfl⟩
    exact ⟨inside, tokens, used, later, hadmits, htakes, hlater, rfl⟩

/-- A line that stands behind another one with its indentation is placed as it would be without that. -/
theorem laid_again_iff (hink : isBlankText raw = false) {inside : Margin}
    (hadmits : m.Admits (indentOf raw) inside) :
    Laid inside 0 (raw :: below) ss ↔ Laid m 0 (raw :: below) ss := by
  rw [laid_line_iff hink, laid_line_iff hink]
  constructor
  · rintro ⟨inside', tokens, used, later, admits, hlater⟩
    cases admits.unique hadmits.again
    exact ⟨inside, tokens, used, later, hadmits, hlater⟩
  · rintro ⟨inside', tokens, used, later, admits, hlater⟩
    cases admits.unique hadmits
    exact ⟨inside, tokens, used, later, hadmits.again, hlater⟩

end

/-! ### Lines that no statement has used up -/

/-- The lines `rest` begin with no line that a statement of the lines in front has used up, nor does a
bracket of those run into them. The first `skip` lines in front are used up already. Behind a statement
that cannot be read, whatever stands below it, nothing is used up any more. -/
inductive StandsFree (rest : List (List Char)) : Nat → List (List Char) → Prop
  | here : StandsFree rest 0 []
  | used {skip : Nat} {raw : List Char} {before : List (List Char)}
    (later : StandsFree rest skip before) : StandsFree rest (skip + 1) (raw :: before)
  | blank {raw : List Char} {before : List (List Char)} (blank : isBlankText raw = true)
    (later : StandsFree rest 0 before) : StandsFree rest 0 (raw :: before)
  | line {raw : List Char} {before : List (List Char)} {tokens : List Token} {used : Nat}
    (ink : isBlankText raw = false) (takes : Takes raw (before ++ rest) tokens used)
    (later : StandsFree rest used before) : StandsFree rest 0 (raw :: before)
  | fault {raw : List Char} {before : List (List Char)} (ink : isBlankText raw = false)
    (fault : ∀ rest' tokens used, ¬Takes raw (before ++ rest') tokens used) :
    StandsFree rest 0 (raw :: before)

theorem StandsFree.le_length {rest before : List (List Char)} {skip : Nat}
    (h : StandsFree rest skip before) : skip ≤ before.length := by
  induction h with
  | used _ ih => exact Nat.succ_le_succ ih
  | _ => exact Nat.zero_le _

/-! ### The line of a silent comment -/

/-- A line of a template, and a silent comment that may be put in front of it. -/
structure SilentComment where
  before : List (List Char)
  line : List Char
  after : List (List Char)
  note : List Char

namespace SilentComment

/-- The comment is indented as the line behind it. -/
def text (c : SilentComment) : List Char := indentOf c.line ++ '/' :: '/' :: '-' :: c.note

variable (c : SilentComment)

theorem indentOf_text : indentOf c.text = indentOf c.line := by
  have hindent : ∀ x ∈ indentOf c.line, isIndent x = true := fun _ hx => List.mem_takeWhile_imp hx
  unfold text
  rw [indentOf, List.takeWhile_append_of_pos hindent]
  exact List.append_nil _

theorem isBlankText_text : isBlankText c.text = false := by
  unfold text isBlankText
  rw [List.all_append]
  simp [isBlank]

/-- **The comment says nothing** and uses up none of the lines below, as they do not begin deeper. -/
theorem takes_text (hnote : '\n' ∉ c.note) (hink : isBlankText c.line = false) :
    Takes c.text (c.line :: c.after) [] 0 := by
  have htrim : trimEnd (c.text.drop (indentOf c.line).length) = '/' :: '/' :: '-' :: trimEnd c.note := by
    unfold text
    rw [List.drop_left]
    exact trimEnd_append_cons rfl ['/', '/'] c.note
  have hline : '\n' ∉ '/' :: '/' :: '-' :: trimEnd c.note := by
    have : '\n' ∉ trimEnd c.note := fun h => hnote ((trimEnd_isPrefix _).subset h)
    simp [this]
  unfold Takes
  rw [indentOf_text, htrim]
  have hbelow := currentLine_textBelow ('/' :: '/' :: '-' :: trimEnd c.note) (c.line :: c.after)
  generalize textBelow ('/' :: '/' :: '-' :: trimEnd c.note) (c.line :: c.after) = more at hbelow ⊢
  have hbehind := belowLine_append_of_ends hline hbelow
  have hcurrent := currentLine_append_of_ends hline hbelow
  refine ⟨⟨[], .discarded, more⟩, readStatement_of_whole ?_, 0, [], ?_, ?_, rfl, rfl⟩
  · unfold opening
    rw [hbehind, hcurrent]
    rfl
  · simp
  · simp [deeperLines, hink, dropLastBlank]

end SilentComment

/-! ### Lines with a comment among them -/

/-- The lines in front of a comment end where they ended without it. -/
theorem Takes.insert_comment {c : SilentComment} (hink : isBlankText c.line = false) {raw : List Char}
    {before : List (List Char)} {tokens : List Token} {used : Nat}
    (h : Takes raw (before ++ c.line :: c.after) tokens used) (hused : used ≤ before.length)
    (hlines : AreLines before) : Takes raw (before ++ c.text :: c.line :: c.after) tokens used := by
  -- What stands below begins as deep as it did, with the comment in place of the statement.
  refine h.replace hused hlines fun hbegins first hfirst => ?_
  have hcomment : firstStatement? (c.text :: c.line :: c.after) = some c.text := by
    rw [firstStatement?, List.find?_cons_of_pos (by simp [c.isBlankText_text])]
  have hline : firstStatement? (c.line :: c.after) = some c.line := by
    rw [firstStatement?, List.find?_cons_of_pos (by simp [hink])]
  rw [hcomment] at hfirst
  cases hfirst
  rw [c.indentOf_text]
  exact hbegins c.line hline

/-- Some lines and the same lines with the comment among them. The comment is one more line without
tokens, in front of the statement and at its depth. Or some line cannot be placed, with the comment and
without it. -/
inductive SilentComment.Lays (c : SilentComment) (m : Margin) (skip : Nat)
    (plain commented : List (List Char)) : Prop
  | placed {front back : List (Nat × List Token)} {depth used : Nat} {tokens : List Token}
    (takes : Takes c.line c.after tokens used)
    (plain : Laid m skip plain (front ++ (depth, tokens) :: back))
    (commented : Laid m skip commented (front ++ (depth, []) :: (depth, tokens) :: back))
  | fails (plain : ∀ ss, ¬Laid m skip plain ss) (commented : ∀ ss, ¬Laid m skip commented ss)

namespace SilentComment.Lays

variable {c : SilentComment} {m inside : Margin} {skip skip' : Nat} {plain commented : List (List Char)}

/-- A line in front adds the same statements to both, if any. -/
theorem step {plain' commented' : List (List Char)} (ss : List (Nat × List Token))
    (hplain : ∀ all, Laid m skip plain' all ↔ ∃ later, Laid inside skip' plain later ∧ all = ss ++ later)
    (hcommented : ∀ all, Laid m skip commented' all ↔
      ∃ later, Laid inside skip' commented later ∧ all = ss ++ later)
    (h : c.Lays inside skip' plain commented) : c.Lays m skip plain' commented' := by
  cases h with
  | @placed front back depth used tokens takes laid laid' =>
    have hlaid := (hplain (ss ++ front ++ (depth, tokens) :: back)).mpr ⟨_, laid, List.append_assoc _ _ _⟩
    have hlaid' := (hcommented (ss ++ front ++ (depth, []) :: (depth, tokens) :: back)).mpr
      ⟨_, laid', List.append_assoc _ _ _⟩
    exact .placed takes hlaid hlaid'
  | fails hnone hnone' =>
    refine .fails (fun all hall => ?_) fun all hall => ?_
    · obtain ⟨later, hlater, -⟩ := (hplain all).mp hall
      exact hnone later hlater
    · obtain ⟨later, hlater, -⟩ := (hcommented all).mp hall
      exact hnone' later hlater

/-- Nothing is placed when the first line of both is not admitted. -/
theorem of_not_admits {raw raw' : List Char} (hraw : isBlankText raw = false)
    (hraw' : isBlankText raw' = false) (hindent : indentOf raw' = indentOf raw)
    (hadmits : ∀ inside, ¬m.Admits (indentOf raw) inside) :
    c.Lays m 0 (raw :: plain) (raw' :: commented) := by
  refine .fails (fun all hall => ?_) fun all hall => ?_
  · obtain ⟨inside, -, -, -, hinside, -⟩ := (laid_line_iff hraw).mp hall
    exact hadmits inside hinside
  · obtain ⟨inside, -, -, -, hinside, -⟩ := (laid_line_iff hraw').mp hall
    rw [hindent] at hinside
    exact hadmits inside hinside

/-- The comment leaves the margin that the statement would leave, so the statement is placed alike. -/
theorem here (hnote : '\n' ∉ c.note) (hink : isBlankText c.line = false) (m : Margin) :
    c.Lays m 0 (c.line :: c.after) (c.text :: c.line :: c.after) := by
  by_cases hadmits : ∃ inside, m.Admits (indentOf c.line) inside
  · obtain ⟨inside, hadmits⟩ := hadmits
    have hadmits' : m.Admits (indentOf c.text) inside := by rwa [c.indentOf_text]
    have hcommented (ss : List (Nat × List Token)) : Laid m 0 (c.text :: c.line :: c.after) ss ↔
        ∃ later, Laid m 0 (c.line :: c.after) later ∧ ss = [(inside.widths.length, [])] ++ later := by
      rw [laid_admitted_iff c.isBlankText_text hadmits' (c.takes_text hnote hink)]
      simp only [laid_again_iff hink hadmits]
    by_cases hlaid : ∃ ss, Laid m 0 (c.line :: c.after) ss
    · obtain ⟨ss, hlaid⟩ := hlaid
      have hlaid' := (hcommented _).mpr ⟨ss, hlaid, rfl⟩
      obtain ⟨inside', tokens, used, later, hinside', htakes, -, rfl⟩ := (laid_line_iff hink).mp hlaid
      cases hadmits.unique hinside'
      exact @placed _ _ _ _ _ [] later _ _ _ htakes hlaid hlaid'
    · refine .fails (fun all hall => hlaid ⟨all, hall⟩) fun all hall => ?_
      obtain ⟨later, hlater, -⟩ := (hcommented all).mp hall
      exact hlaid ⟨later, hlater⟩
  · exact of_not_admits hink c.isBlankText_text c.indentOf_text fun inside hinside =>
      hadmits ⟨inside, hinside⟩

/-- A line of which it is known what it takes, in front of both. -/
theorem line {raw : List Char} {tokens : List Token} {used : Nat} (hink : isBlankText raw = false)
    (htakes : Takes raw plain tokens used) (htakes' : Takes raw commented tokens used)
    (h : ∀ inside, c.Lays inside used plain commented) (m : Margin) :
    c.Lays m 0 (raw :: plain) (raw :: commented) := by
  by_cases hadmits : ∃ inside, m.Admits (indentOf raw) inside
  · obtain ⟨inside, hadmits⟩ := hadmits
    exact (h inside).step _ (fun _ => laid_admitted_iff hink hadmits htakes)
      fun _ => laid_admitted_iff hink hadmits htakes'
  · exact of_not_admits hink hink rfl fun inside hinside => hadmits ⟨inside, hinside⟩

end SilentComment.Lays

/-- **A comment in front of a statement is one more line without tokens**, at the depth of the
statement, whatever lines stand in front of it. -/
theorem SilentComment.lays (c : SilentComment) (hnote : '\n' ∉ c.note) (hink : isBlankText c.line = false)
    {before : List (List Char)} {skip : Nat} (hlines : AreLines before)
    (h : StandsFree (c.line :: c.after) skip before) (m : Margin) :
    c.Lays m skip (before ++ c.line :: c.after) (before ++ c.text :: c.line :: c.after) := by
  induction h generalizing m with
  | here => exact .here hnote hink m
  | used later ih =>
    refine (ih (List.forall_mem_cons.mp hlines).2 m).step [] (fun all => ?_) fun all => ?_ <;>
      simp [laid_used_iff]
  | blank hblank later ih =>
    refine (ih (List.forall_mem_cons.mp hlines).2 m).step [] (fun all => ?_) fun all => ?_ <;>
      simp [laid_blank_iff hblank]
  | line ink takes later ih =>
    have hbefore := (List.forall_mem_cons.mp hlines).2
    exact .line ink takes (takes.insert_comment hink later.le_length hbefore) (ih hbefore) m
  | fault ink fault =>
    refine .fails (fun all hall => ?_) fun all hall => ?_
    · obtain ⟨_, _, _, _, -, takes, -⟩ := (laid_line_iff ink).mp hall
      exact fault _ _ _ takes
    · obtain ⟨_, _, _, _, -, takes, -⟩ := (laid_line_iff ink).mp hall
      exact fault _ _ _ takes

end Trellis.Source
