import Trellis.Proofs.Placement

/-!
# `Trellis.Proofs.Scanning`: the lines of a template, part by part

`Scans` is the scanner as a relation, one rule for each way to go on. It leaves out what is only
needed to tell that a template is at fault, so it can be put together from parts:

* `Scans.split`: the lines of a template in front of one of its statements can be exchanged for
  what else stands behind them, as far as they are concerned.
* `Scans.map`: lines that are all indented further have the same statements in deeper levels.
* `Scans.restart`: the levels that are open in front of some lines only matter for the first one.
-/

set_option autoImplicit false

namespace Trellis.Source

open Trellis.Text

/-! ### Levels -/

/-- The levels that are open behind a line of some width. -/
inductive Arrives (width : Nat) : List Nat → List Nat → Prop
  | deeper {widths : List Nat} (h : widths.headD 0 < width) : Arrives width widths (width :: widths)
  | back {widths : List Nat} (h : width ≤ widths.headD 0)
    (hwidth : (widths.dropWhile (· > width)).headD 0 = width) :
    Arrives width widths (widths.dropWhile (· > width))

theorem arrives_of_moveTo {m after : Margin} {width : Nat} (h : m.moveTo width = .ok after) :
    Arrives width m.widths after.widths := by
  rcases Margin.moveTo_cases h with ⟨hdeeper, rfl⟩ | ⟨hback, hwidth, rfl⟩
  · rw [Margin.width_eq_headD] at hdeeper
    exact .deeper hdeeper
  · rw [Margin.width_eq_headD] at hback hwidth
    exact .back hback hwidth

namespace Arrives

variable {v width : Nat} {widths inside after : List Nat}

theorem unique (h : Arrives width widths inside) (h' : Arrives width widths after) :
    inside = after := by
  cases h with
  | deeper h =>
    cases h' with
    | deeper => rfl
    | back h' => omega
  | back h =>
    cases h' with
    | deeper h' => omega
    | back => rfl

theorem headD_eq (h : Arrives width widths inside) : inside.headD 0 = width := by
  cases h with
  | deeper => rfl
  | back _ hwidth => exact hwidth

theorem dropWhile_of_le {widths : List Nat} (h : widths.headD 0 ≤ width) :
    widths.dropWhile (· > width) = widths := by
  cases widths with
  | nil => rfl
  | cons w widths =>
    refine List.dropWhile_cons_of_neg ?_
    simpa using h

/-- A line as wide as the innermost level leaves all levels open. -/
theorem refl (h : widths.headD 0 = width) : Arrives width widths widths := by
  have hback : Arrives width widths (widths.dropWhile (· > width)) :=
    .back h.ge (by rw [dropWhile_of_le h.le, h])
  rwa [dropWhile_of_le h.le] at hback

theorem dropWhile_dropWhile (h : v ≤ width) (widths : List Nat) :
    (widths.dropWhile (· > width)).dropWhile (· > v) = widths.dropWhile (· > v) := by
  induction widths with
  | nil => rfl
  | cons w widths ih =>
    by_cases hw : w > width
    · rw [List.dropWhile_cons_of_pos (by simpa using hw), ih,
        List.dropWhile_cons_of_pos (by simp; omega)]
    · rw [List.dropWhile_cons_of_neg (by simpa using hw)]

/-- What is not deeper than a line may as well be read without that line. -/
theorem of_outer (h : Arrives width widths inside) (hv : v ≤ width) (hafter : Arrives v inside after) :
    Arrives v widths after := by
  have hhead := h.headD_eq
  cases hafter with
  | deeper hdeeper => omega
  | back hback hwidth =>
    cases h with
    | deeper hdeeper =>
      by_cases heq : v = width
      · subst heq
        rw [dropWhile_of_le (by simp)]
        exact .deeper hdeeper
      · have hpos : (width :: widths).dropWhile (· > v) = widths.dropWhile (· > v) :=
          List.dropWhile_cons_of_pos (by simp; omega)
        rw [hpos] at hwidth ⊢
        refine .back ?_ hwidth
        -- If no level were closed, the innermost one would have to be as wide as the line.
        by_contra hnot
        rw [dropWhile_of_le (by omega)] at hwidth
        omega
    | back hback' hwidth' =>
      rw [dropWhile_dropWhile hv] at hwidth ⊢
      exact .back (by omega) hwidth

/-- Levels that are all deeper than a line are closed by it. -/
theorem append {deeper : List Nat} (hdeeper : ∀ w ∈ deeper, widths.headD 0 < w)
    (hv : v ≤ widths.headD 0) (h : Arrives v widths after) : Arrives v (deeper ++ widths) after := by
  have hdrop : (deeper ++ widths).dropWhile (· > v) = widths.dropWhile (· > v) :=
    List.dropWhile_append_of_pos fun w hw => by
      have := hdeeper w hw
      simp
      omega
  cases h with
  | deeper h => omega
  | back _ hwidth =>
    rw [← hdrop] at hwidth ⊢
    refine .back ?_ hwidth
    cases deeper with
    | nil => exact hv
    | cons w deeper =>
      have := hdeeper w List.mem_cons_self
      show v ≤ w
      omega

/-- Levels inside others, when all is shifted by the width of those. -/
theorem shift (outer : List Nat) (h : Arrives v widths after) :
    Arrives (v + outer.headD 0) (widths.map (· + outer.headD 0) ++ outer)
      (after.map (· + outer.headD 0) ++ outer) := by
  have hhead (widths : List Nat) :
      (widths.map (· + outer.headD 0) ++ outer).headD 0 = widths.headD 0 + outer.headD 0 := by
    cases widths with
    | nil => simp
    | cons w widths => rfl
  cases h with
  | deeper hdeeper =>
    refine .deeper ?_
    rw [hhead]
    omega
  | back hback hwidth =>
    have hdrop : (widths.map (· + outer.headD 0) ++ outer).dropWhile (· > v + outer.headD 0) =
        (widths.dropWhile (· > v)).map (· + outer.headD 0) ++ outer := by
      clear hback hwidth
      induction widths with
      | nil => exact dropWhile_of_le (by simp)
      | cons w widths ih =>
        by_cases hw : w > v
        · rw [List.dropWhile_cons_of_pos (by simpa using hw), ← ih]
          exact List.dropWhile_cons_of_pos (by simpa using hw)
        · rw [List.dropWhile_cons_of_neg (by simpa using hw)]
          exact List.dropWhile_cons_of_neg (by simpa using hw)
    rw [← hdrop]
    refine .back (by rw [hhead]; omega) ?_
    rw [hdrop, hhead, hwidth]

end Arrives

/-! ### Lines -/

/-- To scan lines when the levels `widths` are open gives some statements. The first line has a
number, and the first `skip` lines are used up already. -/
inductive Scans : List Nat → Nat → Nat → List (List Char) → List Line → Prop
  | done {widths : List Nat} {number skip : Nat} : Scans widths number skip [] []
  | used {widths : List Nat} {number skip : Nat} {raw : List Char} {below : List (List Char)}
    {ls : List Line} (later : Scans widths (number + 1) skip below ls) :
    Scans widths number (skip + 1) (raw :: below) ls
  | blank {widths : List Nat} {number : Nat} {raw : List Char} {below : List (List Char)}
    {ls : List Line} (blank : isBlankText raw = true) (later : Scans widths (number + 1) 0 below ls) :
    Scans widths number 0 (raw :: below) ls
  | line {widths inside : List Nat} {number used : Nat} {raw : List Char} {below : List (List Char)}
    {tokens : List Token} {ls : List Line} (ink : isBlankText raw = false)
    (arrives : Arrives (indentOf raw).length widths inside) (takes : Takes raw below tokens used)
    (later : Scans inside (number + 1) used below ls) :
    Scans widths number 0 (raw :: below)
      (⟨⟨number, (indentOf raw).length + 1⟩, inside.length, tokens⟩ :: ls)

/-- A statement that could be placed. -/
theorem takes_of_placeStatement {m : Margin} {number : Nat} {raw : List Char}
    {below : List (List Char)} {p : Placed} (h : placeStatement m number raw below = .ok p) :
    Arrives (indentOf raw).length m.widths p.margin.widths ∧ Takes raw below p.line.tokens p.used ∧
      p.line = ⟨⟨number, (indentOf raw).length + 1⟩, p.margin.widths.length, p.line.tokens⟩ := by
  unfold placeStatement at h
  dsimp only at h
  split at h
  · cases h
  next unit hunit =>
  split at h
  · cases h
  next margin hmove =>
  split at h
  · cases h
  next s hstatement =>
  cases h
  have harrives := arrives_of_moveTo hmove
  rw [Margin.widths_of_checkUnit hunit] at harrives
  exact ⟨harrives, ⟨s, hstatement, _, _, rfl, rfl, rfl, rfl⟩, rfl⟩

/-- What the scanner gives. -/
theorem scans_of_scanFrom {m : Margin} {number skip : Nat} {last : Position}
    {lines : List (List Char)} {l : Layout} (h : Layout.scanFrom m number last skip lines = .ok l) :
    Scans m.widths number skip lines l.lines := by
  induction lines generalizing m number last skip l with
  | nil =>
    rw [Layout.scanFrom] at h
    cases h
    exact .done
  | cons raw below ih =>
    cases skip with
    | succ k =>
      rw [Layout.scanFrom] at h
      exact .used (ih h)
    | zero =>
      rw [Layout.scanFrom] at h
      split at h
      · next hblank => exact .blank hblank (ih h)
      next hink =>
      split at h
      · cases h
      next p hp =>
      split at h
      · cases h
      next rest hrest =>
      cases h
      obtain ⟨harrives, htakes, hline⟩ := takes_of_placeStatement hp
      dsimp only
      rw [hline]
      exact .line (eq_false_of_ne_true hink) harrives htakes (ih hrest)

theorem scans_of_scan {source : String} {l : Layout} (h : Layout.scan source = .ok l) :
    Scans [] 1 0 (lines source.toList) l.lines :=
  scans_of_scanFrom h

/-- What a line says and how deep it stands, wherever it stands. -/
def Line.shape (l : Line) : Nat × List Token := (l.depth, l.tokens)

namespace Scans

variable {widths outer : List Nat} {number skip : Nat} {lines : List (List Char)} {ls ls' : List Line}

theorem unique (h : Scans widths number skip lines ls) (h' : Scans widths number skip lines ls') :
    ls = ls' := by
  induction h generalizing ls' with
  | done =>
    cases h'
    rfl
  | used later ih =>
    cases h' with
    | used later' => exact ih later'
  | blank hblank later ih =>
    cases h' with
    | blank _ later' => exact ih later'
    | line ink => rw [hblank] at ink; cases ink
  | line ink arrives takes later ih =>
    cases h' with
    | blank hblank => rw [hblank] at ink; cases ink
    | line _ arrives' takes' later' =>
      cases arrives.unique arrives'
      obtain ⟨rfl, rfl⟩ := takes.unique takes'
      rw [ih later']

/-- Lines that are used up are not numbers of statements. -/
theorem le_number (h : Scans widths number skip lines ls) :
    ∀ l ∈ ls, number + skip ≤ l.position.line := by
  induction h with
  | done => nofun
  | used later ih =>
    intro l hl
    have := ih l hl
    omega
  | blank _ later ih =>
    intro l hl
    have := ih l hl
    omega
  | line ink arrives takes later ih =>
    intro l hl
    rcases List.mem_cons.mp hl with rfl | hl
    · exact Nat.le_refl _
    · have := ih l hl
      omega

/-- The numbers of lines are only counted. -/
theorem renumber (h : Scans widths number skip lines ls) (number' : Nat) :
    ∃ ls', Scans widths number' skip lines ls' ∧ ls'.map Line.shape = ls.map Line.shape := by
  induction h generalizing number' with
  | done => exact ⟨[], .done, rfl⟩
  | used later ih =>
    obtain ⟨ls', hls', hshape⟩ := ih (number' + 1)
    exact ⟨ls', .used hls', hshape⟩
  | blank hblank later ih =>
    obtain ⟨ls', hls', hshape⟩ := ih (number' + 1)
    exact ⟨ls', .blank hblank hls', hshape⟩
  | line ink arrives takes later ih =>
    obtain ⟨ls', hls', hshape⟩ := ih (number' + 1)
    refine ⟨_, .line ink arrives takes hls', ?_⟩
    rw [List.map_cons, List.map_cons, hshape]
    rfl

/-- The levels that are open in front of some lines only matter for the first of them that is not
blank. -/
theorem restart {widths' : List Nat} (h : Scans widths number 0 lines ls)
    (hfirst : ∀ first ∈ firstStatement? lines, ∀ inside,
      Arrives (indentOf first).length widths inside → Arrives (indentOf first).length widths' inside) :
    Scans widths' number 0 lines ls := by
  induction lines generalizing number with
  | nil =>
    cases h
    exact .done
  | cons raw below ih =>
    cases h with
    | blank hblank later =>
      refine .blank hblank (ih later fun first hmem => hfirst first ?_)
      rw [firstStatement?, List.find?_cons_of_neg (by simp [hblank])]
      exact hmem
    | line ink arrives takes later =>
      refine .line ink (hfirst raw ?_ _ arrives) takes later
      rw [firstStatement?, List.find?_cons_of_pos (by simp [ink])]
      rfl

/-- **Lines that are shifted stand in deeper levels**, and say the same. -/
theorem map {f : List Char → List Char} (h : Scans widths number skip lines ls)
    (hf : Shifts f (outer.headD 0)) :
    ∃ ls', Scans (widths.map (· + outer.headD 0) ++ outer) number skip (lines.map f) ls' ∧
      ls'.map Line.shape = ls.map fun l => (l.depth + outer.length, l.tokens) := by
  induction h with
  | done => exact ⟨[], .done, rfl⟩
  | used later ih =>
    obtain ⟨ls', hls', hshape⟩ := ih
    exact ⟨ls', .used hls', hshape⟩
  | @blank _ _ raw _ _ hblank later ih =>
    obtain ⟨ls', hls', hshape⟩ := ih
    exact ⟨ls', .blank (by rw [hf.blank, hblank]) hls', hshape⟩
  | @line _ inside _ _ raw _ _ _ ink arrives takes later ih =>
    obtain ⟨ls', hls', hshape⟩ := ih
    have harrives := arrives.shift outer
    rw [← hf.indent raw ink] at harrives
    refine ⟨_, .line (by rw [hf.blank, ink]) harrives (takes.map hf ink) hls', ?_⟩
    rw [List.map_cons, List.map_cons, hshape]
    simp [Line.shape]

/-- **The lines in front of a statement do not look behind them**: what else stands there, as long
as it does not begin deeper, is scanned from where they lead to. They lead to levels with a
property `I` that each of them keeps. -/
theorem split {before rest : List (List Char)} (h : Scans widths number skip (before ++ rest) ls)
    (hlines : AreLines before)
    (hreach : rest = [] ∧ skip ≤ before.length ∨ ∃ l ∈ ls, l.position.line = number + before.length)
    (I : List Nat → Prop) (hI : I widths)
    (hstep : ∀ raw ∈ before, isBlankText raw = false → ∀ u u', I u →
      Arrives (indentOf raw).length u u' → I u') :
    ∃ inside ls₁ ls₂, I inside ∧ ls = ls₁ ++ ls₂ ∧ Scans inside (number + before.length) 0 rest ls₂ ∧
      ∀ rest' ls', (∀ raw ∈ before, isBlankText raw = false →
          BeginsWithin (indentOf raw).length rest → BeginsWithin (indentOf raw).length rest') →
        Scans inside (number + before.length) 0 rest' ls' →
        Scans widths number skip (before ++ rest') (ls₁ ++ ls') := by
  induction before generalizing widths number skip ls with
  | nil =>
    have hskip : skip = 0 := by
      rcases hreach with ⟨-, hskip⟩ | ⟨l, hl, hnumber⟩
      · exact Nat.le_zero.mp hskip
      · have := h.le_number l hl
        rw [List.length_nil] at hnumber
        omega
    subst hskip
    exact ⟨widths, [], ls, hI, rfl, h, fun rest' ls' _ h' => h'⟩
  | cons raw before ih =>
    have hbefore : AreLines before := fun line hline => hlines line (List.mem_cons_of_mem _ hline)
    have hstep' : ∀ raw ∈ before, isBlankText raw = false → ∀ u u', I u →
        Arrives (indentOf raw).length u u' → I u' :=
      fun raw hraw => hstep raw (List.mem_cons_of_mem _ hraw)
    have hlength : number + (raw :: before).length = number + 1 + before.length := by
      rw [List.length_cons]
      omega
    rw [hlength] at hreach ⊢
    rw [List.cons_append] at h
    cases h with
    | @used _ _ skip _ _ _ later =>
      have hreach' : rest = [] ∧ skip ≤ before.length ∨
          ∃ l ∈ ls, l.position.line = number + 1 + before.length :=
        hreach.imp_left fun hskip => ⟨hskip.1, Nat.le_of_succ_le_succ hskip.2⟩
      obtain ⟨inside, ls₁, ls₂, hinside, rfl, hrest, hreplace⟩ := ih later hbefore hreach' hI hstep'
      refine ⟨inside, ls₁, ls₂, hinside, rfl, hrest, fun rest' ls' hstop h' => .used ?_⟩
      exact hreplace rest' ls' (fun raw hraw => hstop raw (List.mem_cons_of_mem _ hraw)) h'
    | blank hblank later =>
      have hreach' : rest = [] ∧ 0 ≤ before.length ∨
          ∃ l ∈ ls, l.position.line = number + 1 + before.length :=
        hreach.imp_left fun hskip => ⟨hskip.1, Nat.zero_le _⟩
      obtain ⟨inside, ls₁, ls₂, hinside, rfl, hrest, hreplace⟩ := ih later hbefore hreach' hI hstep'
      refine ⟨inside, ls₁, ls₂, hinside, rfl, hrest, fun rest' ls' hstop h' => .blank hblank ?_⟩
      exact hreplace rest' ls' (fun raw hraw => hstop raw (List.mem_cons_of_mem _ hraw)) h'
    | @line _ inside₁ _ used _ _ tokens ls ink arrives takes later =>
      have hraw : I inside₁ := hstep raw List.mem_cons_self ink _ _ hI arrives
      -- The statement uses up nothing behind the lines in front.
      have hreach' : rest = [] ∧ used ≤ before.length ∨
          ∃ l ∈ ls, l.position.line = number + 1 + before.length := by
        refine hreach.imp (fun hrest => ⟨hrest.1, ?_⟩) ?_
        · obtain ⟨rfl, -⟩ := hrest
          rw [List.append_nil] at takes
          exact takes.used_le hbefore
        · rintro ⟨l, hl, hnumber⟩
          rcases List.mem_cons.mp hl with rfl | hl
          · dsimp only at hnumber
            omega
          · exact ⟨l, hl, hnumber⟩
      have hused : used ≤ before.length := by
        rcases hreach' with ⟨-, hused⟩ | ⟨l, hl, hnumber⟩
        · exact hused
        · have := later.le_number l hl
          omega
      obtain ⟨inside, ls₁, ls₂, hinside, rfl, hrest, hreplace⟩ := ih later hbefore hreach' hraw hstep'
      refine ⟨inside, _ :: ls₁, ls₂, hinside, rfl, hrest, fun rest' ls' hstop h' => ?_⟩
      refine .line ink arrives (takes.replace hused hbefore (hstop raw List.mem_cons_self ink)) ?_
      exact hreplace rest' ls' (fun raw hraw => hstop raw (List.mem_cons_of_mem _ hraw)) h'

end Scans

end Trellis.Source
