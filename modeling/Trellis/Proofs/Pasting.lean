import Trellis.Proofs.Scanning

/-!
# `Trellis.Proofs.Pasting`: lines in place of an include statement

The lines of one template stand in another one in place of an include statement, all indented as
the statement was. `scans_pasted` tells which statements that gives: those in front of the include
statement and those behind it stay as they are, and between them stand the statements of the pasted
lines, so many levels deeper as the include statement stood.
-/

set_option autoImplicit false

namespace Trellis.Source

open Trellis.Text

/-! ### The include statement -/

/-- The line of an include statement. -/
def includeLine (w : List Char) (target : String) : List Char := w ++ "include ".toList ++ target.toList

/-- A target as it is written: there is something, and no blanks at its ends. -/
structure Includable (target : String) : Prop where
  ne_nil : target.toList ≠ []
  trim_eq : trim target.toList = target.toList

theorem isBlankText_includeLine (w : List Char) (target : String) :
    isBlankText (includeLine w target) = false := by
  unfold includeLine isBlankText
  rw [List.append_assoc, List.all_append, List.all_append]
  simp [isBlank]

theorem indentOf_includeLine {w : List Char} (hw : ∀ c ∈ w, isIndent c = true) (target : String) :
    indentOf (includeLine w target) = w := by
  unfold includeLine indentOf
  rw [List.append_assoc, List.takeWhile_append_of_pos hw]
  simp [isIndent]

theorem trimEnd_append_of_ne_nil (front : List Char) {cs : List Char} (h : trimEnd cs = cs)
    (hne : cs ≠ []) : trimEnd (front ++ cs) = front ++ cs := by
  induction front with
  | nil => exact h
  | cons c front ih =>
    rw [List.cons_append, trimEnd, ih]
    cases hcs : front ++ cs with
    | nil => exact absurd (List.append_eq_nil_iff.mp hcs).2 hne
    | cons d rest => rfl

theorem trimEnd_trim (cs : List Char) : trimEnd (trim cs) = trim cs := by
  obtain ⟨blanks, hcs, hblank⟩ := exists_trimEnd (trimStart cs)
  unfold trim
  conv => rhs; rw [hcs, trimEnd_append_blank _ hblank]

/-- An include statement is one token, and the lines below are left. -/
theorem readStatement_include {target : String} (h : Includable target)
    (hline : '\n' ∉ target.toList) {below : List Char} (hbelow : currentLine below = []) :
    readStatement ("include ".toList ++ target.toList ++ below) =
      .ok ⟨[.including target], .statements, below⟩ := by
  have hnotMem : '\n' ∉ "include ".toList ++ target.toList := by
    simpa using hline
  have hcurrent := currentLine_append_of_ends hnotMem hbelow
  have hbehind := belowLine_append_of_ends hnotMem hbelow
  generalize "include ".toList ++ target.toList ++ below = cs at hcurrent hbehind ⊢
  have hname : nameOf ("include ".toList ++ target.toList) = "include".toList := by
    simp [nameOf, isNameChar, isAlphanumeric]
  have hdrop : ("include ".toList ++ target.toList).drop "include".toList.length = ' ' :: target.toList := by
    simp
  have htrim : trim (' ' :: target.toList) = target.toList := h.trim_eq
  have hempty : target.toList.isEmpty = false := by
    simpa using h.ne_nil
  refine readStatement_of_whole ?_
  have hword : openingWord cs = .ok (.whole ⟨[.including target], .statements, below⟩) := by
    unfold openingWord
    simp only [hcurrent, hbehind, hname, hdrop, htrim]
    simp [keywordToken?, requireArgument, hempty, headIs, isBlank, Except.map]
  rw [← hword]
  simp [opening, hcurrent]

theorem takes_includeLine {w : List Char} (hw : ∀ c ∈ w, isIndent c = true) {target : String}
    (h : Includable target) (hline : '\n' ∉ target.toList) (below : List (List Char)) :
    Takes (includeLine w target) below [.including target] 0 := by
  have htext : trimEnd ((includeLine w target).drop w.length) = "include ".toList ++ target.toList := by
    have htrim : trimEnd target.toList = target.toList := by
      rw [← h.trim_eq]
      exact trimEnd_trim _
    rw [includeLine, List.append_assoc, List.drop_left]
    exact trimEnd_append_of_ne_nil _ htrim h.ne_nil
  have hread := readStatement_include h hline
    (currentLine_textBelow ("include ".toList ++ target.toList) below)
  unfold Takes
  rw [indentOf_includeLine hw, htext]
  exact ⟨_, hread, 0, [], (Nat.sub_self _).symm, rfl, rfl, rfl⟩

/-! ### The pasted lines -/

theorem firstStatement?_map {f : List Char → List Char} {k : Nat} (hf : Shifts f k)
    (lines : List (List Char)) : firstStatement? (lines.map f) = (firstStatement? lines).map f := by
  unfold firstStatement?
  rw [List.find?_map]
  congr 2
  funext line
  show (!isBlankText (f line)) = _
  rw [hf.blank]

theorem firstStatement?_append (lines more : List (List Char)) :
    firstStatement? (lines ++ more) = (firstStatement? lines).or (firstStatement? more) :=
  List.find?_append

namespace Scans

variable {widths : List Nat} {number : Nat} {lines : List (List Char)} {ls : List Line}

/-- The first line that is not blank is the first statement. -/
theorem head?_of_firstStatement? (h : Scans widths number 0 lines ls) {first : List Char}
    (hfirst : firstStatement? lines = some first) :
    ∃ inside l, ls.head? = some l ∧ Arrives (indentOf first).length widths inside ∧
      l.depth = inside.length := by
  induction lines generalizing number with
  | nil => cases hfirst
  | cons raw below ih =>
    rw [firstStatement?] at hfirst
    cases h with
    | blank hblank later =>
      rw [List.find?_cons_of_neg (by simp [hblank])] at hfirst
      exact ih later hfirst
    | line ink arrives takes later =>
      rw [List.find?_cons_of_pos (by simp [ink])] at hfirst
      cases hfirst
      exact ⟨_, _, rfl, arrives, rfl⟩

/-- A first statement in no level is not indented. -/
theorem indentOf_firstStatement? (h : Scans [] number 0 lines ls)
    (hzero : ∀ first ∈ ls.head?, first.depth = 0) {first : List Char}
    (hfirst : firstStatement? lines = some first) : (indentOf first).length = 0 := by
  obtain ⟨levels, l, hl, harrives, hdepth⟩ := h.head?_of_firstStatement? hfirst
  have hnil : levels = [] := List.length_eq_zero_iff.mp (hdepth ▸ hzero l hl)
  rw [← harrives.headD_eq, hnil]
  rfl

/-- Lines behind a statement begin no deeper than it if their first statement does not. -/
theorem beginsWithin {inside : List Nat} (h : Scans inside number 0 lines ls)
    (hfirst : ∀ first ∈ ls.head?, first.depth ≤ inside.length) :
    BeginsWithin (inside.headD 0) lines := by
  intro line hline
  obtain ⟨levels, l, hl, harrives, hdepth⟩ := h.head?_of_firstStatement? hline
  have hle := hfirst l hl
  cases harrives with
  | deeper =>
    rw [hdepth, List.length_cons] at hle
    omega
  | back hback => exact hback

/-- Blank lines say nothing. -/
theorem of_blank (h : Scans widths number 0 lines ls) (hblank : firstStatement? lines = none) :
    ls = [] := by
  induction lines generalizing number with
  | nil =>
    cases h
    rfl
  | cons raw below ih =>
    rw [firstStatement?] at hblank
    cases h with
    | blank hraw later =>
      rw [List.find?_cons_of_neg (by simp [hraw])] at hblank
      exact ih later hblank
    | line ink => rw [List.find?_cons_of_pos (by simp [ink])] at hblank; cases hblank

/-- Blank lines in front are passed over. -/
theorem append_blank {blank : List (List Char)} (hblank : firstStatement? blank = none)
    (h : Scans widths (number + blank.length) 0 lines ls) : Scans widths number 0 (blank ++ lines) ls := by
  induction blank generalizing number with
  | nil => exact h
  | cons raw blank ih =>
    rw [firstStatement?] at hblank
    cases hraw : isBlankText raw with
    | false => rw [List.find?_cons_of_pos (by simp [hraw])] at hblank; cases hblank
    | true =>
      rw [List.find?_cons_of_neg (by simp [hraw])] at hblank
      refine .blank hraw (ih hblank ?_)
      rwa [Nat.add_assoc, Nat.add_comm 1, ← List.length_cons]

end Scans

/-- Lines that are not less deep than a line keep the levels of that line open. -/
theorem Arrives.above {width v : Nat} {deeper inside after : List Nat}
    (hhead : inside.headD 0 = width) (hdeeper : ∀ n ∈ deeper, width < n) (hv : width ≤ v)
    (h : Arrives v (deeper ++ inside) after) :
    ∃ deeper', after = deeper' ++ inside ∧ ∀ n ∈ deeper', width < n := by
  have hkept : inside.dropWhile (· > v) = inside := dropWhile_of_le (by omega)
  cases h with
  | deeper hnew =>
    refine ⟨v :: deeper, rfl, ?_⟩
    intro n hn
    rcases List.mem_cons.mp hn with rfl | hn
    · cases deeper with
      | nil =>
        rw [List.nil_append] at hnew
        omega
      | cons m deeper =>
        have hm := hdeeper m List.mem_cons_self
        rw [List.cons_append, List.headD_cons] at hnew
        omega
    · exact hdeeper n hn
  | back =>
    refine ⟨deeper.dropWhile (· > v), ?_, ?_⟩
    · rw [List.dropWhile_append]
      split
      · next hempty => rw [List.isEmpty_iff.mp hempty, hkept, List.nil_append]
      · rfl
    · intro n hn
      exact hdeeper n ((List.dropWhile_sublist _).subset hn)

theorem BeginsWithin.mono {width width' : Nat} {lines : List (List Char)}
    (h : BeginsWithin width lines) (hle : width ≤ width') : BeginsWithin width' lines :=
  fun line hline => (h line hline).trans hle

section
variable {w : List Char} (hw : ∀ c ∈ w, isIndent c = true) {outer inside : List Nat}
  {pasted after : List (List Char)} {lsPasted lsAfter : List Line}
include hw

theorem le_indentOf_indentedBy {line : List Char} (h : isBlankText (indentedBy w line) = false) :
    w.length ≤ (indentOf (indentedBy w line)).length := by
  have hshifts := shifts_indentedBy hw
  rw [hshifts.blank] at h
  rw [hshifts.indent line h]
  omega

/-- The pasted lines and those behind them, from the levels that the include statement leads to. -/
theorem scans_indented_append_inside (hhead : inside.headD 0 = w.length)
    (hpasted : Scans [] 1 0 pasted lsPasted) (hlines : AreLines pasted) {number : Nat}
    (hafter : Scans inside number 0 after lsAfter) (hbegins : BeginsWithin w.length after)
    (number' : Nat) :
    ∃ ls, Scans inside number' 0 (pasted.map (indentedBy w) ++ after) ls ∧
      ls.map Line.shape =
        lsPasted.map (fun l => (l.depth + inside.length, l.tokens)) ++ lsAfter.map Line.shape := by
  have hshifts : Shifts (indentedBy w) (inside.headD 0) := hhead ▸ shifts_indentedBy hw
  obtain ⟨ls₁, hls₁, hshape₁⟩ := hpasted.map hshifts
  obtain ⟨ls₂, hls₂, hshape₂⟩ := hls₁.renumber number'
  have hlines' : AreLines (pasted.map (indentedBy w)) := by
    intro line hline hmem
    obtain ⟨line, hpast, rfl⟩ := List.mem_map.mp hline
    unfold indentedBy at hmem
    split at hmem
    · exact hlines line hpast hmem
    · rcases List.mem_append.mp hmem with hmem | hmem
      · cases hw _ hmem
      · exact hlines line hpast hmem
  -- All pasted lines are at least as deep as the include statement was, so its levels stay open.
  rw [← List.append_nil (pasted.map (indentedBy w))] at hls₂
  obtain ⟨inner, ls₃, ls₄, ⟨deeper, rfl, hdeeper⟩, rfl, hrest, hreplace⟩ :=
    hls₂.split hlines' (.inl ⟨rfl, Nat.zero_le _⟩)
      (fun levels => ∃ deeper, levels = deeper ++ inside ∧ ∀ n ∈ deeper, w.length < n)
      ⟨[], rfl, nofun⟩ (by
        rintro raw hraw hink _ levels ⟨deeper, rfl, hdeeper⟩ harrives
        obtain ⟨line, -, rfl⟩ := List.mem_map.mp hraw
        exact harrives.above hhead hdeeper (le_indentOf_indentedBy hw hink))
  have hnil : ls₄ = [] := by
    cases hrest
    rfl
  rw [hnil, List.append_nil] at hshape₂
  have hinner : ∀ first ∈ firstStatement? after, ∀ behind,
      Arrives (indentOf first).length inside behind →
        Arrives (indentOf first).length (deeper ++ inside) behind := by
    intro first hfirst behind hbehind
    have hwithin := hbegins first hfirst
    exact hbehind.append (by rwa [hhead]) (by rwa [hhead])
  obtain ⟨ls₅, hls₅, hshape₅⟩ := (hafter.restart hinner).renumber
    (number' + (pasted.map (indentedBy w)).length)
  refine ⟨ls₃ ++ ls₅, hreplace after ls₅ ?_ hls₅, ?_⟩
  · intro raw hraw hink _
    obtain ⟨line, -, rfl⟩ := List.mem_map.mp hraw
    exact hbegins.mono (le_indentOf_indentedBy hw hink)
  · rw [List.map_append, hshape₂, hshape₁, hshape₅]

/-- The pasted lines and those behind them, in place of a statement that leads to some levels. -/
theorem scans_indented_append (harrives : Arrives w.length outer inside)
    (hpasted : Scans [] 1 0 pasted lsPasted) (hlines : AreLines pasted)
    (hzero : ∀ first ∈ lsPasted.head?, first.depth = 0) {number : Nat}
    (hafter : Scans inside number 0 after lsAfter) (hbegins : BeginsWithin w.length after)
    (number' : Nat) :
    ∃ ls, Scans outer number' 0 (pasted.map (indentedBy w) ++ after) ls ∧
      ls.map Line.shape =
        lsPasted.map (fun l => (l.depth + inside.length, l.tokens)) ++ lsAfter.map Line.shape := by
  have hshifts := shifts_indentedBy hw
  have hhead := harrives.headD_eq
  obtain ⟨ls, hls, hshape⟩ :=
    scans_indented_append_inside hw hhead hpasted hlines hafter hbegins number'
  refine ⟨ls, hls.restart ?_, hshape⟩
  -- The first line that is not blank is a pasted one as wide as the include statement, or stands
  -- behind the pasted lines and is not deeper.
  intro first hfirst behind hbehind
  rw [firstStatement?_append, firstStatement?_map hshifts] at hfirst
  cases hpast : firstStatement? pasted with
  | none =>
    rw [hpast] at hfirst
    exact harrives.of_outer (hbegins first hfirst) hbehind
  | some line =>
    rw [hpast] at hfirst
    cases hfirst
    have hink : isBlankText line = false := by simpa using List.find?_some hpast
    have hwidth : (indentOf (indentedBy w line)).length = w.length := by
      rw [hshifts.indent line hink, hpasted.indentOf_firstStatement? hzero hpast]
      exact Nat.zero_add _
    rw [hwidth] at hbehind ⊢
    cases hbehind.unique (.refl hhead)
    exact harrives

/-- The pasted lines, and those behind them, do not begin deeper than the include statement. -/
theorem beginsWithin_indented_append (hpasted : Scans [] 1 0 pasted lsPasted)
    (hzero : ∀ first ∈ lsPasted.head?, first.depth = 0) (hbegins : BeginsWithin w.length after) :
    BeginsWithin w.length (pasted.map (indentedBy w) ++ after) := by
  have hshifts := shifts_indentedBy hw
  intro first hfirst
  rw [firstStatement?_append, firstStatement?_map hshifts] at hfirst
  cases hpast : firstStatement? pasted with
  | none =>
    rw [hpast] at hfirst
    exact hbegins first hfirst
  | some line =>
    rw [hpast] at hfirst
    cases hfirst
    have hink : isBlankText line = false := by simpa using List.find?_some hpast
    rw [hshifts.indent line hink, hpasted.indentOf_firstStatement? hzero hpast]
    omega

/-- **Lines that are pasted in place of an include statement** give their own statements there, so
many levels deeper as the include statement stood. All other statements stay what they are. -/
theorem scans_pasted {target : String} (htarget : Includable target) {before : List (List Char)}
    {ls : List Line} (h : Scans [] 1 0 (before ++ includeLine w target :: after) ls)
    (hlines : AreLines (before ++ includeLine w target :: after))
    (hstatement : ∃ l ∈ ls, l.position.line = before.length + 1) :
    ∃ ls₁ inc ls₂, ls = ls₁ ++ inc :: ls₂ ∧ inc.tokens = [.including target] ∧
      ∀ pasted lsPasted, Scans [] 1 0 pasted lsPasted → AreLines pasted →
        (∀ first ∈ lsPasted.head?, first.depth = 0) →
        (∀ first ∈ ls₂.head?, first.depth ≤ inc.depth) →
        ∃ ls', Scans [] 1 0 (before ++ (pasted.map (indentedBy w) ++ after)) ls' ∧
          ls'.map Line.shape = ls₁.map Line.shape ++
            (lsPasted.map (fun l => (l.depth + inc.depth, l.tokens)) ++ ls₂.map Line.shape) := by
  have hbefore : AreLines before := fun line hline => hlines line (List.mem_append_left _ hline)
  have htargetLine : '\n' ∉ target.toList := by
    intro hmem
    refine hlines _ (List.mem_append_right _ List.mem_cons_self) ?_
    exact List.mem_append_right _ hmem
  rw [Nat.add_comm] at hstatement
  obtain ⟨outer, ls₁, ls₃, -, rfl, hrest, hreplace⟩ :=
    h.split hbefore (.inr hstatement) (fun _ => True) trivial fun _ _ _ _ _ _ _ => trivial
  have hink := isBlankText_includeLine w target
  have hindent := indentOf_includeLine hw target
  cases hrest with
  | blank hblank =>
    rw [hink] at hblank
    cases hblank
  | @line _ inside _ _ _ _ _ ls₂ _ harrives htakes hlater =>
    obtain ⟨rfl, rfl⟩ := htakes.unique (takes_includeLine hw htarget htargetLine after)
    rw [hindent] at harrives
    refine ⟨ls₁, _, ls₂, rfl, rfl, fun pasted lsPasted hpasted hpast hzero hfirst => ?_⟩
    have hbegins : BeginsWithin w.length after := harrives.headD_eq ▸ hlater.beginsWithin hfirst
    obtain ⟨ls', hls', hshape⟩ :=
      scans_indented_append hw harrives hpasted hpast hzero hlater hbegins (1 + before.length)
    refine ⟨ls₁ ++ ls', hreplace _ _ ?_ hls', by rw [List.map_append, hshape]⟩
    -- A statement in front whose text ends at the include statement is not deeper than it.
    intro raw _ _ hstop
    have hinclude : firstStatement? (includeLine w target :: after) = some (includeLine w target) := by
      rw [firstStatement?, List.find?_cons_of_pos (by simp [hink])]
    have hle := hstop _ hinclude
    rw [hindent] at hle
    exact (beginsWithin_indented_append hw hpasted hzero hbegins).mono hle

end

end Trellis.Source
