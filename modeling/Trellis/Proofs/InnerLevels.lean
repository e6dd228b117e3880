import Trellis.Proofs.Laying
import Trellis.Proofs.Silence

/-!
# `Trellis.Proofs.InnerLevels`: lines inside of other levels

Indented lines can stand inside of levels that are open already, all of them indented further by the
width of those. Then they have the same statements, as many levels deeper, or they cannot be scanned in
either place (`laid_inside_iff`). This needs that only one character indents: what the lines are indented
further with must be what they are indented with themselves, or the scanner would find them mixed in one
place and not in the other.

The entries of lines only depend on how deep they are compared with each other
(`paddedEntries_of_deepen`).
-/

set_option autoImplicit false

namespace Trellis

namespace Source

open Text

/-! ### The margin -/

/-- The widths of levels inside of the levels `outer`. -/
def insideOf (outer widths : List Nat) : List Nat := widths.map (· + outer.headD 0) ++ outer

/-- The character that indents, if it is known. -/
def Margin.Indents (m : Margin) (c : Char) : Prop := ∀ unit ∈ m.unit, unit = c

/-- Does a line mix tabs and spaces? -/
def isMixed (indent : List Char) : Bool := indent.contains '\t' && indent.contains ' '

theorem Margin.checkUnit_cons {m : Margin} {c : Char} (hm : m.Indents c) (indent : List Char) :
    m.checkUnit (c :: indent) =
      if isMixed (c :: indent) then .error .mixedIndentation else .ok ⟨m.widths, some c⟩ := by
  unfold Margin.checkUnit isMixed
  dsimp only
  split
  · rfl
  · cases hunit : m.unit with
    | none => rfl
    | some unit =>
      obtain rfl := hm unit hunit
      dsimp only
      rw [if_pos rfl, ← hunit]

theorem isMixed_replicate (n : Nat) (c : Char) (indent : List Char) :
    isMixed (List.replicate n c ++ c :: indent) = isMixed (c :: indent) := by
  have hcontains (d : Char) :
      (List.replicate n c ++ c :: indent).contains d = (c :: indent).contains d := by
    rw [Bool.eq_iff_iff, List.contains_iff_mem, List.contains_iff_mem, List.mem_append]
    refine ⟨fun h => h.elim (fun h => ?_) id, .inr⟩
    rw [List.eq_of_mem_replicate h]
    exact List.mem_cons_self
  unfold isMixed
  rw [hcontains, hcontains]

/-- The first line that is indented tells which character indents. -/
theorem Margin.Admits.unit_eq {m inside : Margin} {c : Char} {indent : List Char}
    (h : m.Admits (c :: indent) inside) : inside.unit = some c := by
  obtain ⟨noted, hnoted, hinside⟩ := h
  obtain ⟨-, -, hkept⟩ := Margin.moves_of_moveTo hinside
  rw [hkept, (Margin.unit_of_checkUnit hnoted).2]

section
variable {outer : List Nat} {m m' : Margin}

theorem width_insideOf (hwidths : m'.widths = insideOf outer m.widths) :
    m'.width = m.width + outer.headD 0 := by
  unfold Margin.width
  rw [hwidths, insideOf]
  cases m.widths with
  | nil => cases outer <;> simp
  | cons w widths => rfl

theorem dropWhile_insideOf (widths : List Nat) (width : Nat) :
    (insideOf outer widths).dropWhile (· > width + outer.headD 0) =
      insideOf outer (widths.dropWhile (· > width)) := by
  unfold insideOf
  induction widths with
  | nil => exact Arrives.dropWhile_of_le (Nat.le_add_left _ _)
  | cons w widths ih =>
    by_cases hw : w > width
    · rw [List.dropWhile_cons_of_pos (by simpa using hw), ← ih]
      exact List.dropWhile_cons_of_pos (by simpa using hw)
    · rw [List.dropWhile_cons_of_neg (by simpa using hw)]
      exact List.dropWhile_cons_of_neg (by simpa using hw)

/-- The same levels are opened and closed inside of others. -/
theorem moveTo_insideOf (hwidths : m'.widths = insideOf outer m.widths) (hunit : m'.unit = m.unit)
    (width : Nat) : m'.moveTo (width + outer.headD 0) =
      (m.moveTo width).map fun inside => ⟨insideOf outer inside.widths, inside.unit⟩ := by
  unfold Margin.moveTo
  rw [width_insideOf hwidths]
  by_cases hdeeper : width > m.width
  · rw [if_pos hdeeper, if_pos (Nat.add_lt_add_right hdeeper _), hwidths, hunit]
    rfl
  · rw [if_neg hdeeper, if_neg (by omega), hwidths, dropWhile_insideOf, hunit]
    dsimp only
    rw [width_insideOf (m := { m with widths := m.widths.dropWhile (· > width) }) rfl]
    by_cases hkept : Margin.width { m with widths := m.widths.dropWhile (· > width) } = width
    · rw [if_pos hkept, if_pos (by omega)]
      rfl
    · rw [if_neg hkept, if_neg (by omega)]
      rfl

/-- **A line is admitted inside of other levels** if it is without them. -/
theorem admits_inside_iff {c : Char} (hm : m.Indents c) (hm' : m'.Indents c)
    (hwidths : m'.widths = insideOf outer m.widths) (indent : List Char) (inside' : Margin) :
    m'.Admits (List.replicate (outer.headD 0) c ++ c :: indent) inside' ↔
      ∃ inside, m.Admits (c :: indent) inside ∧ inside' = ⟨insideOf outer inside.widths, some c⟩ := by
  have hcons : List.replicate (outer.headD 0) c ++ c :: indent =
      c :: (List.replicate (outer.headD 0) c ++ indent) := by
    rw [← List.singleton_append, ← List.append_assoc, ← List.replicate_succ', List.replicate_succ]
    rfl
  have hlength : (List.replicate (outer.headD 0) c ++ c :: indent).length =
      (c :: indent).length + outer.headD 0 := by
    rw [List.length_append, List.length_replicate, Nat.add_comm]
  have hmoved := @moveTo_insideOf outer ⟨m.widths, some c⟩ ⟨m'.widths, some c⟩ hwidths rfl
    (c :: indent).length
  have hcheck' := Margin.checkUnit_cons hm' (List.replicate (outer.headD 0) c ++ indent)
  rw [← hcons, isMixed_replicate] at hcheck'
  unfold Margin.Admits
  rw [hcheck', Margin.checkUnit_cons hm, hlength]
  by_cases hmixed : isMixed (c :: indent) = true
  · rw [if_pos hmixed, if_pos hmixed]
    simp
  · rw [if_neg hmixed, if_neg hmixed]
    simp only [Except.ok.injEq, exists_eq_left']
    rw [hmoved]
    constructor
    · intro h
      obtain ⟨inside, hinside, rfl⟩ := of_map_eq_ok h
      obtain ⟨-, -, hunit⟩ := Margin.moves_of_moveTo hinside
      exact ⟨inside, hinside, by rw [hunit]⟩
    · rintro ⟨inside, hinside, rfl⟩
      obtain ⟨-, -, hunit⟩ := Margin.moves_of_moveTo hinside
      rw [hinside, Except.map, hunit]

end

/-! ### What a line takes -/

/-- Shifted lines say the same, and nothing else. -/
theorem takes_map_iff {f : List Char → List Char} {k : Nat} (hf : Shifts f k) {raw : List Char}
    {below : List (List Char)} {tokens : List Token} {used : Nat} (hraw : isBlankText raw = false) :
    Takes (f raw) (below.map f) tokens used ↔ Takes raw below tokens used := by
  refine ⟨fun h => ?_, .map hf hraw⟩
  -- The same text is read, so something is taken without the shift, too.
  have htakes : ∃ tokens used, Takes raw below tokens used := by
    obtain ⟨s, hread, -⟩ := h
    rw [hf.textBelow, hf.indent raw hraw, hf.text raw _ hraw] at hread
    exact ⟨_, _, s, hread, _, _, rfl, rfl, rfl, rfl⟩
  obtain ⟨tokens', used', htakes⟩ := htakes
  obtain ⟨rfl, rfl⟩ := h.unique (htakes.map hf hraw)
  exact htakes

/-! ### Lines -/

/-- The lines are all indented, with a character first. -/
def IndentedWith (c : Char) (lines : List (List Char)) : Prop :=
  ∀ line ∈ lines, isBlankText line = false → ∃ indent, indentOf line = c :: indent

theorem indentedWith_map {c : Char} {w : List Char} (lines : List (List Char)) (hw : w.head? = some c)
    (hc : isIndent c = true) : IndentedWith c (lines.map (indentedBy w)) := by
  intro line hline hink
  obtain ⟨line, -, rfl⟩ := List.mem_map.mp hline
  unfold indentedBy at hink ⊢
  split
  · next hblank =>
    rw [if_pos hblank, hblank] at hink
    cases hink
  · cases w with
    | nil => cases hw
    | cons d w =>
      cases hw
      exact ⟨_, List.takeWhile_cons_of_pos hc⟩

theorem indentOf_indentedBy {w line : List Char} (hw : ∀ c ∈ w, isIndent c = true)
    (hink : isBlankText line = false) : indentOf (indentedBy w line) = w ++ indentOf line := by
  unfold indentedBy indentOf
  rw [if_neg (by simp [hink]), List.takeWhile_append_of_pos hw]

/-- **Lines inside of other levels** have the same statements, as many levels deeper. -/
theorem laid_inside_iff {outer : List Nat} {c : Char} (hc : isIndent c = true) {m m' : Margin}
    (hm : m.Indents c) (hm' : m'.Indents c) (hwidths : m'.widths = insideOf outer m.widths) {skip : Nat}
    {lines : List (List Char)} (hlines : IndentedWith c lines) {ss' : List (Nat × List Token)} :
    Laid m' skip (lines.map (indentedBy (List.replicate (outer.headD 0) c))) ss' ↔
      ∃ ss, Laid m skip lines ss ∧ ss' = ss.map fun s => (s.1 + outer.length, s.2) := by
  have hw : ∀ x ∈ List.replicate (outer.headD 0) c, isIndent x = true := fun x hx =>
    List.eq_of_mem_replicate hx ▸ hc
  have hshifts := shifts_indentedBy hw
  induction lines generalizing m m' skip ss' with
  | nil =>
    constructor
    · intro h
      cases h
      exact ⟨[], .done, rfl⟩
    · rintro ⟨ss, h, rfl⟩
      cases h
      exact .done
  | cons raw below ih =>
    obtain ⟨hraw, hbelow⟩ := List.forall_mem_cons.mp hlines
    rw [List.map_cons]
    cases skip with
    | succ skip =>
      simp only [laid_used_iff]
      exact ih hm hm' hwidths hbelow
    | zero =>
      cases hblank : isBlankText raw with
      | true =>
        simp only [laid_blank_iff hblank, laid_blank_iff ((hshifts.blank raw).trans hblank)]
        exact ih hm hm' hwidths hbelow
      | false =>
        obtain ⟨indent, hindent⟩ := hraw hblank
        rw [laid_line_iff ((hshifts.blank raw).trans hblank), indentOf_indentedBy hw hblank, hindent]
        simp only [takes_map_iff hshifts hblank, admits_inside_iff hm hm' hwidths, laid_line_iff hblank,
          hindent]
        constructor
        · rintro ⟨_, tokens, used, later', ⟨inside, hadmits, rfl⟩, htakes, hlater, rfl⟩
          have hinside : inside.Indents c := by simp [Margin.Indents, hadmits.unit_eq]
          obtain ⟨later, hplain, rfl⟩ := (ih hinside (by simp [Margin.Indents]) rfl hbelow).mp hlater
          exact ⟨_, ⟨inside, tokens, used, later, hadmits, htakes, hplain, rfl⟩, by simp [insideOf]⟩
        · rintro ⟨_, ⟨inside, tokens, used, later, hadmits, htakes, hlater, rfl⟩, rfl⟩
          have hinside : inside.Indents c := by simp [Margin.Indents, hadmits.unit_eq]
          have hlater' : Laid ⟨insideOf outer inside.widths, some c⟩ used
              (below.map (indentedBy (List.replicate (outer.headD 0) c)))
              (later.map fun s => (s.1 + outer.length, s.2)) :=
            (ih hinside (by simp [Margin.Indents]) rfl hbelow).mpr ⟨later, hlater, rfl⟩
          exact ⟨_, tokens, used, _, ⟨inside, hadmits, rfl⟩, htakes, hlater', by simp [insideOf]⟩

/-- Indented lines open levels. -/
theorem Laid.depth_pos {c : Char} {m : Margin} {skip : Nat} {lines : List (List Char)}
    {ss : List (Nat × List Token)} (h : Laid m skip lines ss) (hlines : IndentedWith c lines) :
    ∀ s ∈ ss, 0 < s.1 := by
  induction h with
  | done => nofun
  | used _ ih => exact ih (List.forall_mem_cons.mp hlines).2
  | blank _ _ ih => exact ih (List.forall_mem_cons.mp hlines).2
  | @line m inside used raw below tokens ss ink admits _ _ ih =>
    obtain ⟨hraw, hbelow⟩ := List.forall_mem_cons.mp hlines
    refine List.forall_mem_cons.mpr ⟨?_, ih hbelow⟩
    obtain ⟨indent, hindent⟩ := hraw ink
    obtain ⟨noted, -, hinside⟩ := admits
    obtain ⟨-, hwidth, -⟩ := Margin.moves_of_moveTo hinside
    -- Without a level, the line would have no width.
    refine List.length_pos_iff.mpr fun hnil => ?_
    have hwidth : inside.widths.head?.getD 0 = (indentOf raw).length := hwidth
    rw [hnil, hindent] at hwidth
    simp at hwidth

end Source

/-! ### Entries -/

open Source

section
variable {lines lines' : List Line}

/-- The entries of deeper lines are deeper. -/
theorem lt_of_mem_arrange (finish : Nat) {depth : Nat} (h : ∀ l ∈ lines, depth < l.depth) :
    ∀ a ∈ Entry.arrange finish lines, depth < a.1 := by
  induction lines with
  | nil => nofun
  | cons l rest ih =>
    obtain ⟨hl, hrest⟩ := List.forall_mem_cons.mp h
    obtain ⟨next, alternative, siblings, heq, -, hsplit⟩ := arrange_cons finish l rest
    rw [heq]
    refine List.forall_mem_cons.mpr ⟨hl, fun a ha => ih hrest a ?_⟩
    have hbehind := List.mem_append_right (alternative.toList.map fun e => (l.depth, e)) ha
    rw [← hsplit] at hbehind
    exact (List.dropWhile_sublist _).subset hbehind

/-- **A line with deeper lines behind it** has all of their entries as children. -/
theorem exists_arrange_of_deeper (finish : Nat) {l : Line} (h : ∀ l' ∈ lines, l.depth < l'.depth) :
    ∃ next, Entry.arrange finish (l :: lines) =
      [(l.depth, .mk l.position.line next l.tokens ((Entry.arrange finish lines).map (·.2)) none)] := by
  have hdeeper : ∀ a ∈ Entry.arrange finish lines, decide (l.depth < a.1) = true := fun a ha =>
    decide_eq_true (lt_of_mem_arrange finish h a ha)
  obtain ⟨next, heq⟩ := Entry.arrange_cons_eq finish l lines
  refine ⟨next, heq.trans ?_⟩
  unfold Entry.enclose
  rw [List.takeWhile_eq_self_iff.mpr hdeeper, List.dropWhile_eq_nil_iff.mpr hdeeper]
  rfl

/-- A line so many levels deeper takes in the same entries so many levels deeper. -/
theorem enclose_deepen {k : Nat} {l l' : Line} (hdepth : l'.depth = l.depth + k)
    (htokens : l'.tokens = l.tokens) (hline : l'.position = l.position) (next : Nat)
    (later : List (Nat × Entry)) :
    Entry.enclose l' next (later.map fun e : Nat × Entry => (e.1 + k, e.2)) =
      (Entry.enclose l next later).map fun e : Nat × Entry => (e.1 + k, e.2) := by
  have hdeeper : (fun e : Nat × Entry => decide (l.depth + k < e.1)) ∘
      (fun e : Nat × Entry => (e.1 + k, e.2)) = fun e => decide (l.depth < e.1) := by
    funext e
    simp
  have helse (es : List (Nat × Entry)) :
      Entry.takeElse (l.depth + k) (es.map fun e : Nat × Entry => (e.1 + k, e.2)) =
        ((Entry.takeElse l.depth es).1, (Entry.takeElse l.depth es).2.map fun e => (e.1 + k, e.2)) := by
    cases es with
    | nil => rfl
    | cons a es =>
      rw [List.map_cons, Entry.takeElse, Entry.takeElse]
      simp only [Nat.add_right_cancel_iff]
      split <;> rfl
  unfold Entry.enclose
  dsimp only
  rw [hdepth, htokens, hline, List.takeWhile_map, List.dropWhile_map, hdeeper, List.map_map, helse]
  rfl

/-- Lines that are so many levels deeper. -/
theorem exists_arrange_deepen (k finish finish' : Nat)
    (h : lines'.map Line.shape = lines.map fun l => (l.depth + k, l.tokens)) :
    ∃ es, PaddedLevels (Entry.arrange finish lines) es ∧
      Entry.arrange finish' lines' = es.map fun e : Nat × Entry => (e.1 + k, e.2) := by
  induction lines generalizing lines' with
  | nil =>
    rw [List.map_eq_nil_iff.mp h]
    exact ⟨[], .nil, rfl⟩
  | cons l rest ih =>
    obtain ⟨l', rest', rfl, hl, hrest⟩ := List.map_eq_cons_iff.mp h
    obtain ⟨hdepth, htokens⟩ := Prod.mk.inj hl
    obtain ⟨es, hes, heq⟩ := ih hrest
    obtain ⟨next, hnext⟩ := Entry.arrange_cons_eq finish l rest
    obtain ⟨next', hnext'⟩ := Entry.arrange_cons_eq finish' l' rest'
    have hshape : ({ l with position := l'.position } : Line).shape = l.shape := rfl
    refine ⟨Entry.enclose { l with position := l'.position } next' es, ?_, ?_⟩
    · rw [hnext]
      exact hes.enclose hshape next next'
    · rw [hnext', heq]
      exact enclose_deepen (l := { l with position := l'.position }) hdepth htokens rfl next' es

/-- **The entries of lines do not tell how many levels enclose all of them.** -/
theorem paddedEntries_of_deepen (k finish finish' : Nat)
    (h : lines'.map Line.shape = lines.map fun l => (l.depth + k, l.tokens)) :
    PaddedEntries ((Entry.arrange finish lines).map (·.2)) ((Entry.arrange finish' lines').map (·.2)) := by
  obtain ⟨es, hes, heq⟩ := exists_arrange_deepen k finish finish' h
  rw [heq, List.map_map]
  exact hes.entries

end

end Trellis
