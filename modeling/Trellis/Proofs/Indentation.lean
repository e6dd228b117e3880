import Trellis.Proofs.AttributeValue
import Trellis.Proofs.Levels

/-!
# `Trellis.Proofs.Indentation`: well-structured streams, and when indentation is at fault

`WellStructured` says what a reader of a stream of tokens may rely on: the stream goes line
by line, its indents and outdents are balanced, what stands directly in a level stands in
one column, and the line numbers never decrease. Every scan gives such a stream; this is
put together from `Trellis.Proofs.Levels`.

The second half is about the only faults that a template can have whose lines say no more
than the name of a tag: those of indentation. `Faulty` says when a line has one, in terms of
the indentations of the lines before it and without any margin:

* it mixes tabs and spaces (`IsMixed`);
* it uses the other character than the first indented line (`IsOther`);
* it is less indented than the line before it, and no enclosing level has its width
  (`IsStray`).

The scanner keeps a margin instead. `Margin.Reflects` is what the margin knows of the lines
so far. `checkUnit_ok_iff` and `moveTo_ok_iff` compare the two for one line, and
`scanFrom_error_iff` for all of them, by induction on the lines.

`items_wellStructured` states both halves.
-/

set_option autoImplicit false

namespace Trellis.Source

open Text

/-! ### Well-structured streams -/

/-- What a reader of a stream may rely on. -/
structure WellStructured (items : List (Position × Item)) : Prop where
  /-- Each line opens at most one level or closes some, has its tokens and one line end.
  Behind the last line all levels are closed, and the stream ends. -/
  grouped : ∃ (groups : List (List Item × List Token)) (closing : Nat),
    (∀ g ∈ groups, g.1 = [.indent] ∨ ∃ n, g.1 = List.replicate n .outdent) ∧
    items.map Prod.snd =
      groups.flatMap (fun g => g.1 ++ g.2.map Item.token ++ [.newline]) ++
        List.replicate closing .outdent ++ [.finish]
  balanced : Balanced (items.map Prod.snd)
  /-- Between an indent and its outdent, the items of lines that stand in no level further
  in have the column of the indent. -/
  aligned : ∀ before inside after p q,
    items = before ++ (p, .indent) :: (inside ++ (q, .outdent) :: after) →
    Balanced (inside.map Prod.snd) →
    ∀ front back r i, inside = front ++ (r, i) :: back → Balanced (front.map Prod.snd) →
      i.isOfLine = true → r.column = p.column
  ordered : (items.map (·.1.line)).Pairwise (· ≤ ·)

/-- The items that lead from one depth to another open one level or close some. -/
theorem levelItems_cases (before after : Nat) :
    levelItems before after = [.indent] ∨
      ∃ n, levelItems before after = List.replicate n .outdent := by
  unfold levelItems
  split
  · exact .inl rfl
  · exact .inr ⟨_, rfl⟩

/-- The stream goes line by line. -/
theorem grouped_itemsFrom (finish : Position) (before : Nat) (lines : List Line) :
    ∃ (groups : List (List Item × List Token)) (closing : Nat),
      (∀ g ∈ groups, g.1 = [.indent] ∨ ∃ n, g.1 = List.replicate n .outdent) ∧
      (itemsFrom finish before lines).map Prod.snd =
        groups.flatMap (fun g => g.1 ++ g.2.map Item.token ++ [.newline]) ++
          List.replicate closing .outdent ++ [.finish] := by
  induction lines generalizing before with
  | nil =>
    refine ⟨[], before, by simp, ?_⟩
    rw [itemsFrom, List.map_map, levelItems, if_neg (Nat.not_lt_zero _)]
    simp
  | cons l rest ih =>
    obtain ⟨groups, closing, hgroups, hrest⟩ := ih l.depth
    refine ⟨(levelItems before l.depth, l.tokens) :: groups, closing, ?_, ?_⟩
    · intro g hg
      rcases List.mem_cons.mp hg with rfl | hg
      · exact levelItems_cases before l.depth
      · exact hgroups g hg
    · rw [itemsFrom, List.map_append, hrest, Line.items, List.map_map]
      simp

/-- **Every scan gives a well-structured stream.** -/
theorem wellStructured_of_scan {source : String} {l : Layout} (h : Layout.scan source = .ok l) :
    WellStructured l.items where
  grouped := grouped_itemsFrom l.finish 0 l.lines
  balanced := balanced_items h
  aligned := by
    intro before inside after p q hitems _ front back r i hinside hfront hi
    have hread := openColumns?_items h
    rw [hitems, hinside, List.append_assoc, List.cons_append] at hread
    exact column_of_openColumns? hread hfront hi
  ordered := pairwise_line_items h

/-! ### Lines that name a tag -/

/-- The words that begin statements of their own. -/
def keywords : List String :=
  ["doctype", "extends", "include", "block", "append", "prepend", "mixin", "each", "for", "if",
    "unless", "else", "case", "when", "default"]

/-- A letter, and then letters and digits, but no keyword. -/
structure IsTagName (name : List Char) : Prop where
  letter : headIs isLetter name = true
  alphanumeric : ∀ c ∈ name, isAlphanumeric c = true
  plain : String.ofList name ∉ keywords

/-- An indentation and the name of a tag. -/
def IsTagLine (line : List Char) : Prop :=
  ∃ indent name, line = indent ++ name ∧ (∀ c ∈ indent, isIndent c = true) ∧ IsTagName name

/-- A letter or digit is no blank and no sign. -/
theorem isAlphanumeric_facts {c : Char} (h : isAlphanumeric c = true) :
    isBlank c = false ∧ isIndent c = false ∧ isNameChar c = true ∧ c ≠ '\n' ∧ c ≠ '(' := by
  have hrange : 65 ≤ c.toNat ∧ c.toNat ≤ 90 ∨ 97 ≤ c.toNat ∧ c.toNat ≤ 122 ∨
      48 ≤ c.toNat ∧ c.toNat ≤ 57 := by
    simpa [isAlphanumeric, Char.isAlphanum, Char.isAlpha, Char.isUpper, Char.isLower,
      Char.isDigit, UInt32.le_iff_toNat_le, or_assoc] using h
  refine ⟨by simp [isBlank]; omega, ?_, by simp [isNameChar, h], ?_, ?_⟩
  · have hspace : c ≠ ' ' := by rintro rfl; revert hrange; decide
    have htab : c ≠ '\t' := by rintro rfl; revert hrange; decide
    simp [isIndent, hspace, htab]
  · rintro rfl
    revert hrange
    decide
  · rintro rfl
    revert hrange
    decide

namespace IsTagName

variable {name : List Char} (h : IsTagName name)
include h

theorem currentLine_eq : currentLine name = name := by
  rw [currentLine, List.takeWhile_eq_self_iff]
  intro c hc
  simpa using (isAlphanumeric_facts (h.alphanumeric c hc)).2.2.2.1

theorem nameOf_eq : nameOf name = name := by
  rw [nameOf, List.takeWhile_eq_self_iff]
  exact fun c hc => (isAlphanumeric_facts (h.alphanumeric c hc)).2.2.1

theorem trimEnd_eq : trimEnd name = name := by
  have hink : ∀ c ∈ name, isBlank c = false :=
    fun c hc => (isAlphanumeric_facts (h.alphanumeric c hc)).1
  clear h
  induction name with
  | nil => rfl
  | cons c name ih =>
    rw [trimEnd, ih fun d hd => hink d (List.mem_cons_of_mem _ hd)]
    cases name with
    | nil => simp [hink c List.mem_cons_self]
    | cons d name => rfl

/-- A word that is no keyword begins the name of a tag. -/
theorem keywordToken?_eq (argument below : List Char) :
    keywordToken? name argument below = .ok none := by
  have hplain := h.plain
  simp only [keywords, List.mem_cons, List.not_mem_nil, or_false, not_or] at hplain
  unfold keywordToken?
  dsimp only
  split <;> simp_all

theorem opening_eq : opening name = .ok (.tag name) := by
  have hletter := h.letter
  have hword : openingWord name = .ok (.tag name) := by
    unfold openingWord
    dsimp only
    rw [h.currentLine_eq, h.nameOf_eq, List.drop_length, h.keywordToken?_eq]
    cases name with
    | nil => cases hletter
    | cons c cs => rfl
  cases name with
  | nil => cases hletter
  | cons c cs =>
    -- No statement that is told by a sign begins with a letter.
    have hsigns : c ∉ ['/', '<', '|', '!', '=', '-', ':', '+', '#', '.'] := by
      intro hmem
      simp only [List.mem_cons, List.not_mem_nil, or_false] at hmem
      have hc : isLetter c = true := hletter
      rcases hmem with rfl | rfl | rfl | rfl | rfl | rfl | rfl | rfl | rfl | rfl <;> cases hc
    unfold opening
    dsimp only
    rw [h.currentLine_eq]
    split <;> simp_all

/-- The statement that names a tag and says no more. -/
theorem readStatement_eq :
    readStatement name = .ok ⟨[.tag (String.ofList name)], .statements, []⟩ := by
  have htag : tagNameFrom name = name := by
    rw [tagNameFrom]
    split
    · next hrest =>
      rw [h.nameOf_eq, List.drop_length] at hrest
      cases hrest
    · exact h.nameOf_eq
  have hhead : tagHead name = .ok ([.tag (String.ofList name)], []) := by
    rw [tagHead, if_pos h.letter, htag]
    simp only [List.drop_length, headParts_nil]
    cases name with
    | nil => cases h.letter
    | cons c cs => rfl
  exact readStatement_of_tag h.opening_eq hhead

end IsTagName

/-- The name of a tag is not blank, so the line is not. -/
theorem isBlankText_of_tagLine {line : List Char} (h : IsTagLine line) :
    isBlankText line = false := by
  obtain ⟨indent, name, rfl, -, hname⟩ := h
  have hletter := hname.letter
  cases name with
  | nil => cases hletter
  | cons c cs =>
    rw [isBlankText, List.all_append, List.all_cons, (isLetter_facts hletter).1]
    simp

/-- The indentation of a line that names a tag is all that stands before the name. -/
theorem indentOf_of_tagLine {line : List Char} (h : IsTagLine line) :
    (∀ c ∈ indentOf line, isIndent c = true) ∧ IsTagName (line.drop (indentOf line).length) := by
  obtain ⟨indent, name, rfl, hindent, hname⟩ := h
  have heq : indentOf (indent ++ name) = indent := by
    have hstart : name.takeWhile isIndent = [] := by
      have hletter := hname.letter
      cases name with
      | nil => rfl
      | cons c cs =>
        have hc := isAlphanumeric_facts (hname.alphanumeric c List.mem_cons_self)
        rw [List.takeWhile_cons_of_neg (by simp [hc.2.1])]
    rw [indentOf, List.takeWhile_append_of_pos hindent, hstart, List.append_nil]
  rw [heq, List.drop_left]
  exact ⟨hindent, hname⟩

/-- A line that names a tag is placed exactly where its indentation can be. It says no more
than the name, and uses up no lines below. -/
theorem placeStatement_of_tagLine {line : List Char} (h : IsTagLine line) (m : Margin)
    (number : Nat) (below : List (List Char)) :
    match (m.checkUnit (indentOf line)).bind fun unit => unit.moveTo (indentOf line).length with
    | .error _ => ∃ e, placeStatement m number line below = .error e
    | .ok after => placeStatement m number line below = .ok
        ⟨after, ⟨⟨number, (indentOf line).length + 1⟩, after.widths.length,
          [.tag (String.ofList (line.drop (indentOf line).length))]⟩, 0⟩ := by
  obtain ⟨-, hname⟩ := indentOf_of_tagLine h
  unfold placeStatement
  dsimp only
  cases m.checkUnit (indentOf line) with
  | error fault => exact ⟨_, rfl⟩
  | ok unit =>
    rw [Except.bind]
    dsimp only
    cases unit.moveTo (indentOf line).length with
    | error fault => exact ⟨_, rfl⟩
    | ok after =>
      have hbelow : textBelow (line.drop (indentOf line).length) below = [] := by
        rw [textBelow, if_neg]
        intro hmem
        have hc := hname.alphanumeric '(' (by simpa using hmem)
        exact (isAlphanumeric_facts hc).2.2.2.2 rfl
      dsimp only
      rw [hname.trimEnd_eq, hbelow, List.append_nil, hname.readStatement_eq]
      rfl

/-! ### Faults of indentation -/

/-- Tabs and spaces in one indentation. -/
def IsMixed (indent : List Char) : Prop := '\t' ∈ indent ∧ ' ' ∈ indent

/-- The indentation of the first line that is indented. -/
def firstIndent? (before : List (List Char)) : Option (List Char) :=
  before.find? fun indent => !indent.isEmpty

/-- A character that the first indented line before does not have. -/
def IsOther (before : List (List Char)) (indent : List Char) : Prop :=
  ∃ first ∈ firstIndent? before, ∃ c ∈ indent, c ∉ first

/-- Behind lines of the widths `before`, is a level of the given width open? The outermost
level always is, and that of a line is until a line comes that is less indented. -/
def IsOpen (before : List Nat) (width : Nat) : Prop :=
  width = 0 ∨ ∃ outer inner, before = outer ++ width :: inner ∧ ∀ v ∈ inner, width ≤ v

/-- Less indented than the line before, and not as far as any level that is open. -/
def IsStray (before : List Nat) (width : Nat) : Prop :=
  width < before.getLastD 0 ∧ ¬IsOpen before width

/-- What can be wrong with an indentation behind others. -/
def Faulty (before : List (List Char)) (indent : List Char) : Prop :=
  IsMixed indent ∨ IsOther before indent ∨ IsStray (before.map List.length) indent.length

/-- The indentations of the lines that are not blank. -/
def indentsOf (lines : List (List Char)) : List (List Char) :=
  (lines.filter fun line => !isBlankText line).map indentOf

/-! ### Open levels -/

/-- One more line closes the levels that are wider than it and opens one of its own. -/
theorem isOpen_concat (before : List Nat) (width v : Nat) :
    IsOpen (before ++ [width]) v ↔ v = 0 ∨ v = width ∨ v ≤ width ∧ IsOpen before v := by
  constructor
  · rintro (h | ⟨outer, inner, heq, hinner⟩)
    · exact .inl h
    · -- The level is that of the new line, or one of those before.
      rcases List.eq_nil_or_concat inner with rfl | ⟨rest, last, rfl⟩
      · obtain ⟨-, h⟩ := List.append_inj' heq rfl
        cases h
        exact .inr (.inl rfl)
      · rw [List.concat_eq_append, ← List.cons_append, ← List.append_assoc] at heq
        obtain ⟨hbefore, h⟩ := List.append_inj' heq rfl
        cases h
        rw [List.concat_eq_append] at hinner
        refine .inr (.inr ⟨hinner _ (by simp), .inr ⟨outer, rest, hbefore, ?_⟩⟩)
        exact fun u hu => hinner u (by simp [hu])
  · rintro (h | rfl | ⟨hle, h | ⟨outer, inner, rfl, hinner⟩⟩)
    · exact .inl h
    · exact .inr ⟨before, [], rfl, by simp⟩
    · exact .inl h
    · refine .inr ⟨outer, inner ++ [width], by simp, ?_⟩
      intro u hu
      rcases List.mem_append.mp hu with hu | hu
      · exact hinner u hu
      · rw [List.mem_singleton.mp hu]
        exact hle

/-- No open level is wider than the last line. -/
theorem le_getLastD_of_isOpen {before : List Nat} {v : Nat} (h : IsOpen before v) :
    v ≤ before.getLastD 0 := by
  rcases h with rfl | ⟨outer, inner, rfl, hinner⟩
  · exact Nat.zero_le _
  · rcases List.eq_nil_or_concat inner with rfl | ⟨rest, last, rfl⟩
    · simp
    · have hlast : outer ++ v :: rest.concat last = (outer ++ v :: rest).concat last := by simp
      rw [hlast, List.concat_eq_append, List.getLastD_concat]
      exact hinner last (by simp)

/-! ### What the margin knows -/

/-- The margin behind lines with the given indentations, none of which is faulty. -/
structure Margin.Reflects (m : Margin) (before : List (List Char)) : Prop where
  unit : m.unit = (firstIndent? before).bind List.head?
  uniform : ∀ indent ∈ before, ∀ c ∈ indent, m.unit = some c
  width : m.width = (before.map List.length).getLastD 0
  descending : m.widths.Pairwise (· > ·)
  mem : ∀ v, v ∈ m.widths ↔ v ≠ 0 ∧ IsOpen (before.map List.length) v

theorem reflects_start : Margin.start.Reflects [] where
  unit := rfl
  uniform := by simp
  width := rfl
  descending := .nil
  mem v := by simp [Margin.start, IsOpen]

/-- The character of an indentation that does not mix. -/
theorem eq_of_not_isMixed {u : Char} {rest : List Char}
    (hindent : ∀ c ∈ u :: rest, isIndent c = true) (h : ¬IsMixed (u :: rest)) :
    ∀ c ∈ u :: rest, c = u := by
  intro c hc
  have hu := hindent u List.mem_cons_self
  have hci := hindent c hc
  simp only [isIndent, Bool.or_eq_true, beq_iff_eq] at hu hci
  unfold IsMixed at h
  rcases hu with rfl | rfl <;> rcases hci with rfl | rfl
  · rfl
  · exact absurd ⟨hc, List.mem_cons_self⟩ h
  · exact absurd ⟨List.mem_cons_self, hc⟩ h
  · rfl

/-- In a descending list, what is too great stands in front. -/
theorem dropWhile_of_descending {widths : List Nat} (h : widths.Pairwise (· > ·)) (width : Nat) :
    widths.dropWhile (· > width) = widths.filter (· ≤ width) := by
  induction widths with
  | nil => rfl
  | cons v rest ih =>
    rw [List.pairwise_cons] at h
    by_cases hv : v > width
    · rw [List.dropWhile_cons_of_pos (by simpa using hv),
        List.filter_cons_of_neg (by simpa using hv), ih h.2]
    · -- All levels behind this one are less wide.
      rw [List.dropWhile_cons_of_neg (by simpa using hv), eq_comm, List.filter_eq_self]
      intro u hu
      rcases List.mem_cons.mp hu with rfl | hu
      · simpa using hv
      · have := h.1 u hu
        simp only [decide_eq_true_eq]
        omega

section
variable {m : Margin} {before : List (List Char)} (h : m.Reflects before) {indent : List Char}
include h

/-- The indentation of the first indented line consists of the character that indents. -/
theorem mem_firstIndent? {first : List Char} (hfirst : first ∈ firstIndent? before) :
    ∃ u, m.unit = some u ∧ ∀ c, c ∈ first ↔ c = u := by
  have hmem : first ∈ before := List.mem_of_find?_eq_some hfirst
  have hne := List.find?_some hfirst
  have hunit := h.unit
  rw [Option.mem_def.mp hfirst] at hunit
  cases first with
  | nil => cases hne
  | cons u rest =>
    refine ⟨u, hunit, fun c => ⟨fun hc => ?_, fun hc => hc ▸ List.mem_cons_self⟩⟩
    have hc := h.uniform _ hmem c hc
    rw [hunit] at hc
    exact (Option.some.inj hc).symm

/-- The scanner accepts the characters of an indentation exactly if they do not mix and are
those of the first indented line. -/
theorem checkUnit_ok_iff (hindent : ∀ c ∈ indent, isIndent c = true) :
    (∃ after, m.checkUnit indent = .ok after) ↔ ¬IsMixed indent ∧ ¬IsOther before indent := by
  cases indent with
  | nil =>
    have hmixed : ¬IsMixed [] := by simp [IsMixed]
    have hother : ¬IsOther before [] := by simp [IsOther]
    simp [Margin.checkUnit, hmixed, hother]
  | cons u rest =>
    have hcontains : ((u :: rest).contains '\t' && (u :: rest).contains ' ') = true ↔
        IsMixed (u :: rest) := by
      simp [IsMixed]
    by_cases hmixed : IsMixed (u :: rest)
    · rw [Margin.checkUnit, if_pos (hcontains.mpr hmixed)]
      simp [hmixed]
    have hu := eq_of_not_isMixed hindent hmixed
    rw [Margin.checkUnit, if_neg fun hc => hmixed (hcontains.mp hc)]
    cases hunit : m.unit with
    | none =>
      -- No line was indented so far.
      have hother : ¬IsOther before (u :: rest) := by
        rintro ⟨first, hfirst, -⟩
        obtain ⟨v, hv, -⟩ := mem_firstIndent? h hfirst
        rw [hunit] at hv
        cases hv
      simp [hmixed, hother]
    | some expected =>
      obtain ⟨first, hfirst, hmem⟩ :
          ∃ first ∈ firstIndent? before, ∀ c, c ∈ first ↔ c = expected := by
        have hfind := h.unit
        rw [hunit] at hfind
        obtain ⟨first, hfirst, -⟩ := Option.bind_eq_some_iff.mp hfind.symm
        obtain ⟨v, hv, hmem⟩ := mem_firstIndent? h hfirst
        rw [hunit] at hv
        cases hv
        exact ⟨first, hfirst, hmem⟩
      have hother : IsOther before (u :: rest) ↔ expected ≠ u := by
        constructor
        · rintro ⟨other, hother, c, hc, hnot⟩
          rw [Option.mem_unique hother hfirst, hmem, hu c hc] at hnot
          exact Ne.symm hnot
        · intro hne
          exact ⟨first, hfirst, u, List.mem_cons_self, by rw [hmem]; exact Ne.symm hne⟩
      dsimp only
      rw [hother]
      by_cases heq : expected = u <;> simp [heq, hmixed]

/-- The levels of the margin are the open ones, the outermost apart. -/
theorem isOpen_iff (width : Nat) :
    IsOpen (before.map List.length) width ↔ width = 0 ∨ width ∈ m.widths := by
  rw [h.mem]
  constructor
  · intro hopen
    by_cases hzero : width = 0
    · exact .inl hzero
    · exact .inr ⟨hzero, hopen⟩
  · rintro (hzero | ⟨-, hopen⟩)
    · exact .inl hzero
    · exact hopen

/-- The innermost level that is left has a given width exactly if there was such a level. -/
theorem headD_dropWhile_widths (width : Nat) :
    (m.widths.dropWhile (· > width)).headD 0 = width ↔ width = 0 ∨ width ∈ m.widths := by
  have hpositive : 0 ∉ m.widths := fun hmem => ((h.mem 0).mp hmem).1 rfl
  have hmem (v : Nat) : v ∈ m.widths.dropWhile (· > width) ↔ v ∈ m.widths ∧ v ≤ width := by
    rw [dropWhile_of_descending h.descending, List.mem_filter, decide_eq_true_iff]
  have hdescending := h.descending.sublist (List.dropWhile_sublist (l := m.widths) (· > width))
  cases hkept : m.widths.dropWhile (· > width) with
  | nil =>
    rw [hkept] at hmem
    have hnot : width ∉ m.widths := fun hw => by simpa using (hmem width).mpr ⟨hw, Nat.le_refl _⟩
    simp [hnot, eq_comm]
  | cons v rest =>
    rw [hkept] at hmem hdescending
    have hv := (hmem v).mp List.mem_cons_self
    rw [List.headD_cons]
    constructor
    · rintro rfl
      exact .inr hv.1
    · rintro (rfl | hw)
      · -- Nothing is as narrow as the outermost level.
        rw [Nat.le_zero.mp hv.2] at hv
        exact absurd hv.1 hpositive
      · rcases List.mem_cons.mp ((hmem width).mpr ⟨hw, Nat.le_refl _⟩) with rfl | hrest
        · rfl
        · have := (List.pairwise_cons.mp hdescending).1 width hrest
          omega

/-- No level is wider than the last line. -/
theorem le_width_of_mem {v : Nat} (hv : v ∈ m.widths) : v ≤ m.width := by
  rw [h.width]
  exact le_getLastD_of_isOpen ((h.mem v).mp hv).2

/-- The scanner finds a place for a width exactly if it is not stray. -/
theorem moveTo_ok_iff {unit : Margin} (hwidths : unit.widths = m.widths) (width : Nat) :
    (∃ after, unit.moveTo width = .ok after) ↔ ¬IsStray (before.map List.length) width := by
  have hkept := headD_dropWhile_widths h width
  have hlast : unit.width = m.width := by
    rw [Margin.width_eq_headD, hwidths, ← Margin.width_eq_headD]
  rw [IsStray, ← h.width, isOpen_iff h, ← hkept]
  constructor
  · rintro ⟨after, hafter⟩ ⟨hless, hnot⟩
    rcases Margin.moveTo_cases hafter with ⟨hdeeper, -⟩ | ⟨-, hwidth, rfl⟩
    · omega
    · rw [Margin.width_eq_headD, hwidths] at hwidth
      exact hnot hwidth
  · intro hnot
    unfold Margin.moveTo
    rw [hlast, hwidths]
    by_cases hdeeper : width > m.width
    · rw [if_pos hdeeper]
      exact ⟨_, rfl⟩
    · rw [if_neg hdeeper]
      dsimp only
      rw [Margin.width_eq_headD]
      -- A width that is not less than the last is the last, and that level is still open.
      have hfound : (m.widths.dropWhile (· > width)).headD 0 = width := by
        by_contra hwidth
        have heq : width = m.widths.headD 0 := by
          rw [Margin.width_eq_headD] at hdeeper hnot
          by_contra hne
          exact hnot ⟨by omega, hwidth⟩
        rw [hkept] at hwidth
        cases hwidths : m.widths with
        | nil => simp [heq, hwidths] at hwidth
        | cons v rest => simp [heq, hwidths] at hwidth
      rw [if_pos hfound]
      exact ⟨_, rfl⟩

end

/-- What the scanner notes of the characters of an indentation. -/
theorem unit_of_checkUnit {m after : Margin} {indent : List Char}
    (hindent : ∀ c ∈ indent, isIndent c = true) (h : m.checkUnit indent = .ok after) :
    after.unit = m.unit.or indent.head? ∧ ∀ c ∈ indent, after.unit = some c := by
  cases indent with
  | nil =>
    cases h
    simp
  | cons u rest =>
    unfold Margin.checkUnit at h
    dsimp only at h
    split at h
    · cases h
    next hcontains =>
    have hmixed : ¬IsMixed (u :: rest) := by simpa [IsMixed] using hcontains
    have hu := eq_of_not_isMixed hindent hmixed
    split at h
    · next hnone =>
      cases h
      rw [hnone]
      exact ⟨rfl, fun c hc => by rw [hu c hc]⟩
    · next expected hsome =>
      split at h
      · next heq =>
        cases h
        rw [hsome, heq]
        exact ⟨rfl, fun c hc => by rw [hu c hc]⟩
      · cases h

/-- What the margin knows behind one more line. -/
theorem reflects_concat {m unit after : Margin} {before : List (List Char)} {indent : List Char}
    (h : m.Reflects before) (hindent : ∀ c ∈ indent, isIndent c = true)
    (hunit : m.checkUnit indent = .ok unit) (hmove : unit.moveTo indent.length = .ok after) :
    after.Reflects (before ++ [indent]) := by
  obtain ⟨hchar, hall⟩ := unit_of_checkUnit hindent hunit
  have hwidths := Margin.widths_of_checkUnit hunit
  obtain ⟨-, hwidth, hkept⟩ := Margin.moves_of_moveTo hmove
  constructor
  · -- The first indented line stays the first, or this line is.
    rw [hkept, hchar, h.unit, firstIndent?, firstIndent?, List.find?_append]
    cases hfirst : before.find? fun indent => !indent.isEmpty with
    | none => cases indent <;> rfl
    | some first =>
      have hne := List.find?_some hfirst
      cases first with
      | nil => cases hne
      | cons u rest => rfl
  · intro other hother c hc
    rw [hkept]
    rcases List.mem_append.mp hother with hother | hother
    · rw [hchar, h.uniform other hother c hc, Option.some_or]
    · rw [List.mem_singleton.mp hother] at hc
      exact hall c hc
  · rw [hwidth, List.map_append, List.map_singleton, List.getLastD_concat]
  · rcases Margin.moveTo_cases hmove with ⟨hdeeper, rfl⟩ | ⟨-, -, rfl⟩
    · rw [hwidths]
      refine List.pairwise_cons.mpr ⟨fun v hv => ?_, h.descending⟩
      have := le_width_of_mem h hv
      rw [Margin.width_eq_headD, hwidths, ← Margin.width_eq_headD] at hdeeper
      omega
    · rw [hwidths]
      exact h.descending.sublist (List.dropWhile_sublist _)
  · intro v
    have hm := h.mem v
    rw [List.map_append, List.map_singleton, isOpen_concat]
    rcases Margin.moveTo_cases hmove with ⟨hdeeper, rfl⟩ | ⟨-, hinner, rfl⟩
    · rw [Margin.width_eq_headD, hwidths, ← Margin.width_eq_headD] at hdeeper
      have hle := le_width_of_mem h (v := v)
      rw [hwidths, List.mem_cons]
      constructor
      · rintro (rfl | hv)
        · exact ⟨by omega, .inr (.inl rfl)⟩
        · have := hle hv
          exact ⟨(hm.mp hv).1, .inr (.inr ⟨by omega, (hm.mp hv).2⟩)⟩
      · rintro ⟨hne, hzero | hv | ⟨-, hopen⟩⟩
        · exact absurd hzero hne
        · exact .inl hv
        · exact .inr (hm.mpr ⟨hne, hopen⟩)
    · rw [Margin.width_eq_headD, hwidths, headD_dropWhile_widths h] at hinner
      rw [hwidths, dropWhile_of_descending h.descending, List.mem_filter, decide_eq_true_iff, hm]
      constructor
      · rintro ⟨⟨hne, hopen⟩, hle⟩
        exact ⟨hne, .inr (.inr ⟨hle, hopen⟩)⟩
      · rintro ⟨hne, hzero | rfl | ⟨hle, hopen⟩⟩
        · exact absurd hzero hne
        · -- The level of this line was open before.
          rcases hinner with hzero | hmem
          · exact absurd hzero hne
          · exact ⟨hm.mp hmem, Nat.le_refl _⟩
        · exact ⟨⟨hne, hopen⟩, hle⟩

/-! ### Templates of such lines -/

theorem indentsOf_cons_of_blank {line : List Char} (h : isBlankText line = true)
    (lines : List (List Char)) : indentsOf (line :: lines) = indentsOf lines := by
  rw [indentsOf, List.filter_cons_of_neg (by simp [h])]
  rfl

theorem indentsOf_cons_of_ink {line : List Char} (h : isBlankText line = false)
    (lines : List (List Char)) :
    indentsOf (line :: lines) = indentOf line :: indentsOf lines := by
  rw [indentsOf, List.filter_cons_of_pos (by simp [h])]
  rfl

/-- One of some indentations is faulty behind those in front of it: the first, or one of
the others. -/
theorem exists_faulty_cons (before rest : List (List Char)) (indent : List Char) :
    (∃ front i back, indent :: rest = front ++ i :: back ∧ Faulty (before ++ front) i) ↔
      Faulty before indent ∨
        ∃ front i back, rest = front ++ i :: back ∧ Faulty (before ++ [indent] ++ front) i := by
  constructor
  · rintro ⟨front, i, back, heq, hfaulty⟩
    cases front with
    | nil =>
      cases heq
      rw [List.append_nil] at hfaulty
      exact .inl hfaulty
    | cons first front =>
      cases heq
      exact .inr ⟨front, i, back, rfl, by simpa using hfaulty⟩
  · rintro (hfaulty | ⟨front, i, back, rfl, hfaulty⟩)
    · exact ⟨[], indent, rest, rfl, by simpa using hfaulty⟩
    · exact ⟨indent :: front, i, back, rfl, by simpa using hfaulty⟩

/-- **Lines that name tags cannot be scanned exactly if one of their indentations is
faulty** behind those of the lines before. The induction is on the lines, and the margin
reflects those that were scanned. -/
theorem scanFrom_error_iff {m : Margin} {before : List (List Char)} (h : m.Reflects before)
    {lines : List (List Char)}
    (hlines : ∀ line ∈ lines, isBlankText line = true ∨ IsTagLine line) (number : Nat)
    (last : Position) :
    (∃ e, Layout.scanFrom m number last 0 lines = .error e) ↔
      ∃ front indent back, indentsOf lines = front ++ indent :: back ∧
        Faulty (before ++ front) indent := by
  induction lines generalizing m before number last with
  | nil => simp [Layout.scanFrom, indentsOf]
  | cons line below ih =>
    have hbelow : ∀ line ∈ below, isBlankText line = true ∨ IsTagLine line :=
      fun line hline => hlines line (List.mem_cons_of_mem _ hline)
    rcases hlines line List.mem_cons_self with hblank | htag
    · rw [Layout.scanFrom, if_pos hblank, indentsOf_cons_of_blank hblank]
      exact ih h hbelow _ _
    · have hink := isBlankText_of_tagLine htag
      have hindent := (indentOf_of_tagLine htag).1
      have hplace := placeStatement_of_tagLine htag m number below
      rw [Layout.scanFrom, if_neg (by simp [hink]), indentsOf_cons_of_ink hink, exists_faulty_cons]
      have hunit := checkUnit_ok_iff h hindent
      cases hcheck : m.checkUnit (indentOf line) with
      | error fault =>
        -- The characters of the indentation are at fault.
        rw [hcheck] at hplace hunit
        obtain ⟨e, he⟩ := hplace
        have hfaulty : Faulty before (indentOf line) := by
          by_contra hnot
          obtain ⟨after, hafter⟩ :=
            hunit.mpr ⟨fun hm => hnot (.inl hm), fun ho => hnot (.inr (.inl ho))⟩
          cases hafter
        rw [he]
        exact ⟨fun _ => .inl hfaulty, fun _ => ⟨e, rfl⟩⟩
      | ok unit =>
        have hfits := hunit.mp ⟨unit, hcheck⟩
        have hmove := moveTo_ok_iff h (Margin.widths_of_checkUnit hcheck) (indentOf line).length
        rw [hcheck, Except.bind] at hplace
        cases hafter : unit.moveTo (indentOf line).length with
        | error fault =>
          -- The width of the indentation is at fault.
          rw [hafter] at hplace hmove
          obtain ⟨e, he⟩ := hplace
          have hfaulty : Faulty before (indentOf line) := by
            by_contra hnot
            obtain ⟨after, hok⟩ := hmove.mpr fun hstray => hnot (.inr (.inr hstray))
            cases hok
          rw [he]
          exact ⟨fun _ => .inl hfaulty, fun _ => ⟨e, rfl⟩⟩
        | ok after =>
          -- This line is in its place, so what is at fault is one of the lines behind it.
          rw [hafter] at hplace
          have hnot : ¬Faulty before (indentOf line) := by
            rintro (hmixed | hother | hstray)
            · exact hfits.1 hmixed
            · exact hfits.2 hother
            · exact hmove.mp ⟨after, hafter⟩ hstray
          have hrest := ih (reflects_concat h hindent hcheck hafter) hbelow (number + 1)
            ⟨number, (indentOf line).length + 1⟩
          rw [hplace, ← hrest]
          cases hbehind : Layout.scanFrom after (number + 1)
              ⟨number, (indentOf line).length + 1⟩ 0 below with
          | error e => simp [hbehind]
          | ok rest => simp [hbehind, hnot]

/-! ### Both halves -/

/-- **The stream of every template that can be scanned is well-structured**, and a template
whose lines are blank or name a tag can be scanned unless the indentation of one of its lines
mixes tabs and spaces, uses the other character than the first indented line, or goes back to
a width that no enclosing level has. -/
theorem items_wellStructured :
    (∀ source l, Layout.scan source = .ok l → WellStructured l.items) ∧
    ∀ source : String,
      (∀ line ∈ Text.lines source.toList, isBlankText line = true ∨ IsTagLine line) →
      ((∃ e, Layout.scan source = .error e) ↔
        ∃ before indent after,
          indentsOf (Text.lines source.toList) = before ++ indent :: after ∧
          (IsMixed indent ∨ IsOther before indent ∨
            IsStray (before.map List.length) indent.length)) :=
  ⟨fun _ _ h => wellStructured_of_scan h,
    fun _ h => scanFrom_error_iff reflects_start h 1 ⟨0, 1⟩⟩

theorem isTagName_div : IsTagName ['d', 'i', 'v'] := ⟨rfl, by simp; decide, by simp [keywords]⟩

theorem isTagName_p : IsTagName ['p'] := ⟨rfl, by simp; decide, by simp [keywords]⟩

theorem isTagName_span : IsTagName ['s', 'p', 'a', 'n'] :=
  ⟨rfl, by simp; decide, by simp [keywords]⟩

theorem isTagLine_div : IsTagLine ['d', 'i', 'v'] := ⟨[], _, rfl, by simp, isTagName_div⟩

theorem isTagLine_p : IsTagLine [' ', ' ', ' ', ' ', 'p'] :=
  ⟨[' ', ' ', ' ', ' '], _, rfl, by simp [isIndent], isTagName_p⟩

/-- A paragraph in a division, and a span behind them. -/
theorem scan_division : Layout.scan "div\n    p\nspan" = .ok
    ⟨[⟨⟨1, 1⟩, 0, [.tag "div"]⟩, ⟨⟨2, 5⟩, 1, [.tag "p"]⟩, ⟨⟨3, 1⟩, 0, [.tag "span"]⟩],
      ⟨3, 1⟩⟩ := by
  have hlines : Text.lines "div\n    p\nspan".toList =
      [['d', 'i', 'v'], [' ', ' ', ' ', ' ', 'p'], ['s', 'p', 'a', 'n']] := by decide
  have hspan : IsTagLine ['s', 'p', 'a', 'n'] := ⟨[], _, rfl, by simp, isTagName_span⟩
  have h₁ : placeStatement .start 1 ['d', 'i', 'v']
      [[' ', ' ', ' ', ' ', 'p'], ['s', 'p', 'a', 'n']] = .ok
      ⟨.start, ⟨⟨1, 1⟩, 0, [.tag "div"]⟩, 0⟩ := placeStatement_of_tagLine isTagLine_div .start 1 _
  have h₂ : placeStatement .start 2 [' ', ' ', ' ', ' ', 'p'] [['s', 'p', 'a', 'n']] = .ok
      ⟨⟨[4], some ' '⟩, ⟨⟨2, 5⟩, 1, [.tag "p"]⟩, 0⟩ :=
    placeStatement_of_tagLine isTagLine_p .start 2 _
  have h₃ : placeStatement ⟨[4], some ' '⟩ 3 ['s', 'p', 'a', 'n'] [] = .ok
      ⟨⟨[], some ' '⟩, ⟨⟨3, 1⟩, 0, [.tag "span"]⟩, 0⟩ :=
    placeStatement_of_tagLine hspan ⟨[4], some ' '⟩ 3 _
  rw [Layout.scan, hlines]
  simp [Layout.scanFrom, isBlankText_of_tagLine isTagLine_div, isBlankText_of_tagLine isTagLine_p,
    isBlankText_of_tagLine hspan, h₁, h₂, h₃]

/-- A paragraph in a division with a span behind it, and the same with the span less far in
than the paragraph but not as far out as the division. -/
theorem items_wellStructured_cases :
    (∃ l, Layout.scan "div\n    p\nspan" = .ok l ∧ WellStructured l.items) ∧
      ∃ e, Layout.scan "div\n    p\n  span" = .error e := by
  constructor
  · exact ⟨_, scan_division, items_wellStructured.1 _ _ scan_division⟩
  · have hlines : Text.lines "div\n    p\n  span".toList =
        [['d', 'i', 'v'], [' ', ' ', ' ', ' ', 'p'], [' ', ' ', 's', 'p', 'a', 'n']] := by decide
    refine (items_wellStructured.2 "div\n    p\n  span" ?_).mpr
      ⟨[[], "    ".toList], "  ".toList, [], ?_, .inr (.inr ⟨by decide, ?_⟩)⟩
    · intro line hline
      rw [hlines] at hline
      simp only [List.mem_cons, List.not_mem_nil, or_false] at hline
      rcases hline with rfl | rfl | rfl
      · exact .inr isTagLine_div
      · exact .inr isTagLine_p
      · exact .inr ⟨[' ', ' '], _, rfl, by simp [isIndent], isTagName_span⟩
    · rw [hlines]
      decide
    · -- The widths before are 0 and 4.
      have hwidths : [[], "    ".toList].map List.length = ([] ++ [0]) ++ [4] := by decide
      have hwidth : "  ".toList.length = 2 := by decide
      rw [hwidths, hwidth]
      simp only [isOpen_concat]
      simp [IsOpen]

end Trellis.Source
