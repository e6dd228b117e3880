import Trellis.Proofs.Calls
import Trellis.Proofs.Confinement
import Trellis.Proofs.Embedding
import Trellis.Proofs.Laying
import Trellis.Proofs.Leaves
import Trellis.Proofs.TagWords
import Trellis.Proofs.Verbatim

/-!
# `Trellis.Proofs.RawBlocks`: text that stands below a filter or a tag

Below the name of a filter, and below the name of a tag with a dot, the lines that are indented deeper are
not statements but text. `RawBlock` is such a text with the indentation that it has in a template. It may
look like anything, with tabs and spaces mixed, as long as it can be told where it ends and how far all of
it is indented.

* `deeperLines_below`, `commonIndent_below`, `blockText_below`: the lines are taken in, those and no
  others, and what they were indented by is taken off again.
* `OpensText.readStatement`, `takes_header`, `scanFrom_block`: a header with its block is one statement,
  and the lines behind it are scanned from where it leaves off.
* `StandsIn.stands_of_compile`: in a template that is compiled, the block is a filter block.
* `renderNode_node`, `render_source`: its text is put out as it is.
-/

set_option autoImplicit false

namespace Trellis

open Source Text

/-! ### Raw blocks -/

/-- Lines of text, and how they stand in a template: each that is not empty behind `inset` spaces, below
a header that is indented less. No line ends with a blank, the last one is not empty, and not all lines
begin with a space or a tab. -/
structure RawBlock where
  lines : List (List Char)
  indent : List Char
  inset : Nat
  areLines : AreLines lines
  ink : ∀ line ∈ lines, EndsWithInk line
  last : lines.getLast? ≠ some []
  flush : ∃ line ∈ lines, line ≠ [] ∧ headIs isIndent line = false
  indents : ∀ c ∈ indent, isIndent c = true
  deeper : indent.length < inset

namespace RawBlock

/-- A line as it stands in the template. -/
def insetLine (k : Nat) (line : List Char) : List Char :=
  if line.isEmpty then [] else List.replicate k ' ' ++ line

/-- The lines as they stand in the template. -/
def below (b : RawBlock) : List (List Char) := b.lines.map (insetLine b.inset)

/-- The text: the lines, with line feeds between them. -/
def text (b : RawBlock) : String := "\n".intercalate (b.lines.map String.ofList)

section
variable {line : List Char} (k : Nat)

theorem isBlankText_of_endsWithInk (h : EndsWithInk line) : isBlankText line = line.isEmpty := by
  rcases List.eq_nil_or_concat line with rfl | ⟨front, last, rfl⟩
  · rfl
  · rw [List.concat_eq_append] at h ⊢
    have hlast : isBlank last = false := h last (by simp)
    simp [isBlankText, hlast]

/-- The lines that say nothing are the empty ones. -/
theorem isBlankText_insetLine (h : EndsWithInk line) : isBlankText (insetLine k line) = line.isEmpty := by
  unfold insetLine
  split
  · next hempty => rw [hempty]; rfl
  · have hspaces : (List.replicate k ' ').all isBlank = true := by
      simp [List.all_replicate, isBlank]
    rw [← isBlankText_of_endsWithInk h, isBlankText, isBlankText, List.all_append, hspaces, Bool.true_and]

theorem length_indentOf_insetLine (hne : line ≠ []) :
    (indentOf (insetLine k line)).length = k + (indentOf line).length := by
  have hspaces : ∀ c ∈ List.replicate k ' ', isIndent c = true := by
    intro c hc
    rw [List.eq_of_mem_replicate hc]
    rfl
  rw [insetLine, if_neg (by simpa using hne), indentOf, List.takeWhile_append_of_pos hspaces,
    List.length_append, List.length_replicate]
  rfl

theorem drop_insetLine (hne : line ≠ []) : (insetLine k line).drop k = line := by
  rw [insetLine, if_neg (by simpa using hne)]
  exact List.drop_left' (List.length_replicate ..)

end

/-- Nothing is left out if the last line says something. -/
theorem dropLastBlank_of_last {lines : List (List Char)}
    (h : ∀ last ∈ lines.getLast?, isBlankText last = false) : dropLastBlank lines = lines := by
  obtain ⟨blank, hsplit, hblank⟩ := append_of_dropLastBlank lines
  rcases List.eq_nil_or_concat blank with rfl | ⟨front, last, rfl⟩
  · rw [List.append_nil] at hsplit
    exact hsplit.symm
  · rw [List.concat_eq_append] at hsplit hblank
    have hlast : last ∈ lines.getLast? := by
      rw [hsplit]
      simp
    have hcontra := (h last hlast).symm.trans (hblank last (by simp))
    cases hcontra

/-- The least of some numbers. -/
theorem min?_getD_of_least {k : Nat} {ns : List Nat} (hmem : k ∈ ns) (hle : ∀ n ∈ ns, k ≤ n) :
    ns.min?.getD 0 = k := by
  rw [List.min?_eq_some_iff.mpr ⟨hmem, hle⟩]
  rfl

variable (b : RawBlock)

theorem length_below : b.below.length = b.lines.length := List.length_map _

theorem below_ne_nil : b.below ≠ [] := by
  obtain ⟨line, hline, -⟩ := b.flush
  exact List.ne_nil_of_mem (List.mem_map_of_mem hline)

/-- Every line of the block is empty or indented deeper than the header. -/
theorem deeper_below {raw : List Char} (h : raw ∈ b.below) :
    (isBlankText raw || decide (b.indent.length < (indentOf raw).length)) = true := by
  obtain ⟨line, hline, rfl⟩ := List.mem_map.mp h
  rw [isBlankText_insetLine _ (b.ink line hline)]
  by_cases hempty : line = []
  · simp [hempty]
  · have := b.deeper
    rw [length_indentOf_insetLine _ hempty]
    simp
    omega

/-- The last line of the block says something. -/
theorem isBlankText_last {raw : List Char} (h : raw ∈ b.below.getLast?) : isBlankText raw = false := by
  rw [below, List.getLast?_map] at h
  obtain ⟨line, hline, rfl⟩ := Option.map_eq_some_iff.mp h
  rw [isBlankText_insetLine _ (b.ink line (List.mem_of_getLast? hline))]
  have hne : line ≠ [] := by
    rintro rfl
    exact b.last hline
  simpa using hne

/-- **The lines of the block are taken in, and no others.** -/
theorem deeperLines_below {after : List (List Char)} (hafter : BeginsWithin b.indent.length after) :
    deeperLines b.indent.length (b.below ++ after) = b.below := by
  unfold deeperLines
  rw [List.takeWhile_append_of_pos fun raw => b.deeper_below,
    dropLastBlank_append_of_blank _ ((beginsWithin_iff _ _).mp hafter)]
  exact dropLastBlank_of_last fun raw => b.isBlankText_last

/-- A line that begins with neither a space nor a tab is indented as far as all of them. -/
theorem commonIndent_below : commonIndent b.below = b.inset := by
  unfold commonIndent
  have hwidth {line : List Char} (hline : line ∈ b.lines)
      (hink : isBlankText (insetLine b.inset line) = false) :
      (indentOf (insetLine b.inset line)).length = b.inset + (indentOf line).length := by
    rw [isBlankText_insetLine _ (b.ink line hline)] at hink
    exact length_indentOf_insetLine _ (by simpa using hink)
  refine min?_getD_of_least ?_ ?_
  · -- The line at the margin is indented by just as much.
    obtain ⟨line, hline, hne, hflush⟩ := b.flush
    have hindent : indentOf line = [] := by
      cases line with
      | nil => rfl
      | cons c rest => exact List.takeWhile_cons_of_neg (ne_true_of_eq_false hflush)
    have hink : isBlankText (insetLine b.inset line) = false := by
      rw [isBlankText_insetLine _ (b.ink line hline)]
      simpa using hne
    refine List.mem_map.mpr ⟨_, List.mem_filter.mpr ⟨List.mem_map_of_mem hline, by simp [hink]⟩, ?_⟩
    rw [hwidth hline hink, hindent, List.length_nil, Nat.add_zero]
  · intro width hmem
    obtain ⟨raw, hraw, rfl⟩ := List.mem_map.mp hmem
    obtain ⟨hraw, hink⟩ := List.mem_filter.mp hraw
    obtain ⟨line, hline, rfl⟩ := List.mem_map.mp hraw
    rw [hwidth hline (by simpa using hink)]
    exact Nat.le_add_right _ _

/-- **The lines come back as they are.** -/
theorem blockText_below : blockText b.below = b.lines.map String.ofList := by
  unfold blockText
  rw [commonIndent_below, below, List.map_map]
  refine List.map_congr_left fun line hline => ?_
  have hink := b.ink line hline
  show (if isBlankText (insetLine b.inset line) = true then "" else _) = _
  rw [isBlankText_insetLine _ hink]
  split
  · next hempty =>
    rw [List.isEmpty_iff.mp hempty]
  · next hne => rw [drop_insetLine _ (by simpa using hne), trimEnd_of_endsWithInk hink]

end RawBlock

/-! ### Headers -/

namespace Source

/-- A line below which text may stand, and its tokens: a colon with the name of a filter, or the name of
a tag with a dot. -/
inductive OpensText : List Char → List Token → Prop
  | filter {name : List Char} (ne_nil : name ≠ []) (chars : ∀ c ∈ name, isNameChar c = true) :
    OpensText (':' :: name) [.filter (String.ofList name) []]
  | tag {name : List Char} (letter : headIs isLetter name = true) (whole : tagNameFrom name = name) :
    OpensText (name ++ ['.']) [.tag (String.ofList name)]

variable {header : List Char} {tokens : List Token}

theorem opensText_plain : OpensText ":plain".toList [.filter "plain" []] := by
  have hname : ∀ c ∈ ['p', 'l', 'a', 'i', 'n'], isNameChar c = true := by
    simp [isNameChar, isAlphanumeric]
  simpa using OpensText.filter (List.cons_ne_nil _ _) hname

theorem OpensText.chars (h : OpensText header tokens) :
    ∀ c ∈ header, isNameChar c = true ∨ c = ':' ∨ c = '.' := by
  cases h with
  | filter _ hname => exact List.forall_mem_cons.mpr ⟨.inr (.inl rfl), fun c hc => .inl (hname c hc)⟩
  | @tag name _ hwhole =>
    intro c hc
    rcases List.mem_append.mp hc with hc | hc
    · rw [← hwhole] at hc
      exact (chars_of_tagNameFrom c hc).imp id .inl
    · exact .inr (.inr (List.mem_singleton.mp hc))

theorem OpensText.ne_nil (h : OpensText header tokens) : header ≠ [] := by
  cases h with
  | filter => exact List.cons_ne_nil _ _
  | tag => simp

theorem OpensText.isBlank (h : OpensText header tokens) {c : Char} (hc : c ∈ header) :
    isBlank c = false := by
  rcases h.chars c hc with hname | rfl | rfl
  · exact isBlank_of_isNameChar hname
  · rfl
  · rfl

theorem OpensText.notMem (h : OpensText header tokens) {c : Char} (hname : isNameChar c = false)
    (hcolon : c ≠ ':') (hdot : c ≠ '.') : c ∉ header := by
  intro hc
  rcases h.chars c hc with hc | hc | hc
  · rw [hname] at hc
    cases hc
  · exact hcolon hc
  · exact hdot hc

/-- The name of a tag is read up to a dot. -/
theorem tagNameFrom_append_dot (cs rest : List Char) :
    tagNameFrom (tagNameFrom cs ++ '.' :: rest) = tagNameFrom cs := by
  have hname (name behind : List Char) (c : Char) (hc : isNameChar c = false) (cs : List Char)
      (hcs : name = nameOf cs) : nameOf (name ++ c :: behind) = name := by
    subst hcs
    exact takeWhile_append_of_not hc
  fun_induction tagNameFrom cs with
  | case1 cs name more hmore hletter hlt ih =>
    -- The name goes on behind a colon, and with a letter, whether the dot stands there or not.
    have hfirst : headIs isLetter (tagNameFrom more ++ '.' :: rest) = true := by
      obtain ⟨behind, hbehind⟩ := tagNameFrom_isPrefix more
      cases htag : tagNameFrom more with
      | nil => exact absurd htag (tagNameFrom_ne_nil hletter)
      | cons c tag =>
        rw [← hbehind, htag] at hletter
        exact hletter
    have hcolon := hname name (tagNameFrom more ++ '.' :: rest) ':' rfl cs rfl
    rw [List.append_assoc, List.cons_append, tagNameFrom_of_colon ?_ hfirst, hcolon, ih]
    rw [hcolon]
    exact List.drop_left
  | case2 cs name =>
    have hdot := hname name rest '.' rfl cs rfl
    rw [tagNameFrom_of_not, hdot]
    intro more hmore
    rw [hdot, List.drop_left] at hmore
    cases hmore
  | case3 cs name =>
    have hdot := hname name rest '.' rfl cs rfl
    rw [tagNameFrom_of_not, hdot]
    intro more hmore
    rw [hdot, List.drop_left] at hmore
    cases hmore

/-- What begins with a letter begins with a word. -/
theorem opening_of_letter {cs : List Char} (h : headIs isLetter (currentLine cs) = true) :
    opening cs = openingWord cs := by
  unfold opening
  dsimp only
  split
  case h_14 => rfl
  all_goals
    next heq =>
    rw [heq] at h
    cases h

/-- The name of a tag with a dot behind it is no keyword. -/
theorem openingWord_tagDot {name : List Char} (h : OpensText (name ++ ['.']) tokens)
    (hletter : headIs isLetter name = true) :
    openingWord (name ++ ['.']) = .ok (.tag (name ++ ['.'])) := by
  have hline : currentLine (name ++ ['.']) = name ++ ['.'] :=
    currentLine_of_notMem (h.notMem (by decide) (by decide) (by decide))
  have hsplit := nameOf_append_drop (name ++ ['.'])
  have hword : nameOf (name ++ ['.']) ≠ [] := by
    cases name with
    | nil => cases hletter
    | cons c rest =>
      have hname : isNameChar c = true := by
        have halpha : c.isAlpha = true := hletter
        simp [isNameChar, isAlphanumeric, Char.isAlphanum, halpha]
      simp [nameOf, hname]
  have hbehind : (name ++ ['.']).drop (nameOf (name ++ ['.'])).length ≠ [] := by
    intro hnil
    rw [hnil, List.append_nil] at hsplit
    have hdot : '.' ∈ nameOf (name ++ ['.']) := by
      rw [hsplit]
      simp
    have := List.mem_takeWhile_imp hdot
    cases this
  -- Keywords are told from tags by what stands behind them: nothing, or a blank.
  have hblank : headIs isBlank ((name ++ ['.']).drop (nameOf (name ++ ['.'])).length) = false := by
    generalize hdrop : (name ++ ['.']).drop (nameOf (name ++ ['.'])).length = behind at hbehind
    cases behind with
    | nil => rfl
    | cons c rest => exact h.isBlank (List.mem_of_mem_drop (hdrop ▸ List.mem_cons_self))
  unfold openingWord
  simp only [hline, hblank, List.isEmpty_eq_false_iff.mpr hword, List.isEmpty_eq_false_iff.mpr hbehind,
    Bool.or_self, Bool.false_eq_true, if_false]

/-- **A header is read as its tokens**, and what is deeper below it is text. -/
theorem OpensText.readStatement (h : OpensText header tokens) :
    readStatement header = .ok ⟨tokens, .text, []⟩ := by
  have hline : currentLine header = header :=
    currentLine_of_notMem (h.notMem (by decide) (by decide) (by decide))
  cases h with
  | @filter name hne hname =>
    have hwhole : nameOf name = name := List.takeWhile_eq_self_iff.mpr hname
    have hfilter : filterStatement name = .ok ⟨[.filter (String.ofList name) []], .text, []⟩ := by
      unfold filterStatement
      simp only [hwhole, List.isEmpty_eq_false_iff.mpr hne, List.drop_length]
      rfl
    refine readStatement_of_whole ?_
    unfold opening
    rw [hline]
    show (filterStatement name).map Opening.whole = _
    rw [hfilter]
    rfl
  | @tag name hletter hwhole =>
    have hfirst : headIs isLetter (name ++ ['.']) = true := by
      cases name with
      | nil => cases hletter
      | cons c rest => exact hletter
    have hname : tagNameFrom (name ++ ['.']) = name := by
      have hdot := tagNameFrom_append_dot name []
      rwa [hwhole] at hdot
    have htag : tagHead (name ++ ['.']) = .ok ([.tag (String.ofList name)], ['.']) := by
      have hne : name ≠ [] := fun hnil => by
        rw [hnil] at hletter
        cases hletter
      have hparts : headParts ['.'] = .ok ([], ['.']) := headParts_of_none rfl
      unfold tagHead
      simp only [hfirst, if_true, hname, List.drop_left, hparts, List.isEmpty_eq_false_iff.mpr hne,
        Bool.false_eq_true, if_false]
    have hopening : opening (name ++ ['.']) = .ok (.tag (name ++ ['.'])) := by
      rw [opening_of_letter (by rwa [hline]), openingWord_tagDot (.tag hletter hwhole) hletter]
    rw [readStatement_of_head hopening htag]
    rfl

/-! ### The lines of a template -/

/-- Lines that are used up only move the numbers on. -/
theorem scanFrom_used (m : Margin) (number : Nat) (last : Position) (used rest : List (List Char)) :
    Layout.scanFrom m number last used.length (used ++ rest) =
      Layout.scanFrom m (number + used.length) last 0 rest := by
  induction used generalizing number with
  | nil => rfl
  | cons raw used ih =>
    rw [List.cons_append, List.length_cons, Layout.scanFrom, ih]
    congr 1
    omega

end Source

namespace RawBlock

variable (b : RawBlock) {header : List Char} {tokens : List Token} {after : List (List Char)}

theorem indentOf_header (h : OpensText header tokens) : indentOf (b.indent ++ header) = b.indent := by
  rw [indentOf, List.takeWhile_append_of_pos b.indents]
  cases header with
  | nil => simp
  | cons c rest =>
    have hindent : isIndent c = false := by
      have hink := h.isBlank List.mem_cons_self
      cases hc : isIndent c with
      | false => rfl
      | true =>
        rw [isBlank_of_isIndent hc] at hink
        cases hink
    rw [List.takeWhile_cons_of_neg (ne_true_of_eq_false hindent), List.append_nil]

theorem isBlankText_header (h : OpensText header tokens) : isBlankText (b.indent ++ header) = false := by
  cases header with
  | nil => exact absurd rfl h.ne_nil
  | cons c rest => simp [isBlankText, h.isBlank List.mem_cons_self]

/-- **A header takes in the lines of its block**, and no others. -/
theorem takes_header (h : OpensText header tokens) (hafter : BeginsWithin b.indent.length after) :
    Takes (b.indent ++ header) (b.below ++ after)
      (tokens ++ [.textBlock (b.lines.map String.ofList)]) b.lines.length := by
  have hink : EndsWithInk header := fun c hc => h.isBlank (List.mem_of_getLast? hc)
  have hopen : header.contains '(' = false := by
    simpa using h.notMem (c := '(') (by decide) (by decide) (by decide)
  have hnone : textBelow header (b.below ++ after) = [] := by
    rw [textBelow, hopen, if_neg Bool.false_ne_true]
  unfold Takes
  rw [b.indentOf_header h, List.drop_left, trimEnd_of_endsWithInk hink, hnone, List.append_nil]
  refine ⟨_, h.readStatement, 0, b.below, rfl, ?_, ?_, ?_⟩
  · exact (b.deeperLines_below hafter).symm
  · rw [Statement.withBlock, if_pos ⟨rfl, b.below_ne_nil⟩, b.blockText_below]
  · rw [Nat.zero_add, b.length_below]

/-- **A raw block among the lines of a template.** It is one statement, and the lines behind it are
statements again, in the margin that the header leaves. -/
theorem scanFrom_block (h : OpensText header tokens) (hafter : BeginsWithin b.indent.length after)
    {m inside : Margin} (hadmits : m.Admits b.indent inside) (number : Nat) (last : Position) :
    Layout.scanFrom m number last 0 ((b.indent ++ header) :: (b.below ++ after)) =
      (Layout.scanFrom inside (number + 1 + b.lines.length) ⟨number, b.indent.length + 1⟩ 0 after).map
        fun rest => { rest with lines :=
          ⟨⟨number, b.indent.length + 1⟩, inside.widths.length,
            tokens ++ [.textBlock (b.lines.map String.ofList)]⟩ :: rest.lines } := by
  have hindent := b.indentOf_header h
  have hplace : placeStatement m number (b.indent ++ header) (b.below ++ after) = .ok _ :=
    placeStatement_eq_ok_iff.mpr ⟨inside, _, _, hindent.symm ▸ hadmits, b.takes_header h hafter, rfl⟩
  rw [Layout.scanFrom, if_neg (ne_true_of_eq_false (b.isBlankText_header h)), hplace, hindent]
  dsimp only
  rw [← b.length_below, scanFrom_used]
  cases Layout.scanFrom inside (number + 1 + b.below.length) ⟨number, b.indent.length + 1⟩ 0 after
    <;> rfl

/-! ### Templates -/

/-- The block stands below a header in a source that is scanned as `layout`. The line of the header is a
statement of its own there, and no part of the text or the brackets of another one. The next line behind
the block that is not blank, if there is one, is indented no further than the header. -/
structure StandsIn (header : List Char) (source : String) (layout : Layout) : Prop where
  scan : Layout.scan source = .ok layout
  statement : ∃ before after, BeginsWithin b.indent.length after ∧
    Text.lines source.toList = before ++ (b.indent ++ header) :: (b.below ++ after) ∧
    ∃ l ∈ layout.lines, l.position.line = before.length + 1

/-- The line of the header has the text of the block. -/
theorem StandsIn.exists_line {source : String} {layout : Layout}
    (hstands : b.StandsIn header source layout) (h : OpensText header tokens) :
    ∃ l ∈ layout.lines, l.tokens = tokens ++ [.textBlock (b.lines.map String.ofList)] := by
  obtain ⟨before, after, hafter, hlines, hstatement⟩ := hstands.statement
  have hscans := scans_of_scan hstands.scan
  have hbefore : AreLines before := by
    have hall := areLines_lines source.toList
    rw [hlines] at hall
    exact fun line hline => hall line (List.mem_append_left _ hline)
  rw [hlines] at hscans
  rw [Nat.add_comm] at hstatement
  obtain ⟨outer, front, back, -, heq, hback, -⟩ :=
    hscans.split hbefore (.inr hstatement) (fun _ => True) trivial fun _ _ _ _ _ _ _ => trivial
  have hink := b.isBlankText_header h
  cases hback with
  | blank hblank =>
    rw [hink] at hblank
    cases hblank
  | line _ _ htakes _ =>
    obtain ⟨htokens, -⟩ := htakes.unique (b.takes_header h hafter)
    rw [heq]
    exact ⟨_, List.mem_append_right _ List.mem_cons_self, htokens⟩

/-- The filter block that gives back its text. -/
def node : Node := .filter "plain" b.text []

theorem read_plain : Head.read ([.filter "plain" []] ++ [.textBlock (b.lines.map String.ofList)]) =
    .ok (.leaf b.node) := rfl

/-- **A block in a template that is compiled is a filter block** of what the template says itself. That is
the document of the template, unless it extends another template. -/
theorem StandsIn.stands_of_compile {source : String} {layout : Layout}
    (hstands : b.StandsIn ":plain".toList source layout) {loader : Loader} {name : String}
    (hsource : loader.source name = .ok source) {options : Options} {version : String} {log : Log}
    {t : Template} (h : (Template.compile loader options name version log).1 = .ok t) :
    ∃ own : Document, Stands b.node own.nodes ∧
      match extended? name layout with
      | none => t.document = own
      | some _ => ∃ parent : Document, t.document = parent.extend own.nodes own.mixins := by
  obtain ⟨-, -, -, -, hdocument⟩ := Template.of_compile h
  obtain ⟨source', layout', asked, hsource', hscan', hread⟩ := Library.document_eq_ok_iff.mp hdocument
  cases hsource.symm.trans hsource'
  cases hstands.scan.symm.trans hscan'
  obtain ⟨own, between, hown, hcompletes⟩ := readDocument_eq_ok_iff.mp hread
  obtain ⟨l, hl, htokens⟩ := hstands.exists_line b opensText_plain
  have hleaf : Head.read l.tokens = .ok (.leaf b.node) := by
    rw [htokens]
    exact b.read_plain
  refine ⟨own, stands_of_readOwn hstands.scan hl (fun _ htext => by cases htext) hleaf hown, ?_⟩
  dsimp only at hcompletes
  cases hextends : extended? name layout with
  | none =>
    rw [hextends] at hcompletes
    exact hcompletes.1
  | some target =>
    rw [hextends] at hcompletes
    obtain ⟨parent, -, hparent⟩ := hcompletes
    exact ⟨parent, hparent⟩

/-- **The text is put out as it is**, whatever the variables are. -/
theorem renderNode_node {w : RenderSetting} (hplain : w.filters.find? "plain" = some Filter.plain)
    (cs : CallStack) : renderNode w cs b.node = Rendering.write b.text := by
  rw [node, renderNode, hplain]
  rfl

/-! ### A template that is one block -/

/-- The source of a template that is the header with the block. -/
def source (header : List Char) : String :=
  String.ofList (joinWith ['\n'] ((b.indent ++ header) :: b.below))

theorem dropReturn_of_endsWithInk {line : List Char} (h : EndsWithInk line) : dropReturn line = line := by
  fun_induction dropReturn line with
  | case1 => rfl
  | case2 => exact absurd (h '\r' (by simp)) (by decide)
  | case3 c rest hne ih =>
    rw [ih]
    intro last hlast
    refine h last ?_
    rw [List.getLast?_cons, Option.mem_def.mp hlast]
    rfl

/-- Lines come back from the text that they are joined to, if the last one is not empty. -/
theorem lines_joinWith {parts : List (List Char)} (hne : parts ≠ []) (hlines : AreLines parts)
    (hink : ∀ line ∈ parts, EndsWithInk line) (hlast : parts.getLast? ≠ some []) :
    Text.lines (joinWith ['\n'] parts) = parts := by
  have hgo : ∀ parts : List (List Char), (∀ line ∈ parts, EndsWithInk line) →
      parts.getLast? ≠ some [] → lines.go parts = parts := by
    intro parts hink hlast
    fun_induction lines.go parts with
    | case1 => rfl
    | case2 last hempty => exact absurd (by simpa using hempty) hlast
    | case3 => rfl
    | case4 part parts hmore ih =>
      obtain ⟨hpart, hparts⟩ := List.forall_mem_cons.mp hink
      have hlater : parts.getLast? ≠ some [] := by
        cases parts with
        | nil => simp
        | cons next rest => rwa [List.getLast?_cons_cons] at hlast
      rw [dropReturn_of_endsWithInk hpart, ih hparts hlater]
  rw [Text.lines, splitAll_joinWith hne hlines]
  exact hgo parts hink hlast

theorem endsWithInk_insetLine {line : List Char} (h : EndsWithInk line) (k : Nat) :
    EndsWithInk (insetLine k line) := by
  unfold insetLine
  split
  · exact nofun
  · next hne =>
    intro c hc
    refine h c ?_
    rw [List.getLast?_append_of_ne_nil _ (by simpa using hne)] at hc
    exact hc

section
variable {header : List Char} {tokens : List Token} (h : OpensText header tokens)
include h

theorem lines_source : Text.lines (b.source header).toList = (b.indent ++ header) :: b.below := by
  have hheader : '\n' ∉ b.indent ++ header := by
    intro hmem
    rcases List.mem_append.mp hmem with hmem | hmem
    · cases b.indents _ hmem
    · exact h.notMem (by decide) (by decide) (by decide) hmem
  have hink : EndsWithInk (b.indent ++ header) := by
    intro c hc
    rw [List.getLast?_append_of_ne_nil _ h.ne_nil] at hc
    exact h.isBlank (List.mem_of_getLast? hc)
  rw [source, String.toList_ofList]
  refine lines_joinWith (List.cons_ne_nil _ _) ?_ ?_ ?_
  · refine List.forall_mem_cons.mpr ⟨hheader, fun raw hraw hmem => ?_⟩
    obtain ⟨line, hline, rfl⟩ := List.mem_map.mp hraw
    unfold insetLine at hmem
    split at hmem
    · cases hmem
    · rcases List.mem_append.mp hmem with hmem | hmem
      · cases List.eq_of_mem_replicate hmem
      · exact b.areLines line hline hmem
  · refine List.forall_mem_cons.mpr ⟨hink, fun raw hraw => ?_⟩
    obtain ⟨line, hline, rfl⟩ := List.mem_map.mp hraw
    exact endsWithInk_insetLine (b.ink line hline) _
  · intro hlast
    obtain ⟨first, rest, hbelow⟩ := List.exists_cons_of_ne_nil b.below_ne_nil
    rw [hbelow, List.getLast?_cons_cons, ← hbelow] at hlast
    cases b.isBlankText_last hlast

theorem scan_source (hindent : b.indent = []) : Layout.scan (b.source header) =
    .ok ⟨[⟨⟨1, 1⟩, 0, tokens ++ [.textBlock (b.lines.map String.ofList)]⟩], ⟨1, 1⟩⟩ := by
  have hadmits : Margin.start.Admits b.indent .start := by
    rw [hindent]
    exact ⟨.start, rfl, rfl⟩
  have hafter : BeginsWithin b.indent.length [] := nofun
  have hscan := b.scanFrom_block h hafter hadmits 1 ⟨0, 1⟩
  rw [Layout.scan, b.lines_source h]
  rw [List.append_nil] at hscan
  rw [hscan, hindent]
  rfl

end

/-- **A template that is a header and a block** is compiled to the filter block, and puts out the text. -/
theorem render_source (hindent : b.indent = []) {loader : Loader} {name : String}
    (hsource : loader.source name = .ok (b.source ":plain".toList)) (options : Options) (version : String)
    (log : Log) :
    ∃ t, (Template.compile loader options name version log).1 = .ok t ∧ t.document.nodes = [b.node] ∧
      ∀ (filters : Table Filter) (vars : Variables), filters.find? "plain" = some Filter.plain →
        t.render filters vars = .ok b.text := by
  have hdocument : (loader.document name).1 = .ok ⟨[b.node], []⟩ := by
    refine Library.document_eq_ok_iff.mpr
      ⟨_, _, [name], hsource, b.scan_source opensText_plain hindent, ?_⟩
    rw [readDocument_lone b.read_plain]
    rfl
  refine ⟨_, Template.compile_of_document hdocument options version log, rfl, ?_⟩
  intro filters vars hplain
  refine Template.render_of_sink (render_of_write (fun s => ?_) vars)
  rw [renderNodes_singleton, b.renderNode_node hplain]

end RawBlock

/-- **Raw blocks keep their text.** A header and the lines of a raw block are one statement of a template,
wherever the template may be indented as the header is.

* The header is read as its tokens, with the lines of the block as they were before they were indented.
  This is so for the name of a filter behind a colon, and for the name of a tag in front of a dot. The
  lines behind the block, of which the first that is not blank is not deeper than the header, are scanned
  as statements again.
* In a template that is compiled, a block below `:plain` is a filter block whose content is the lines,
  with line feeds between them. It stands in what the template says itself, which is the document of the
  template unless it extends another one.
* That block is put out as it is, whatever the variables are, as long as the filter gives its text back.
* A template that is such a header and its block is compiled, and puts out the text. -/
theorem rawBlock_keepsText (b : RawBlock) :
    (∀ header tokens, OpensText header tokens → ∀ m inside, m.Admits b.indent inside →
      ∀ after, BeginsWithin b.indent.length after → ∀ number last,
        Layout.scanFrom m number last 0 ((b.indent ++ header) :: (b.below ++ after)) =
          (Layout.scanFrom inside (number + 1 + b.lines.length) ⟨number, b.indent.length + 1⟩ 0 after).map
            fun rest => { rest with lines :=
              ⟨⟨number, b.indent.length + 1⟩, inside.widths.length,
                tokens ++ [.textBlock (b.lines.map String.ofList)]⟩ :: rest.lines }) ∧
    (∀ source layout, b.StandsIn ":plain".toList source layout →
      ∀ (loader : Loader) name, loader.source name = .ok source →
        ∀ options version log t, (Template.compile loader options name version log).1 = .ok t →
          ∃ own : Document, Stands (.filter "plain" b.text []) own.nodes ∧
            match extended? name layout with
            | none => t.document = own
            | some _ => ∃ parent : Document, t.document = parent.extend own.nodes own.mixins) ∧
    (∀ w : RenderSetting, w.filters.find? "plain" = some Filter.plain → ∀ cs,
      renderNode w cs (.filter "plain" b.text []) = Rendering.write b.text) ∧
    (b.indent = [] →
      ∀ (loader : Loader) name, loader.source name = .ok (b.source ":plain".toList) →
        ∀ options version log, ∃ t, (Template.compile loader options name version log).1 = .ok t ∧
          t.document.nodes = [.filter "plain" b.text []] ∧
          ∀ (filters : Table Filter) (vars : Variables), filters.find? "plain" = some Filter.plain →
            t.render filters vars = .ok b.text) := by
  refine ⟨fun header tokens h m inside hadmits after hafter number last => ?_,
    fun source layout hstands loader name hsource options version log t h => ?_,
    fun w hplain cs => ?_,
    fun hindent loader name hsource options version log => ?_⟩
  · exact b.scanFrom_block h hafter hadmits number last
  · exact hstands.stands_of_compile b hsource h
  · exact b.renderNode_node hplain cs
  · exact b.render_source hindent hsource options version log

/-- Text with an interpolation behind a tab, an empty line, an open bracket behind more spaces, and a
silent comment. -/
def markupBlock : RawBlock where
  lines := ["\ta #\x7bx\x7d".toList, [], "  p(".toList, "//- c".toList]
  indent := [' ', ' ']
  inset := 5
  areLines := by simp [AreLines]
  ink := by simp [EndsWithInk, isBlank]
  last := by simp
  flush := ⟨"//- c".toList, by simp, by simp, by simp [headIs, isIndent]⟩
  indents := by simp [isIndent]
  deeper := by decide

/-- The block below a filter, in a block that another template may replace, and with text behind it. -/
def markupSource : String := "block a\n  :plain\n     \ta #\x7bx\x7d\n\n       p(\n     //- c\n  | z"

/-- The scanned source. -/
def markupLayout : Layout :=
  ⟨[⟨⟨1, 1⟩, 0, [.block .replace "a"]⟩,
    ⟨⟨2, 3⟩, 1, [.filter "plain" [], .textBlock ["\ta #\x7bx\x7d", "", "  p(", "//- c"]]⟩,
    ⟨⟨7, 3⟩, 1, [.text "z"]⟩], ⟨7, 3⟩⟩

theorem scan_markupSource : Layout.scan markupSource = .ok markupLayout := by cbv

theorem beginsWithin_text : BeginsWithin 2 ["  | z".toList] := by
  intro line hline
  have hfirst : firstStatement? ["  | z".toList] = some "  | z".toList := by cbv
  rw [hfirst] at hline
  cases hline
  simp [indentOf, isIndent]

theorem standsIn_markupSource : markupBlock.StandsIn ":plain".toList markupSource markupLayout where
  scan := scan_markupSource
  statement := by
    refine ⟨["block a".toList], ["  | z".toList], beginsWithin_text, by cbv, ?_⟩
    exact ⟨_, List.mem_cons_of_mem _ List.mem_cons_self, rfl⟩

theorem document_markupSource :
    ((Memory.empty.insert "page" markupSource).loader.document "page").1 =
      .ok ⟨[.block "a" .replace [markupBlock.node, .text [.literal "z"]]], []⟩ := by
  have hblock : Head.read [.block .replace "a"] = .ok (.block "a" .replace) := by cbv
  have hfilter : Head.read [.filter "plain" [], .textBlock ["\ta #\x7bx\x7d", "", "  p(", "//- c"]] =
      .ok (.leaf markupBlock.node) := by cbv
  have hz : Head.read [.text "z"] = .ok (.leaf (.text [.literal "z"])) := by cbv
  refine Library.document_eq_ok_iff.mpr ⟨_, _, ["page"], by cbv, scan_markupSource, ?_⟩
  simp [markupLayout, readDocument, Entry.forest, Entry.arrange, Entry.isVacant, Entry.isElse,
    Entry.tokens, readEntries, readEntry, hblock, hfilter, hz, Head.nodes, collecting, refuseChildren,
    refuseElse, bind, EStateM.bind, pure, EStateM.pure, Node.join, Node.cons, RawBlock.node]

theorem rawBlock_keepsText_markup :
    Layout.scanFrom .start 2 ⟨1, 1⟩ 0 ("  script.".toList :: (markupBlock.below ++ ["  | z".toList])) =
      .ok ⟨[⟨⟨2, 3⟩, 1, [.tag "script", .textBlock ["\ta #\x7bx\x7d", "", "  p(", "//- c"]]⟩,
        ⟨⟨7, 3⟩, 1, [.text "z"]⟩], ⟨7, 3⟩⟩ ∧
    ∃ t, (Template.compile (Memory.empty.insert "page" markupSource).loader ⟨true, true, .xml, 1⟩ "page"
        "1" ⟨0, 0⟩).1 = .ok t ∧
      Stands (.filter "plain" "\ta #\x7bx\x7d\n\n  p(\n//- c" []) t.document.nodes := by
  constructor
  · have hscript : OpensText ['s', 'c', 'r', 'i', 'p', 't', '.'] [.tag "script"] :=
      @OpensText.tag ['s', 'c', 'r', 'i', 'p', 't'] (by simp [headIs, isLetter]) (by cbv)
    have hadmits : Margin.start.Admits [' ', ' '] ⟨[2], some ' '⟩ :=
      ⟨⟨[], some ' '⟩, by cbv, by cbv⟩
    have hscan := (rawBlock_keepsText markupBlock).1 _ _ hscript .start _ hadmits _ beginsWithin_text
      2 ⟨1, 1⟩
    have hbehind : Layout.scanFrom ⟨[2], some ' '⟩ 7 ⟨2, 3⟩ 0 ["  | z".toList] =
        .ok ⟨[⟨⟨7, 3⟩, 1, [.text "z"]⟩], ⟨7, 3⟩⟩ := by cbv
    refine (Eq.trans ?_ hscan).trans ?_
    · rfl
    · show (Layout.scanFrom ⟨[2], some ' '⟩ 7 ⟨2, 3⟩ 0 ["  | z".toList]).map _ = _
      rw [hbehind]
      cbv
  · have hcompile :=
      Template.compile_of_document document_markupSource ⟨true, true, .xml, 1⟩ "1" ⟨0, 0⟩
    obtain ⟨own, hstands, hown⟩ := (rawBlock_keepsText markupBlock).2.1 _ _ standsIn_markupSource _
      "page" (by cbv) _ _ _ _ hcompile
    have htext : markupBlock.text = "\ta #\x7bx\x7d\n\n  p(\n//- c" := by cbv
    have hplain : extended? "page" markupLayout = none := by cbv
    rw [hplain] at hown
    rw [htext] at hstands
    refine ⟨_, hcompile, ?_⟩
    rw [hown]
    exact hstands

end Trellis
