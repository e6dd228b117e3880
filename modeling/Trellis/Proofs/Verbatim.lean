import Trellis.Proofs.PrettyPrinting
import Trellis.Proofs.Transclusion

/-!
# `Trellis.Proofs.Verbatim`: text that comes out as it is

Any text can be written in a template so that it is put out unchanged. Only the signs that open an
interpolation have to be taken care of: `escapeSigns` puts a backslash in front of each of them. This
is undone by the reader of interpolations (`interpolate_escapeSigns`) and by nothing else on the way:

* `takes_textLine`: a line of text is a statement of its own, whatever stands below it.
* `scanFrom_textLines`, `textEntries_arrange`: lines of text stand beside each other at no depth.
* `readEntries_textLines`: they are read as one node, with the line feeds between them in it.
* `document_textLines`, `render_textLines`: that node is the whole document, and it is put out as a
  whole.
-/

set_option autoImplicit false

namespace Trellis

open Source Text

/-! ### Signs that open an interpolation -/

/-- Does the text begin with a sign that opens an interpolation? -/
def opensInterpolation : List Char → Bool
  | [] => false
  | c :: cs => (c == '#' || c == '!') && headIs (· == '{') cs

/-- The text with a backslash in front of each sign that opens an interpolation. -/
def escapeSigns : List Char → List Char
  | [] => []
  | c :: cs => if opensInterpolation (c :: cs) then '\\' :: c :: escapeSigns cs else c :: escapeSigns cs

theorem headIs_escapeSigns (cs : List Char) : headIs (· == '{') (escapeSigns cs) = headIs (· == '{') cs := by
  cases cs with
  | nil => rfl
  | cons c cs =>
    rw [escapeSigns]
    split
    · next hopens =>
      simp only [opensInterpolation, Bool.and_eq_true, Bool.or_eq_true, beq_iff_eq] at hopens
      rcases hopens.1 with rfl | rfl <;> rfl
    · rfl

/-- No sign is left that opens an interpolation at the front. -/
theorem opensInterpolation_escapeSigns (cs : List Char) : opensInterpolation (escapeSigns cs) = false := by
  cases cs with
  | nil => rfl
  | cons c cs =>
    rw [escapeSigns]
    split
    · rfl
    · next hopens =>
      rw [opensInterpolation, headIs_escapeSigns]
      exact eq_false_of_ne_true hopens

/-- A backslash hides a sign only when the sign stands behind it. -/
theorem startsWith_hidden (c : Char) (cs : List Char) :
    (startsWith ['\\', '#', '{'] (c :: cs) || startsWith ['\\', '!', '{'] (c :: cs)) =
      (c == '\\' && opensInterpolation cs) := by
  rcases cs with _ | ⟨d, _ | ⟨e, rest⟩⟩ <;> grind [startsWith, after?, opensInterpolation, headIs]

/-- A character that neither opens an interpolation nor hides one belongs to the fixed text. -/
theorem interpolateFrom_cons (text : List Char) {c : Char} {cs : List Char}
    (hopens : opensInterpolation (c :: cs) = false) (hhides : (c == '\\' && opensInterpolation cs) = false) :
    interpolateFrom text (c :: cs) = interpolateFrom (c :: text) cs := by
  rw [interpolateFrom, startsWith_hidden, hhides, if_neg Bool.false_ne_true, if_neg]
  rw [← Bool.not_eq_true] at hopens
  exact hopens

/-- A backslash in front of a sign leaves the two characters of the sign as fixed text. -/
theorem interpolateFrom_hidden (text : List Char) {c : Char} (hc : c = '#' ∨ c = '!') (cs : List Char) :
    interpolateFrom text ('\\' :: c :: '{' :: cs) = interpolateFrom ('{' :: c :: text) cs := by
  rw [interpolateFrom, startsWith_hidden, if_pos (by rcases hc with rfl | rfl <;> rfl)]
  rfl

theorem interpolateFrom_escapeSigns (text cs : List Char) :
    interpolateFrom text (escapeSigns cs) = .ok (literalSpan (cs.reverse ++ text)) := by
  induction cs generalizing text with
  | nil => rw [escapeSigns, interpolateFrom]; rfl
  | cons c cs ih =>
    have hlater : literalSpan ((c :: cs).reverse ++ text) = literalSpan (cs.reverse ++ c :: text) := by
      rw [List.reverse_cons, List.append_assoc]
      rfl
    rw [hlater, escapeSigns]
    split
    · next hopens =>
      -- The sign has two characters. The second one is read with the first here, and alone in the
      -- induction hypothesis.
      simp only [opensInterpolation, Bool.and_eq_true, Bool.or_eq_true, beq_iff_eq] at hopens
      obtain ⟨hc, hbrace⟩ := hopens
      cases cs with
      | nil => cases hbrace
      | cons d cs =>
        obtain rfl : d = '{' := by simpa [headIs] using hbrace
        have hrest : escapeSigns ('{' :: cs) = '{' :: escapeSigns cs := rfl
        have ih := ih (c :: text)
        rw [hrest] at ih ⊢
        rw [interpolateFrom_cons _ rfl rfl] at ih
        rw [interpolateFrom_hidden text hc, ih]
    · next hopens =>
      have hopens' : opensInterpolation (c :: escapeSigns cs) = false := by
        rw [opensInterpolation, headIs_escapeSigns]
        exact eq_false_of_ne_true hopens
      rw [interpolateFrom_cons text hopens' (by rw [opensInterpolation_escapeSigns, Bool.and_false]), ih]

/-- **A text with its signs escaped is read as itself.** -/
theorem interpolate_escapeSigns (s : String) :
    interpolate (String.ofList (escapeSigns s.toList)) = .ok [.literal s] := by
  rw [interpolate, String.toList_ofList, interpolateFrom_escapeSigns, List.append_nil, literalSpan,
    List.isEmpty_reverse, List.reverse_reverse, String.ofList_toList]
  by_cases hs : s = ""
  · subst hs
    rfl
  · have hne : s.toList.isEmpty = false := by simpa using hs
    rw [if_neg (by simp [hne])]
    rfl

/-! ### Lines of text -/

/-- A line that puts out a text. -/
def textLine (text : List Char) : List Char := '|' :: ' ' :: text

/-- A text that does not end with a blank. -/
def EndsWithInk (text : List Char) : Prop := ∀ c ∈ text.getLast?, isBlank c = false

theorem trimEnd_of_endsWithInk {text : List Char} (h : EndsWithInk text) : trimEnd text = text := by
  rcases List.eq_nil_or_concat text with rfl | ⟨front, last, rfl⟩
  · rfl
  · rw [List.concat_eq_append] at h ⊢
    exact trimEnd_append_of_ne_nil front (by simp [trimEnd, h last (by simp)]) (List.cons_ne_nil _ _)

theorem getLast?_escapeSigns (text : List Char) : (escapeSigns text).getLast? = text.getLast? := by
  induction text with
  | nil => rfl
  | cons c text ih =>
    have hlast : (c :: escapeSigns text).getLast? = (c :: text).getLast? := by
      rw [List.getLast?_cons, List.getLast?_cons, ih]
    rw [escapeSigns]
    split
    · rw [List.getLast?_cons, hlast, List.getLast?_cons]
      rfl
    · exact hlast

namespace Source

/-- **A line of text is a statement of its own.** -/
theorem takes_textLine {text : List Char} (hline : '\n' ∉ text) (htext : EndsWithInk text)
    (below : List (List Char)) : Takes (textLine text) below [.text (String.ofList text)] 0 := by
  -- The blank behind the sign goes when nothing follows it.
  have htrim : trimEnd (textLine text) = '|' :: ' ' :: text ∨
      trimEnd (textLine text) = ['|'] ∧ text = [] := by
    by_cases hempty : text = []
    · subst hempty
      exact .inr ⟨rfl, rfl⟩
    · exact .inl (trimEnd_append_of_ne_nil ['|', ' '] (trimEnd_of_endsWithInk htext) hempty)
  have hindent : indentOf (textLine text) = [] := rfl
  unfold Takes
  rw [hindent, List.length_nil, List.drop_zero]
  have hnotMem : '\n' ∉ trimEnd (textLine text) := by
    rcases htrim with h | ⟨h, -⟩ <;> rw [h] <;> simp [hline]
  have hbelow := currentLine_textBelow (trimEnd (textLine text)) below
  have hcurrent := currentLine_append_of_ends hnotMem hbelow
  have hbehind := belowLine_append_of_ends hnotMem hbelow
  generalize textBelow (trimEnd (textLine text)) below = more at hcurrent hbehind ⊢
  refine ⟨⟨[.text (String.ofList text)], .statements, more⟩, readStatement_of_whole ?_, _, _, rfl, rfl, rfl, ?_⟩
  · unfold opening
    rw [hcurrent, hbehind]
    rcases htrim with h | ⟨h, rfl⟩
    · rw [h]
      rfl
    · rw [h]
      rfl
  · simp

/-- A statement that is not indented, when no level is open. -/
theorem placeStatement_of_takes {raw : List Char} {below : List (List Char)} {tokens : List Token}
    {used : Nat} (hindent : indentOf raw = []) (h : Takes raw below tokens used) (number : Nat) :
    placeStatement .start number raw below = .ok ⟨.start, ⟨⟨number, 1⟩, 0, tokens⟩, used⟩ := by
  obtain ⟨s, hs, joined, block, rfl, rfl, rfl, rfl⟩ := h
  rw [hindent, List.length_nil, List.drop_zero] at hs
  unfold placeStatement
  simp only [hindent, List.length_nil, List.drop_zero, hs]
  rfl

/-- The statements of some lines of text. -/
def textStatements (number : Nat) : List (List Char) → List Line
  | [] => []
  | text :: texts =>
    ⟨⟨number, 1⟩, 0, [.text (String.ofList text)]⟩ :: textStatements (number + 1) texts

theorem scanFrom_textLines {texts : List (List Char)} (hlines : AreLines texts)
    (hink : ∀ text ∈ texts, EndsWithInk text) (number : Nat) (last : Position) :
    ∃ finish, Layout.scanFrom .start number last 0 (texts.map textLine) =
      .ok ⟨textStatements number texts, finish⟩ := by
  induction texts generalizing number last with
  | nil => exact ⟨last, rfl⟩
  | cons text texts ih =>
    obtain ⟨hline, hlines⟩ := List.forall_mem_cons.mp hlines
    obtain ⟨htext, hink⟩ := List.forall_mem_cons.mp hink
    obtain ⟨finish, hfinish⟩ := ih hlines hink (number + 1) ⟨number, 1⟩
    have hplace := placeStatement_of_takes rfl (takes_textLine hline htext (texts.map textLine)) number
    refine ⟨finish, ?_⟩
    rw [List.map_cons, Layout.scanFrom, if_neg (by simp [textLine, isBlankText, isBlank]), hplace]
    dsimp only
    rw [hfinish]
    rfl

end Source

/-! ### The document -/

/-- An entry at no depth that puts out a text. -/
def IsTextEntry (text : List Char) (e : Nat × Entry) : Prop :=
  ∃ line next, e = (0, .mk line next [.text (String.ofList text)] [] none)

/-- Lines of text stand beside each other. -/
theorem textEntries_arrange (texts : List (List Char)) (finish number : Nat) :
    List.Forall₂ IsTextEntry texts (Entry.arrange finish (textStatements number texts)) := by
  induction texts generalizing number with
  | nil => exact .nil
  | cons text texts ih =>
    have hlater := ih (number + 1)
    rw [textStatements]
    obtain ⟨next, hnext⟩ := Entry.arrange_cons_eq finish ⟨⟨number, 1⟩, 0, [.text (String.ofList text)]⟩
      (textStatements (number + 1) texts)
    rw [hnext]
    generalize Entry.arrange finish (textStatements (number + 1) texts) = later at hlater ⊢
    -- The next line neither lies deeper nor begins with `else`.
    cases hlater with
    | nil => exact .cons ⟨_, _, rfl⟩ .nil
    | cons hfirst hrest =>
      obtain ⟨line, next', rfl⟩ := hfirst
      exact .cons ⟨_, _, rfl⟩ (.cons ⟨line, next', rfl⟩ hrest)

/-- The spans of some lines of text: the lines, and line feeds between them. -/
def verbatimSpans (lines : List String) : List Span := (lines.map .literal).intersperse (.literal "\n")

theorem readEntry_text (s : Surroundings) {line next : Nat} {text : String} {spans : List Span}
    (h : interpolate text = .ok spans) (p : Progress) :
    readEntry s (.mk line next [.text text] [] none) p = .ok [.text spans] p := by
  have hread : Head.read [.text text] = .ok (.leaf (.text spans)) := by
    rw [Head.read, h]
    rfl
  simp [readEntry, hread, Head.nodes, refuseChildren, refuseElse, bind, EStateM.bind, pure, EStateM.pure]

/-- **Lines of text are read as one node.** -/
theorem readEntries_textLines (s : Surroundings) {lines : List String} (hne : lines ≠ [])
    {entries : List (Nat × Entry)}
    (h : List.Forall₂ IsTextEntry (lines.map fun l => escapeSigns l.toList) entries) (p : Progress) :
    readEntries s (entries.map (·.2)) p = .ok [.text (verbatimSpans lines)] p := by
  induction lines generalizing entries with
  | nil => exact absurd rfl hne
  | cons l lines ih =>
    cases h with
    | cons hfirst hrest =>
      obtain ⟨line, next, rfl⟩ := hfirst
      have hentry : readEntry s (.mk line next [.text _] [] none) p = _ :=
        readEntry_text s (interpolate_escapeSigns l) p
      rw [List.map_cons, readEntries]
      cases lines with
      | nil =>
        cases hrest
        simp [hentry, readEntries, bind, EStateM.bind, pure, EStateM.pure, Node.join, Node.cons, verbatimSpans]
      | cons l' lines =>
        have hlater := ih (List.cons_ne_nil _ _) hrest
        simp [hentry, hlater, bind, EStateM.bind, pure, EStateM.pure, Node.join, Node.cons, verbatimSpans]

theorem readDocument_textLines (s : Surroundings) {lines : List String} (hne : lines ≠ [])
    (finish : Position) (asked : List String) :
    readDocument s ⟨textStatements 1 (lines.map fun l => escapeSigns l.toList), finish⟩ asked =
      .ok ⟨[.text (verbatimSpans lines)], []⟩ asked := by
  have hentries := textEntries_arrange (lines.map fun l => escapeSigns l.toList) finish.line 1
  have hread := readEntries_textLines s hne hentries ⟨[], asked⟩
  unfold readDocument Entry.forest
  generalize Entry.arrange finish.line _ = entries at hentries hread ⊢
  cases lines with
  | nil => exact absurd rfl hne
  | cons l lines =>
    cases hentries with
    | cons hfirst hrest =>
      obtain ⟨line, next, rfl⟩ := hfirst
      -- The first entry says something, and what it says is not that another template is extended.
      rw [List.map_cons] at hread
      show collecting (readEntries s _) asked = _
      unfold collecting
      rw [hread]

/-- The document of a template that has only lines of text. -/
theorem Library.document_textLines (l : Library) {name source : String} {lines : List String}
    (hne : lines ≠ []) (hink : ∀ line ∈ lines, EndsWithInk line.toList) (hsource : l.source name = .ok source)
    (hlines : Text.lines source.toList = lines.map fun line => textLine (escapeSigns line.toList)) :
    (l.document name).1 = .ok ⟨[.text (verbatimSpans lines)], []⟩ := by
  let texts := lines.map fun line => escapeSigns line.toList
  have htexts : Text.lines source.toList = texts.map textLine := by
    rw [hlines, List.map_map]
    rfl
  have hareLines : AreLines texts := by
    intro text htext hmem
    refine areLines_lines source.toList (textLine text) ?_ (by simp [textLine, hmem])
    rw [htexts]
    exact List.mem_map_of_mem htext
  have hends : ∀ text ∈ texts, EndsWithInk text := by
    intro text htext c hc
    obtain ⟨line, hline, rfl⟩ := List.mem_map.mp htext
    rw [getLast?_escapeSigns] at hc
    exact hink line hline c hc
  obtain ⟨finish, hscan⟩ := scanFrom_textLines hareLines hends 1 ⟨0, 1⟩
  rw [← htexts] at hscan
  exact document_eq_ok_iff.mpr ⟨source, _, _, hsource, hscan, readDocument_textLines _ hne finish _⟩

/-! ### The output -/

theorem spansText_verbatimSpans (vars : String → Value) (lines : List String) :
    spansText vars false (verbatimSpans lines) = .ok ("\n".intercalate lines) := by
  induction lines with
  | nil => rfl
  | cons l lines ih =>
    cases lines with
    | nil =>
      rw [String.intercalate_singleton]
      simp [verbatimSpans, spansText, bind, Except.bind, pure, Except.pure]
    | cons l' lines =>
      have hspans : verbatimSpans (l :: l' :: lines) =
          .literal l :: .literal "\n" :: verbatimSpans (l' :: lines) := rfl
      rw [String.intercalate_cons_cons, hspans, spansText, spansText, ih]
      simp [bind, Except.bind, pure, Except.pure, String.append_assoc]

/-- A document that is put out in one piece. -/
theorem render_of_write {w : RenderSetting} {nodes : List Node} {text : String}
    (h : ∀ s, renderNodes w .empty nodes s = Rendering.write text s) (vars : Variables) :
    ∃ sink, render w nodes vars .unlimited = (.ok (), sink) ∧ sink.text = text := by
  unfold render
  rw [h]
  by_cases hempty : text = ""
  · subst hempty
    exact ⟨_, rfl, rfl⟩
  · rw [Rendering.write_of_room rfl hempty]
    exact ⟨_, rfl, String.empty_append⟩

/-- A document that is one text is put out as that text. -/
theorem render_text (w : RenderSetting) {spans : List Span} {text : String}
    (h : ∀ vars, spansText vars false spans = .ok text) (vars : Variables) :
    ∃ sink, render w [.text spans] vars .unlimited = (.ok (), sink) ∧ sink.text = text := by
  refine render_of_write (fun s => ?_) vars
  rw [renderNodes, renderNode, renderNodes]
  simp only [bind, EStateM.bind, pure, EStateM.pure, Rendering.ask, h]
  cases Rendering.write text s <;> rfl

/-- What is compiled is the document. -/
theorem Template.compile_of_document {loader : Loader} {name : String} {d : Document}
    (hdocument : (loader.document name).1 = .ok d) (options : Options) (version : String) (log : Log) :
    (Template.compile loader options name version log).1 =
      .ok ⟨log.compilations, name, version, d, options.mode, options.pretty⟩ := by
  show Except.map _ (loader.document name).1 = _
  rw [hdocument]
  rfl

/-- A template gives the text that its document puts out. -/
theorem Template.render_of_sink {t : Template} {filters : Table Filter} {vars : Variables} {text : String}
    (h : ∃ sink, Trellis.render (t.setting filters) t.document.nodes vars .unlimited = (.ok (), sink) ∧
      sink.text = text) : t.render filters vars = .ok text := by
  obtain ⟨sink, hrender, htext⟩ := h
  unfold render renderTo
  rw [hrender, ← htext]
  rfl

/-- What is compiled is the document, and it is rendered with the options. -/
theorem Template.render_of_document {loader : Loader} {name : String} {d : Document}
    (hdocument : (loader.document name).1 = .ok d) {options : Options} {text : String}
    (h : ∀ filters vars, ∃ sink,
      Trellis.render ⟨d.mixins, filters, options.mode, options.pretty⟩ d.nodes vars .unlimited =
        (.ok (), sink) ∧ sink.text = text) (version : String) (log : Log) :
    ∃ t, (Template.compile loader options name version log).1 = .ok t ∧
      ∀ filters vars, t.render filters vars = .ok text :=
  ⟨_, compile_of_document hdocument options version log,
    fun filters vars => render_of_sink (h filters vars)⟩

/-- **A text comes out as it was written.** A template that has only lines of text, with the signs in
them escaped, puts out these lines, with line feeds between them, whatever the options are and the
variables that it is rendered with. No line may end with a blank. -/
theorem render_textLines (loader : Loader) (options : Options) (name version source : String) (log : Log)
    (lines : List String) (hne : lines ≠ []) (hink : ∀ line ∈ lines, EndsWithInk line.toList)
    (hsource : loader.source name = .ok source)
    (hlines : Text.lines source.toList = lines.map fun line => textLine (escapeSigns line.toList)) :
    ∃ t, (Template.compile loader options name version log).1 = .ok t ∧
      ∀ filters vars, t.render filters vars = .ok ("\n".intercalate lines) := by
  have hdocument := loader.toLibrary.document_textLines hne hink hsource hlines
  refine Template.render_of_document hdocument (fun filters vars => ?_) version log
  exact render_text _ (fun vars => spansText_verbatimSpans vars lines) vars

/-- A page of three lines of text: blanks and a backslash in front of a sign, nothing, and a sign. -/
def verbatimPage : Memory := Memory.empty.insert "page" "|   a\\\\#\x7bb\x7d\n| \n| \\!\x7b"

theorem render_textLines_page :
    ∃ t, (Template.compile verbatimPage.loader ⟨true, true, .xml, 1⟩ "page" "1" ⟨0, 0⟩).1 = .ok t ∧
      ∀ filters vars, t.render filters vars = .ok "  a\\#\x7bb\x7d\n\n!\x7b" := by
  have hink : ∀ line ∈ ["  a\\#\x7bb\x7d", "", "!\x7b"], EndsWithInk line.toList := by
    intro line hline
    fin_cases hline <;> simp [EndsWithInk, isBlank]
  exact render_textLines verbatimPage.loader _ "page" "1" _ _ ["  a\\#\x7bb\x7d", "", "!\x7b"]
    (by simp) hink (by cbv) (by cbv)

end Trellis
