import Mathlib
import Trellis.Loader.Memory
import Trellis.Proofs.Inclusion
import Trellis.Proofs.Reference

/-!
# `Trellis.Proofs.Transclusion`: to include a template is to paste its lines

An include statement can be replaced by the lines of the template that it names, each indented as
the statement was. If both templates can be read, their documents are the same
(`Library.document_pasted`): the same nodes, with lines of text that meet at the borders joined, and
the same mixins.

The three steps of reading a template each have their own part in this. The scanner gives the
statements of the pasted lines in place of the include statement (`scans_pasted`), the outline makes
the entries of the included template of them (`pastedLevels_arrange`), and the reader gives what it
gives for that template by itself (`readDocument_coincide_of_pasted`).

A file that is no template is included as it is, so for such a file this does not hold
(`Library.document_of_raw_include`).
-/

set_option autoImplicit false

namespace Trellis

open Source Text

/-! ### Lines of a source -/

theorem Text.notMem_dropReturn {cs : List Char} (h : '\n' ∉ cs) : '\n' ∉ dropReturn cs := by
  fun_induction dropReturn cs with
  | case1 => simp
  | case2 => simp
  | case3 c cs _ ih =>
    rw [List.mem_cons, not_or] at h ⊢
    exact ⟨h.1, ih h.2⟩

theorem Source.areLines_lines (cs : List Char) : AreLines (lines cs) := by
  have hgo (parts : List (List Char)) (h : ∀ part ∈ parts, '\n' ∉ part) : AreLines (lines.go parts) := by
    fun_induction lines.go parts with
    | case1 => nofun
    | case2 => nofun
    | case3 last _ => exact List.forall_mem_singleton.mpr (h last List.mem_cons_self)
    | case4 part parts _ ih =>
      have hparts : ∀ part ∈ parts, '\n' ∉ part := fun p hp => h p (List.mem_cons_of_mem _ hp)
      exact List.forall_mem_cons.mpr ⟨notMem_dropReturn (h part List.mem_cons_self), ih hparts⟩
  exact hgo _ fun part hpart => notMem_of_mem_splitAll hpart

/-- Lines that differ only in blanks at their ends make the same statements. -/
theorem Source.Scans.shape_of_trimEnd {lines lines' : List (List Char)} {ls ls' : List Line}
    (h : Scans [] 1 0 lines ls) (h' : Scans [] 1 0 lines' ls')
    (htrim : lines'.map trimEnd = lines.map trimEnd) : ls'.map Line.shape = ls.map Line.shape := by
  have hshifts : Shifts trimEnd (([] : List Nat).headD 0) := shifts_trimEnd
  obtain ⟨trimmed, htrimmed, hshape⟩ := h.map hshifts
  obtain ⟨trimmed', htrimmed', hshape'⟩ := h'.map hshifts
  rw [htrim] at htrimmed'
  cases htrimmed.unique htrimmed'
  exact hshape'.symm.trans hshape

/-! ### Pages -/

/-- An include statement of a template: the lines in front of it and behind it, its indentation and
its target. -/
structure IncludeStatement where
  before : List (List Char)
  indent : List Char
  target : String
  after : List (List Char)

namespace IncludeStatement

/-- The statement stands in a source. Its line is a statement of its own there, and no part of the
text or the brackets of another one. -/
structure StandsIn (i : IncludeStatement) (source : String) : Prop where
  target : Includable i.target
  indent : ∀ c ∈ i.indent, isIndent c = true
  lines_eq : lines source.toList = i.before ++ includeLine i.indent i.target :: i.after
  statement : ∃ layout, Layout.scan source = .ok layout ∧
    ∃ l ∈ layout.lines, l.position.line = i.before.length + 1

/-- Lines in place of the statement. Those that are not blank are indented as it was. -/
def paste (i : IncludeStatement) (lines : List (List Char)) : List (List Char) :=
  i.before ++ (lines.map (indentedBy i.indent) ++ i.after)

end IncludeStatement

namespace IncludeStatement

variable {i : IncludeStatement} {page : String} {layout : Layout}

/-- The line of the statement, and what the scanner makes of other lines in its place. -/
theorem StandsIn.exists_line (h : i.StandsIn page) (hscan : Layout.scan page = .ok layout) :
    ∃ before inc after, layout.lines = before ++ inc :: after ∧ inc.tokens = [.including i.target] ∧
      ∀ pasted ls, Scans [] 1 0 pasted ls → AreLines pasted → (∀ first ∈ ls.head?, first.depth = 0) →
        (∀ first ∈ after.head?, first.depth ≤ inc.depth) →
        ∃ ls', Scans [] 1 0 (i.paste pasted) ls' ∧
          ls'.map Line.shape = before.map Line.shape ++
            (ls.map (fun l => (l.depth + inc.depth, l.tokens)) ++ after.map Line.shape) := by
  have hscans := scans_of_scan hscan
  have hlines := areLines_lines page.toList
  obtain ⟨layout', hscan', hstatement⟩ := h.statement
  cases hscan.symm.trans hscan'
  rw [h.lines_eq] at hscans hlines
  exact scans_pasted h.indent h.target hscans hlines hstatement

variable {Q : String → Prop} (hbare : ∀ e ∈ Entry.forest layout, e.Bare Q)
include hbare

/-- The statement is read as the others are. -/
theorem StandsIn.target_of_bare (h : i.StandsIn page) (hscan : Layout.scan page = .ok layout) :
    Q i.target := by
  obtain ⟨before, inc, after, hlines, htokens, -⟩ := h.exists_line hscan
  have hall : ∀ a ∈ Entry.arrange layout.finish.line layout.lines, a.2.Bare Q :=
    fun a ha => hbare a.2 (List.mem_map_of_mem ha)
  rw [hlines] at hall
  exact Trellis.target_of_bare htokens (bare_of_append before hall)

/-- **The entries of a page with the lines of a part** are those of the page, with the entries of the
part in place of the include statement. -/
theorem StandsIn.pastedEntries_forest (h : i.StandsIn page) (hscan : Layout.scan page = .ok layout)
    {part page' : String} {layoutPart layout' : Layout} (hpart : Layout.scan part = .ok layoutPart)
    (hscan' : Layout.scan page' = .ok layout')
    (hlines : (lines page'.toList).map trimEnd = (i.paste (lines part.toList)).map trimEnd)
    (hzero : ∀ first ∈ layoutPart.lines.head?, first.depth = 0)
    (helse : ∀ e ∈ Entry.forest layoutPart, e.isElse = false) :
    PastedEntries i.target (SameEntries (Entry.forest layoutPart)) (Entry.forest layout)
      (Entry.forest layout') := by
  obtain ⟨before, inc, after, hsplit, htokens, hpaste⟩ := h.exists_line hscan
  have hall : ∀ a ∈ Entry.arrange layout.finish.line (before ++ inc :: after), a.2.Bare Q := by
    rw [← hsplit]
    exact fun a ha => hbare a.2 (List.mem_map_of_mem ha)
  have hafter := depth_le_of_bare htokens (bare_of_append before hall)
  obtain ⟨ls, hls, hshape⟩ := hpaste _ _ (scans_of_scan hpart) (areLines_lines _) hzero hafter
  rw [← hls.shape_of_trimEnd (scans_of_scan hscan') hlines] at hshape
  have hfirst : ∀ a ∈ (Entry.arrange layoutPart.finish.line layoutPart.lines).head?, a.2.isElse = false :=
    fun a ha => helse a.2 (List.mem_map_of_mem (List.mem_of_mem_head? ha))
  have hlevels := pastedLevels_arrange layout.finish.line layout'.finish.line layoutPart.finish.line
    hzero hfirst htokens hall hshape
  rw [← hsplit] at hlevels
  exact hlevels.entries

end IncludeStatement

/-- A template that extends no other, and in no place tries to. -/
def ExtendsNothing (source : String) : Prop :=
  ∀ layout, Layout.scan source = .ok layout → ∀ l ∈ layout.lines, ∀ base, .extending base ∉ l.tokens

theorem not_extends_of_extendsNothing {source : String} (h : ExtendsNothing source) {layout : Layout}
    (hscan : Layout.scan source = .ok layout) : ∀ e ∈ Entry.forest layout, ¬e.Extends := by
  rintro e he ⟨base, rest, htokens⟩
  obtain ⟨a, ha, rfl⟩ := List.mem_map.mp he
  have hmem : a.2.tokens ∈ a.2.statements := by
    obtain ⟨d, line, next, tokens, children, alternative⟩ := a
    exact List.mem_cons_self
  obtain ⟨l, hl, heq⟩ := statements_arrange ha hmem
  refine h layout hscan l hl base ?_
  rw [heq, htokens]
  exact List.mem_cons_self

namespace Library

variable {l l' : Library} {name name' : String}

/-- What a template that was loaded was read from. -/
theorem exists_layout_of_load {unused under : List String} {source : String} {d : Document}
    {asked asked' : List String} (hsource : l.source name = .ok source)
    (h : l.load unused under name asked = .ok d asked') :
    ∃ layout, Layout.scan source = .ok layout ∧
      readDocument ⟨name, l.ask, l.load (unused.erase name) (under ++ [name])⟩ layout (name :: asked) =
        .ok d asked' := by
  obtain ⟨-, -, hresolve⟩ := of_load_eq_result h
  obtain ⟨source', layout, hsource', hscan, hread⟩ := resolve_eq_ok_iff.mp hresolve
  cases hsource.symm.trans hsource'
  exact ⟨layout, hscan, hread⟩

/-- A document is what is resolved with all names unused and no template under way. -/
theorem document_eq_ok_iff_resolve {d : Document} :
    (l.document name).1 = .ok d ↔ ∃ asked, l.resolve l.names [] name [] = .ok d asked := by
  unfold document
  cases l.resolve l.names [] name [] with
  | ok d' asked => simp
  | error e asked => simp

/-- The document of a template is what its statements are read as. -/
theorem document_eq_ok_iff {d : Document} : (l.document name).1 = .ok d ↔
    ∃ source layout asked, l.source name = .ok source ∧ Layout.scan source = .ok layout ∧
      readDocument ⟨name, l.ask, l.load l.names [name]⟩ layout [name] = .ok d asked := by
  rw [document_eq_ok_iff_resolve]
  constructor
  · rintro ⟨asked, h⟩
    obtain ⟨source, layout, hsource, hscan, hread⟩ := resolve_eq_ok_iff.mp h
    exact ⟨source, layout, asked, hsource, hscan, hread⟩
  · rintro ⟨source, layout, asked, hsource, hscan, hread⟩
    exact ⟨asked, resolve_eq_ok_iff.mpr ⟨source, layout, hsource, hscan, hread⟩⟩

/-- **To include a template is to paste its lines.** A page holds a statement that includes a part,
and another page has the lines of the part in its place. The part is a template in the directory of
the page and extends nothing. If the documents of both pages can be had, they are the same.

The second page may stand beside the first one in one library, or in another library that is the same
but for that page. -/
theorem document_pasted (l l' : Library) (name name' page page' part : String) (i : IncludeStatement)
    (hpage : l.source name = .ok page) (hpage' : l'.source name' = .ok page')
    (hpart : l.source (Reference.resolve name i.target) = .ok part) (hothers : l.SameBut name' l')
    (hbeside : Reference.folders name' = Reference.folders name)
    (hfolders : Reference.folders (Reference.resolve name i.target) = Reference.folders name)
    (htemplate : Reference.isRaw (Reference.resolve name i.target) = false)
    (hextends : ExtendsNothing part) (hstands : i.StandsIn page)
    (hlines : (lines page'.toList).map trimEnd = (i.paste (lines part.toList)).map trimEnd)
    {d d' : Document} (hd : (l.document name).1 = .ok d) (hd' : (l'.document name').1 = .ok d') :
    d' = d := by
  obtain ⟨_, layout, asked, hsource, hscan, hread⟩ := document_eq_ok_iff.mp hd
  obtain ⟨_, layout', asked', hsource', hscan', hread'⟩ := document_eq_ok_iff.mp hd'
  cases hpage.symm.trans hsource
  cases hpage'.symm.trans hsource'
  have hbare := bare_of_readDocument (sound_of_mem_forest hscan) hread
  -- The statement was read, so the part was loaded.
  obtain ⟨line, p, ns, q, hincludes⟩ := hstands.target_of_bare hbare hscan
  obtain ⟨dPart, hload, -⟩ := of_includeNodes_eq_ok hincludes htemplate
  dsimp only at hload
  obtain ⟨layoutPart, hscanPart, hreadPart⟩ := exists_layout_of_load hpart hload
  have hplain := not_extends_of_extendsNothing hextends hscanPart
  obtain ⟨r, hentriesPart, -⟩ := of_collecting_eq_ok (collecting_of_readDocument hplain hreadPart)
  have helse : ∀ e ∈ Entry.forest layoutPart, e.isElse = false :=
    fun e he => isElse_of_succeeds (succeeds_of_mem ⟨_, _, _, hentriesPart⟩ e he)
  have hentries := hstands.pastedEntries_forest hbare hscan hscanPart hscan' hlines
    (depth_of_readDocument hreadPart) helse
  -- Both the page and the part are read where the pasted lines are read.
  have hsurroundings : Surroundings.Coincide ⟨name, l.ask, l.load l.names [name]⟩
      ⟨name', l'.ask, l'.load l'.names [name']⟩ :=
    { resolve := Reference.resolve_congr hbeside
      fetch := fun _ hraw => ask_coincide hothers fun _ => hraw
      load := load_coincide hothers List.mem_cons_self }
  have hsurroundingsPart : Surroundings.Coincide
      ⟨Reference.resolve name i.target, l.ask,
        l.load (l.names.erase (Reference.resolve name i.target))
          ([name] ++ [Reference.resolve name i.target])⟩
      ⟨name', l'.ask, l'.load l'.names [name']⟩ :=
    { resolve := Reference.resolve_congr (hbeside.trans hfolders.symm)
      fetch := fun _ hraw => ask_coincide hothers fun _ => hraw
      load := load_coincide hothers List.mem_cons_self }
  refine (readDocument_coincide_of_pasted hsurroundings ?_ ?_ hentries).coincide _ _ _ _ _ _ hread hread'
  · intro line pasted hpasted
    refine includeNodes_coincide_readEntries hsurroundingsPart htemplate ?_ hpasted
    intro asked d asked' hload
    dsimp only at hload
    obtain ⟨layout₁, hscan₁, hread₁⟩ := exists_layout_of_load hpart hload
    cases hscanPart.symm.trans hscan₁
    exact ⟨_, collecting_of_readDocument hplain hread₁⟩
  · rintro pasted hpasted e he ⟨base, rest, htokens⟩
    rcases PastedEntries.of_mem hpasted e he with ⟨e', he', htokens'⟩ | ⟨_, hnone, -⟩
    · exact hplain e' he' ⟨base, rest, htokens'.symm.trans htokens⟩
    · exact hnone

/-! ### A block with a part -/

/-- A page, a part, and a page into which the part is pasted. -/
def pages (page target part pasted : String) : Memory :=
  ⟨[("page", page), (target, part), ("pasted", pasted)]⟩

/-- A block that includes a part in front of a line of text. -/
def blockWithPart : Memory :=
  pages "block a\n  include part\n  | end" "part" "| new" "block a\n  | new\n  | end"

/-- What both pages are: the two lines of text have become one node. -/
def blockOfText : Document :=
  ⟨[.block "a" .replace [.text [.literal "new", .literal "\n", .literal "end"]]], []⟩

/-- The include statement of the page. -/
def includePart : IncludeStatement := ⟨["block a".toList], "  ".toList, "part", ["  | end".toList]⟩

theorem scan_new : Layout.scan "| new" = .ok ⟨[⟨⟨1, 1⟩, 0, [.text "new"]⟩], ⟨1, 1⟩⟩ := by cbv

theorem scan_blockWithPart : Layout.scan "block a\n  include part\n  | end" =
    .ok ⟨[⟨⟨1, 1⟩, 0, [.block .replace "a"]⟩, ⟨⟨2, 3⟩, 1, [.including "part"]⟩,
      ⟨⟨3, 3⟩, 1, [.text "end"]⟩], ⟨3, 3⟩⟩ := by cbv

theorem read_block : Head.read [.block .replace "a"] = .ok (.block "a" .replace) := by cbv

theorem read_new : Head.read [.text "new"] = .ok (.leaf (.text [.literal "new"])) := by cbv

theorem read_end : Head.read [.text "end"] = .ok (.leaf (.text [.literal "end"])) := by cbv

/-- A template of one line of text. -/
theorem readDocument_text (s : Surroundings) {position finish : Position} {text : String} {n : Node}
    (h : Head.read [.text text] = .ok (.leaf n)) (asked : List String) :
    readDocument s ⟨[⟨position, 0, [.text text]⟩], finish⟩ asked = .ok ⟨[n], []⟩ asked := by
  have hjoin : Node.join [n] [] = [n] := by cases n <;> rfl
  simp [readDocument, Entry.forest, Entry.arrange, Entry.isVacant, readEntries, readEntry, h, hjoin,
    Head.nodes, collecting, refuseChildren, refuseElse, bind, EStateM.bind, pure, EStateM.pure]

theorem document_blockWithPart : (blockWithPart.loader.document "page").1 = .ok blockOfText := by
  have hpage : blockWithPart.loader.source "page" = .ok "block a\n  include part\n  | end" := by cbv
  have hpart : blockWithPart.loader.source "part" = .ok "| new" := by cbv
  have hlisted : "part" ∈ blockWithPart.loader.names := by
    simp [Memory.loader, blockWithPart, pages, Table.keys]
  generalize blockWithPart.loader.toLibrary = l at hpage hpart hlisted ⊢
  have hload : ∀ asked, l.load l.names ["page"] "part" asked =
      .ok ⟨[.text [.literal "new"]], []⟩ ("part" :: asked) := by
    intro asked
    rw [load, if_neg (by decide), if_pos hlisted]
    exact resolve_eq_ok_iff.mpr ⟨_, _, hpart, scan_new, readDocument_text _ read_new _⟩
  have hresolve : Reference.resolve "page" "part" = "part" := by cbv
  have hraw : Reference.isRaw "part" = false := by cbv
  have hread : Head.read [.including "part"] = .ok (.including "part") := by cbv
  refine document_eq_ok_iff.mpr ⟨_, _, ["part", "page"], hpage, scan_blockWithPart, ?_⟩
  simp [readDocument, Entry.forest, Entry.arrange, Entry.isVacant, Entry.isElse, Entry.tokens,
    readEntries, readEntry, read_block, hread, read_end, Head.nodes, collecting, refuseChildren,
    refuseElse, bind, EStateM.bind, pure, EStateM.pure, Node.join, Node.cons,
    Surroundings.includeNodes, hresolve, hraw, Surroundings.orMissing, asking, hload, addMixins,
    Table.insertAll, modify, modifyGet, MonadStateOf.modifyGet, EStateM.modifyGet, blockOfText]

theorem document_blockPasted : (blockWithPart.loader.document "pasted").1 = .ok blockOfText := by
  have hpasted : blockWithPart.loader.source "pasted" = .ok "block a\n  | new\n  | end" := by cbv
  have hscan : Layout.scan "block a\n  | new\n  | end" =
      .ok ⟨[⟨⟨1, 1⟩, 0, [.block .replace "a"]⟩, ⟨⟨2, 3⟩, 1, [.text "new"]⟩,
        ⟨⟨3, 3⟩, 1, [.text "end"]⟩], ⟨3, 3⟩⟩ := by cbv
  refine document_eq_ok_iff.mpr ⟨_, _, ["pasted"], hpasted, hscan, ?_⟩
  simp [readDocument, Entry.forest, Entry.arrange, Entry.isVacant, Entry.isElse, Entry.tokens,
    readEntries, readEntry, read_block, read_new, read_end, Head.nodes, collecting, refuseChildren,
    refuseElse, bind, EStateM.bind, pure, EStateM.pure, Node.join, Node.cons, blockOfText]

theorem extendsNothing_new : ExtendsNothing "| new" := by
  intro layout hscan l hl base hmem
  cases scan_new.symm.trans hscan
  rw [List.mem_singleton.mp hl] at hmem
  cases List.mem_singleton.mp hmem

theorem standsIn_blockWithPart : includePart.StandsIn "block a\n  include part\n  | end" where
  target := ⟨by decide, by decide⟩
  indent := by simp [includePart, isIndent]
  lines_eq := by cbv
  statement := ⟨_, scan_blockWithPart, ⟨⟨2, 3⟩, 1, [.including "part"]⟩, by simp, rfl⟩

/-- Both pages have the same document. -/
theorem document_pasted_blockWithPart :
    includePart.StandsIn "block a\n  include part\n  | end" ∧
      lines "block a\n  | new\n  | end".toList = includePart.paste (lines "| new".toList) ∧
      ∃ d, (blockWithPart.loader.document "page").1 = .ok d ∧
        (blockWithPart.loader.document "pasted").1 = .ok d := by
  have hlines : lines "block a\n  | new\n  | end".toList = includePart.paste (lines "| new".toList) := by
    decide
  refine ⟨standsIn_blockWithPart, hlines, blockOfText, document_blockWithPart, ?_⟩
  obtain ⟨d', hd'⟩ : ∃ d', (blockWithPart.loader.document "pasted").1 = .ok d' :=
    ⟨_, document_blockPasted⟩
  have hsame := document_pasted blockWithPart.loader.toLibrary blockWithPart.loader.toLibrary
    "page" "pasted" "block a\n  include part\n  | end" "block a\n  | new\n  | end" "| new" includePart
    (by cbv) (by cbv) (by cbv) (fun _ _ => rfl) (by cbv) (by cbv) (by cbv) extendsNothing_new
    standsIn_blockWithPart (congrArg _ hlines) document_blockWithPart hd'
  rw [hd', hsame]

/-! ### A file that is no template -/

/-- A page that includes a text file, and a page into which its line is pasted. -/
def pageWithText : Memory := pages "include part.txt" "part.txt" "| new" "| new"

/-- The include statement of that page. -/
def includeText : IncludeStatement := ⟨[], [], "part.txt", []⟩

/-- **A text file is not read as a template**, so pasting its line gives another document. -/
theorem document_of_raw_include :
    includeText.StandsIn "include part.txt" ∧
      lines "| new".toList = includeText.paste (lines "| new".toList) ∧
      Reference.folders (Reference.resolve "page" "part.txt") = Reference.folders "page" ∧
      ExtendsNothing "| new" ∧
      ∃ d d', (pageWithText.loader.document "page").1 = .ok d ∧
        (pageWithText.loader.document "pasted").1 = .ok d' ∧ d'.nodes ≠ d.nodes := by
  have hscan : Layout.scan "include part.txt" = .ok ⟨[⟨⟨1, 1⟩, 0, [.including "part.txt"]⟩], ⟨1, 1⟩⟩ := by
    cbv
  have hstands : includeText.StandsIn "include part.txt" :=
    { target := ⟨by decide, by decide⟩
      indent := List.forall_mem_nil _
      lines_eq := by decide
      statement := ⟨_, hscan, ⟨⟨1, 1⟩, 0, [.including "part.txt"]⟩, by simp, rfl⟩ }
  have hpage : pageWithText.loader.source "page" = .ok "include part.txt" := by cbv
  have hpart : pageWithText.loader.source "part.txt" = .ok "| new" := by cbv
  have hpasted : pageWithText.loader.source "pasted" = .ok "| new" := by cbv
  have hresolve : Reference.resolve "page" "part.txt" = "part.txt" := by cbv
  have hraw : Reference.isRaw "part.txt" = true := by cbv
  have hread : Head.read [.including "part.txt"] = .ok (.including "part.txt") := by cbv
  refine ⟨hstands, by decide, by cbv, extendsNothing_new, ⟨[.text [.literal "| new"]], []⟩,
    ⟨[.text [.literal "new"]], []⟩, ?_, ?_, by simp⟩
  · refine document_eq_ok_iff.mpr ⟨_, _, ["part.txt", "page"], hpage, hscan, ?_⟩
    simp [readDocument, Entry.forest, Entry.arrange, Entry.isVacant, readEntries, readEntry, hread,
      Head.nodes, collecting, refuseChildren, refuseElse, bind, EStateM.bind, pure, EStateM.pure,
      Node.join, Node.cons, Surroundings.includeNodes, hresolve, hraw, Surroundings.orMissing, asking,
      ask, hpart]
  · exact document_eq_ok_iff.mpr ⟨_, _, _, hpasted, scan_new, readDocument_text _ read_new _⟩

end Library

end Trellis
