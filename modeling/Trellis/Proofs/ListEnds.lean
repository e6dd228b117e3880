import Mathlib
import Trellis.Proofs.ListStarts
import Trellis.Proofs.Misreading
import Trellis.Proofs.Transclusion

/-!
# `Trellis.Proofs.ListEnds`: where the lists of calls and mixins end

The reader of lists counts brackets, and what it finds is a text that is taken apart later. Here is
what this comes to for whole sources (`lists_end`).

A template that is read has no expression that cannot be read (`firstMisread?_of_readDocument`), so
neither has a list. This makes up for the kinds of brackets that were not looked at
(`ListKind.nested`), but for the last bracket, which is no part of the list, and for the names of
parameters, which are no expressions. `lists_end_mixed` shows what gets through.
-/

set_option autoImplicit false

namespace Trellis

open Source Text

/-! ### Templates that can be read -/

/-- If a template can be read, then so can all expressions in it. -/
theorem firstMisread?_of_readDocument {s : Surroundings} {layout : Layout}
    (hsound : ∀ e ∈ Entry.forest layout, e.Sound) {d : Document} {asked asked' : List String}
    (h : readDocument s layout asked = .ok d asked') : firstMisread? layout.written = none := by
  have hentries {es : List Entry} (hes : es ⊆ Entry.forest layout) (hread : Succeeds (readEntries s es)) :
      firstMisread? (entriesWritten es) = none := by
    obtain ⟨p, ns, q, hread⟩ := hread
    have hreports : Reports s.template (fun _ => True) (entriesWritten es) (readEntries s es) :=
      readEntries_reports (Q := fun _ => True) (fun _ _ _ => ⟨fun _ _ _ _ => trivial⟩) es
        (fun _ _ _ _ => trivial) fun e he => hsound e (hes he)
    exact hreports.passed p ns q hread
  rcases of_readDocument_eq_ok h with
    ⟨line, next, base, rest, children, alternative, entries, hdrop, h⟩ | ⟨-, h⟩
  · -- The statement that extends holds no expressions, and nothing belongs to it.
    rw [readDerived_eq] at h
    obtain ⟨own, between, hown, -⟩ := of_bind_eq_result h
    obtain ⟨q, hown, -⟩ := of_collecting_eq_ok hown
    have hown : Succeeds (do
        s.check line (endOfLine rest)
        refuseChildren s children
        refuseElse s alternative
        readEntries s entries) := ⟨_, _, _, hown⟩
    obtain ⟨hend, _, hown⟩ := hown.of_bind
    obtain ⟨hchildren, _, hown⟩ := hown.of_bind
    obtain ⟨hnone, _, hown⟩ := hown.of_bind
    have hrest : rest = [] := by
      cases rest with
      | nil => rfl
      | cons t rest => exact (not_succeeds_fail _ _ hend).elim
    have hsub : entries ⊆ Entry.forest layout := by
      refine List.Subset.trans ?_ (List.dropWhile_sublist Entry.isVacant).subset
      rw [hdrop]
      exact List.subset_cons_self _ _
    have hwritten := (entriesWritten_dropWhile_isVacant _).trans (entriesWritten_forest layout)
    rw [hdrop, hrest, eq_nil_of_refuseChildren hchildren, eq_none_of_refuseElse hnone] at hwritten
    rw [← hwritten]
    show firstMisread? (entriesWritten entries) = none
    exact hentries hsub hown
  · obtain ⟨q, hread, -⟩ := of_collecting_eq_ok h
    rw [← entriesWritten_forest]
    exact hentries (List.Subset.refl _) ⟨_, _, _, hread⟩

namespace Source

/-! ### The kinds of brackets -/

/-- The name that a parameter gives to an argument, or to all that are left. -/
def parameterName (part : List Char) : List Char :=
  match after? ['.', '.', '.'] part with
  | some rest => rest
  | none =>
    match splitAtFirst? (· == '=') part with
    | none => part
    | some (name, _) => name

/-- A text that was split has the character that was looked for between its parts. -/
theorem append_of_splitAtFirst? {p : Char → Bool} {cs front behind : List Char}
    (h : splitAtFirst? p cs = some (front, behind)) : ∃ c, p c = true ∧ cs = front ++ c :: behind := by
  induction cs generalizing front with
  | nil => cases h
  | cons c cs ih =>
    rw [splitAtFirst?] at h
    split at h
    · next hc =>
      cases h
      exact ⟨c, hc, rfl⟩
    · obtain ⟨⟨before, rest⟩, hsplit, heq⟩ := Option.map_eq_some_iff.mp h
      cases heq
      obtain ⟨d, hd, rfl⟩ := ih hsplit
      exact ⟨d, hd, rfl⟩

/-- A text that can be compiled is nested. -/
theorem nested_of_compile {cs : List Char} {e : Expression}
    (h : Expression.compile (String.ofList cs) = .ok e) : Nested OwnKind cs := by
  have hread := e.reads
  rw [Expression.source_of_compile h, String.toList_ofList] at hread
  exact nested_of_read hread

/-- A parameter that is a plain name, with or without an expression. -/
theorem nested_of_parameter {part : List Char} (hname : ∀ c ∈ parameterName part, isLoose c = true)
    (hread : ∀ text ∈ parameterExpressions part, ∃ e, Expression.compile text = .ok e) :
    Nested OwnKind part := by
  unfold parameterName at hname
  unfold parameterExpressions at hread
  split at hname
  · next rest hrest =>
    have hdots : ∀ c ∈ ['.', '.', '.'], isLoose c = true := List.all_eq_true.mp rfl
    rw [append_of_after? hrest]
    exact (Nested.of_loose hdots).append (.of_loose hname)
  · next hnone =>
    rw [hnone] at hread
    split at hname
    · exact .of_loose hname
    · next name default hsplit =>
      rw [hsplit] at hread
      obtain ⟨e, he⟩ := hread _ (List.mem_singleton.mpr rfl)
      obtain ⟨c, hc, rfl⟩ := append_of_splitAtFirst? hsplit
      have hsign : c = '=' := by simpa using hc
      subst hsign
      exact (Nested.of_loose hname).append (.loose rfl (nested_of_trim (nested_of_compile he)))

/-- The names in a list are plain. -/
def ListKind.NamesPlainly : ListKind → List Char → Prop
  | .arguments, _ => True
  | .parameters, list => ∀ part ∈ splitTopLevel list, ∀ c ∈ parameterName part, isLoose c = true

/-- A list is nested if all expressions in it can be read. -/
theorem ListKind.nested {kind : ListKind} {inner : List Char} (name : String)
    (hplain : kind.NamesPlainly (trim (oneLine inner)))
    (hread : ∀ text ∈ (kind.token name (String.ofList (trim (oneLine inner)))).expressions,
      ∃ e, Expression.compile text = .ok e) : Nested OwnKind inner := by
  refine nested_of_oneLine (nested_of_trim (nested_of_parts fun part hpart => ?_))
  cases kind with
  | arguments =>
    have hmem : String.ofList part ∈
        (Token.call name (String.ofList (trim (oneLine inner)))).expressions := by
      show _ ∈ (splitTopLevel _).map String.ofList
      rw [String.toList_ofList]
      exact List.mem_map_of_mem hpart
    obtain ⟨e, he⟩ := hread _ hmem
    exact nested_of_compile he
  | parameters =>
    refine nested_of_parameter (hplain part hpart) fun text htext => hread text ?_
    show _ ∈ (splitTopLevel _).flatMap parameterExpressions
    rw [String.toList_ofList]
    exact List.mem_flatMap_of_mem hpart htext

/-- What a statement is read from: its line, and the lines below that brackets may take in. -/
def statementText (raw : List Char) (below : List (List Char)) : List Char :=
  let text := trimEnd (raw.drop (indentOf raw).length)
  text ++ textBelow text below

theorem ListKind.IsIn.of_withBlock {kind : ListKind} {inner : List Char} {s : Statement}
    (h : kind.IsIn inner s.tokens) (lines : List (List Char)) : kind.IsIn inner (s.withBlock lines) := by
  unfold Statement.withBlock
  split
  · exact h.mono (List.subset_append_left _ _) (writtenExpressions_subset_append _ _)
  · exact h

theorem ListKind.mem_of_withBlock {kind : ListKind} {name text : String} {s : Statement}
    {lines : List (List Char)} (h : kind.token name text ∈ s.withBlock lines) :
    kind.token name text ∈ s.tokens := by
  unfold Statement.withBlock at h
  split at h
  · refine (List.mem_append.mp h).resolve_right fun hblock => ?_
    have hheads := kind.heads name text
    rw [List.mem_singleton.mp hblock] at hheads
    cases hheads
  · exact h

/-- **Where lists end.** Every statement of a source that can be scanned begins on a line of it, and
every list in its tokens begins in the text of the statement. Wherever a list begins there, it ends at
the bracket that closes its parenthesis when brackets of all kinds count alike, so there is one. If the
template is read as well, then inside the list every bracket is closed by one of its own kind; for the
parameters of a mixin this takes names without brackets and quotes. -/
theorem lists_end {source : String} {layout : Layout} (hscan : Layout.scan source = .ok layout)
    {line : Line} (hline : line ∈ layout.lines) :
    ∃ above raw below, Text.lines source.toList = above ++ raw :: below ∧
      line.position.line = above.length + 1 ∧
      (∀ kind list, ListStart kind (statementText raw below) list →
        ∃ inner d rest, list = inner ++ d :: rest ∧ closesBracket d = true ∧ Nested AnyKind inner ∧
          (∃ name, kind.token name (String.ofList (trim (oneLine inner))) ∈ line.tokens) ∧
          ∀ (l : Library) (template : String) (d : Document), l.source template = .ok source →
            (l.document template).1 = .ok d → kind.NamesPlainly (trim (oneLine inner)) →
            Nested OwnKind inner) ∧
      ∀ (kind : ListKind) (name text : String), kind.token name text ∈ line.tokens → text ≠ "" →
        ∃ inner d rest, ListStart kind (statementText raw below) (inner ++ d :: rest) ∧
          closesBracket d = true ∧ Nested AnyKind inner ∧ text = String.ofList (trim (oneLine inner)) := by
  obtain ⟨above, raw, below, used, hlines, hnumber, -, s, hs, joined, block, -, -, htokens, -⟩ :=
    Line.beginsIn_of_scan hscan hline
  refine ⟨above, raw, below, hlines, hnumber, fun kind list hlist => ?_,
    fun kind name text hmem htext => ?_⟩
  · obtain ⟨inner, d, rest, hsplit, hd, hinner, hin⟩ := hlist.ends hs
    obtain ⟨name, hmem, hexpressions⟩ := hin.of_withBlock block
    rw [← htokens] at hmem hexpressions
    refine ⟨inner, d, rest, hsplit, hd, hinner, ⟨name, hmem⟩, fun l template doc hsource hdoc hplain => ?_⟩
    obtain ⟨source', layout', asked, hsource', hscan', hread⟩ := Library.document_eq_ok_iff.mp hdoc
    cases hsource.symm.trans hsource'
    cases hscan.symm.trans hscan'
    have hall := firstMisread?_of_readDocument (sound_of_mem_forest hscan) hread
    refine ListKind.nested name hplain fun text htext => ?_
    -- All expressions of the template can be read, so also those of the list.
    have hwritten : ⟨line.position.line, text⟩ ∈ layout.written :=
      List.mem_flatMap_of_mem hline (List.mem_map_of_mem (hexpressions htext))
    exact Written.fault?_eq_none_iff.mp (List.findSome?_eq_none_iff.mp hall _ hwritten)
  · rw [htokens] at hmem
    obtain ⟨list, parts, rest, hlist, hbalanced, rfl⟩ :=
      found_of_readStatement hs (ListKind.mem_of_withBlock hmem) htext
    obtain ⟨inner, d, rfl, hd, hinner, rfl⟩ := balanced_splits hbalanced
    exact ⟨inner, d, rest, hlist, hd, hinner, rfl⟩

/-- A page with a mixin and a call that ends at a bracket of another kind. -/
def mixedPage : String := "mixin m(a)\n  = a\n+m(1]"

def mixedLayout : Layout :=
  ⟨[⟨⟨1, 1⟩, 0, [.mixin "m" "a"]⟩, ⟨⟨2, 3⟩, 1, [.output true "a"]⟩,
    ⟨⟨3, 1⟩, 0, [.call "m" "1"]⟩], ⟨3, 1⟩⟩

theorem scan_mixedPage : Layout.scan mixedPage = .ok mixedLayout := by cbv

end Source

theorem read_argumentShown : Expr.read "a".toList = .ok (.variable "a") := by cbv

/-- What the page shows and what it is called with. -/
def argumentShown : Expression := ⟨"a", .variable "a", read_argumentShown⟩

def argumentGiven : Expression := ⟨"1", .literal (.int 1), by cbv⟩

def mixedMixin : Mixin := ⟨"m", [⟨"a", none⟩], none, [.output argumentShown true]⟩

/-- What the page is read as. -/
def mixedDocument : Document :=
  ⟨[.mixin mixedMixin, .call "m" [argumentGiven] none], [("m", mixedMixin)]⟩

theorem document_mixedPage :
    ((⟨[("page", mixedPage)]⟩ : Memory).loader.document "page").1 = .ok mixedDocument := by
  have hshown : Expression.compile "a" = .ok argumentShown := argumentShown.compile_source
  have hgiven : Expression.compile "1" = .ok argumentGiven := argumentGiven.compile_source
  have hmixin : Head.read [.mixin "m" "a"] = .ok (.mixin "m" [⟨"a", none⟩] none) := by cbv
  have houtput : Head.read [.output true "a"] = .ok (.leaf (.output argumentShown true)) := by
    simp [Head.read, Head.read.closed, Head.read.leafHead, compileText, compileIn, hshown, Except.map,
      Except.mapError, endOfLine, bind, Except.bind, pure, Except.pure]
  have hcall : Head.read [.call "m" "1"] = .ok (.call "m" [argumentGiven]) := by
    have hparts : splitTopLevel "1".toList = ["1".toList] := by cbv
    rw [Head.read.eq_def]
    dsimp only
    rw [hparts]
    simp [readEach, compileIn, hgiven, Head.read.closed, Except.map,
      Except.mapError, endOfLine, bind, Except.bind, pure, Except.pure]
  refine Library.document_eq_ok_iff.mpr ⟨_, _, ["page"], by cbv, scan_mixedPage, ?_⟩
  simp [readDocument, mixedLayout, Entry.forest, Entry.arrange, Entry.isVacant, Entry.isElse,
    Entry.tokens, readEntries, readEntry, hmixin, houtput, hcall, Head.nodes, collecting,
    refuseChildren, refuseElse, bind, EStateM.bind, pure, EStateM.pure, Node.join, Node.cons,
    mixedDocument, mixedMixin, addMixins]
  rfl

namespace Source

/-- The list of the call. -/
theorem listStart_mixedPage :
    ListStart .arguments (statementText "+m(1]".toList []) "1]".toList :=
  have hbehind : "m(1]".toList.drop (nameOf "m(1]".toList).length = '(' :: "1]".toList := rfl
  .arguments rfl hbehind

/-- The call is read although its list does not end at a parenthesis. -/
theorem lists_end_mixed :
    Layout.scan mixedPage = .ok mixedLayout ∧
      ((⟨[("page", mixedPage)]⟩ : Memory).loader.document "page").1 = .ok mixedDocument ∧
      Text.lines mixedPage.toList = ["mixin m(a)".toList, "  = a".toList, "+m(1]".toList] ∧
      ListStart .arguments (statementText "+m(1]".toList []) "1]".toList ∧
      ¬∃ inner rest, "1]".toList = inner ++ ')' :: rest ∧ Nested OwnKind inner := by
  refine ⟨scan_mixedPage, document_mixedPage, by decide, listStart_mixedPage, ?_⟩
  rintro ⟨inner, rest, hsplit, -⟩
  have hmem : ')' ∈ "1]".toList := by
    rw [hsplit]
    exact List.mem_append_right _ List.mem_cons_self
  exact absurd hmem (by decide)

/-- What is found of that call. -/
theorem lists_end_call :
    ∃ layout line, Layout.scan mixedPage = .ok layout ∧ line ∈ layout.lines ∧
      ListStart .arguments (statementText "+m(1]".toList []) "1]".toList ∧
      ∃ inner d rest, "1]".toList = inner ++ d :: rest ∧ closesBracket d = true ∧
        (∃ name, .call name (String.ofList (trim (oneLine inner))) ∈ line.tokens) ∧
        Nested OwnKind inner := by
  have hmem : (⟨⟨3, 1⟩, 0, [.call "m" "1"]⟩ : Line) ∈ mixedLayout.lines := by simp [mixedLayout]
  obtain ⟨above, raw, below, hlines, hnumber, hlists, -⟩ := lists_end scan_mixedPage hmem
  have hpage : Text.lines mixedPage.toList = ["mixin m(a)".toList, "  = a".toList, "+m(1]".toList] := by
    decide
  have hlength : above.length = 2 := by
    have hthree : (3 : Nat) = above.length + 1 := hnumber
    omega
  obtain ⟨first, second, rfl⟩ := List.length_eq_two.mp hlength
  rw [hpage] at hlines
  cases hlines
  obtain ⟨inner, d, rest, hsplit, hd, -, hmember, hown⟩ := hlists _ _ listStart_mixedPage
  exact ⟨_, _, scan_mixedPage, hmem, listStart_mixedPage, inner, d, rest, hsplit, hd, hmember,
    hown _ "page" _ (by cbv) document_mixedPage trivial⟩

end Source

end Trellis
