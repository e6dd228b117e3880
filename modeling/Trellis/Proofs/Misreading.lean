import Trellis.Proofs.Reporting
import Trellis.Proofs.Requests
import Trellis.Proofs.Scanning

/-!
# `Trellis.Proofs.Misreading`: which expression an error is about

A template may be refused because of an expression that stands in another one, which it includes or
extends, and a statement may run over several lines. The error still names the file that holds the
expression, the line on which its statement begins, and what is wrong with just this expression.

* `Library.failsOnly_misreads` is the induction over the templates under way, on top of what
  `Trellis.Proofs.Reporting` knows of one template.
* `Scans.begins`: the number of a statement is that of the line of the source on which it begins.
* `Template.compile_misread` puts together what the error tells, for sources in memory.
-/

set_option autoImplicit false

namespace Trellis

open Source

/-! ### Templates that name each other -/

namespace Library

variable {l : Library} {name : String}

/-- If an error is about an expression, then about the first in its file that cannot be read. It
names the file, which a template is or leads to, and the line on which the statement begins. -/
def Misreads (l : Library) (name : String) (e : Error) : Prop :=
  ∀ err, e.expression? = some err → ∃ template source layout line,
    Relation.ReflTransGen l.Refers name template ∧ l.source template = .ok source ∧
    Layout.scan source = .ok layout ∧ firstMisread? layout.written = some (line, err) ∧
    e = .parse template line (.badExpression err)

theorem Misreads.of_none {e : Error} (h : e.expression? = none) : l.Misreads name e := by
  intro err herr
  rw [h] at herr
  cases herr

theorem Misreads.of_refers {other : String} {e : Error} (h : l.Misreads other e)
    (hrefers : l.Refers name other) : l.Misreads name e := by
  intro err herr
  obtain ⟨template, source, layout, line, hreach, h⟩ := h err herr
  exact ⟨template, source, layout, line, hreach.head hrefers, h⟩

/-- No source is missing because of an expression. -/
def Wordless (l : Library) : Prop := ∀ name e, l.source name = .error e → e.expression? = none

theorem source_of_ask {source : String} {asked between : List String}
    (h : l.ask name asked = .ok source between) : l.source name = .ok source := by
  cases hsource : l.source name with
  | ok source' =>
    rw [ask_of_source hsource] at h
    cases h
    rfl
  | error e =>
    rw [ask_of_missing hsource] at h
    cases h

section
variable (hl : l.Wordless)
include hl

theorem failsOnly_misreads_ask (n : String) : FailsOnly (l.Misreads name) (l.ask n) :=
  (l.failsOnly_ask n).mono fun e he => .of_none (hl n e he)

theorem failsOnly_misreads_load {unused under : List String} {target : String}
    (h : target ∈ unused →
      FailsOnly (l.Misreads target) (l.resolve (unused.erase target) under target)) :
    FailsOnly (l.Misreads target) (l.load unused under target) := by
  unfold load
  split
  · exact .fail (.of_none rfl)
  · split
    · exact h ‹_›
    · exact (failsOnly_misreads_ask hl target).bind fun _ => .fail (.of_none rfl)

/-- What a template includes or extends fails for what is wrong in a template that it refers to. -/
theorem namesOnly_misreads {source : String} {layout : Layout}
    (hsource : l.source name = .ok source) (hscan : Layout.scan source = .ok layout)
    (load : String → Asking Document)
    (hload : ∀ target, FailsOnly (l.Misreads target) (load target)) :
    layout.NamesOnly
      (fun target => ∀ line, FailsOnly (l.Misreads name)
        (Surroundings.includeNodes ⟨name, l.ask, load⟩ line target))
      (fun target => ∀ line, FailsOnly (l.Misreads name) fun asked =>
        blaming name line (.noTemplate (Reference.resolve name target))
          (load (Reference.resolve name target) asked)) := by
  have hloaded {target : String} (hrefers : l.Refers name target) :
      FailsOnly (OrMissing (l.Misreads name)) (load target) :=
    (hload target).mono fun _ he => .inr (he.of_refers hrefers)
  constructor
  · intro statement hstatement target htarget line
    refine failsOnly_includeNodes (fun _ => .of_none rfl) (fun _ => .of_none rfl)
      (fun n => (failsOnly_misreads_ask hl n).mono fun _ => .inr) fun hraw => ?_
    have hrefers : l.Refers name (Reference.resolve name target) :=
      ⟨source, layout, hsource, hscan, statement, hstatement, target, rfl, .inr ⟨htarget, hraw⟩⟩
    exact hloaded hrefers
  · intro statement hstatement target htarget line
    have hrefers : l.Refers name (Reference.resolve name target) :=
      ⟨source, layout, hsource, hscan, statement, hstatement, target, rfl, .inl htarget⟩
    exact (hloaded hrefers).blaming (.of_none rfl)

/-- **Errors about expressions name the file and the line.** The induction follows the chain of
templates under way. -/
theorem failsOnly_misreads (unused chain : List String) (name : String) :
    FailsOnly (l.Misreads name) (l.resolve unused chain name) := by
  constructor
  intro asked e asked' hresolve
  rw [resolve_eq] at hresolve
  rcases of_bind_eq_failure hresolve with hask | ⟨source, between, hask, hread⟩
  · exact (failsOnly_misreads_ask hl name).errors _ _ _ hask
  have hsource := source_of_ask hask
  cases hscan : Layout.scan source with
  | error e' =>
    rw [hscan] at hread
    cases hread
    exact .of_none rfl
  | ok layout =>
    rw [hscan] at hread
    -- Whatever is loaded from here has taken one more name off the list.
    have hnames := namesOnly_misreads hl hsource hscan (l.load unused (chain ++ [name]))
      fun target => failsOnly_misreads_load hl fun hmem =>
        failsOnly_misreads (unused.erase target) (chain ++ [name]) target
    rcases (failsOnly_blames (sound_of_mem_forest hscan) hnames).errors _ _ _ hread with h | h
    · exact h
    · -- The expression is one of this template.
      intro err herr
      obtain ⟨line, hfirst, heq⟩ := h err herr
      exact ⟨name, source, layout, line, .refl, hsource, hscan, hfirst, heq⟩
termination_by unused.length
decreasing_by exact length_erase_lt hmem

theorem misreads_of_document {e : Error} (h : (l.document name).1 = .error e) :
    l.Misreads name e := by
  unfold document at h
  cases hresolve : l.resolve l.names [] name [] with
  | ok d asked =>
    rw [hresolve] at h
    cases h
  | error e' asked =>
    rw [hresolve] at h
    cases h
    exact (failsOnly_misreads hl l.names [] name).errors _ _ _ hresolve

end

end Library

/-! ### Lines of a source -/

namespace Source

/-- A statement begins on a line of a source, which is not blank, and its tokens are taken from there
on. Lines are counted from 1. -/
def Line.BeginsIn (source : String) (l : Line) : Prop :=
  ∃ above raw below used, Text.lines source.toList = above ++ raw :: below ∧
    l.position.line = above.length + 1 ∧ Text.isBlankText raw = false ∧
    Takes raw below l.tokens used

/-- Every statement begins on a line of its own number. -/
theorem Scans.begins {widths : List Nat} {number skip : Nat} {lines : List (List Char)}
    {ls : List Line} (h : Scans widths number skip lines ls) {l : Line} (hl : l ∈ ls) :
    ∃ above raw below used, lines = above ++ raw :: below ∧
      l.position.line = number + above.length ∧ Text.isBlankText raw = false ∧
      Takes raw below l.tokens used := by
  -- Below a line that is passed over, all is counted from one line further down.
  have hnext {number : Nat} {lines : List (List Char)} (first : List Char)
      (h : ∃ above raw below used, lines = above ++ raw :: below ∧
        l.position.line = number + 1 + above.length ∧ Text.isBlankText raw = false ∧
        Takes raw below l.tokens used) :
      ∃ above raw below used, first :: lines = above ++ raw :: below ∧
        l.position.line = number + above.length ∧ Text.isBlankText raw = false ∧
        Takes raw below l.tokens used := by
    obtain ⟨above, raw, below, used, rfl, hline, h⟩ := h
    refine ⟨first :: above, raw, below, used, rfl, ?_, h⟩
    rw [hline, List.length_cons]
    omega
  induction h with
  | done => cases hl
  | used later ih => exact hnext _ (ih hl)
  | blank _ later ih => exact hnext _ (ih hl)
  | @line _ _ _ used raw below _ _ ink _ takes later ih =>
    rcases List.mem_cons.mp hl with rfl | hl
    · exact ⟨[], raw, below, used, rfl, rfl, ink, takes⟩
    · exact hnext _ (ih hl)

theorem Line.beginsIn_of_scan {source : String} {layout : Layout}
    (hscan : Layout.scan source = .ok layout) {l : Line} (hl : l ∈ layout.lines) :
    l.BeginsIn source := by
  obtain ⟨above, raw, below, used, hlines, hline, h⟩ := (scans_of_scan hscan).begins hl
  exact ⟨above, raw, below, used, hlines, by omega, h⟩

end Source

/-! ### Sources in memory -/

theorem Memory.wordless_loader (m : Memory) : m.loader.toLibrary.Wordless := by
  intro name e he
  rw [(of_source_eq_error he).1]
  rfl

namespace Template

/-- **What cannot be read as an expression is told of its own file, line and text.** Suppose that a
template of a loader in memory fails to compile because of an expression. Then there is a template
that is the one asked for, or that is reached from it by statements that include or extend, whose
source holds the expression. The error is one of parsing and names this template. Its line is the
number of the line of the source on which the statement with the expression begins, also if the
statement runs over several lines. Its message says what is wrong with just this expression, which
is the first in the source that cannot be read. -/
theorem compile_misread (m : Memory) (options : Options) (name version : String) (log : Log)
    {e : Error} {err : ExpressionError}
    (he : (compile m.loader options name version log).1 = .error e)
    (herr : e.expression? = some err) :
    ∃ template source layout line,
      Relation.ReflTransGen m.loader.Refers name template ∧
      m.loader.source template = .ok source ∧ Layout.scan source = .ok layout ∧
      (∃ statement ∈ layout.lines, statement.position.line = line ∧ statement.BeginsIn source ∧
        err.source ∈ writtenExpressions statement.tokens) ∧
      (∃ before after, layout.written = before ++ ⟨line, err.source⟩ :: after ∧
        ∀ w ∈ before, ∃ x, Expression.compile w.text = .ok x) ∧
      Expression.compile err.source = .error err ∧
      e = .parse template line (.badExpression err) ∧
      e.message =
        s!"Parse error in {template} at line {line}: {(Error.expression err).message}" := by
  have hdocument : (m.loader.document name).1 = .error e := of_map_eq_error he
  obtain ⟨template, source, layout, line, hreach, hsource, hscan, hfirst, rfl⟩ :=
    Library.misreads_of_document m.wordless_loader hdocument err herr
  obtain ⟨before, after, hwritten, hbefore, herror⟩ := exists_of_firstMisread? hfirst
  have hmem : ⟨line, err.source⟩ ∈ layout.written := by
    rw [hwritten]
    exact List.mem_append_right _ List.mem_cons_self
  obtain ⟨statement, hstatement, hline, htext⟩ := exists_statement_of_mem_written hmem
  exact ⟨template, source, layout, line, hreach, hsource, hscan,
    ⟨statement, hstatement, hline, Line.beginsIn_of_scan hscan hstatement, htext⟩,
    ⟨before, after, hwritten, hbefore⟩, herror, rfl, rfl⟩

/-- A page that includes a part. In the part, a call runs over two lines, and what it holds on the
second of them is no expression. -/
def pageWithCall : Memory :=
  ⟨[("page", "| x\ninclude part"), ("part", "| y\n+card('a',\n  1 +)")]⟩

/-- What is wrong there. -/
def openSum : ExpressionError := ⟨"1 +", .unreadable .unexpectedEnd⟩

theorem read_openSum : Head.read [.call "card" "'a', 1 +"] = .error (.badExpression openSum) := by
  have hparts : splitTopLevel "'a', 1 +".toList = ["'a'".toList, "1 +".toList] := by cbv
  have hfirst : Expression.compile "'a'" = .ok ⟨"'a'", .literal (.str "a"), by cbv⟩ :=
    Expression.compile_source ⟨"'a'", .literal (.str "a"), by cbv⟩
  have hsecond : Expression.compile "1 +" = .error openSum := Expression.compile_eq_error (by cbv)
  rw [Head.read.eq_def]
  dsimp only
  rw [hparts]
  simp only [readEach, compileIn, String.ofList_toList, hfirst, hsecond]
  rfl

theorem document_pageWithCall : (pageWithCall.loader.document "page").1 =
    .error (.parse "part" 2 (.badExpression openSum)) := by
  have hpage : pageWithCall.loader.source "page" = .ok "| x\ninclude part" := by cbv
  have hpart : pageWithCall.loader.source "part" = .ok "| y\n+card('a',\n  1 +)" := by cbv
  have hlisted : "part" ∈ pageWithCall.loader.names := by
    simp [Memory.loader, pageWithCall, Table.keys]
  have hscanPage : Layout.scan "| x\ninclude part" =
      .ok ⟨[⟨⟨1, 1⟩, 0, [.text "x"]⟩, ⟨⟨2, 1⟩, 0, [.including "part"]⟩], ⟨2, 1⟩⟩ := by cbv
  have hscanPart : Layout.scan "| y\n+card('a',\n  1 +)" =
      .ok ⟨[⟨⟨1, 1⟩, 0, [.text "y"]⟩, ⟨⟨2, 1⟩, 0, [.call "card" "'a', 1 +"]⟩], ⟨2, 1⟩⟩ := by cbv
  have hreadX : Head.read [.text "x"] = .ok (.leaf (.text [.literal "x"])) := by cbv
  have hreadY : Head.read [.text "y"] = .ok (.leaf (.text [.literal "y"])) := by cbv
  have hinclude : Head.read [.including "part"] = .ok (.including "part") := by cbv
  have hresolve : Reference.resolve "page" "part" = "part" := by cbv
  have hraw : Reference.isRaw "part" = false := by cbv
  generalize pageWithCall.loader.toLibrary = l at hpage hpart hlisted ⊢
  have hload : ∀ asked, l.load l.names ["page"] "part" asked =
      .error (.parse "part" 2 (.badExpression openSum)) ("part" :: asked) := by
    intro asked
    rw [Library.load, if_neg (by decide), if_pos hlisted, Library.resolve_eq]
    simp [bind, EStateM.bind, pure, EStateM.pure, Library.ask_of_source hpart, hscanPart,
      readDocument, Entry.forest, Entry.arrange, Entry.isVacant, Entry.isElse, Entry.tokens,
      readEntries, readEntry, hreadY, read_openSum, Head.nodes, collecting, refuseChildren,
      refuseElse, Surroundings.fail, throw, throwThe, MonadExceptOf.throw, EStateM.throw]
  rw [Library.document, Library.resolve_eq]
  simp [bind, EStateM.bind, pure, EStateM.pure, Library.ask_of_source hpage, hscanPage,
    readDocument, Entry.forest, Entry.arrange, Entry.isVacant, Entry.isElse, Entry.tokens,
    readEntries, readEntry, hreadX, hinclude, Head.nodes, collecting, refuseChildren, refuseElse,
    Surroundings.includeNodes, hresolve, hraw, Surroundings.orMissing, asking, hload]

/-- The error names the part and the line on which the call begins. -/
theorem compile_misread_pageWithCall :
    (compile pageWithCall.loader {} "page" "1" {}).1 =
        .error (.parse "part" 2 (.badExpression openSum)) ∧
      (Error.parse "part" 2 (.badExpression openSum)).expression? = some openSum ∧
      Relation.ReflTransGen pageWithCall.loader.Refers "page" "part" ∧
      ∃ source layout, pageWithCall.loader.source "part" = .ok source ∧
        Layout.scan source = .ok layout ∧
        (∃ statement ∈ layout.lines, statement.position.line = 2 ∧ statement.BeginsIn source ∧
          "1 +" ∈ writtenExpressions statement.tokens) ∧
        Expression.compile "1 +" = .error openSum := by
  have herror : (compile pageWithCall.loader {} "page" "1" {}).1 =
      .error (.parse "part" 2 (.badExpression openSum)) := by
    show Except.map _ (pageWithCall.loader.document "page").1 = _
    rw [document_pageWithCall]
    rfl
  obtain ⟨template, source, layout, line, hreach, hsource, hscan, hstatement, -, hcompile, heq,
    -⟩ := compile_misread pageWithCall {} "page" "1" {} herror rfl
  cases heq
  exact ⟨herror, rfl, hreach, source, layout, hsource, hscan, hstatement, hcompile⟩

end Template

end Trellis
