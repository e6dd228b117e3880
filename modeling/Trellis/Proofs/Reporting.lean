import Trellis.Proofs.Phases
import Trellis.Proofs.Written

/-!
# `Trellis.Proofs.Reporting`: the first expression of a template that cannot be read

A template holds expressions, and each of them stands in a statement that begins on some line
(`Layout.written`). A reader comes to the expressions in the order in which they are written.
`Reports` says what this means for one that is on its way: where it succeeds, all expressions behind
it can be read, and where it fails because of an expression, this is the first that cannot. What
other templates fail for is passed on as it is.

* `readEntries_reports` is the induction over the outline, one statement for each function of the
  reader.
* `entriesWritten_forest`: the outline holds the expressions of the lines, in order.
* `failsOnly_blames` puts the two together for a whole template.
-/

set_option autoImplicit false

namespace Trellis

open Source

/-! ### Expressions with their lines -/

/-- An expression as it is written, with the number of the line on which its statement begins. -/
structure Written where
  line : Nat
  text : String

/-- What is wrong with an expression, and where it stands. -/
def Written.fault? (w : Written) : Option (Nat × ExpressionError) :=
  (Expression.fault? w.text).map fun err => (w.line, err)

/-- What is wrong with the first of some expressions that cannot be read. -/
def firstMisread? (ws : List Written) : Option (Nat × ExpressionError) :=
  ws.findSome? Written.fault?

/-- The expressions of a statement that begins on a line. -/
def writtenAt (line : Nat) (ts : List Token) : List Written :=
  (writtenExpressions ts).map (Written.mk line)

/-- The expressions of a template. -/
def Source.Layout.written (layout : Layout) : List Written :=
  layout.lines.flatMap fun l => writtenAt l.position.line l.tokens

theorem firstMisread?_append (ws more : List Written) :
    firstMisread? (ws ++ more) = (firstMisread? ws).or (firstMisread? more) := List.findSome?_append

theorem firstMisread?_map (line : Nat) (texts : List String) :
    firstMisread? (texts.map (Written.mk line)) =
      (firstFault? texts).map fun err => (line, err) := by
  rw [firstMisread?, List.findSome?_map, firstFault?, List.map_findSome?]
  rfl

theorem Expression.source_of_compile_eq_error {source : String} {err : ExpressionError}
    (h : compile source = .error err) : err.source = source := by
  unfold compile at h
  split at h
  · cases h
  · cases h
    rfl

theorem Expression.compile_eq_error {source : String} {fault : Expr.ReadFault}
    (h : Expr.read source.toList = .error fault) :
    compile source = .error ⟨source, .unreadable fault⟩ := by
  unfold compile
  split
  · next tree htree => cases htree.symm.trans h
  · next fault' hfault =>
    cases hfault.symm.trans h
    rfl

theorem Written.fault?_eq_none_iff {w : Written} :
    w.fault? = none ↔ ∃ x, Expression.compile w.text = .ok x :=
  Option.map_eq_none_iff.trans Expression.fault?_eq_none_iff

/-- The first expression that cannot be read, among those around it. -/
theorem exists_of_firstMisread? {ws : List Written} {line : Nat} {err : ExpressionError}
    (h : firstMisread? ws = some (line, err)) :
    ∃ before after, ws = before ++ ⟨line, err.source⟩ :: after ∧
      (∀ w ∈ before, ∃ x, Expression.compile w.text = .ok x) ∧
      Expression.compile err.source = .error err := by
  obtain ⟨before, w, after, hws, hfault, hbefore⟩ := List.findSome?_eq_some_iff.mp h
  obtain ⟨err', herr', heq⟩ := Option.map_eq_some_iff.mp hfault
  cases heq
  have herror := Expression.fault?_eq_some_iff.mp herr'
  have hsource := Expression.source_of_compile_eq_error herror
  refine ⟨before, after, ?_, fun w hw => Written.fault?_eq_none_iff.mp (hbefore w hw), ?_⟩
  · rw [hws, hsource]
  · rw [hsource, herror]

theorem exists_statement_of_mem_written {layout : Layout} {w : Written} (h : w ∈ layout.written) :
    ∃ statement ∈ layout.lines, statement.position.line = w.line ∧
      w.text ∈ writtenExpressions statement.tokens := by
  obtain ⟨statement, hstatement, hw⟩ := List.mem_flatMap.mp h
  obtain ⟨text, htext, rfl⟩ := List.mem_map.mp hw
  exact ⟨statement, hstatement, rfl, htext⟩

/-! ### Computations that come to expressions -/

/-- The expression that an error says cannot be read. -/
def Error.expression? : Error → Option ExpressionError
  | .parse _ _ fault => fault.expression?
  | .expression err => some err
  | _ => none

/-- If an error is about an expression, then about the first of some that cannot be read, and it
names its line. -/
def Blames (template : String) (ws : List Written) (e : Error) : Prop :=
  ∀ err, e.expression? = some err →
    ∃ line, firstMisread? ws = some (line, err) ∧ e = .parse template line (.badExpression err)

theorem Blames.append {template : String} {ws : List Written} {e : Error} (h : Blames template ws e)
    (more : List Written) : Blames template (ws ++ more) e := by
  intro err herr
  obtain ⟨line, hfirst, heq⟩ := h err herr
  exact ⟨line, by rw [firstMisread?_append, hfirst, Option.some_or], heq⟩

/-- What is read of a line is refused for the first expression in it that cannot be read. -/
theorem Compiles.blames {α : Type} {texts : List String} {fault : ParseFault}
    (h : Compiles (α := α) texts (.error fault)) (template : String) (line : Nat) :
    Blames template (texts.map (Written.mk line)) (.parse template line fault) := by
  intro err herr
  obtain rfl : fault = .badExpression err := by
    cases fault <;> cases herr
    rfl
  refine ⟨line, ?_, rfl⟩
  rw [firstMisread?_map, h.stopped err rfl]
  rfl

/-- A computation comes to some expressions of a template. If it succeeds, then all of them can be
read. If it fails, then with an error of another kind, or because of the first of them that cannot
be read. -/
structure Reports {σ α : Type} (template : String) (P : Error → Prop) (ws : List Written)
    (b : EStateM Error σ α) : Prop where
  passed : ∀ s a s', b s = .ok a s' → firstMisread? ws = none
  failed : FailsOnly (fun e => P e ∨ Blames template ws e) b

namespace Reports

variable {σ α β : Type} {template : String} {P : Error → Prop} {ws more : List Written}
  {b : EStateM Error σ α} {k : α → EStateM Error σ β}

theorem foreign (h : FailsOnly P b) : Reports template P [] b where
  passed _ _ _ _ := rfl
  failed := h.mono fun _ => .inl

theorem result (x : α) : Reports template P [] (pure x : EStateM Error σ α) := foreign (.result x)

theorem stop {e : Error} (h : Blames template ws e) :
    Reports template P ws (throw e : EStateM Error σ α) where
  passed _ _ _ hs := by cases hs
  failed := .fail (.inr h)

/-- An error that is not about an expression may stand before any. -/
theorem fail {e : Error} (h : e.expression? = none) :
    Reports template P ws (throw e : EStateM Error σ α) :=
  stop fun err herr => by
    rw [h] at herr
    cases herr

/-- What comes before can all be read. -/
theorem behind (h : firstMisread? ws = none) (hb : Reports template P more b) :
    Reports template P (ws ++ more) b := by
  have hfirst : firstMisread? (ws ++ more) = firstMisread? more := by
    rw [firstMisread?_append, h, Option.none_or]
  refine ⟨fun s a s' hs => hfirst.trans (hb.passed s a s' hs), hb.failed.mono fun e he => ?_⟩
  refine he.imp_right fun hblames err herr => ?_
  rw [hfirst]
  exact hblames err herr

theorem bind (h : Reports template P ws b) (hk : ∀ x, Reports template P more (k x)) :
    Reports template P (ws ++ more) (b >>= k) := by
  constructor
  · intro s y s' hs
    obtain ⟨x, between, hx, hy⟩ := of_bind_eq_result hs
    exact ((hk x).behind (h.passed s x between hx)).passed between y s' hy
  · constructor
    intro s e t hs
    rcases of_bind_eq_failure hs with hb | ⟨x, between, hb, hx⟩
    · exact (h.failed.errors s e t hb).imp_right fun hblames => hblames.append more
    · -- Where the second part begins, the first has come past all of its expressions.
      exact ((hk x).behind (h.passed s x between hb)).failed.errors between e t hx

/-- What is done at the end comes to no expression. -/
theorem keep (h : Reports template P ws b) (hk : ∀ x, Reports template P [] (k x)) :
    Reports template P ws (b >>= k) := by
  have hbind := h.bind hk
  rwa [List.append_nil] at hbind

end Reports

/-! ### Entries -/

mutual

/-- The expressions of an entry, and of the entries that belong to it. -/
def Entry.written : Entry → List Written
  | .mk line _ tokens children alternative =>
    writtenAt line tokens ++ (entriesWritten children ++ alternativeWritten alternative)

/-- The expressions of some entries, in order. -/
def entriesWritten : List Entry → List Written
  | [] => []
  | e :: rest => e.written ++ entriesWritten rest

/-- The expressions of an `else` line and what belongs to it. -/
def alternativeWritten : Option Entry → List Written
  | none => []
  | some e => e.written

end

/-- Parts of a line that come to the expressions that stand in them. -/
structure Parts.Report (template : String) (P : Error → Prop) (inside behind : List Written)
    (p : Parts) : Prop where
  noChildren : Reports template P inside p.noChildren
  children : Reports template P inside p.children
  alternatives : Reports template P inside p.alternatives
  branches : Reports template P behind p.branches
  fallback : Reports template P behind p.fallback
  noElse : Reports template P behind p.noElse

section
variable {P : Error → Prop} {Q : String → Prop} {s : Surroundings}

theorem check_reports {α : Type} {texts : List String} {x : Except ParseFault α}
    (h : Compiles texts x) (line : Nat) :
    Reports s.template P (texts.map (Written.mk line)) (s.check line x) := by
  cases x with
  | ok a =>
    refine ⟨fun _ _ _ _ => ?_, .result a⟩
    rw [firstMisread?_map, h.passed a rfl]
    rfl
  | error fault => exact .stop (h.blames s.template line)

theorem refuseChildren_reports (es : List Entry) :
    Reports s.template P (entriesWritten es) (refuseChildren s es) := by
  cases es with
  | nil => exact .result ()
  | cons e es => exact .fail rfl

theorem refuseElse_reports (alternative : Option Entry) :
    Reports s.template P (alternativeWritten alternative) (refuseElse s alternative) := by
  cases alternative with
  | none => exact .result ()
  | some e => exact .fail rfl

theorem refuseElseInCase_reports {alternative : Option Entry}
    (h : ∀ e ∈ alternative, e.isElse = true) :
    Reports s.template P (alternativeWritten alternative) (refuseElseInCase s alternative) := by
  cases alternative with
  | none => exact .result ()
  | some e =>
    cases ht : e.tokens with
    | nil =>
      -- The reader would pass over a line without tokens, but this one begins with `else`.
      have helse := h e rfl
      rw [Entry.isElse, ht] at helse
      cases helse
    | cons t rest =>
      simp only [refuseElseInCase, ht]
      exact .fail rfl

variable (hincludes : ∀ target, Q target → ∀ line, FailsOnly P (s.includeNodes line target))
include hincludes

/-- What a statement is made of is gone through in the order in which it stands. -/
theorem headNodes_reports {line : Nat} {inside behind : List Written} {p : Parts}
    (hp : p.Report s.template P inside behind) {h : Head} (hh : h.Targets Q) :
    Reports s.template P (inside ++ behind) (h.nodes s line p) := by
  induction h with
  | leaf n => exact hp.noChildren.bind fun _ => hp.noElse.keep fun _ => .result _
  | including target =>
    exact hp.noChildren.bind fun _ => (Reports.foreign (hincludes target hh line)).bind fun _ =>
      hp.noElse.keep fun _ => .result _
  | tag name attributes content =>
    exact hp.children.bind fun _ => hp.noElse.keep fun _ => .result _
  | call name arguments => exact hp.children.bind fun _ => hp.noElse.keep fun _ => .result _
  | tagAround name attributes inner ih => exact (ih hh).keep fun _ => .result _
  | callAround name arguments inner ih => exact (ih hh).keep fun _ => .result _
  | cond test negated => exact hp.children.bind fun _ => hp.branches.keep fun _ => .result _
  | each item key collection =>
    exact hp.children.bind fun _ => hp.fallback.keep fun _ => .result _
  | caseOf subject => exact hp.alternatives.bind fun _ => hp.noElse.keep fun _ => .result _
  | mixin name parameters rest =>
    exact hp.children.bind fun _ => (Reports.foreign (FailsOnly.change _)).bind fun _ =>
      hp.noElse.keep fun _ => .result _
  | block name mode => exact hp.children.bind fun _ => hp.noElse.keep fun _ => .result _

set_option linter.unusedSectionVars false in
mutual

/-- **The reader comes to all expressions, in order**, one statement for each of its functions. -/
theorem readEntry_reports : ∀ e : Entry, NamesOnly Q e.statements → e.Sound →
    Reports s.template P e.written (readEntry s e)
  | .mk line next tokens children alternative, hnames, .mk silent inside otherwise behind => by
    rw [Entry.statements] at hnames
    have hp : Parts.Report s.template P (entriesWritten children) (alternativeWritten alternative)
        { noChildren := refuseChildren s children
          children := readEntries s children
          alternatives := readAlternatives s none children
          branches := readBranches s alternative
          fallback := readFallback s alternative
          noElse := refuseElse s alternative } :=
      { noChildren := refuseChildren_reports children
        children := readEntries_reports children hnames.tail.left inside
        alternatives := readAlternatives_reports none children hnames.tail.left inside
        branches := readBranches_reports alternative hnames.tail.right behind
        fallback := readFallback_reports alternative hnames.tail.right behind
        noElse := refuseElse_reports alternative }
    have hline := hnames tokens List.mem_cons_self
    have hread := Head.compiles_read tokens
    rw [Entry.written, readEntry.eq_def]
    dsimp only
    split
    · -- The children of a line that says nothing are not read, and there are none.
      rw [silent rfl]
      exact (refuseElse_reports alternative).keep fun _ => .result _
    · split
      · exact .fail rfl
      · next fault _ hfault =>
        rw [hfault] at hread
        exact .stop ((hread.blames s.template line).append _)
      · next head hhead =>
        have hall : firstMisread? (writtenAt line tokens) = none := by
          rw [writtenAt, firstMisread?_map, hread.passed head hhead]
          rfl
        have htargets := (Head.readsLocally_read tokens).targets head hhead
        exact .behind hall (headNodes_reports hincludes hp (htargets.mono hline))

theorem readEntries_reports : ∀ es : List Entry, NamesOnly Q (entryStatements es) →
    (∀ e ∈ es, e.Sound) → Reports s.template P (entriesWritten es) (readEntries s es)
  | [], _, _ => .result _
  | e :: rest, hnames, hsound => by
    rw [entryStatements] at hnames
    obtain ⟨he, hrest⟩ := List.forall_mem_cons.mp hsound
    rw [entriesWritten, readEntries]
    exact (readEntry_reports e hnames.left he).bind fun _ =>
      (readEntries_reports rest hnames.right hrest).keep fun _ => .result _

theorem readAlternatives_reports (default : Option (List Node)) : ∀ es : List Entry,
    NamesOnly Q (entryStatements es) → (∀ e ∈ es, e.Sound) →
      Reports s.template P (entriesWritten es) (readAlternatives s default es)
  | [], _, _ => .result _
  | .mk line next tokens children alternative :: rest, hnames, hsound => by
    rw [entryStatements, Entry.statements] at hnames
    obtain ⟨⟨silent, inside, otherwise, -⟩, hrest⟩ := List.forall_mem_cons.mp hsound
    have hchildren := readEntries_reports children hnames.left.tail.left inside
    have helse := refuseElseInCase_reports (P := P) (s := s) otherwise
    have hlater (default : Option (List Node)) :=
      readAlternatives_reports default rest hnames.right hrest
    rw [entriesWritten, Entry.written, List.append_assoc, List.append_assoc,
      readAlternatives.eq_def]
    dsimp only
    split
    · rw [silent rfl]
      exact helse.bind fun _ => hlater default
    · next value more =>
      exact (check_reports (.compileText value) line).bind fun _ =>
        (check_reports (.endOfLine more) line).bind fun _ => hchildren.bind fun _ =>
        helse.bind fun _ => (hlater default).keep fun _ => .result _
    · next more =>
      -- Whether a default was met before only decides if this one fails first.
      have hdefault : Reports s.template P
          (writtenAt line more ++ (entriesWritten children ++
            (alternativeWritten alternative ++ entriesWritten rest)))
          (do s.check line (endOfLine more)
              let body ← readEntries s children
              refuseElseInCase s alternative
              readAlternatives s (some body) rest) :=
        (check_reports (.endOfLine more) line).bind fun _ => hchildren.bind fun body =>
          helse.bind fun _ => hlater (some body)
      cases default with
      | none => exact hdefault
      | some nodes =>
        have hsecond : Reports s.template P [] (s.fail line .secondDefault : Building Unit) :=
          .fail rfl
        exact hsecond.bind fun _ => hdefault
    · exact .fail rfl

theorem readBranches_reports : ∀ alternative : Option Entry,
    NamesOnly Q (alternativeStatements alternative) → (∀ e ∈ alternative, e.Sound) →
      Reports s.template P (alternativeWritten alternative) (readBranches s alternative)
  | none, _, _ => .result _
  | some (.mk line next tokens children alternative), hnames, hsound => by
    rw [alternativeStatements, Entry.statements] at hnames
    obtain ⟨-, inside, -, behind⟩ := hsound _ rfl
    have hchildren := readEntries_reports children hnames.tail.left inside
    rw [alternativeWritten, Entry.written, readBranches.eq_def]
    dsimp only
    split
    · next test more =>
      exact (check_reports (.compileText test) line).bind fun _ =>
        (check_reports (.endOfLine more) line).bind fun _ => hchildren.bind fun _ =>
        (readBranches_reports alternative hnames.tail.right behind).keep fun _ => .result _
    · next more =>
      exact (check_reports (.endOfLine more) line).bind fun _ => hchildren.bind fun _ =>
        (refuseElse_reports alternative).keep fun _ => .result _
    · exact .fail rfl

theorem readFallback_reports : ∀ alternative : Option Entry,
    NamesOnly Q (alternativeStatements alternative) → (∀ e ∈ alternative, e.Sound) →
      Reports s.template P (alternativeWritten alternative) (readFallback s alternative)
  | none, _, _ => .result _
  | some (.mk line next tokens children alternative), hnames, hsound => by
    rw [alternativeStatements, Entry.statements] at hnames
    obtain ⟨-, inside, -, -⟩ := hsound _ rfl
    have hchildren := readEntries_reports children hnames.tail.left inside
    rw [alternativeWritten, Entry.written, readFallback.eq_def]
    dsimp only
    split
    · next more =>
      exact (check_reports (.endOfLine more) line).bind fun _ => hchildren.bind fun _ =>
        (refuseElse_reports alternative).keep fun _ => .result _
    · exact .fail rfl

end

end

/-! ### Templates -/

theorem entriesWritten_append (es more : List Entry) :
    entriesWritten (es ++ more) = entriesWritten es ++ entriesWritten more := by
  induction es with
  | nil => rfl
  | cons e es ih => rw [List.cons_append, entriesWritten, ih, entriesWritten, List.append_assoc]

/-- The entries of some lines hold the expressions of these lines. What a line takes from the
entries behind it comes first there. -/
theorem entriesWritten_arrange (finish : Nat) (lines : List Line) :
    entriesWritten ((Entry.arrange finish lines).map (·.2)) =
      lines.flatMap fun l => writtenAt l.position.line l.tokens := by
  induction lines with
  | nil => rfl
  | cons l rest ih =>
    obtain ⟨next, alternative, siblings, heq, -, hsplit⟩ := arrange_cons finish l rest
    have hbehind : entriesWritten
        (((Entry.arrange finish rest).dropWhile fun e => l.depth < e.1).map (·.2)) =
        alternativeWritten alternative ++ entriesWritten (siblings.map (·.2)) := by
      rw [hsplit]
      cases alternative <;> rfl
    rw [List.flatMap_cons, ← ih,
      ← List.takeWhile_append_dropWhile (p := fun e : Nat × Entry => decide (l.depth < e.1))
        (l := Entry.arrange finish rest), List.map_append, entriesWritten_append, hbehind, heq,
      List.map_cons, entriesWritten, Entry.written, List.append_assoc, List.append_assoc]

theorem entriesWritten_forest (layout : Layout) :
    entriesWritten (Entry.forest layout) = layout.written :=
  entriesWritten_arrange layout.finish.line layout.lines

theorem entriesWritten_dropWhile_isVacant (es : List Entry) :
    entriesWritten (es.dropWhile Entry.isVacant) = entriesWritten es := by
  induction es with
  | nil => rfl
  | cons e es ih =>
    by_cases hvacant : e.isVacant = true
    · rw [List.dropWhile_cons_of_pos hvacant, ih]
      -- A line that says nothing holds no expressions, and nothing belongs to it.
      unfold Entry.isVacant at hvacant
      split at hvacant
      · rfl
      · cases hvacant
    · rw [List.dropWhile_cons_of_neg hvacant]

/-- **A template fails because of the first of its expressions that cannot be read**, if it fails
because of an expression, or for what the templates fail that it names. -/
theorem failsOnly_blames {P : Error → Prop} {s : Surroundings} {layout : Layout}
    (hsound : ∀ e ∈ Entry.forest layout, e.Sound)
    (hnames : layout.NamesOnly (fun target => ∀ line, FailsOnly P (s.includeNodes line target))
      (fun target => ∀ line, FailsOnly P fun asked =>
        blaming s.template line (.noTemplate (Reference.resolve s.template target))
          (s.load (Reference.resolve s.template target) asked))) :
    FailsOnly (fun e => P e ∨ Blames s.template layout.written e) (readDocument s layout) := by
  have hentries {es : List Entry} (hsub : es ⊆ (Entry.forest layout).dropWhile Entry.isVacant) :
      Reports s.template P (entriesWritten es) (readEntries s es) :=
    readEntries_reports (fun _ h => h) es (hnames.entries hsub) fun e he =>
      hsound e ((List.dropWhile_sublist _).subset (hsub he))
  have hwritten := (entriesWritten_dropWhile_isVacant _).trans (entriesWritten_forest layout)
  rw [readDocument]
  split
  · exact .result _
  · split
    · exact (Reports.fail rfl).failed
    · split
      · next line next target rest children alternative entries hforest =>
        -- What the template holds itself is read before the one that it extends.
        have hown : Reports s.template P layout.written (do
            s.check line (endOfLine rest)
            refuseChildren s children
            refuseElse s alternative
            readEntries s entries) := by
          rw [hforest, entriesWritten, Entry.written, List.append_assoc,
            List.append_assoc] at hwritten
          rw [← hwritten]
          exact (check_reports (.endOfLine rest) line).bind fun _ =>
            (refuseChildren_reports children).bind fun _ =>
            (refuseElse_reports alternative).bind fun _ => hentries (by
              rw [hforest]
              exact List.subset_cons_self _ _)
        rw [readDerived_eq]
        exact (failsOnly_collecting hown.failed).bind fun own =>
          ((hnames.base hforest line).mono fun _ => .inl).bind fun base => .result _
      · exact failsOnly_collecting (hwritten ▸ hentries (List.Subset.refl _)).failed

end Trellis
