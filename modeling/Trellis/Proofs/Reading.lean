import Trellis.Document.Resolution
import Trellis.Proofs.Outline
import Trellis.Proofs.Wording

/-!
# `Trellis.Proofs.Reading`: reading in two surroundings

The reader of a template touches the outside only where a statement includes another
template. Everything else it does is put together from a few steps: to give something
back, to fail, to go on behind another step, and to collect mixins. So a relation between
two readings that these steps respect (`Respects`) holds between the readings of the same
entries in two surroundings, as soon as it holds between what the two make of each
include statement. That is `readEntries_related`, an induction over the outline with one
case for each function of the reader.

The two need not agree on every include statement, but only on those that stand in the entries
(`NamesOnly`). And the reader fails by itself only for local faults, so nothing else has to be
respected.

`readDocument_related` goes on to whole templates, which may extend another one. There a
relation between askings is needed, too (`RespectsAsking`).
-/

set_option autoImplicit false

namespace Trellis

open Source

/-- A relation between readings that the steps of the reader respect. -/
structure Respects (R : ∀ {α : Type}, Building α → Building α → Prop) : Prop where
  pure {α : Type} (x : α) : R (pure x) (pure x)
  fail {α : Type} (template : String) (line : Nat) {fault : ParseFault} (h : fault.IsLocal) :
    R (throw (.parse template line fault) : Building α) (throw (.parse template line fault))
  addMixins (mixins : Table Mixin) : R (addMixins mixins) (addMixins mixins)
  bind {α β : Type} {a a' : Building α} {k k' : α → Building β} :
    R a a' → (∀ x, R (k x) (k' x)) → R (a >>= k) (a' >>= k')

/-- Two surroundings of one template that make related things of a statement that includes one
of some targets. -/
structure Surroundings.Related (R : ∀ {α : Type}, Building α → Building α → Prop)
    (Q : String → Prop) (s s' : Surroundings) : Prop where
  template : s'.template = s.template
  includeNodes (line : Nat) (target : String) (h : Q target) :
    R (s.includeNodes line target) (s'.includeNodes line target)

/-- Parts of a line that are related one by one. -/
structure Parts.Related (R : ∀ {α : Type}, Building α → Building α → Prop)
    (p p' : Parts) : Prop where
  noChildren : R p.noChildren p'.noChildren
  children : R p.children p'.children
  alternatives : R p.alternatives p'.alternatives
  branches : R p.branches p'.branches
  fallback : R p.fallback p'.fallback
  noElse : R p.noElse p'.noElse

/-! ### Statements of an outline -/

mutual

/-- The tokens of an entry, and of the entries that belong to it. -/
def Entry.statements : Entry → List (List Token)
  | .mk _ _ tokens children alternative =>
    tokens :: (entryStatements children ++ alternativeStatements alternative)

/-- The tokens of some entries, line by line. -/
def entryStatements : List Entry → List (List Token)
  | [] => []
  | e :: rest => e.statements ++ entryStatements rest

/-- The tokens of an `else` line and what belongs to it. -/
def alternativeStatements : Option Entry → List (List Token)
  | none => []
  | some e => e.statements

end

theorem mem_entryStatements {ts : List Token} {es : List Entry} :
    ts ∈ entryStatements es ↔ ∃ e ∈ es, ts ∈ e.statements := by
  induction es with
  | nil => simp [entryStatements]
  | cons e rest ih => simp [entryStatements, ih]

/-- Some lines include nothing but targets of a kind. -/
def NamesOnly (Q : String → Prop) (lines : List (List Token)) : Prop :=
  ∀ ts ∈ lines, ∀ target, .including target ∈ ts → Q target

namespace NamesOnly

variable {Q : String → Prop} {ts : List Token} {lines more : List (List Token)}

theorem mono (h : NamesOnly Q lines) (hsub : more ⊆ lines) : NamesOnly Q more :=
  fun ts hts => h ts (hsub hts)

theorem left (h : NamesOnly Q (lines ++ more)) : NamesOnly Q lines :=
  h.mono (List.subset_append_left _ _)

theorem right (h : NamesOnly Q (lines ++ more)) : NamesOnly Q more :=
  h.mono (List.subset_append_right _ _)

theorem tail (h : NamesOnly Q (ts :: lines)) : NamesOnly Q lines :=
  h.mono (List.subset_cons_self _ _)

end NamesOnly

/-- What a statement is made of is related when its parts are, and what it includes is. -/
theorem headNodes_related {R : ∀ {α : Type}, Building α → Building α → Prop} (hR : Respects @R)
    {Q : String → Prop} {s s' : Surroundings} {line line' : Nat}
    (hincludes : ∀ target, Q target → R (s.includeNodes line target) (s'.includeNodes line' target))
    {p p' : Parts} (hp : p.Related @R p') {h : Head} (hh : h.Targets Q) :
    R (h.nodes s line p) (h.nodes s' line' p') := by
  induction h with
  | leaf n =>
    exact hR.bind hp.noChildren fun _ => hR.bind hp.noElse fun _ => hR.pure _
  | including target =>
    exact hR.bind hp.noChildren fun _ => hR.bind (hincludes target hh) fun _ =>
      hR.bind hp.noElse fun _ => hR.pure _
  | tag name attributes content =>
    exact hR.bind hp.children fun _ => hR.bind hp.noElse fun _ => hR.pure _
  | call name arguments =>
    exact hR.bind hp.children fun _ => hR.bind hp.noElse fun _ => hR.pure _
  | tagAround name attributes inner ih =>
    exact hR.bind (ih hh) fun _ => hR.pure _
  | callAround name arguments inner ih =>
    exact hR.bind (ih hh) fun _ => hR.pure _
  | cond test negated =>
    exact hR.bind hp.children fun _ => hR.bind hp.branches fun _ => hR.pure _
  | each item key collection =>
    exact hR.bind hp.children fun _ => hR.bind hp.fallback fun _ => hR.pure _
  | caseOf subject =>
    exact hR.bind hp.alternatives fun _ => hR.bind hp.noElse fun _ => hR.pure _
  | mixin name parameters rest =>
    exact hR.bind hp.children fun _ => hR.bind (hR.addMixins _) fun _ =>
      hR.bind hp.noElse fun _ => hR.pure _
  | block name mode =>
    exact hR.bind hp.children fun _ => hR.bind hp.noElse fun _ => hR.pure _

/-! ### Entries -/

section
variable {R : ∀ {α : Type}, Building α → Building α → Prop} (hR : Respects @R)
  {Q : String → Prop} {s s' : Surroundings} (hs : s.Related @R Q s')
include hR hs

theorem fail_related {α : Type} (line : Nat) {fault : ParseFault} (h : fault.IsLocal) :
    R (s.fail line fault : Building α) (s'.fail line fault) := by
  unfold Surroundings.fail
  rw [hs.template]
  exact hR.fail _ _ h

theorem check_related {α : Type} (line : Nat) {r : Except ParseFault α} (h : FailsLocally r) :
    R (s.check line r) (s'.check line r) := by
  cases r with
  | ok x => exact hR.pure x
  | error fault => exact fail_related hR hs line (h.faults fault rfl)

theorem refuseChildren_related (es : List Entry) :
    R (refuseChildren s es) (refuseChildren s' es) := by
  cases es with
  | nil => exact hR.pure ()
  | cons e es => exact fail_related hR hs _ nofun

theorem refuseElse_related (alternative : Option Entry) :
    R (refuseElse s alternative) (refuseElse s' alternative) := by
  cases alternative with
  | none => exact hR.pure ()
  | some e => exact fail_related hR hs _ ParseFault.isLocal_strayElse

theorem refuseElseInCase_related (alternative : Option Entry) :
    R (refuseElseInCase s alternative) (refuseElseInCase s' alternative) := by
  cases alternative with
  | none => exact hR.pure ()
  | some e =>
    cases ht : e.tokens with
    | nil =>
      simp only [refuseElseInCase, ht]
      exact hR.pure ()
    | cons t rest =>
      simp only [refuseElseInCase, ht]
      exact fail_related hR hs _ nofun

set_option linter.unusedSectionVars false in
mutual

/-- **The reader respects the relation**, one statement for each of its functions. -/
theorem readEntry_related : ∀ e : Entry, NamesOnly Q e.statements → R (readEntry s e) (readEntry s' e)
  | .mk line next tokens children alternative, hnames => by
    rw [Entry.statements] at hnames
    have hp : Parts.Related @R
        { noChildren := refuseChildren s children
          children := readEntries s children
          alternatives := readAlternatives s none children
          branches := readBranches s alternative
          fallback := readFallback s alternative
          noElse := refuseElse s alternative }
        { noChildren := refuseChildren s' children
          children := readEntries s' children
          alternatives := readAlternatives s' none children
          branches := readBranches s' alternative
          fallback := readFallback s' alternative
          noElse := refuseElse s' alternative } :=
      { noChildren := refuseChildren_related hR hs children
        children := readEntries_related children hnames.tail.left
        alternatives := readAlternatives_related none children hnames.tail.left
        branches := readBranches_related alternative hnames.tail.right
        fallback := readFallback_related alternative hnames.tail.right
        noElse := refuseElse_related hR hs alternative }
    have hline := hnames tokens List.mem_cons_self
    rw [readEntry.eq_def, readEntry.eq_def]
    dsimp only
    split
    · exact hR.bind (refuseElse_related hR hs alternative) fun _ => hR.pure _
    · have hread := Head.readsLocally_read tokens
      split
      · exact fail_related hR hs _ nofun
      · next fault hfault _ => exact fail_related hR hs _ (hread.refusals.faults _ ‹_›)
      · next head hhead =>
        exact headNodes_related hR (hs.includeNodes line) hp ((hread.targets head hhead).mono hline)

theorem readEntries_related : ∀ es : List Entry, NamesOnly Q (entryStatements es) →
    R (readEntries s es) (readEntries s' es)
  | [], _ => hR.pure _
  | e :: rest, hnames => by
    rw [entryStatements] at hnames
    rw [readEntries, readEntries]
    exact hR.bind (readEntry_related e hnames.left) fun _ =>
      hR.bind (readEntries_related rest hnames.right) fun _ => hR.pure _

theorem readAlternatives_related (default : Option (List Node)) : ∀ es : List Entry,
    NamesOnly Q (entryStatements es) →
      R (readAlternatives s default es) (readAlternatives s' default es)
  | [], _ => hR.pure _
  | .mk line next tokens children alternative :: rest, hnames => by
    rw [entryStatements, Entry.statements] at hnames
    have hchildren := hnames.left.tail.left
    rw [readAlternatives.eq_def, readAlternatives.eq_def]
    dsimp only
    split
    · exact hR.bind (refuseElseInCase_related hR hs alternative) fun _ =>
        readAlternatives_related default rest hnames.right
    · exact hR.bind (check_related hR hs _ (.compileText _)) fun _ =>
        hR.bind (check_related hR hs _ (.endOfLine _)) fun _ =>
        hR.bind (readEntries_related children hchildren) fun _ =>
        hR.bind (refuseElseInCase_related hR hs alternative) fun _ =>
        hR.bind (readAlternatives_related default rest hnames.right) fun _ => hR.pure _
    · next more =>
      -- Whether a default was met before only decides if this one fails first.
      have hrest : R
          (do s.check line (endOfLine more)
              let body ← readEntries s children
              refuseElseInCase s alternative
              readAlternatives s (some body) rest)
          (do s'.check line (endOfLine more)
              let body ← readEntries s' children
              refuseElseInCase s' alternative
              readAlternatives s' (some body) rest) :=
        hR.bind (check_related hR hs _ (.endOfLine _)) fun _ =>
          hR.bind (readEntries_related children hchildren) fun body =>
          hR.bind (refuseElseInCase_related hR hs alternative) fun _ =>
          readAlternatives_related (some body) rest hnames.right
      cases default with
      | none => exact hrest
      | some nodes => exact hR.bind (fail_related hR hs _ nofun) fun _ => hrest
    · exact fail_related hR hs _ nofun

theorem readBranches_related : ∀ alternative : Option Entry,
    NamesOnly Q (alternativeStatements alternative) →
      R (readBranches s alternative) (readBranches s' alternative)
  | none, _ => hR.pure _
  | some (.mk line next tokens children alternative), hnames => by
    rw [alternativeStatements, Entry.statements] at hnames
    have hchildren := hnames.tail.left
    rw [readBranches.eq_def, readBranches.eq_def]
    dsimp only
    split
    · exact hR.bind (check_related hR hs _ (.compileText _)) fun _ =>
        hR.bind (check_related hR hs _ (.endOfLine _)) fun _ =>
        hR.bind (readEntries_related children hchildren) fun _ =>
        hR.bind (readBranches_related alternative hnames.tail.right) fun _ => hR.pure _
    · exact hR.bind (check_related hR hs _ (.endOfLine _)) fun _ =>
        hR.bind (readEntries_related children hchildren) fun _ =>
        hR.bind (refuseElse_related hR hs alternative) fun _ => hR.pure _
    · exact fail_related hR hs _ ParseFault.isLocal_strayElse

theorem readFallback_related : ∀ alternative : Option Entry,
    NamesOnly Q (alternativeStatements alternative) →
      R (readFallback s alternative) (readFallback s' alternative)
  | none, _ => hR.pure _
  | some (.mk line next tokens children alternative), hnames => by
    rw [alternativeStatements, Entry.statements] at hnames
    rw [readFallback.eq_def, readFallback.eq_def]
    dsimp only
    split
    · exact hR.bind (check_related hR hs _ (.endOfLine _)) fun _ =>
        hR.bind (readEntries_related children hnames.tail.left) fun _ =>
        hR.bind (refuseElse_related hR hs alternative) fun _ => hR.pure _
    · exact fail_related hR hs _ ParseFault.isLocal_strayElse

end

end

/-! ### Templates -/

/-- The tokens of the entries of a template are those of its lines. -/
theorem statements_arrange {finish : Nat} {lines : List Line} {a : Nat × Entry}
    (ha : a ∈ Entry.arrange finish lines) {ts : List Token} (hts : ts ∈ a.2.statements) :
    ∃ l ∈ lines, l.tokens = ts := by
  induction lines generalizing a ts with
  | nil => cases ha
  | cons l rest ih =>
    obtain ⟨next, alternative, siblings, heq, -, hsplit⟩ := arrange_cons finish l rest
    have hlater {b : Nat × Entry} {ts : List Token} (hb : b ∈ Entry.arrange finish rest)
        (hts : ts ∈ b.2.statements) : ∃ l' ∈ l :: rest, l'.tokens = ts := by
      obtain ⟨l', hl', heq⟩ := ih hb hts
      exact ⟨l', List.mem_cons_of_mem l hl', heq⟩
    have hbehind {b : Nat × Entry}
        (hb : b ∈ (alternative.toList.map fun e => (l.depth, e)) ++ siblings) :
        b ∈ Entry.arrange finish rest := by
      rw [← hsplit] at hb
      exact (List.dropWhile_sublist _).subset hb
    rw [heq] at ha
    rcases List.mem_cons.mp ha with rfl | ha
    · rw [Entry.statements] at hts
      rcases List.mem_cons.mp hts with rfl | hts
      · exact ⟨l, List.mem_cons_self, rfl⟩
      · rcases List.mem_append.mp hts with hts | hts
        · obtain ⟨e, he, hts⟩ := mem_entryStatements.mp hts
          obtain ⟨b, hb, rfl⟩ := List.mem_map.mp he
          exact hlater ((List.takeWhile_sublist _).subset hb) hts
        · cases alternative with
          | none => cases hts
          | some e => exact hlater (hbehind (b := (l.depth, e)) (by simp)) hts
    · exact hlater (hbehind (List.mem_append_right _ ha)) hts

/-- A template includes nothing but targets of a kind, and extends nothing but targets of
another kind. -/
structure Source.Layout.NamesOnly (Q B : String → Prop) (layout : Layout) : Prop where
  including : ∀ l ∈ layout.lines, ∀ target, .including target ∈ l.tokens → Q target
  extending : ∀ l ∈ layout.lines, ∀ target, .extending target ∈ l.tokens → B target

theorem Source.Layout.namesOnly_true (layout : Layout) :
    layout.NamesOnly (fun _ => True) (fun _ => True) :=
  ⟨fun _ _ _ _ => trivial, fun _ _ _ _ => trivial⟩

/-- The entries that are read stand on lines of the template. -/
theorem exists_line_of_forest {layout : Layout} {ts : List Token} {es : List Entry}
    (hsub : es ⊆ (Entry.forest layout).dropWhile Entry.isVacant) (hts : ts ∈ entryStatements es) :
    ∃ l ∈ layout.lines, l.tokens = ts := by
  obtain ⟨e, he, hts⟩ := mem_entryStatements.mp hts
  obtain ⟨a, ha, rfl⟩ := List.mem_map.mp ((List.dropWhile_sublist _).subset (hsub he))
  exact statements_arrange ha hts

namespace Source.Layout.NamesOnly

variable {Q B : String → Prop} {layout : Layout}

theorem entries (hnames : layout.NamesOnly Q B) {es : List Entry}
    (hsub : es ⊆ (Entry.forest layout).dropWhile Entry.isVacant) :
    Trellis.NamesOnly Q (entryStatements es) := by
  intro ts hts target htarget
  obtain ⟨l, hl, rfl⟩ := exists_line_of_forest hsub hts
  exact hnames.including l hl target htarget

/-- What the first statement extends is named on its line. -/
theorem base (hnames : layout.NamesOnly Q B) {line next : Nat} {target : String}
    {rest : List Token} {children entries : List Entry} {alternative : Option Entry}
    (hforest : (Entry.forest layout).dropWhile Entry.isVacant =
      .mk line next (.extending target :: rest) children alternative :: entries) : B target := by
  have hts : Token.extending target :: rest ∈ entryStatements
      (.mk line next (.extending target :: rest) children alternative :: entries) :=
    mem_entryStatements.mpr ⟨_, List.mem_cons_self, List.mem_cons_self⟩
  obtain ⟨l, hl, htokens⟩ := exists_line_of_forest (by rw [hforest]; exact List.Subset.refl _) hts
  refine hnames.extending l hl target ?_
  rw [htokens]
  exact List.mem_cons_self

end Source.Layout.NamesOnly

/-- A result that is not there, told as a fault of the template that asked for it. -/
def blaming {σ α : Type} (template : String) (line : Nat) (fault : ParseFault) :
    EStateM.Result Error σ α → EStateM.Result Error σ α
  | .error (.notFound _) s => .error (.parse template line fault) s
  | r => r

theorem readDerived_eq (s : Surroundings) (line : Nat) (target : String) (rest : List Token)
    (children : List Entry) (alternative : Option Entry) (entries : List Entry) :
    readDerived s line target rest children alternative entries = (do
      let own ← collecting do
        s.check line (endOfLine rest)
        refuseChildren s children
        refuseElse s alternative
        readEntries s entries
      let name := Reference.resolve s.template target
      let base ← fun asked => blaming s.template line (.noTemplate name) (s.load name asked)
      return base.extend own.nodes own.mixins) := by
  rw [readDerived]
  congr 1
  funext own
  dsimp only
  congr 1
  funext asked
  cases s.load (Reference.resolve s.template target) asked with
  | ok base asked => rfl
  | error e asked => cases e <;> rfl

/-- Relations between readings and between askings that the steps of the reader respect. -/
structure RespectsAsking (R : ∀ {α : Type}, Building α → Building α → Prop)
    (A : ∀ {α : Type}, Asking α → Asking α → Prop) : Prop where
  reading : Respects @R
  pure {α : Type} (x : α) : A (pure x) (pure x)
  fail {α : Type} (template : String) (line : Nat) {fault : ParseFault} (h : fault.IsLocal) :
    A (throw (.parse template line fault) : Asking α) (throw (.parse template line fault))
  bind {α β : Type} {a a' : Asking α} {k k' : α → Asking β} :
    A a a' → (∀ x, A (k x) (k' x)) → A (a >>= k) (a' >>= k')
  collecting {b b' : Building (List Node)} : R b b' → A (collecting b) (collecting b')

/-- Two surroundings of one template that make related things of a statement that includes one
of some targets, or extends one of some others. -/
structure Surroundings.RelatedAsking (R : ∀ {α : Type}, Building α → Building α → Prop)
    (A : ∀ {α : Type}, Asking α → Asking α → Prop) (Q B : String → Prop)
    (s s' : Surroundings) : Prop extends s.Related @R Q s' where
  base (line : Nat) (target : String) (h : B target) :
    A (fun asked => blaming s.template line (.noTemplate (Reference.resolve s.template target))
        (s.load (Reference.resolve s.template target) asked))
      (fun asked => blaming s'.template line (.noTemplate (Reference.resolve s'.template target))
        (s'.load (Reference.resolve s'.template target) asked))

/-- **The reader respects the relations**, as far as whole templates go. -/
theorem readDocument_related {R : ∀ {α : Type}, Building α → Building α → Prop}
    {A : ∀ {α : Type}, Asking α → Asking α → Prop} (hA : RespectsAsking @R @A)
    {Q B : String → Prop} {s s' : Surroundings} (hs : s.RelatedAsking @R @A Q B s')
    {layout : Layout} (hnames : layout.NamesOnly Q B) :
    A (readDocument s layout) (readDocument s' layout) := by
  have hR := hA.reading
  have hrelated := hs.toRelated
  rw [readDocument, readDocument, hs.template]
  split
  · exact hA.pure _
  · split
    · exact hA.fail _ _ nofun
    · split
      · next line next target rest children alternative entries hforest =>
        have htarget := hnames.base hforest
        rw [readDerived_eq, readDerived_eq]
        refine hA.bind (hA.collecting ?_) fun own =>
          hA.bind (hs.base line target htarget) fun base => hA.pure _
        exact hR.bind (check_related hR hrelated _ (.endOfLine _)) fun _ =>
          hR.bind (refuseChildren_related hR hrelated _) fun _ =>
          hR.bind (refuseElse_related hR hrelated _) fun _ =>
          readEntries_related hR hrelated _ (hnames.entries (by
            rw [hforest]
            exact List.subset_cons_self _ _))
      · exact hA.collecting
          (readEntries_related hR hrelated _ (hnames.entries (List.Subset.refl _)))

end Trellis
