import Mathlib.Logic.Relation
import Trellis.Proofs.Resolution

/-!
# `Trellis.Proofs.Chain`: a chain of templates of which each extends the next

A document is put together while templates are under way: the one that was asked for, what
it extends, what that extends, and so on. What is under way matters, as a template that is
under way cannot be loaded once more. So the statements of a template in the middle of a
chain are not read under the same conditions as those of the same template by itself.

This module shows that it makes no difference. `Library.Says` is what a template says by
itself, read as if nothing else were under way, and `Library.Chain` is a chain of templates
that say something by themselves.

* `load_ne_ok_of_reaches`: what leads to a template under way cannot be loaded. So while a
  template of the chain is read, none of those in front of it is loaded.
* `resolve_leads`: what can be resolved while some templates are under way can be resolved
  while others are, if those others could not be loaded on the way.
* `document_of_chain`: the document of the first template of a chain is what the last one
  says, under the blocks and mixins of all others in turn. That it exists is a part of this.

`Leads` is the relation between computations that this rests on. The steps of the reader
respect it, so `Trellis.Proofs.Reading` carries it to whole templates.
-/

set_option autoImplicit false

namespace Trellis

open Source

/-! ### What a template says itself -/

/-- The template that another one extends. -/
def extended? (template : String) (layout : Layout) : Option String :=
  match (Entry.forest layout).dropWhile Entry.isVacant with
  | .mk _ _ (.extending target :: _) _ _ :: _ => some (Reference.resolve template target)
  | _ => none

/-- The nodes and mixins of a template, as its own statements give them. -/
def readOwn (s : Surroundings) (layout : Layout) : Asking Document :=
  match layout.lines.head? with
  | none => pure ⟨[], []⟩
  | some first =>
    if first.depth > 0 then throw (.parse s.template first.position.line .strayIndentation)
    else
      match (Entry.forest layout).dropWhile Entry.isVacant with
      | .mk line _ (.extending _ :: rest) children alternative :: entries => collecting do
        s.check line (endOfLine rest)
        refuseChildren s children
        refuseElse s alternative
        readEntries s entries
      | entries => collecting (readEntries s entries)

/-- A template says something itself, and may extend what it names first. -/
def Surroundings.Completes (s : Surroundings) (base : Option String) (own : Document)
    (asked : List String) (d : Document) (asked' : List String) : Prop :=
  match base with
  | none => d = own ∧ asked' = asked
  | some name => ∃ parent, s.load name asked = .ok parent asked' ∧
      d = parent.extend own.nodes own.mixins

theorem of_blaming_eq_result {σ α : Type} {template : String} {line : Nat} {fault : ParseFault}
    {r : EStateM.Result Error σ α} {x : α} {p : σ}
    (h : blaming template line fault r = .ok x p) : r = .ok x p := by
  cases r with
  | ok y q => exact h
  | error e q => cases e <;> cases h

/-- A document is made of what its template says itself and of what it extends. -/
theorem readDocument_eq_ok_iff {s : Surroundings} {layout : Layout} {d : Document}
    {asked asked' : List String} :
    readDocument s layout asked = .ok d asked' ↔
      ∃ own between, readOwn s layout asked = .ok own between ∧
        s.Completes (extended? s.template layout) own between d asked' := by
  -- A template that extends no other is what it says itself.
  have hplain (a : Asking Document) : a asked = .ok d asked' ↔
      ∃ own between, a asked = .ok own between ∧ s.Completes none own between d asked' := by
    constructor
    · intro h
      exact ⟨d, asked', h, rfl, rfl⟩
    · rintro ⟨own, between, h, rfl, rfl⟩
      exact h
  unfold readDocument readOwn extended?
  cases hlines : layout.lines with
  | nil =>
    have hforest : Entry.forest layout = [] := by rw [Entry.forest, hlines]; rfl
    rw [hforest]
    exact hplain _
  | cons first others =>
    dsimp only [List.head?_cons]
    by_cases hdepth : first.depth > 0
    · rw [if_pos hdepth, if_pos hdepth]
      constructor
      · intro h
        cases h
      · rintro ⟨own, between, h, -⟩
        cases h
    · rw [if_neg hdepth, if_neg hdepth]
      rcases (Entry.forest layout).dropWhile Entry.isVacant with
        - | ⟨⟨line, next, tokens, children, alternative⟩, entries⟩
      · exact hplain _
      cases tokens with
      | nil => exact hplain _
      | cons t rest =>
        cases t with
        | extending target =>
          dsimp only
          rw [readDerived_eq]
          constructor
          · intro h
            obtain ⟨own, between, hown, h⟩ := of_bind_eq_result h
            obtain ⟨parent, last, hload, h⟩ := of_bind_eq_result h
            cases h
            exact ⟨own, between, hown, parent, of_blaming_eq_result hload, rfl⟩
          · rintro ⟨own, between, hown, parent, hload, rfl⟩
            refine bind_eq_result hown (bind_eq_result (x := parent) (p := between) ?_ rfl)
            rw [hload]
            rfl
        | _ => exact hplain _

/-! ### Success carries over -/

/-- Whenever the first computation succeeds, the second one does with the same result, from
every state that looks the same. -/
structure Leads {σ τ α : Type} (view : σ → τ) (a a' : EStateM Error σ α) : Prop where
  leads : ∀ p x p', a p = .ok x p' → ∀ q, view q = view p → ∃ q', view q' = view p' ∧ a' q = .ok x q'

theorem Leads.bind {σ τ α β : Type} {view : σ → τ} {a a' : EStateM Error σ α}
    {k k' : α → EStateM Error σ β} (ha : Leads view a a') (hk : ∀ x, Leads view (k x) (k' x)) :
    Leads view (a >>= k) (a' >>= k') where
  leads p y p' h q hq := by
    obtain ⟨x, between, hx, h⟩ := of_bind_eq_result h
    obtain ⟨q₁, hq₁, hx'⟩ := ha.leads p x between hx q hq
    obtain ⟨q₂, hq₂, h'⟩ := (hk x).leads between y p' h q₁ hq₁
    exact ⟨q₂, hq₂, bind_eq_result hx' h'⟩

/-- The steps of the reader respect the relation. -/
theorem respects_leads : Respects (fun a a' => Leads Progress.mixins a a') where
  pure x := ⟨fun p y p' h q hq => by
    cases h
    exact ⟨q, hq, rfl⟩⟩
  fail _ _ _ _ := ⟨fun p y p' h q hq => by cases h⟩
  addMixins mixins := ⟨fun p y p' h q hq => by
    cases h
    exact ⟨{ q with mixins := Table.insertAll mixins q.mixins },
      congrArg (Table.insertAll mixins) hq, rfl⟩⟩
  bind ha hk := ha.bind hk

/-- A computation that asks for sources does not look at the names that were asked for. -/
abbrev AskLeads {α : Type} (a a' : Asking α) : Prop := Leads (fun _ => ()) a a'

/-- Two surroundings of one template, the second of which fetches and loads all that the
first does. -/
structure Surroundings.Lead (s s' : Surroundings) : Prop where
  template : s'.template = s.template
  fetch (name : String) : AskLeads (s.fetch name) (s'.fetch name)
  load (name : String) : AskLeads (s.load name) (s'.load name)

theorem orMissing_leads {α : Type} {s s' : Surroundings} (line : Nat) (fault : ParseFault)
    {a a' : Asking α} (h : AskLeads a a') :
    Leads Progress.mixins (s.orMissing line fault a) (s'.orMissing line fault a') where
  leads p x p' hx q hq := by
    rw [orMissing_eq, asking_eq] at hx ⊢
    have hx : resuming p (a p.asked) = .ok x p' := of_blaming_eq_result hx
    cases ha : a p.asked with
    | error e asked =>
      rw [ha] at hx
      cases hx
    | ok y asked =>
      rw [ha] at hx
      cases hx
      obtain ⟨asked', -, ha'⟩ := h.leads _ _ _ ha q.asked rfl
      refine ⟨{ q with asked := asked' }, hq, ?_⟩
      show blaming s'.template line fault (resuming q (a' q.asked)) = _
      rw [ha']
      rfl

section
variable {s s' : Surroundings}

theorem Surroundings.Lead.related (h : s.Lead s') :
    s.Related (fun a a' => Leads Progress.mixins a a') (fun _ => True) s' where
  template := h.template
  includeNodes line target _ := by
    have hR := respects_leads
    rw [includeNodes, includeNodes, h.template]
    split
    · exact hR.bind (orMissing_leads line _ (h.fetch _)) fun _ => hR.pure _
    · exact hR.bind (orMissing_leads line _ (h.load _)) fun _ => hR.bind (hR.addMixins _) fun _ => hR.pure _

theorem collecting_leads {b b' : Building (List Node)} (h : Leads Progress.mixins b b') :
    AskLeads (collecting b) (collecting b') where
  leads asked d asked' hd q _ := by
    rw [collecting_eq] at hd ⊢
    have hd : collected (b ⟨[], asked⟩) = .ok d asked' := hd
    cases hb : b ⟨[], asked⟩ with
    | error e p =>
      rw [hb] at hd
      cases hd
    | ok nodes p =>
      rw [hb] at hd
      cases hd
      obtain ⟨p', hp', hb'⟩ := h.leads _ _ _ hb ⟨[], q⟩ rfl
      refine ⟨p'.asked, rfl, ?_⟩
      show collected (b' ⟨[], q⟩) = _
      rw [hb']
      show EStateM.Result.ok (Document.mk nodes p'.mixins) p'.asked = _
      rw [show p'.mixins = p.mixins from hp']

theorem readOwn_leads (h : s.Lead s') (layout : Layout) :
    AskLeads (readOwn s layout) (readOwn s' layout) := by
  have hR := respects_leads
  rw [readOwn, readOwn, h.template]
  split
  · exact ⟨fun p x p' hx q _ => by cases hx; exact ⟨q, rfl, rfl⟩⟩
  · split
    · exact ⟨fun p x p' hx q _ => by cases hx⟩
    · split
      · exact collecting_leads <|
          hR.bind (check_related hR h.related _ (.endOfLine _)) fun _ =>
          hR.bind (refuseChildren_related hR h.related _) fun _ =>
          hR.bind (refuseElse_related hR h.related _) fun _ =>
          readEntries_related hR h.related _ fun _ _ _ _ => trivial
      · exact collecting_leads (readEntries_related hR h.related _ fun _ _ _ _ => trivial)

/-- What can be read to its end can also be read where all that it loads can be loaded. -/
theorem readDocument_leads (h : s.Lead s') (layout : Layout) :
    AskLeads (readDocument s layout) (readDocument s' layout) where
  leads p d p' hd q _ := by
    obtain ⟨own, between, hown, hcompletes⟩ := readDocument_eq_ok_iff.mp hd
    obtain ⟨q₁, -, hown'⟩ := (readOwn_leads h layout).leads _ _ _ hown q rfl
    cases hbase : extended? s.template layout with
    | none =>
      rw [hbase] at hcompletes
      obtain ⟨rfl, -⟩ := hcompletes
      refine ⟨q₁, rfl, readDocument_eq_ok_iff.mpr ⟨d, q₁, hown', ?_⟩⟩
      rw [h.template, hbase]
      exact ⟨rfl, rfl⟩
    | some base =>
      rw [hbase] at hcompletes
      obtain ⟨parent, hload, rfl⟩ := hcompletes
      obtain ⟨q₂, -, hload'⟩ := (h.load base).leads _ _ _ hload q₁ rfl
      refine ⟨q₂, rfl, readDocument_eq_ok_iff.mpr ⟨own, q₁, hown', ?_⟩⟩
      rw [h.template, hbase]
      exact ⟨parent, hload', rfl⟩

end

/-! ### Templates under way -/

namespace Library

/-- A template has a source that names what it extends, if anything, and its own statements
make a document. They are read as if no other template were under way. -/
structure Says (l : Library) (name : String) (base : Option String) (own : Document) : Prop where
  read : ∃ source layout asked, l.source name = .ok source ∧ Layout.scan source = .ok layout ∧
    extended? name layout = base ∧
    readOwn ⟨name, l.ask, l.load l.names [name]⟩ layout [] = .ok own asked

/-- A template names another one as what it extends. -/
def Extends (l : Library) (name base : String) : Prop := ∃ own, l.Says name (some base) own

variable {l : Library}

theorem of_load_eq_result {unused under : List String} {name : String} {d : Document}
    {asked asked' : List String} (h : l.load unused under name asked = .ok d asked') :
    name ∉ under ∧ name ∈ unused ∧
      l.resolve (unused.erase name) under name asked = .ok d asked' := by
  unfold load at h
  split at h
  · cases h
  next hunder =>
  split at h
  · next hmem => exact ⟨hunder, hmem, h⟩
  · obtain ⟨_, _, -, h⟩ := of_bind_eq_result h
    cases h

theorem load_eq_ok_iff {unused under : List String} {name : String} {d : Document}
    {asked asked' : List String} : l.load unused under name asked = .ok d asked' ↔
      name ∉ under ∧ name ∈ unused ∧ l.resolve (unused.erase name) under name asked = .ok d asked' := by
  refine ⟨of_load_eq_result, fun ⟨hunder, hmem, h⟩ => ?_⟩
  unfold load
  rw [if_neg hunder, if_pos hmem]
  exact h

theorem resolve_eq_ok_iff {unused chain : List String} {name : String} {d : Document}
    {asked asked' : List String} :
    l.resolve unused chain name asked = .ok d asked' ↔
      ∃ source layout, l.source name = .ok source ∧ Layout.scan source = .ok layout ∧
        readDocument ⟨name, l.ask, l.load unused (chain ++ [name])⟩ layout (name :: asked) =
          .ok d asked' := by
  rw [resolve_eq]
  constructor
  · intro h
    obtain ⟨source, between, hsource, h⟩ := of_bind_eq_result h
    cases hs : l.source name with
    | error e =>
      rw [ask_of_missing hs] at hsource
      cases hsource
    | ok text =>
      rw [ask_of_source hs] at hsource
      cases hsource
      cases hscan : Layout.scan source with
      | error e =>
        rw [hscan] at h
        cases h
      | ok layout =>
        rw [hscan] at h
        exact ⟨source, layout, rfl, hscan, h⟩
  · rintro ⟨source, layout, hsource, hscan, h⟩
    refine bind_eq_result (ask_of_source hsource asked) ?_
    rw [hscan]
    exact h

/-- A name that leads to a template under way cannot be loaded: on the way that template
would be asked for again. -/
theorem load_ne_ok_of_reaches {name v : String} (h : Relation.TransGen l.Extends name v) :
    ∀ {unused under : List String}, v ∈ under → ∀ {asked asked' : List String} {d : Document},
      l.load unused under name asked ≠ .ok d asked' := by
  -- What is loaded goes on to load what it extends, with itself under way, too.
  have hnext {name base : String} (hextends : l.Extends name base) {unused under : List String}
      {asked asked' : List String} {d : Document}
      (hload : l.load unused under name asked = .ok d asked') :
      ∃ asked₁ asked₂ parent,
        l.load (unused.erase name) (under ++ [name]) base asked₁ = .ok parent asked₂ := by
    obtain ⟨own, source, layout, _, hsource, hscan, hbase, -⟩ := hextends
    obtain ⟨-, -, hresolve⟩ := of_load_eq_result hload
    obtain ⟨source', layout', hsource', hscan', hread⟩ := resolve_eq_ok_iff.mp hresolve
    cases hsource.symm.trans hsource'
    cases hscan.symm.trans hscan'
    obtain ⟨own', between, -, hcompletes⟩ := readDocument_eq_ok_iff.mp hread
    rw [show extended? name layout = some base from hbase] at hcompletes
    obtain ⟨parent, hparent, -⟩ := hcompletes
    exact ⟨_, _, _, hparent⟩
  induction h using Relation.TransGen.head_induction_on with
  | single hextends =>
    intro unused under hv asked asked' d hload
    obtain ⟨_, _, _, hbase⟩ := hnext hextends hload
    exact (of_load_eq_result hbase).1 (List.mem_append_left _ hv)
  | head hextends _ ih =>
    intro unused under hv asked asked' d hload
    obtain ⟨_, _, _, hbase⟩ := hnext hextends hload
    exact ih (List.mem_append_left _ hv) hbase

theorem ask_leads (l : Library) (name : String) : AskLeads (l.ask name) (l.ask name) where
  leads asked x asked' hx q _ := by
    cases hs : l.source name with
    | error e =>
      rw [ask_of_missing hs] at hx
      cases hx
    | ok text =>
      rw [ask_of_source hs] at hx
      cases hx
      exact ⟨_, rfl, ask_of_source hs q⟩

/-- None of some names can be loaded while a template is under way. -/
def Barred (l : Library) (pivot : String) (names : List String) : Prop :=
  ∀ name ∈ names, ∀ {unused under : List String}, pivot ∈ under →
    ∀ {asked asked' : List String} {d : Document}, l.load unused under name asked ≠ .ok d asked'

/-- All names of one list that are not under way are on another list, too. -/
def Keeps (unused unused' under : List String) : Prop :=
  ∀ n ∈ unused, n ∉ under → n ∈ unused'

/-- Taking off a name that is under way from then on loses no other one. -/
theorem Keeps.erase {unused unused' under : List String} (h : Keeps unused unused' under)
    (target : String) : Keeps unused (unused'.erase target) (under ++ [target]) := by
  intro n hn hnot
  rw [List.mem_append, not_or, List.mem_singleton] at hnot
  exact (List.mem_erase_of_ne hnot.2).mpr (h n hn hnot.1)

theorem Keeps.mono {unused less unused' under : List String} (h : Keeps unused unused' under)
    (hsub : less ⊆ unused) : Keeps less unused' under :=
  fun n hn => h n (hsub hn)

/-- What can be loaded with some templates under way can be loaded with others under way, as
long as those are among the first or could not be loaded in any case. This comes down to
resolving the name. -/
theorem load_leads {pivot target : String} {barred unused unused' under under' : List String}
    (hbarred : l.Barred pivot barred) (hpivot : pivot ∈ under)
    (hunder : ∀ n ∈ under', n ∈ under ∨ n ∈ barred) (hkeeps : Keeps unused unused' under')
    (hresolve : target ∈ unused → AskLeads (l.resolve (unused.erase target) under target)
      (l.resolve (unused'.erase target) under' target)) :
    AskLeads (l.load unused under target) (l.load unused' under' target) := by
  constructor
  intro asked d asked' hd q _
  obtain ⟨hnew, hmem, hd'⟩ := of_load_eq_result hd
  have hnot : target ∉ barred := fun hin => hbarred target hin hpivot hd
  have hnew' : target ∉ under' := by
    intro hin
    rcases hunder target hin with hin | hin
    · exact hnew hin
    · exact hnot hin
  have hmem' : target ∈ unused' := hkeeps target hmem hnew'
  rw [load, if_neg hnew', if_pos hmem']
  exact (hresolve hmem).leads _ _ _ hd' q rfl

/-- The same of resolving. The induction follows the first resolution, along which its list
of unused names gets shorter. -/
theorem resolve_leads {pivot : String} {barred : List String} (hbarred : l.Barred pivot barred)
    (unused chain : List String) (name : String) (hpivot : pivot ∈ chain ++ [name])
    {unused' chain' : List String}
    (hunder : ∀ n ∈ chain' ++ [name], n ∈ chain ++ [name] ∨ n ∈ barred)
    (hkeeps : Keeps unused unused' (chain' ++ [name])) :
    AskLeads (l.resolve unused chain name) (l.resolve unused' chain' name) := by
  have hlead : Surroundings.Lead ⟨name, l.ask, l.load unused (chain ++ [name])⟩
      ⟨name, l.ask, l.load unused' (chain' ++ [name])⟩ := by
    refine ⟨rfl, ask_leads l, fun target => ?_⟩
    refine load_leads hbarred hpivot hunder hkeeps fun hmem => ?_
    have hunder' : ∀ n ∈ chain' ++ [name] ++ [target],
        n ∈ chain ++ [name] ++ [target] ∨ n ∈ barred := by
      intro n hn
      rcases List.mem_append.mp hn with hn | hn
      · exact (hunder n hn).imp (List.mem_append_left _) id
      · exact .inl (List.mem_append_right _ hn)
    exact resolve_leads hbarred (unused.erase target) (chain ++ [name]) target
      (List.mem_append_left _ hpivot) hunder' ((hkeeps.erase target).mono List.erase_subset)
  constructor
  intro asked d asked' h q _
  obtain ⟨source, layout, hsource, hscan, hread⟩ := resolve_eq_ok_iff.mp h
  obtain ⟨q', -, hread'⟩ := (readDocument_leads hlead layout).leads _ _ _ hread (name :: q) rfl
  exact ⟨q', rfl, resolve_eq_ok_iff.mpr ⟨source, layout, hsource, hscan, hread'⟩⟩
termination_by unused.length
decreasing_by exact length_erase_lt hmem

/-- What a template says itself it also says while templates that lead to it are under way. -/
theorem Says.readOwn_eq {name : String} {base : Option String} {own : Document}
    (h : l.Says name base own) {unused chain : List String}
    (hkeeps : Keeps l.names unused (chain ++ [name]))
    (hchain : ∀ u ∈ chain, Relation.TransGen l.Extends u name) (asked : List String) :
    ∃ source layout asked', l.source name = .ok source ∧ Layout.scan source = .ok layout ∧
      extended? name layout = base ∧
      readOwn ⟨name, l.ask, l.load unused (chain ++ [name])⟩ layout asked =
        .ok own asked' := by
  obtain ⟨source, layout, _, hsource, hscan, hbase, hown⟩ := h.read
  have hbarred : l.Barred name chain :=
    fun u hu _ _ hunder _ _ _ => load_ne_ok_of_reaches (hchain u hu) hunder
  have hunder : ∀ n ∈ chain ++ [name], n ∈ [name] ∨ n ∈ chain :=
    fun n hn => (List.mem_append.mp hn).symm
  have hlead : Surroundings.Lead ⟨name, l.ask, l.load l.names [name]⟩
      ⟨name, l.ask, l.load unused (chain ++ [name])⟩ := by
    refine ⟨rfl, ask_leads l, fun target => ?_⟩
    refine load_leads hbarred (List.mem_singleton_self name) hunder hkeeps fun hmem => ?_
    have hunder' : ∀ n ∈ chain ++ [name] ++ [target], n ∈ [name] ++ [target] ∨ n ∈ chain := by
      intro n hn
      rcases List.mem_append.mp hn with hn | hn
      · exact (hunder n hn).imp (List.mem_append_left _) id
      · exact .inl (List.mem_append_right _ hn)
    exact resolve_leads hbarred _ _ _ (List.mem_append_left _ (List.mem_singleton_self name))
      hunder' ((hkeeps.erase target).mono List.erase_subset)
  obtain ⟨asked', -, hown'⟩ := (readOwn_leads hlead layout).leads _ _ _ hown asked rfl
  exact ⟨source, layout, asked', hsource, hscan, hbase, hown'⟩

/-! ### Chains -/

/-- A chain of templates, each of which extends the next and the last of which extends none:
the name of the first, what all but the last say themselves, and what the last one says. The
library lists what is extended. -/
inductive Chain (l : Library) : String → List Document → Document → Prop
  | root {name : String} {root : Document} (htells : l.Says name none root) : Chain l name [] root
  | step {name base : String} {own root : Document} {owns : List Document}
    (htells : l.Says name (some base) own) (listed : base ∈ l.names)
    (later : Chain l base owns root) :
    Chain l name (own :: owns) root

/-- A template extends one other at most. -/
theorem Says.base_unique {name : String} {base base' : Option String} {own own' : Document}
    (h : l.Says name base own) (h' : l.Says name base' own') : base = base' := by
  obtain ⟨source, layout, _, hsource, hscan, rfl, -⟩ := h.read
  obtain ⟨source', layout', _, hsource', hscan', rfl, -⟩ := h'.read
  cases hsource.symm.trans hsource'
  cases hscan.symm.trans hscan'
  rfl

/-- All chains of a template have one length. -/
theorem Chain.length_unique {name : String} {owns owns' : List Document} {root root' : Document}
    (h : l.Chain name owns root) (h' : l.Chain name owns' root') :
    owns.length = owns'.length := by
  induction h generalizing owns' with
  | root htells =>
    cases h' with
    | root _ => rfl
    | step htells' _ _ => cases htells.base_unique htells'
  | step htells _ later ih =>
    cases h' with
    | root htells' => cases htells.base_unique htells'
    | step htells' _ later' =>
      cases htells.base_unique htells'
      rw [List.length_cons, List.length_cons, ih later']

/-- The chain of a template to which another one leads is shorter. -/
theorem Chain.of_reaches {name v : String} (h : Relation.TransGen l.Extends name v)
    {owns : List Document} {root : Document} (hchain : l.Chain name owns root) :
    ∃ owns', l.Chain v owns' root ∧ owns'.length < owns.length := by
  -- What a template extends has the rest of its chain.
  have hnext {name base : String} (hextends : l.Extends name base) {owns : List Document}
      (hchain : l.Chain name owns root) :
      ∃ own owns', owns = own :: owns' ∧ l.Chain base owns' root := by
    obtain ⟨own, hextended⟩ := hextends
    cases hchain with
    | root htells => cases hextended.base_unique htells
    | step htells _ later =>
      cases hextended.base_unique htells
      exact ⟨_, _, rfl, later⟩
  induction h using Relation.TransGen.head_induction_on generalizing owns with
  | single hextends =>
    obtain ⟨own, owns', rfl, hbase⟩ := hnext hextends hchain
    exact ⟨owns', hbase, Nat.lt_succ_self _⟩
  | head hextends _ ih =>
    obtain ⟨own, owns', rfl, hbase⟩ := hnext hextends hchain
    obtain ⟨owns'', hv, hlength⟩ := ih hbase
    exact ⟨owns'', hv, Nat.lt_succ_of_lt hlength⟩

/-- The last template of a chain under the blocks and mixins of the others. -/
def merge (root : Document) (owns : List Document) : Document :=
  owns.foldr (fun own d => d.extend own.nodes own.mixins) root

/-- **A chain can be resolved, whatever leads to it is under way**, and gives its merged
document. The induction is on the chain. No name comes twice, or the chain would not end. -/
theorem resolve_of_chain {name : String} {owns : List Document} {root : Document}
    (h : l.Chain name owns root) {unused chain : List String}
    (hkeeps : Keeps l.names unused (chain ++ [name]))
    (hchain : ∀ u ∈ chain, Relation.TransGen l.Extends u name) (asked : List String) :
    ∃ asked', l.resolve unused chain name asked = .ok (merge root owns) asked' := by
  induction h generalizing unused chain asked with
  | @root name root htells =>
    obtain ⟨source, layout, between, hsource, hscan, hbase, hown⟩ :=
      htells.readOwn_eq hkeeps hchain (name :: asked)
    refine ⟨between, resolve_eq_ok_iff.mpr ⟨source, layout, hsource, hscan, ?_⟩⟩
    refine readDocument_eq_ok_iff.mpr ⟨root, between, hown, ?_⟩
    rw [hbase]
    exact ⟨rfl, rfl⟩
  | @step name base own root owns htells listed later ih =>
    obtain ⟨source, layout, between, hsource, hscan, hbase, hown⟩ :=
      htells.readOwn_eq hkeeps hchain (name :: asked)
    have hextends : Relation.TransGen l.Extends name base := .single ⟨own, htells⟩
    have hunder : ∀ u ∈ chain ++ [name], Relation.TransGen l.Extends u base := by
      intro u hu
      rcases List.mem_append.mp hu with hu | hu
      · exact (hchain u hu).trans hextends
      · rw [List.mem_singleton.mp hu]
        exact hextends
    have hnew : base ∉ chain ++ [name] := by
      intro hmem
      obtain ⟨owns', hshorter, hlength⟩ := Chain.of_reaches (hunder base hmem) later
      exact absurd (hshorter.length_unique later) (Nat.ne_of_lt hlength)
    have hmem : base ∈ unused := hkeeps base listed hnew
    obtain ⟨last, hload⟩ := ih (hkeeps.erase base) hunder between
    refine ⟨last, resolve_eq_ok_iff.mpr ⟨source, layout, hsource, hscan, ?_⟩⟩
    refine readDocument_eq_ok_iff.mpr ⟨own, between, hown, ?_⟩
    rw [show extended? name layout = some base from hbase]
    refine ⟨merge root owns, ?_, rfl⟩
    show l.load unused (chain ++ [name]) base between = _
    rw [load, if_neg hnew, if_pos hmem]
    exact hload

/-- **The document of the first template of a chain is the merged one.** -/
theorem document_of_chain {name : String} {owns : List Document} {root : Document}
    (h : l.Chain name owns root) : (l.document name).1 = .ok (merge root owns) := by
  have hkeeps : Keeps l.names l.names ([] ++ [name]) := fun _ hn _ => hn
  obtain ⟨asked, hresolve⟩ :=
    resolve_of_chain h hkeeps (fun u hu => absurd hu List.not_mem_nil) []
  rw [document, hresolve]

end Library

end Trellis
