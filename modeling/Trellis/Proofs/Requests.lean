import Mathlib.Data.List.Nodup
import Mathlib.Data.List.Perm.Subperm
import Mathlib.Logic.Relation
import Trellis.Proofs.Resolution

/-!
# `Trellis.Proofs.Requests`: what resolution asks for

A template is read while others are under way, and asks for more of them. Which ones it comes to
ask for depends on what it was given before: behind the first failure nothing is asked for any
more. `Library.Requests` says that the resolution of a template comes to ask for another one while
those of a chain are under way. A chain begins with the template that was asked for first, and
each of its templates was asked for by the one before it.

What comes of a request is a result that nothing else enters into but the chain
(`Library.comes`). So a template can be read once more in surroundings in which the results of all
requests are known and which only note the names (`noting`), and comes to the same
(`comes_of_layout`).

* `error_of_requests`: what fails inside fails outside, in the same way, unless something was
  missing.
* `exists_request_of_cycle`: that templates name each other in a circle is told only if something
  was asked for that is under way.
-/

set_option autoImplicit false

namespace Trellis

open Source

/-! ### Computations that come to the same -/

/-- What a computation comes to, apart from the state in which it ends. -/
def outcome {σ α : Type} : EStateM.Result Error σ α → Except Error α
  | .ok x _ => .ok x
  | .error e _ => .error e

/-- Two results that are the same and, if they are no failures, leave states that look the
same. -/
inductive SameResult {σ τ α : Type} (view : σ → τ) :
    EStateM.Result Error σ α → EStateM.Result Error σ α → Prop
  | ok (x : α) {s t : σ} (h : view s = view t) : SameResult view (.ok x s) (.ok x t)
  | error (e : Error) {s t : σ} : SameResult view (.error e s) (.error e t)

/-- Two computations that come to the same from states that look the same. -/
structure Alike {σ τ α : Type} (view : σ → τ) (a a' : EStateM Error σ α) : Prop where
  same : ∀ s t, view s = view t → SameResult view (a s) (a' t)

/-- The same of askings, which do not look at the names that were asked for. -/
abbrev AskAlike {α : Type} (a a' : Asking α) : Prop := Alike (fun _ => ()) a a'

theorem SameResult.outcome_eq {σ τ α : Type} {view : σ → τ} {r r' : EStateM.Result Error σ α}
    (h : SameResult view r r') : outcome r = outcome r' := by
  cases h with
  | ok x h => rfl
  | error e => rfl

/-- Askings are alike if they come to the same. -/
theorem sameResult_of_outcome_eq {α : Type} {r r' : EStateM.Result Error (List String) α}
    (h : outcome r = outcome r') : SameResult (fun _ => ()) r r' := by
  cases r with
  | ok x s =>
    cases r' with
    | ok y t =>
      cases h
      exact .ok x rfl
    | error e t => cases h
  | error e s =>
    cases r' with
    | ok y t => cases h
    | error e' t =>
      cases h
      exact .error e

namespace Alike

variable {σ τ α β : Type} {view : σ → τ}

theorem result (x : α) : Alike view (pure x) (pure x) := ⟨fun _ _ h => .ok x h⟩

theorem fail (e : Error) : Alike (α := α) view (throw e) (throw e) := ⟨fun _ _ _ => .error e⟩

theorem bind {a a' : EStateM Error σ α} {k k' : α → EStateM Error σ β} (h : Alike view a a')
    (hk : ∀ x, Alike view (k x) (k' x)) : Alike view (a >>= k) (a' >>= k') where
  same s t hst := by
    have hfirst := h.same s t hst
    show SameResult view (EStateM.bind a k s) (EStateM.bind a' k' t)
    unfold EStateM.bind
    generalize a s = r at hfirst ⊢
    generalize a' t = r' at hfirst ⊢
    cases hfirst with
    | ok x hst => exact (hk x).same _ _ hst
    | error e => exact .error e

theorem trans {a a' a'' : EStateM Error σ α} (h : Alike view a a') (h' : Alike view a' a'') :
    Alike view a a'' where
  same s t hst := by
    have hleft := h.same s t hst
    have hright := h'.same t t rfl
    generalize a s = r at hleft ⊢
    generalize a' t = r' at hleft hright
    generalize a'' t = r'' at hright ⊢
    cases hleft with
    | ok x hst =>
      cases hright with
      | ok _ htu => exact .ok x (hst.trans htu)
    | error e =>
      cases hright with
      | error _ => exact .error e

/-- That a source is missing is told in the same way. -/
theorem blaming {a a' : EStateM Error σ α} (h : Alike view a a') (template : String)
    (line : Nat) (fault : ParseFault) :
    Alike view (fun s => Trellis.blaming template line fault (a s))
      (fun s => Trellis.blaming template line fault (a' s)) where
  same s t hst := by
    have hsame := h.same s t hst
    generalize a s = r at hsame ⊢
    generalize a' t = r' at hsame ⊢
    cases hsame with
    | ok x hst => exact .ok x hst
    | error e =>
      cases e with
      | notFound name => exact .error _
      | _ => exact .error _

theorem asking {a a' : Asking α} (h : AskAlike a a') :
    Alike Progress.mixins (Trellis.asking a) (Trellis.asking a') where
  same p q hpq := by
    have hsame := h.same p.asked q.asked rfl
    rw [asking_eq, asking_eq]
    show SameResult _ (resuming p (a p.asked)) (resuming q (a' q.asked))
    generalize a p.asked = r at hsame ⊢
    generalize a' q.asked = r' at hsame ⊢
    cases hsame with
    | ok x _ => exact .ok x hpq
    | error e => exact .error e

theorem collecting {b b' : Building (List Node)} (h : Alike Progress.mixins b b') :
    AskAlike (Trellis.collecting b) (Trellis.collecting b') where
  same asked asked' _ := by
    have hsame := h.same ⟨[], asked⟩ ⟨[], asked'⟩ rfl
    rw [collecting_eq, collecting_eq]
    show SameResult _ (collected (b ⟨[], asked⟩)) (collected (b' ⟨[], asked'⟩))
    generalize b ⟨[], asked⟩ = r at hsame ⊢
    generalize b' ⟨[], asked'⟩ = r' at hsame ⊢
    cases hsame with
    | @ok nodes p q hpq =>
      show SameResult _ (EStateM.Result.ok (Document.mk nodes p.mixins) p.asked)
        (EStateM.Result.ok (Document.mk nodes q.mixins) q.asked)
      rw [show p.mixins = q.mixins from hpq]
      exact .ok _ rfl
    | error e => exact .error e

end Alike

/-- The steps of the reader respect the relations. -/
theorem respectsAsking_alike :
    RespectsAsking (fun a a' => Alike Progress.mixins a a') (fun a a' => AskAlike a a') where
  reading :=
    { pure := .result
      fail := fun _ _ _ _ => .fail _
      addMixins := fun mixins => ⟨fun _ _ h => .ok _ (congrArg (Table.insertAll mixins) h)⟩
      bind := .bind }
  pure := .result
  fail _ _ _ _ := .fail _
  bind := .bind
  collecting := .collecting

/-- Two surroundings of one template in which the same comes of every name. Only names to which
a reference can resolve are loaded. -/
structure Surroundings.Alike (s s' : Surroundings) : Prop where
  template : s'.template = s.template
  fetch (name : String) : AskAlike (s.fetch name) (s'.fetch name)
  load (name : String) : name.toList.head? ≠ some '/' → AskAlike (s.load name) (s'.load name)

theorem readDocument_alike {s s' : Surroundings} (h : s.Alike s') (layout : Layout) :
    AskAlike (readDocument s layout) (readDocument s' layout) := by
  have hload (target : String) : AskAlike (s.load (Reference.resolve s.template target))
      (s'.load (Reference.resolve s.template target)) :=
    h.load _ (Reference.head?_resolve_ne_slash _ _)
  refine readDocument_related respectsAsking_alike ⟨⟨h.template, ?_⟩, ?_⟩ layout.namesOnly_true
  · intro line target _
    rw [Surroundings.includeNodes, Surroundings.includeNodes, h.template]
    split
    · rw [orMissing_eq, orMissing_eq, h.template]
      exact ((h.fetch _).asking.blaming _ _ _).bind fun _ => .result _
    · rw [orMissing_eq, orMissing_eq, h.template]
      exact ((hload target).asking.blaming _ _ _).bind fun document =>
        (respectsAsking_alike.reading.addMixins _).bind fun _ => .result _
  · intro line target _
    rw [h.template]
    exact (hload target).blaming _ _ _

/-! ### What comes of a request -/

namespace Library

variable {l : Library}

theorem ask_alike (l : Library) (name : String) : AskAlike (l.ask name) (l.ask name) where
  same asked asked' _ := by
    cases hsource : l.source name with
    | ok source =>
      rw [ask_of_source hsource, ask_of_source hsource]
      exact .ok source rfl
    | error e =>
      rw [ask_of_missing hsource, ask_of_missing hsource]
      exact .error e

/-- What a resolution comes to does not depend on what was asked for before. -/
theorem resolve_alike (l : Library) (unused chain : List String) (name : String) :
    AskAlike (l.resolve unused chain name) (l.resolve unused chain name) := by
  rw [resolve_eq]
  refine (l.ask_alike name).bind fun source => ?_
  cases Layout.scan source with
  | error e => exact .fail _
  | ok layout =>
    refine readDocument_alike ⟨rfl, l.ask_alike, fun target _ => ?_⟩ layout
    show AskAlike (l.load unused (chain ++ [name]) target) (l.load unused (chain ++ [name]) target)
    unfold load
    split
    · exact .fail _
    · split
      · next hmem => exact resolve_alike l (unused.erase target) (chain ++ [name]) target
      · exact (l.ask_alike target).bind fun _ => .fail _
termination_by unused.length
decreasing_by exact length_erase_lt ‹_›

/-- Resolves a name unless it is under way. -/
def enter (l : Library) (chain : List String) (name : String) : Asking Document :=
  if name ∈ chain then throw (.parse name 0 (.cycle (chain ++ [name])))
  else l.resolve l.names chain name

/-- What comes of asking for a template while those of a chain are under way. -/
def comes (l : Library) (chain : List String) (name : String) : Except Error Document :=
  outcome (l.enter chain name [])

/-- To load a template is to resolve it unless it is under way, whatever else is unused. -/
theorem load_alike_enter (h : l.Complete) {unused chain : List String}
    (hc : l.Covers unused chain) {target : String} (htarget : target.toList.head? ≠ some '/') :
    AskAlike (l.load unused chain target) (l.enter chain target) := by
  unfold enter
  by_cases hchain : target ∈ chain
  · rw [if_pos hchain, load, if_pos hchain]
    exact .fail _
  · rw [if_neg hchain]
    cases hsource : l.source target with
    | error e =>
      refine ⟨fun asked asked' _ => ?_⟩
      have hresolve : l.resolve l.names chain target asked' = .error e (target :: asked') := by
        rw [resolve_eq]
        show EStateM.bind _ _ _ = _
        rw [EStateM.bind, ask_of_missing hsource]
      rw [load_of_missing hchain hsource, hresolve]
      exact .error e
    | ok source =>
      have hmem : target ∈ unused := hc target source htarget hsource hchain
      rw [load, if_neg hchain, if_pos hmem]
      -- Both lists of unused names hold what is needed from here on.
      have hsettled := (settled l (unused.erase target) chain target (hc.erase target)).follows l
        l.names (h.covers _)
      have heq : l.resolve l.names chain target = l.resolve (unused.erase target) chain target :=
        funext fun asked => hsettled.same asked fun _ _ => rfl
      rw [heq]
      exact l.resolve_alike _ _ _

/-- What comes of a request does not depend on what was asked for before. -/
theorem outcome_enter (l : Library) (chain : List String) (name : String) (asked : List String) :
    outcome (l.enter chain name asked) = l.comes chain name := by
  have halike : AskAlike (l.enter chain name) (l.enter chain name) := by
    unfold enter
    split
    · exact .fail _
    · exact l.resolve_alike _ _ _
  exact (halike.same asked [] rfl).outcome_eq

theorem document_eq_comes (l : Library) (name : String) : (l.document name).1 = l.comes [] name := by
  unfold document comes enter
  rw [if_neg List.not_mem_nil]
  cases l.resolve l.names [] name [] <;> rfl

end Library

/-! ### What a template asks for -/

/-- Surroundings in which it is known what comes of every name, and in which the names of the
templates that are loaded are noted, the last one first. -/
def noting (template : String) (texts : String → Except Error String)
    (documents : String → Except Error Document) : Surroundings where
  template := template
  fetch name := fun noted =>
    match texts name with
    | .ok text => .ok text noted
    | .error e => .error e noted
  load name := fun noted =>
    match documents name with
    | .ok d => .ok d (name :: noted)
    | .error e => .error e (name :: noted)

namespace Library

/-- Reads a template below a chain, when it is known what comes of every request. -/
def reread (l : Library) (chain : List String) (name : String) (layout : Layout) :
    EStateM.Result Error (List String) Document :=
  readDocument (noting name l.source (l.comes (chain ++ [name]))) layout []

/-- To resolve `root`, a template is asked for while those of a chain are under way. -/
inductive Requests (l : Library) (root : String) : List String → String → Prop
  | first : Requests l root [] root
  | next {chain : List String} {name target source : String} {layout : Layout}
    (earlier : Requests l root chain name) (new : name ∉ chain) (has : l.source name = .ok source)
    (scans : Layout.scan source = .ok layout)
    (noted : target ∈ ending (l.reread chain name layout)) :
    Requests l root (chain ++ [name]) target

/-- **A template comes to what it comes to when it is read once more.** -/
theorem comes_of_layout {l : Library} (h : l.Complete) {chain : List String} {name source : String}
    {layout : Layout} (new : name ∉ chain) (has : l.source name = .ok source)
    (scans : Layout.scan source = .ok layout) :
    l.comes chain name = outcome (l.reread chain name layout) := by
  have hresolve : l.enter chain name [] =
      readDocument ⟨name, l.ask, l.load l.names (chain ++ [name])⟩ layout [name] := by
    unfold enter
    rw [if_neg new, resolve_eq]
    show EStateM.bind _ _ _ = _
    rw [EStateM.bind, ask_of_source has]
    dsimp only
    rw [scans]
  have hsurroundings : Surroundings.Alike ⟨name, l.ask, l.load l.names (chain ++ [name])⟩
      (noting name l.source (l.comes (chain ++ [name]))) := by
    refine ⟨rfl, fun n => ?_, fun n hn => ?_⟩
    · refine ⟨fun asked noted _ => sameResult_of_outcome_eq ?_⟩
      unfold noting
      dsimp only
      cases hsource : l.source n with
      | ok text => rw [ask_of_source hsource]; rfl
      | error e => rw [ask_of_missing hsource]; rfl
    · refine (load_alike_enter h (h.covers _) hn).trans ⟨fun asked noted _ => ?_⟩
      refine sameResult_of_outcome_eq ((outcome_enter l _ _ _).trans ?_)
      unfold noting
      dsimp only
      cases l.comes (chain ++ [name]) n <;> rfl
  rw [comes, hresolve]
  exact ((readDocument_alike hsurroundings layout).same [name] [] rfl).outcome_eq

end Library

/-! ### What the notes tell -/

/-- An error that is not about templates that name each other in a circle. -/
def Error.IsPlain (e : Error) : Prop := ∀ template line chain, e ≠ .parse template line (.cycle chain)

theorem ParseFault.IsLocal.isPlain {fault : ParseFault} (h : fault.IsLocal) (template : String)
    (line : Nat) : (Error.parse template line fault).IsPlain := by
  intro template' line' chain heq
  cases heq
  exact h chain rfl

section
variable {Named : String → Prop} {documents : String → Except Error Document} {σ τ α β : Type}

/-- All names that were noted are of a kind, and a document came of each. -/
def AllCame (Named : String → Prop) (documents : String → Except Error Document)
    (noted : List String) : Prop :=
  ∀ n ∈ noted, Named n ∧ ∃ d, documents n = .ok d

/-- How reading can end. A document came of every name that was noted, but for the last one if
reading failed because of it. -/
inductive Noted (Named : String → Prop) (documents : String → Except Error Document)
    (asked : σ → List String) : EStateM.Result Error σ α → Prop
  | ok {x : α} {s : σ} (came : AllCame Named documents (asked s)) : Noted Named documents asked (.ok x s)
  | own {e : Error} {s : σ} (came : AllCame Named documents (asked s)) (plain : e.IsPlain) :
    Noted Named documents asked (.error e s)
  | missing {e : Error} {s : σ} {n name : String} {rest : List String} (last : asked s = n :: rest)
    (named : Named n) (came : AllCame Named documents rest)
    (result : documents n = .error (.notFound name)) (plain : e.IsPlain) :
    Noted Named documents asked (.error e s)
  | passed {e : Error} {s : σ} {n : String} {rest : List String} (last : asked s = n :: rest)
    (named : Named n) (came : AllCame Named documents rest) (result : documents n = .error e) :
    Noted Named documents asked (.error e s)

/-- A computation that ends so, as long as a document came of every name before. -/
structure Notes (Named : String → Prop) (documents : String → Except Error Document)
    (asked : σ → List String) (a : EStateM Error σ α) : Prop where
  noted : ∀ s, AllCame Named documents (asked s) → Noted Named documents asked (a s)

namespace Noted

variable {asked : σ → List String} {r : EStateM.Result Error σ α} {n : String} {e : Error}

/-- Only names of the kind are noted. -/
theorem named (h : Noted Named documents asked r) (hn : n ∈ asked (ending r)) : Named n := by
  cases h with
  | ok came => exact (came n hn).1
  | own came _ => exact (came n hn).1
  | missing last named came _ _ =>
    dsimp only [ending] at hn
    rw [last] at hn
    rcases List.mem_cons.mp hn with rfl | hn
    · exact named
    · exact (came n hn).1
  | passed last named came _ =>
    dsimp only [ending] at hn
    rw [last] at hn
    rcases List.mem_cons.mp hn with rfl | hn
    · exact named
    · exact (came n hn).1

/-- What fails for another reason than that something is missing is the last that is asked for,
and reading fails in the same way. -/
theorem error_of_mem (h : Noted Named documents asked r) (hn : n ∈ asked (ending r))
    (hresult : documents n = .error e) (hthere : ∀ name, e ≠ .notFound name) :
    outcome r = .error e := by
  have hnot {noted : List String} (came : AllCame Named documents noted) : n ∉ noted := by
    intro hn
    obtain ⟨-, d, hd⟩ := came n hn
    rw [hd] at hresult
    cases hresult
  cases h with
  | ok came => exact absurd hn (hnot came)
  | own came _ => exact absurd hn (hnot came)
  | missing last _ came result _ =>
    dsimp only [ending] at hn
    rw [last] at hn
    rcases List.mem_cons.mp hn with rfl | hn
    · rw [result] at hresult
      cases hresult
      exact absurd rfl (hthere _)
    · exact absurd hn (hnot came)
  | passed last _ came result =>
    dsimp only [ending] at hn
    rw [last] at hn
    rcases List.mem_cons.mp hn with rfl | hn
    · rw [result] at hresult
      cases hresult
      rfl
    · exact absurd hn (hnot came)

/-- If reading fails because templates name each other in a circle, then this came of something
that was asked for. -/
theorem exists_of_error (h : Noted Named documents asked r) (hr : outcome r = .error e)
    (hcycle : ¬ e.IsPlain) : ∃ n ∈ asked (ending r), documents n = .error e := by
  cases h with
  | ok came => cases hr
  | own came plain =>
    cases hr
    exact absurd plain hcycle
  | missing _ _ _ _ plain =>
    cases hr
    exact absurd plain hcycle
  | @passed e s n rest last _ _ result =>
    cases hr
    refine ⟨n, ?_, result⟩
    show n ∈ asked s
    rw [last]
    exact List.mem_cons_self

end Noted

namespace Notes

variable {asked : σ → List String}

theorem result (x : α) : Notes Named documents asked (pure x) := ⟨fun _ h => .ok h⟩

theorem fail {e : Error} (h : e.IsPlain) : Notes (α := α) Named documents asked (throw e) :=
  ⟨fun _ came => .own came h⟩

theorem bind {a : EStateM Error σ α} {k : α → EStateM Error σ β} (h : Notes Named documents asked a)
    (hk : ∀ x, Notes Named documents asked (k x)) : Notes Named documents asked (a >>= k) where
  noted s hs := by
    have hfirst := h.noted s hs
    show Noted Named documents asked (EStateM.bind a k s)
    unfold EStateM.bind
    generalize a s = r at hfirst ⊢
    cases hfirst with
    | ok came => exact (hk _).noted _ came
    | own came plain => exact .own came plain
    | missing last named came result plain => exact .missing last named came result plain
    | passed last named came result => exact .passed last named came result

/-- A failure is passed on, or it was that something is missing and becomes another one. -/
theorem blaming {a : EStateM Error σ α} (h : Notes Named documents asked a) (template : String)
    (line : Nat) {fault : ParseFault} (hfault : fault.IsLocal) :
    Notes Named documents asked (fun s => Trellis.blaming template line fault (a s)) where
  noted s hs := by
    have hplain : (Error.parse template line fault).IsPlain := hfault.isPlain template line
    have hr := h.noted s hs
    show Noted Named documents asked (Trellis.blaming template line fault (a s))
    generalize a s = r at hr ⊢
    cases hr with
    | ok came => exact .ok came
    | @own e t came plain =>
      cases e with
      | notFound name => exact .own came hplain
      | _ => exact .own came plain
    | @missing e t n name rest last named came result plain =>
      cases e with
      | notFound _ => exact .missing last named came result hplain
      | _ => exact .missing last named came result plain
    | @passed e t n rest last named came result =>
      cases e with
      | notFound name => exact .missing last named came result hplain
      | _ => exact .passed last named came result

theorem asking {a : Asking α} (h : Notes Named documents id a) :
    Notes Named documents Progress.asked (Trellis.asking a) where
  noted p hp := by
    have hr := h.noted p.asked hp
    rw [asking_eq]
    show Noted Named documents Progress.asked (resuming p (a p.asked))
    generalize a p.asked = r at hr ⊢
    cases hr with
    | ok came => exact .ok came
    | own came plain => exact .own came plain
    | missing last named came result plain => exact .missing last named came result plain
    | passed last named came result => exact .passed last named came result

theorem collecting {b : Building (List Node)} (h : Notes Named documents Progress.asked b) :
    Notes Named documents id (Trellis.collecting b) where
  noted asked hasked := by
    have hr := h.noted ⟨[], asked⟩ hasked
    rw [collecting_eq]
    show Noted Named documents id (collected (b ⟨[], asked⟩))
    generalize b ⟨[], asked⟩ = r at hr ⊢
    cases hr with
    | ok came => exact .ok came
    | own came plain => exact .own came plain
    | missing last named came result plain => exact .missing last named came result plain
    | passed last named came result => exact .passed last named came result

end Notes

theorem respectsAsking_notes :
    RespectsAsking (fun a _ => Notes Named documents Progress.asked a)
      (fun a _ => Notes Named documents id a) where
  reading :=
    { pure := .result
      fail := fun template line _ h => .fail (h.isPlain template line)
      addMixins := fun _ => ⟨fun _ h => .ok h⟩
      bind := .bind }
  pure := .result
  fail template line _ h := .fail (h.isPlain template line)
  bind := .bind
  collecting := .collecting

/-- The names of a kind are all that a template notes, if its statements name nothing else. -/
theorem readDocument_notes {template : String} {texts : String → Except Error String}
    {layout : Layout} (htexts : ∀ n e, texts n = .error e → e.IsPlain)
    (hnames : layout.NamesOnly
      (fun target => Reference.isRaw (Reference.resolve template target) = false →
        Named (Reference.resolve template target))
      (fun target => Named (Reference.resolve template target))) :
    Notes Named documents id (readDocument (noting template texts documents) layout) := by
  have hload {n : String} (hn : Named n) :
      Notes Named documents id ((noting template texts documents).load n) := by
    refine ⟨fun noted came => ?_⟩
    unfold noting
    dsimp only
    cases hd : documents n with
    | ok d =>
      refine .ok (List.forall_mem_cons.mpr ⟨⟨hn, d, hd⟩, came⟩)
    | error e => exact .passed rfl hn came hd
  refine readDocument_related respectsAsking_notes ⟨⟨rfl, fun line target hQ => ?_⟩,
    fun line target hB => (hload hB).blaming _ _ nofun⟩ hnames
  rw [Surroundings.includeNodes]
  split
  · rw [orMissing_eq]
    have hfetch (n : String) :
        Notes Named documents id ((noting template texts documents).fetch n) := by
      refine ⟨fun noted came => ?_⟩
      unfold noting
      dsimp only
      cases htext : texts n with
      | ok text => exact .ok came
      | error e => exact .own came (htexts n e htext)
    exact ((hfetch _).asking.blaming _ _ fun _ h => by cases h).bind fun _ => .result _
  · next hraw =>
    rw [orMissing_eq]
    have hnamed := hQ (eq_false_of_ne_true hraw)
    refine ((hload hnamed).asking.blaming _ _ fun _ h => by cases h).bind fun document => ?_
    exact (respectsAsking_notes.reading.addMixins document.mixins).bind fun _ => .result _

end

namespace Library

variable {l : Library} {root name target : String} {chain : List String}

/-- The sources of a library never fail because templates name each other in a circle. -/
def Plain (l : Library) : Prop := ∀ name e, l.source name = .error e → e.IsPlain

/-- One template names another one in a statement by which it asks for its document. -/
def Refers (l : Library) (name other : String) : Prop :=
  ∃ source layout, l.source name = .ok source ∧ Layout.scan source = .ok layout ∧
    ∃ line ∈ layout.lines, ∃ target, other = Reference.resolve name target ∧
      (.extending target ∈ line.tokens ∨
        .including target ∈ line.tokens ∧ Reference.isRaw other = false)

/-- How reading a template once more ends, and what it notes. -/
theorem noted_reread (hl : l.Plain) {source : String} {layout : Layout}
    (has : l.source name = .ok source) (scans : Layout.scan source = .ok layout)
    (chain : List String) :
    Noted (l.Refers name) (l.comes (chain ++ [name])) id (l.reread chain name layout) := by
  have hnames : layout.NamesOnly
      (fun target => Reference.isRaw (Reference.resolve name target) = false →
        l.Refers name (Reference.resolve name target))
      (fun target => l.Refers name (Reference.resolve name target)) := by
    constructor
    · intro line hline target htarget hraw
      exact ⟨source, layout, has, scans, line, hline, target, rfl, .inr ⟨htarget, hraw⟩⟩
    · intro line hline target htarget
      exact ⟨source, layout, has, scans, line, hline, target, rfl, .inl htarget⟩
  exact (readDocument_notes hl hnames).noted [] nofun

/-- All that is under way leads to what is asked for. -/
theorem Requests.reaches (hl : l.Plain) (h : l.Requests root chain target) :
    Relation.ReflTransGen l.Refers root target ∧
      ∀ u ∈ chain, Relation.ReflTransGen l.Refers root u ∧ Relation.TransGen l.Refers u target := by
  induction h with
  | first => exact ⟨.refl, nofun⟩
  | @next chain name target source layout earlier new has scans noted ih =>
    obtain ⟨hroot, hchain⟩ := ih
    have hrefers : l.Refers name target := (noted_reread hl has scans chain).named noted
    refine ⟨hroot.tail hrefers, fun u hu => ?_⟩
    rcases List.mem_append.mp hu with hu | hu
    · exact ⟨(hchain u hu).1, (hchain u hu).2.tail hrefers⟩
    · rw [List.mem_singleton.mp hu]
      exact ⟨hroot, .single hrefers⟩

/-- A chain begins with the template that was asked for first. No name comes twice, and all
others are names that the library lists. -/
theorem Requests.chain_names (h : l.Complete) (hl : l.Plain) (hr : l.Requests root chain target) :
    chain.Nodup ∧ (chain = [] ∧ target = root ∨
      target.toList.head? ≠ some '/' ∧ ∃ rest, chain = root :: rest ∧ rest ⊆ l.names) := by
  induction hr with
  | first => exact ⟨.nil, .inl ⟨rfl, rfl⟩⟩
  | @next chain name target source layout earlier new has scans noted ih =>
    obtain ⟨hnodup, hnames⟩ := ih
    have htarget : target.toList.head? ≠ some '/' := by
      obtain ⟨_, _, _, _, _, _, _, rfl, _⟩ := (noted_reread hl has scans chain).named noted
      exact Reference.head?_resolve_ne_slash _ _
    refine ⟨?_, .inr ⟨htarget, ?_⟩⟩
    · refine List.nodup_append.mpr ⟨hnodup, List.nodup_singleton name, ?_⟩
      rintro a ha b hb rfl
      rw [List.mem_singleton.mp hb] at ha
      exact new ha
    · rcases hnames with ⟨rfl, rfl⟩ | ⟨hname, rest, rfl, hrest⟩
      · exact ⟨[], rfl, nofun⟩
      · refine ⟨rest ++ [name], rfl, List.append_subset.mpr ⟨hrest, ?_⟩⟩
        intro n hn
        rw [List.mem_singleton.mp hn]
        exact h name source hname has nofun

theorem Requests.length_chain_le (h : l.Complete) (hl : l.Plain)
    (hr : l.Requests root chain target) : chain.length ≤ l.names.length + 1 := by
  obtain ⟨hnodup, ⟨rfl, -⟩ | ⟨-, rest, rfl, hrest⟩⟩ := hr.chain_names h hl
  · exact Nat.zero_le _
  · exact Nat.succ_le_succ (List.subperm_of_subset (List.nodup_cons.mp hnodup).2 hrest).length_le

/-- **What fails inside fails outside, in the same way**, unless it failed because something was
missing. The induction goes out along the chain. -/
theorem error_of_requests (h : l.Complete) (hl : l.Plain) (hr : l.Requests root chain target)
    {e : Error} (hcomes : l.comes chain target = .error e) (hthere : ∀ name, e ≠ .notFound name) :
    (l.document root).1 = .error e := by
  induction hr with
  | first => rw [document_eq_comes, hcomes]
  | @next chain name target source layout earlier new has scans noted ih =>
    apply ih
    rw [comes_of_layout h new has scans]
    exact (noted_reread hl has scans chain).error_of_mem noted hcomes hthere

/-- **Templates are told to name each other in a circle only if they do**: something under way is
asked for. The induction goes inwards, and ends because the chain is bounded. -/
theorem exists_request_of_cycle (h : l.Complete) (hl : l.Plain) {chain : List String}
    {target : String} (hr : l.Requests root chain target) {e : Error}
    (hcomes : l.comes chain target = .error e) (hcycle : ¬ e.IsPlain) :
    ∃ chain target, l.Requests root chain target ∧ target ∈ chain := by
  by_cases hmem : target ∈ chain
  · exact ⟨chain, target, hr, hmem⟩
  · have hresolve : outcome (l.resolve l.names chain target []) = .error e := by
      rw [← hcomes, comes, enter, if_neg hmem]
    cases hsource : l.source target with
    | error e' =>
      rw [resolve_eq] at hresolve
      change outcome (EStateM.bind _ _ _) = _ at hresolve
      rw [EStateM.bind, ask_of_missing hsource] at hresolve
      cases hresolve
      exact absurd (hl target e hsource) hcycle
    | ok source =>
      cases hscan : Layout.scan source with
      | error e' =>
        rw [resolve_eq] at hresolve
        change outcome (EStateM.bind _ _ _) = _ at hresolve
        rw [EStateM.bind, ask_of_source hsource] at hresolve
        dsimp only at hresolve
        rw [hscan] at hresolve
        cases hresolve
        exact absurd (fun _ _ _ => nofun) hcycle
      | ok layout =>
        rw [comes_of_layout h hmem hsource hscan] at hcomes
        obtain ⟨n, hn, hresult⟩ :=
          (noted_reread hl hsource hscan chain).exists_of_error hcomes hcycle
        have hnext : l.Requests root (chain ++ [target]) n := .next hr hmem hsource hscan hn
        have hbound := hnext.length_chain_le h hl
        exact exists_request_of_cycle h hl hnext hresult hcycle
termination_by l.names.length + 1 - chain.length
decreasing_by
  simp only [List.length_append, List.length_singleton] at hbound ⊢
  omega

end Library

end Trellis
