import Trellis.Loader.Directory
import Trellis.Proofs.Faults
import Trellis.Proofs.Memory

/-!
# `Trellis.Proofs.Phases`: what can go wrong when

A template is first read and then rendered, any number of times. What is wrong with its text is
found when it is read: a document holds no expression that cannot be read. What is wrong while it
is rendered is of another kind (`Trellis.Proofs.Faults`).

Reading asks for other templates, and a library fails in its own ways. That a source is missing
becomes a fault of the statement that named it, so it is told as such only of the template that
was asked for.

* `failsOnly_readDocument` says this of one template, in surroundings that may fail.
* `Library.failsOnly_resolve` is the induction over the templates under way.
* `Template.phases` puts together what can go wrong in a compilation, from any loader and from
  sources in memory and in files, and in the renderings that follow it.
-/

set_option autoImplicit false

namespace Trellis

open Source

/-! ### Reading -/

/-- Something is wrong with the text of a template. -/
inductive Error.OfText : Error → Prop
  | scan (template : String) (error : ScanError) : Error.OfText (.scan template error)
  | parse (template : String) (line : Nat) (fault : ParseFault) :
    Error.OfText (.parse template line fault)

/-- An error of a kind, or the error that a source is missing. -/
def OrMissing (P : Error → Prop) (e : Error) : Prop := (∃ name, e = .notFound name) ∨ P e

theorem failsOnly_asking {P : Error → Prop} {α : Type} {a : Asking α} (h : FailsOnly P a) :
    FailsOnly P (asking a) where
  errors p e p' hp := by
    unfold asking at hp
    split at hp
    · cases hp
    · next e' asked ha =>
      cases hp
      exact h.errors _ _ _ ha

theorem failsOnly_collecting {P : Error → Prop} {b : Building (List Node)} (h : FailsOnly P b) :
    FailsOnly P (collecting b) where
  errors asked e asked' hs := by
    unfold collecting at hs
    split at hs
    · cases hs
    · next e' p hb =>
      cases hs
      exact h.errors _ _ _ hb

/-- That something is missing is told as a fault of the template that asked for it. -/
theorem FailsOnly.blaming {P : Error → Prop} {σ α : Type} {a : EStateM Error σ α}
    (h : FailsOnly (OrMissing P) a) {template : String} {line : Nat} {fault : ParseFault}
    (hfault : P (.parse template line fault)) :
    FailsOnly P fun s => Trellis.blaming template line fault (a s) where
  errors s e t hs := by
    have herrors := h.errors s
    generalize a s = r at hs herrors
    cases r with
    | ok x between => cases hs
    | error e' between =>
      rcases herrors e' between rfl with ⟨name, rfl⟩ | he
      · cases hs
        exact hfault
      · cases e' with
        | notFound name =>
          cases hs
          exact hfault
        | _ =>
          cases hs
          exact he

/-- An include statement fails for what it asks for, or because this is missing. -/
theorem failsOnly_includeNodes {P : Error → Prop} {s : Surroundings} {line : Nat} {target : String}
    (hnoInclude : ∀ name, P (.parse s.template line (.noInclude name)))
    (hnoTemplate : ∀ name, P (.parse s.template line (.noTemplate name)))
    (hfetch : ∀ name, FailsOnly (OrMissing P) (s.fetch name))
    (hload : Reference.isRaw (Reference.resolve s.template target) = false →
      FailsOnly (OrMissing P) (s.load (Reference.resolve s.template target))) :
    FailsOnly P (s.includeNodes line target) := by
  rw [Surroundings.includeNodes]
  split
  · rw [orMissing_eq]
    exact ((failsOnly_asking (hfetch _)).blaming (hnoInclude _)).bind fun _ => .result _
  · next hraw =>
    have hloaded := failsOnly_asking (hload (eq_false_of_ne_true hraw))
    rw [orMissing_eq]
    exact (hloaded.blaming (hnoTemplate _)).bind fun _ =>
      (FailsOnly.change _).bind fun _ => .result _

section
variable {P : Error → Prop} (hP : ∀ template line fault, P (.parse template line fault))
include hP

/-- The steps of the reader fail only with faults of parsing. -/
theorem respects_failsOnly : Respects (fun a _ => FailsOnly P a) where
  pure x := .result x
  fail template line fault _ := .fail (hP template line fault)
  addMixins _ := .change _
  bind := .bind

theorem respectsAsking_failsOnly :
    RespectsAsking (fun a _ => FailsOnly P a) (fun a _ => FailsOnly P a) where
  reading := respects_failsOnly hP
  pure x := .result x
  fail template line fault _ := .fail (hP template line fault)
  bind := .bind
  collecting := failsOnly_collecting

end

/-- Surroundings whose errors are of some kind, or say that something is missing. -/
structure Surroundings.FailsOnly (P : Error → Prop) (s : Surroundings) : Prop where
  fetch (name : String) : Trellis.FailsOnly (OrMissing P) (s.fetch name)
  load (name : String) : Trellis.FailsOnly (OrMissing P) (s.load name)

section
variable {P : Error → Prop} (hP : ∀ template line fault, P (.parse template line fault))
  {s : Surroundings} (hs : s.FailsOnly P)
include hP hs

/-- Whatever template is read, that something is missing is told as a fault of parsing. -/
theorem failsOnly_readDocument (layout : Layout) : FailsOnly P (readDocument s layout) := by
  refine readDocument_related (respectsAsking_failsOnly hP)
    ⟨⟨rfl, fun line target _ => failsOnly_includeNodes (fun _ => hP _ _ _) (fun _ => hP _ _ _)
      hs.fetch fun _ => hs.load _⟩, fun line target _ => ?_⟩ layout.namesOnly_true
  exact (hs.load _).blaming (hP _ _ _)

end

namespace Library

variable {l : Library}

/-- The library fails to give a source, and not because there is none. -/
def Refuses (l : Library) (e : Error) : Prop :=
  (∃ name, l.source name = .error e) ∧ ∀ name, e ≠ .notFound name

/-- What can go wrong in a template that is there, or in what it asks for. -/
def Spoils (l : Library) (e : Error) : Prop := e.OfText ∨ l.Refuses e

theorem failsOnly_ask (l : Library) (name : String) :
    FailsOnly (fun e => l.source name = .error e) (l.ask name) where
  errors asked e asked' h := by
    cases hsource : l.source name with
    | ok source =>
      rw [ask_of_source hsource] at h
      cases h
    | error e' =>
      rw [ask_of_missing hsource] at h
      cases h
      rfl

theorem orMissing_of_source {name : String} {e : Error} (h : l.source name = .error e) :
    OrMissing l.Spoils e := by
  by_cases hmissing : ∃ n, e = .notFound n
  · exact .inl hmissing
  · exact .inr (.inr ⟨⟨name, h⟩, fun n hn => hmissing ⟨n, hn⟩⟩)

/-- A template that another one names can be missing, as well as all that can go wrong in it. -/
theorem failsOnly_load {unused under : List String} {target : String}
    (h : target ∈ unused → FailsOnly (fun e => l.source target = .error e ∨ l.Spoils e)
      (l.resolve (unused.erase target) under target)) :
    FailsOnly (OrMissing l.Spoils) (l.load unused under target) := by
  unfold load
  split
  · exact .fail (.inr (.inl (.parse _ _ _)))
  · split
    · next hmem =>
      refine (h hmem).mono fun e he => ?_
      rcases he with he | he
      · exact orMissing_of_source he
      · exact .inr he
    · refine ((l.failsOnly_ask target).mono fun _ => orMissing_of_source).bind fun _ => ?_
      exact .fail (.inl ⟨target, rfl⟩)

/-- **That a source is missing stays inside**, except for the template that was asked for. The
induction follows the chain of templates under way. -/
theorem failsOnly_resolve (l : Library) (unused chain : List String) (name : String) :
    FailsOnly (fun e => l.source name = .error e ∨ l.Spoils e) (l.resolve unused chain name) := by
  rw [resolve_eq]
  refine ((l.failsOnly_ask name).mono fun _ => .inl).bind fun source => ?_
  cases Layout.scan source with
  | error e => exact .fail (.inr (.inl (.scan name e)))
  | ok layout =>
    have hs : Surroundings.FailsOnly l.Spoils
        ⟨name, l.ask, l.load unused (chain ++ [name])⟩ :=
      { fetch := fun n => (l.failsOnly_ask n).mono fun _ => orMissing_of_source
        load := fun target => failsOnly_load fun hmem =>
          failsOnly_resolve l (unused.erase target) (chain ++ [name]) target }
    have hparse : ∀ template line fault, l.Spoils (.parse template line fault) :=
      fun template line fault => .inl (.parse template line fault)
    exact (failsOnly_readDocument hparse hs layout).mono fun _ => .inr
termination_by unused.length
decreasing_by exact length_erase_lt hmem

/-- How a template can fail to be read. -/
theorem of_document_eq_error {name : String} {e : Error} (h : (l.document name).1 = .error e) :
    l.source name = .error e ∨ l.Spoils e := by
  unfold document at h
  cases hresolve : l.resolve l.names [] name [] with
  | ok d asked =>
    rw [hresolve] at h
    cases h
  | error e' asked =>
    rw [hresolve] at h
    cases h
    exact (failsOnly_resolve l l.names [] name).errors _ _ _ hresolve

end Library

/-! ### Templates -/

namespace Expression

/-- The text of an expression is one that can be read, as that expression. -/
theorem compile_source (e : Expression) : compile e.source = .ok e := by
  unfold compile
  split
  · next tree h =>
    obtain ⟨source, tree', hreads⟩ := e
    cases hreads.symm.trans h
    rfl
  · next fault h =>
    rw [e.reads] at h
    cases h

end Expression

namespace Directory

theorem of_source_eq_error {d : Directory} {name : String} {e : Error}
    (h : d.source name = .error e) : e = .notFound name ∨ e = .unreadable := by
  unfold source at h
  split at h
  · next obstacle _ =>
    cases h
    cases obstacle with
    | missing => exact .inl rfl
    | blocked => exact .inr rfl
  · cases h
    exact .inr rfl
  · split at h
    · cases h
    · cases h
      exact .inr rfl

end Directory

namespace Template

/-- **Errors stay in their phase.**

A template that compiles holds only expressions that can be read. What is wrong when it is
rendered, into any sink, is an error of rendering, which never says that an expression cannot be
read: if it is about an expression, then about one that the template holds and that has no value.

A template fails to compile because of its text, or that of a template it names, or because
its source cannot be had; or a source that it names is there and cannot be had. So from sources
in memory, a source is told to be missing only if it is the one that was asked for, and from
files there is no other failure but that something cannot be read. -/
theorem phases (loader : Loader) (options : Options) (name version : String) (log : Log) :
    let compiled := (compile loader options name version log).1
    (∀ t, compiled = .ok t →
      (∀ e, t.document.HoldsExpression e → Expression.compile e.source = .ok e) ∧
      ∀ filters vars err,
        (t.render filters vars = .error err ∨
          ∃ sink, (t.renderTo filters vars sink).1 = .error err) →
        ∃ fault, err = .render t.name fault ∧ fault.AboutHeld t.document.HoldsExpression ∧
          ∀ source reading, fault ≠ .failed ⟨source, .unreadable reading⟩) ∧
    (∀ err, compiled = .error err →
      err.OfText ∨ loader.source name = .error err ∨ loader.Refuses err) ∧
    (∀ m : Memory, loader = m.loader → ∀ err, compiled = .error err →
      err.OfText ∨ err = .notFound name ∧ m.holds name = false) ∧
    ∀ d : Directory, loader = d.loader → ∀ err, compiled = .error err →
      err.OfText ∨ err = .notFound name ∨ err = .unreadable := by
  intro compiled
  have herror : ∀ err, compiled = .error err →
      err.OfText ∨ loader.source name = .error err ∨ loader.Refuses err := by
    intro err herr
    have hdocument : (loader.document name).1 = .error err := of_map_eq_error herr
    rcases Library.of_document_eq_error hdocument with h | h | h
    · exact .inr (.inl h)
    · exact .inl h
    · exact .inr (.inr h)
  refine ⟨fun t ht => ⟨fun e _ => e.compile_source, fun filters vars err hrun => ?_⟩, herror,
    fun m hm err herr => ?_, fun d hd err herr => ?_⟩
  · obtain ⟨sink, hrun⟩ : ∃ sink, (t.renderTo filters vars sink).1 = .error err := by
      rcases hrun with hrun | hrun
      · exact ⟨.unlimited, of_map_eq_error hrun⟩
      · exact hrun
    obtain ⟨fault, hfault, hheld⟩ := t.fault_of_renderTo hrun
    refine ⟨fault, hfault, hheld, ?_⟩
    rintro source reading rfl
    obtain ⟨e, fault, -, h⟩ := hheld _ rfl
    cases h
  · subst hm
    rcases herror err herr with h | h | ⟨⟨n, h⟩, hnot⟩
    · exact .inl h
    · exact .inr (Memory.of_source_eq_error h)
    · exact absurd (Memory.of_source_eq_error h).1 (hnot n)
  · subst hd
    rcases herror err herr with h | h | ⟨⟨n, h⟩, hnot⟩
    · exact .inl h
    · exact .inr (Directory.of_source_eq_error h)
    · rcases Directory.of_source_eq_error h with h | h
      · exact absurd h (hnot n)
      · exact .inr (.inr h)

end Template

end Trellis
