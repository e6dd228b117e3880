import Trellis.Proofs.Machine
import Trellis.Proofs.Places
import Trellis.Proofs.Steps
import Trellis.Template

/-!
# `Trellis.Proofs.Faults`: with what a rendering can fail

A fault of a rendering may be about an expression. Then it is one that the document holds, at
any depth of its nodes or of its mixins, and it is not about the wording: the expression has no
value for the variables at hand.

* `FailsOnly` bounds the errors of a computation, whatever the state it begins in.
* `Document.HoldsExpression` says which expressions a document holds.
* `valueless_of_evaluate` and the lemmas behind it take a failure of spans, attributes and
  arguments back to the expression that fails.
* `failsOnly_renderNodes` is the induction over the renderer. A call goes on with the body of a
  mixin, and the content of a call with nodes from elsewhere, so `CallStack.Holding` says what
  these hold.
-/

set_option autoImplicit false

namespace Trellis

open Markup Rendering

/-! ### Computations with bounded errors -/

/-- A computation fails only with errors of some kind. -/
structure FailsOnly {ε σ α : Type} (P : ε → Prop) (a : EStateM ε σ α) : Prop where
  errors : ∀ s e t, a s = .error e t → P e

namespace FailsOnly

variable {ε σ α β : Type} {P Q : ε → Prop} {a : EStateM ε σ α}

theorem mono (h : FailsOnly P a) (hPQ : ∀ e, P e → Q e) : FailsOnly Q a where
  errors s e t hs := hPQ e (h.errors s e t hs)

theorem result (x : α) : FailsOnly P (pure x : EStateM ε σ α) where
  errors _ _ _ hs := by cases hs

theorem fail {e : ε} (h : P e) : FailsOnly P (throw e : EStateM ε σ α) where
  errors _ _ _ hs := by
    cases hs
    exact h

theorem bind {k : α → EStateM ε σ β} (h : FailsOnly P a) (hk : ∀ x, FailsOnly P (k x)) :
    FailsOnly P (a >>= k) where
  errors s e t hs := by
    rcases of_bind_eq_failure hs with ha | ⟨x, between, -, hx⟩
    · exact h.errors s e t ha
    · exact (hk x).errors between e t hx

theorem change (f : σ → σ) : FailsOnly P (modify f : EStateM ε σ PUnit) where
  errors _ _ _ hs := by cases hs

theorem state : FailsOnly P (get : EStateM ε σ σ) where
  errors _ _ _ hs := by cases hs

end FailsOnly

/-! ### Expressions of a document -/

/-- The expressions of a piece of text. -/
def Span.expressions : Span → List Expression
  | .literal _ => []
  | .escaped e => [e]
  | .raw e => [e]

/-- The expressions of an attribute. -/
def Attribute.expressions (a : Attribute) : List Expression :=
  match a.value with
  | .implicit => []
  | .expression e => [e]
  | .spans spans => spans.flatMap Span.expressions

/-- The expressions for arguments that are missing. -/
def Mixin.defaults (m : Mixin) : List Expression := m.parameters.filterMap (·.default)

/-- The expressions of a node itself, apart from those of the nodes inside it. -/
def Node.expressions : Node → List Expression
  | .tag _ attributes _ _ => attributes.flatMap Attribute.expressions
  | .text spans => spans.flatMap Span.expressions
  | .output e _ => [e]
  | .assign _ e => [e]
  | .cond branches _ => branches.map (·.test)
  | .each _ _ collection _ _ => [collection]
  | .caseOf subject whens _ => subject :: whens.map (·.value)
  | .mixin m => m.defaults
  | .call _ arguments _ => arguments
  | _ => []

/-- Some nodes hold an expression at any depth. -/
def HeldIn (e : Expression) (ns : List Node) : Prop := ∃ n, Stands n ns ∧ e ∈ n.expressions

/-- An expression is at some place of a document, in its nodes or in its mixins. -/
def Document.HoldsExpression (d : Document) (e : Expression) : Prop :=
  ∃ n, d.Holds n ∧ e ∈ n.expressions

/-! ### Evaluation -/

/-- An expression is held that has no value, and the error says so with its text. -/
def Valueless (held : Expression → Prop) (err : ExpressionError) : Prop :=
  ∃ e fault, held e ∧ err = ⟨e.source, .failed fault⟩

section
variable {held : Expression → Prop} {vars : String → Value} {err : ExpressionError}

theorem valueless_of_evaluate {e : Expression} (he : held e) (h : e.evaluate vars = .error err) :
    Valueless held err := by
  unfold Expression.evaluate at h
  cases hv : e.tree.eval vars with
  | ok v =>
    rw [hv] at h
    cases h
  | error fault =>
    rw [hv] at h
    cases h
    exact ⟨e, fault, he, rfl⟩

/-- One of two computations fails if both together do. -/
theorem of_bind_eq_error {ε α β : Type} {x : Except ε α} {f : α → Except ε β} {e : ε}
    (h : (x >>= f) = .error e) : x = .error e ∨ ∃ a, f a = .error e := by
  cases x with
  | error e' =>
    cases h
    exact .inl rfl
  | ok a => exact .inr ⟨a, h⟩

theorem of_map_eq_error {ε α β : Type} {x : Except ε α} {f : α → β} {e : ε}
    (h : x.map f = .error e) : x = .error e := by
  cases x with
  | ok a => cases h
  | error e' =>
    cases h
    rfl

theorem valueless_of_spansText {literals : Bool} {spans : List Span}
    (hheld : ∀ e ∈ spans.flatMap Span.expressions, held e)
    (h : spansText vars literals spans = .error err) : Valueless held err := by
  induction spans with
  | nil => cases h
  | cons span rest ih =>
    have hrest : ∀ e ∈ rest.flatMap Span.expressions, held e := fun e he =>
      hheld e (List.mem_append_right _ he)
    -- What is put in front of the rest cannot fail any more.
    have hlater {f : String → String} (h : (do
        let more ← spansText vars literals rest
        return f more) = .error err) : Valueless held err := by
      rcases of_bind_eq_error h with h | ⟨more, h⟩
      · exact ih hrest h
      · cases h
    cases span with
    | literal s => exact hlater h
    | escaped e =>
      rcases of_bind_eq_error h with h | ⟨v, h⟩
      · exact valueless_of_evaluate (hheld e List.mem_cons_self) h
      · exact hlater h
    | raw e =>
      rcases of_bind_eq_error h with h | ⟨v, h⟩
      · exact valueless_of_evaluate (hheld e List.mem_cons_self) h
      · exact hlater h

theorem valueless_of_attributeEvaluate {a : Attribute} (hheld : ∀ e ∈ a.expressions, held e)
    (h : a.evaluate vars = .error err) : Valueless held err := by
  obtain ⟨name, value, escaped⟩ := a
  cases value with
  | implicit => cases h
  | expression e => exact valueless_of_evaluate (hheld e List.mem_cons_self) (of_map_eq_error h)
  | spans spans => exact valueless_of_spansText hheld (of_map_eq_error h)

theorem valueless_of_attributesText {mode : Mode} {attributes : List Attribute}
    (hheld : ∀ e ∈ attributes.flatMap Attribute.expressions, held e)
    (h : attributesText mode vars attributes = .error err) : Valueless held err := by
  have hcontributions : contributions mode vars attributes = .error err := by
    rcases of_bind_eq_error h with h | ⟨cs, h⟩
    · exact h
    · cases h
  clear h
  induction attributes with
  | nil => cases hcontributions
  | cons a rest ih =>
    rcases of_bind_eq_error hcontributions with h | ⟨c, h⟩
    · rcases of_bind_eq_error h with h | ⟨v, h⟩
      · exact valueless_of_attributeEvaluate (fun e he => hheld e (List.mem_append_left _ he)) h
      · cases h
    · rcases of_bind_eq_error h with h | ⟨more, h⟩
      · exact ih (fun e he => hheld e (List.mem_append_right _ he)) h
      · cases h

theorem valueless_of_evaluateAll {es : List Expression} (hheld : ∀ e ∈ es, held e)
    (h : evaluateAll vars es = .error err) : Valueless held err := by
  induction es with
  | nil => cases h
  | cons e rest ih =>
    rcases of_bind_eq_error h with h | ⟨v, h⟩
    · exact valueless_of_evaluate (hheld e List.mem_cons_self) h
    · rcases of_bind_eq_error h with h | ⟨more, h⟩
      · exact ih (fun e he => hheld e (List.mem_cons_of_mem _ he)) h
      · cases h

/-- The values that a mixin is called with are those of arguments and of defaults. -/
theorem valueless_of_bindArguments {surplus : Option String} {ps : List Parameter}
    {arguments : List Expression} (hdefaults : ∀ e ∈ ps.filterMap (·.default), held e)
    (harguments : ∀ e ∈ arguments, held e)
    (h : bindArguments vars surplus ps arguments = .error err) : Valueless held err := by
  induction ps generalizing arguments with
  | nil =>
    unfold bindArguments at h
    cases surplus with
    | none => cases h
    | some name =>
      rcases of_bind_eq_error h with h | ⟨vs, h⟩
      · exact valueless_of_evaluateAll harguments h
      · cases h
  | cons p ps ih =>
    have hrest : ∀ e ∈ ps.filterMap (·.default), held e := by
      intro e he
      apply hdefaults
      rw [List.filterMap_cons]
      split
      · exact he
      · exact List.mem_cons_of_mem _ he
    -- The value of the first parameter is there or not; then come the others.
    have hlater {v : Value} {arguments : List Expression} (harguments : ∀ e ∈ arguments, held e)
        (h : (do
          let more ← bindArguments vars surplus ps arguments
          return (p.name, v) :: more) = .error err) : Valueless held err := by
      rcases of_bind_eq_error h with h | ⟨more, h⟩
      · exact ih hrest harguments h
      · cases h
    cases arguments with
    | nil =>
      rcases of_bind_eq_error h with h | ⟨v, h⟩
      · unfold Parameter.missing at h
        cases hdefault : p.default with
        | none =>
          rw [hdefault] at h
          cases h
        | some e =>
          rw [hdefault] at h
          refine valueless_of_evaluate (hdefaults e ?_) h
          rw [List.filterMap_cons, hdefault]
          exact List.mem_cons_self
      · exact hlater harguments h
    | cons e rest =>
      rcases of_bind_eq_error h with h | ⟨v, h⟩
      · exact valueless_of_evaluate (harguments e List.mem_cons_self) h
      · exact hlater (fun e he => harguments e (List.mem_cons_of_mem _ he)) h

end

/-! ### Faults of rendering -/

/-- If the fault is about an expression, then about one that is held and has no value. -/
def RenderFault.AboutHeld (held : Expression → Prop) (fault : RenderFault) : Prop :=
  ∀ err, fault = .failed err → Valueless held err

namespace FailsOnly

variable {held : Expression → Prop} {α : Type}

theorem ask {f : (String → Value) → Except ExpressionError α}
    (h : ∀ vars err, f vars = .error err → Valueless held err) :
    FailsOnly (RenderFault.AboutHeld held) (Rendering.ask f) where
  errors s e t hs := by
    unfold Rendering.ask at hs
    cases hf : f s.scope.get with
    | ok a =>
      rw [hf] at hs
      cases hs
    | error err =>
      rw [hf] at hs
      cases hs
      intro err' herr
      cases herr
      exact h _ _ hf

theorem evaluate {e : Expression} (he : held e) :
    FailsOnly (RenderFault.AboutHeld held) (Rendering.evaluate e) :=
  ask fun _ _ h => valueless_of_evaluate he h

theorem write (piece : String) : FailsOnly (RenderFault.AboutHeld held) (Rendering.write piece) where
  errors s e t hs := by
    unfold Rendering.write at hs
    split at hs
    · cases hs
    · split at hs
      · cases hs
      · cases hs
        intro err herr
        cases herr

theorem newline (pretty : Bool) :
    FailsOnly (RenderFault.AboutHeld held) (Rendering.newline pretty) := by
  refine state.bind fun s => ?_
  split
  · exact write _
  · exact result ()

theorem within {P : RenderFault → Prop} {enter leave : RenderState → RenderState}
    {r : Rendering α} (h : FailsOnly P r) : FailsOnly P (Rendering.within enter leave r) where
  errors s e t hs := by
    unfold Rendering.within at hs
    cases hr : r (enter s) with
    | ok a t' =>
      rw [hr] at hs
      cases hs
    | error e' t' =>
      rw [hr] at hs
      cases hs
      exact h.errors _ _ _ hr

theorem atDepth {P : RenderFault → Prop} {depth : Nat} {r : Rendering α} (h : FailsOnly P r) :
    FailsOnly P (Rendering.atDepth depth r) where
  errors s e t hs := by
    change Rendering.within (fun t => { t with scope := (s.scope.splitOff depth).2 })
      (fun t => { t with scope := t.scope.restore (s.scope.splitOff depth).1 }) r s = _ at hs
    exact h.within.errors s e t hs

theorem runLoop {P : RenderFault → Prop} {item : String} {key : Option String} {length : Nat}
    {body : Rendering Unit} (h : FailsOnly P body) (index : Nat)
    (entries : List (Value × Value)) :
    FailsOnly P (Trellis.runLoop item key length body index entries) := by
  induction entries generalizing index with
  | nil => exact result ()
  | cons entry rest ih => exact h.within.bind fun _ => ih (index + 1)

end FailsOnly

section
variable {held : Expression → Prop} (w : RenderSetting)

theorem failsOnly_writeTag (name : String) {attributes : List Attribute}
    (selfClosing atOnce : Bool) {children : Rendering Unit}
    (hheld : ∀ e ∈ attributes.flatMap Attribute.expressions, held e)
    (h : FailsOnly (RenderFault.AboutHeld held) children) :
    FailsOnly (RenderFault.AboutHeld held)
      (writeTag w name attributes selfClosing atOnce children) := by
  have htext : FailsOnly (RenderFault.AboutHeld held) (do
      let text ← ask fun vars => attributesText w.mode vars attributes
      write ("<" ++ name ++ text)) :=
    (FailsOnly.ask fun _ _ h => valueless_of_attributesText hheld h).bind fun _ =>
      FailsOnly.write _
  have hbegin : FailsOnly (RenderFault.AboutHeld held) (beginTag w name attributes) := by
    unfold beginTag
    split
    · exact (FailsOnly.result ()).bind fun _ => htext
    · exact (FailsOnly.newline _).bind fun _ => htext
  have hleave (outer : Bool) : FailsOnly (RenderFault.AboutHeld held) (leaveTag w name outer) := by
    have hend : FailsOnly (RenderFault.AboutHeld held) (do
        write ("</" ++ name ++ ">")
        modify fun s => { s with blockEmitted := outer || !isInline name }) :=
      (FailsOnly.write _).bind fun _ => FailsOnly.change _
    refine FailsOnly.state.bind fun s => ?_
    split
    · exact (FailsOnly.newline _).bind fun _ => hend
    · exact hend
  rw [writeTag_eq]
  refine hbegin.bind fun _ => ?_
  cases atOnce with
  | true => exact (FailsOnly.write _).bind fun _ => FailsOnly.change _
  | false =>
    refine FailsOnly.bind ?_ fun outer => h.within.bind fun _ => hleave outer
    exact (FailsOnly.write _).bind fun _ => FailsOnly.state.bind fun s =>
      (FailsOnly.change _).bind fun _ => FailsOnly.result _

end

/-- All that some nodes hold is held. -/
def HoldAll (held : Expression → Prop) (ns : List Node) : Prop := ∀ e, HeldIn e ns → held e

namespace HoldAll

variable {held : Expression → Prop} {n : Node} {ns children : List Node}

theorem own (h : HoldAll held [n]) : ∀ e ∈ n.expressions, held e := by
  intro e he
  exact h e ⟨n, .here List.mem_cons_self, he⟩

theorem inside (h : HoldAll held [n]) (hchildren : children ∈ n.childLists) :
    HoldAll held children := by
  rintro e ⟨inner, hinner, he⟩
  exact h e ⟨inner, .inside List.mem_cons_self hchildren hinner, he⟩

theorem mono (h : HoldAll held ns) (hsub : children ⊆ ns) : HoldAll held children := by
  rintro e ⟨inner, hinner, he⟩
  exact h e ⟨inner, hinner.mono hsub, he⟩

end HoldAll

/-- What may be rendered under some calls: the mixins and the contents of the calls hold nothing
that is not held. -/
structure CallStack.Holding (held : Expression → Prop) (w : RenderSetting) (cs : CallStack) :
    Prop where
  mixins : ∀ m ∈ w.mixins, HoldAll held [.mixin m.2]
  contents : ∀ c ∈ cs.callers, ∀ body ∈ c.body, HoldAll held body

namespace CallStack.Holding

variable {held : Expression → Prop} {w : RenderSetting} {cs inner outer : CallStack} {c : Caller}

theorem push (h : cs.Holding held w) (hpush : cs.push? c = some inner)
    (hc : ∀ body ∈ c.body, HoldAll held body) : inner.Holding held w where
  mixins := h.mixins
  contents := by
    rw [(CallStack.push?_some hpush).2]
    exact List.forall_mem_cons.mpr ⟨hc, h.contents⟩

theorem pop (h : cs.Holding held w) (hpop : cs.pop? = some (c, outer)) :
    (∀ body ∈ c.body, HoldAll held body) ∧ outer.Holding held w := by
  have hcontents := h.contents
  rw [CallStack.pop?_some hpop] at hcontents
  obtain ⟨hc, houter⟩ := List.forall_mem_cons.mp hcontents
  exact ⟨hc, h.mixins, houter⟩

end CallStack.Holding

/-! ### Rendering -/

theorem failsOnly_throw {held : Expression → Prop} {fault : RenderFault}
    (h : ∀ err, fault ≠ .failed err) :
    FailsOnly (RenderFault.AboutHeld held) (throw fault : Rendering Unit) :=
  .fail fun err herr => absurd herr (h err)

section
variable {held : Expression → Prop} (w : RenderSetting)

mutual

/-- Whatever node is rendered, a fault is about an expression that is held, or about none. -/
theorem failsOnly_renderNode (cs : CallStack) (n : Node) :
    cs.Holding held w → HoldAll held [n] →
      FailsOnly (RenderFault.AboutHeld held) (renderNode w cs n) := by
  cases n with
  | doctype name =>
    intro _ _
    rw [renderNode]
    exact (FailsOnly.newline _).bind fun _ => (FailsOnly.write _).bind fun _ => FailsOnly.change _
  | tag name attributes selfClosing children =>
    intro hcs hn
    rw [renderNode]
    exact failsOnly_writeTag w name selfClosing _ hn.own
      (failsOnly_renderNodes cs children hcs (hn.inside List.mem_cons_self))
  | text spans =>
    intro _ hn
    rw [renderNode]
    exact (FailsOnly.ask fun _ _ h => valueless_of_spansText hn.own h).bind fun _ =>
      FailsOnly.write _
  | output e escaped =>
    intro _ hn
    rw [renderNode]
    exact (FailsOnly.evaluate (hn.own e List.mem_cons_self)).bind fun _ => FailsOnly.write _
  | assign name e =>
    intro _ hn
    rw [renderNode]
    exact (FailsOnly.evaluate (hn.own e List.mem_cons_self)).bind fun _ => FailsOnly.change _
  | cond branches otherwise =>
    intro hcs hn
    rw [renderNode]
    refine failsOnly_renderCond cs branches otherwise hcs ?_ ?_
    · intro b hb
      refine ⟨hn.own _ (List.mem_map_of_mem hb), hn.inside ?_⟩
      exact List.mem_append_left _ (List.mem_map_of_mem hb)
    · intro ns hns
      exact hn.inside (List.mem_append_right _ (Option.mem_toList.mpr hns))
  | each item key collection body fallback =>
    intro hcs hn
    rw [renderNode]
    refine (FailsOnly.evaluate (hn.own collection List.mem_cons_self)).bind fun v => ?_
    cases v.iterate? with
    | none => exact failsOnly_throw (by simp)
    | some items =>
      cases items with
      | nil =>
        refine failsOnly_renderOptional cs fallback hcs fun ns hns => hn.inside ?_
        exact List.mem_cons_of_mem _ (Option.mem_toList.mpr hns)
      | cons first rest =>
        exact FailsOnly.runLoop
          (failsOnly_renderNodes cs body hcs (hn.inside List.mem_cons_self)) 0 _
  | caseOf subject whens default =>
    intro hcs hn
    rw [renderNode]
    refine (FailsOnly.evaluate (hn.own subject List.mem_cons_self)).bind fun v => ?_
    refine failsOnly_renderCase cs v whens default hcs ?_ ?_
    · intro b hb
      refine ⟨hn.own _ (List.mem_cons_of_mem _ (List.mem_map_of_mem hb)), hn.inside ?_⟩
      exact List.mem_append_left _ (List.mem_map_of_mem hb)
    · intro ns hns
      exact hn.inside (List.mem_append_right _ (Option.mem_toList.mpr hns))
  | comment text =>
    intro _ _
    rw [renderNode]
    exact (FailsOnly.newline _).bind fun _ => (FailsOnly.write _).bind fun _ => FailsOnly.change _
  | mixin m =>
    intro _ _
    rw [renderNode]
    exact .result ()
  | call name arguments body =>
    intro hcs hn
    rw [renderNode]
    refine (FailsOnly.state.bind fun s => FailsOnly.result _).bind fun depth => ?_
    cases hfind : w.mixins.find? name with
    | none => exact failsOnly_throw (by simp)
    | some m =>
      -- The mixin is one of the table, so what it holds is held.
      have hm : HoldAll held [.mixin m] := hcs.mixins _ (Table.mem_of_find? hfind)
      dsimp only
      split
      · exact failsOnly_throw (by simp)
      · next inner hpush =>
        have hinner : inner.Holding held w := hcs.push hpush fun ns hns =>
          hn.inside (Option.mem_toList.mpr hns)
        have hbind : ∀ vars err, m.bind arguments vars = .error err → Valueless held err :=
          fun _ _ h => valueless_of_bindArguments hm.own hn.own h
        exact (FailsOnly.ask hbind).bind fun bindings =>
          (failsOnly_renderNodes inner m.body hinner (hm.inside List.mem_cons_self)).within
  | content =>
    intro hcs _
    rw [renderNode]
    split
    · exact .result ()
    · exact .result ()
    · next body depth outer hpop =>
      obtain ⟨hbody, houter⟩ := hcs.pop hpop
      exact (failsOnly_renderNodes outer body houter (hbody body rfl)).atDepth
  | block name mode children =>
    intro hcs hn
    rw [renderNode]
    exact failsOnly_renderNodes cs children hcs (hn.inside List.mem_cons_self)
  | filter name content options =>
    intro _ _
    rw [renderNode]
    split
    · exact failsOnly_throw (by simp)
    · exact .write _
termination_by cs.rank (sizeOf n)
decreasing_by
  any_goals exact CallStack.rank_smaller (by simp +arith)
  · exact CallStack.rank_push ‹_› (by simp +arith)
  · exact CallStack.rank_pop ‹_› (by simp +arith)

theorem failsOnly_renderNodes (cs : CallStack) (ns : List Node) :
    cs.Holding held w → HoldAll held ns →
      FailsOnly (RenderFault.AboutHeld held) (renderNodes w cs ns) := by
  cases ns with
  | nil =>
    intro _ _
    rw [renderNodes]
    exact .result ()
  | cons n rest =>
    intro hcs hns
    rw [renderNodes]
    have hfirst : HoldAll held [n] := hns.mono (List.cons_subset_cons n (List.nil_subset rest))
    have hrest : HoldAll held rest := hns.mono (List.subset_cons_self n rest)
    exact (failsOnly_renderNode cs n hcs hfirst).bind fun _ =>
      failsOnly_renderNodes cs rest hcs hrest
termination_by cs.rank (sizeOf ns)
decreasing_by
  all_goals exact CallStack.rank_smaller (by simp +arith)

theorem failsOnly_renderOptional (cs : CallStack) (ns : Option (List Node)) :
    cs.Holding held w → (∀ given ∈ ns, HoldAll held given) →
      FailsOnly (RenderFault.AboutHeld held) (renderOptional w cs ns) := by
  cases ns with
  | none =>
    intro _ _
    rw [renderOptional]
    exact .result ()
  | some ns =>
    intro hcs hns
    rw [renderOptional]
    exact failsOnly_renderNodes cs ns hcs (hns ns rfl)
termination_by cs.rank (sizeOf ns)
decreasing_by
  all_goals exact CallStack.rank_smaller (by simp +arith)

theorem failsOnly_renderCond (cs : CallStack) (branches : List Branch)
    (otherwise : Option (List Node)) :
    cs.Holding held w → (∀ b ∈ branches, held b.test ∧ HoldAll held b.body) →
      (∀ ns ∈ otherwise, HoldAll held ns) →
      FailsOnly (RenderFault.AboutHeld held) (renderCond w cs branches otherwise) := by
  cases branches with
  | nil =>
    intro hcs _ hotherwise
    rw [renderCond]
    exact failsOnly_renderOptional cs otherwise hcs hotherwise
  | cons branch rest =>
    obtain ⟨test, negated, body⟩ := branch
    intro hcs hbranches hotherwise
    rw [renderCond]
    obtain ⟨⟨htest, hbody⟩, hrest⟩ := List.forall_mem_cons.mp hbranches
    refine (FailsOnly.evaluate htest).bind fun v => ?_
    split
    · exact failsOnly_renderNodes cs body hcs hbody
    · exact failsOnly_renderCond cs rest otherwise hcs hrest hotherwise
termination_by cs.rank (sizeOf branches + sizeOf otherwise)
decreasing_by
  all_goals exact CallStack.rank_smaller (by simp +arith)

theorem failsOnly_renderCase (cs : CallStack) (subject : Value) (whens : List When)
    (default : Option (List Node)) :
    cs.Holding held w → (∀ b ∈ whens, held b.value ∧ HoldAll held b.body) →
      (∀ ns ∈ default, HoldAll held ns) →
      FailsOnly (RenderFault.AboutHeld held) (renderCase w cs subject whens default) := by
  cases whens with
  | nil =>
    intro hcs _ hdefault
    rw [renderCase]
    exact failsOnly_renderOptional cs default hcs hdefault
  | cons alternative rest =>
    obtain ⟨value, body⟩ := alternative
    intro hcs hwhens hdefault
    rw [renderCase]
    obtain ⟨⟨hvalue, hbody⟩, hrest⟩ := List.forall_mem_cons.mp hwhens
    refine (FailsOnly.evaluate hvalue).bind fun v => ?_
    split
    · exact failsOnly_renderNodes cs body hcs hbody
    · exact failsOnly_renderCase cs subject rest default hcs hrest hdefault
termination_by cs.rank (sizeOf whens + sizeOf default)
decreasing_by
  all_goals exact CallStack.rank_smaller (by simp +arith)

end

end

/-! ### Templates -/

/-- A rendering fails with a fault of rendering, about an expression of the document if about
one. -/
theorem Template.fault_of_renderTo (t : Template) {filters : Table Filter} {vars : Variables} {sink : Sink}
    {err : Error} (h : (t.renderTo filters vars sink).1 = .error err) :
    ∃ fault, err = .render t.name fault ∧ fault.AboutHeld t.document.HoldsExpression := by
  have hcs : CallStack.empty.Holding t.document.HoldsExpression (t.setting filters) := by
    refine ⟨fun m hm => ?_, nofun⟩
    rintro e ⟨n, hn, he⟩
    exact ⟨n, .inr ⟨m, hm, hn⟩, he⟩
  have hnodes : HoldAll t.document.HoldsExpression t.document.nodes := by
    rintro e ⟨n, hn, he⟩
    exact ⟨n, .inl hn, he⟩
  have hfails := failsOnly_renderNodes (t.setting filters) .empty t.document.nodes hcs hnodes
  unfold Template.renderTo Trellis.render at h
  cases hrun : renderNodes (t.setting filters) .empty t.document.nodes
      ⟨.start vars, sink, 0, false, false⟩ with
  | ok _ s =>
    rw [hrun] at h
    cases h
  | error fault s =>
    rw [hrun] at h
    cases h
    exact ⟨fault, rfl, hfails.errors _ _ _ hrun⟩

end Trellis
