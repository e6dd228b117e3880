import Trellis.Proofs.Machine
import Trellis.Proofs.Phases
import Trellis.Proofs.Sharing
import Trellis.Render.Handled

/-!
# `Trellis.Proofs.Handling`: rendering through a cache

The renderer that asks a handler gives what the renderer gives that holds read expressions. Without
a cache that is so because running a computation directly goes through its steps one by one
(`Client.direct_bind`, `Process.direct_bind`), and so each function of the one renderer becomes the
function of the same name of the other. `renderNodes_direct` is the induction along both. With a cache
it is then so because no computation notices the cache (`Expr.Cache.Sound.run_eq`).

`cache_invisible` says all that can be seen of the cache behind any calls.
-/

set_option autoImplicit false

namespace Trellis

open Trellis.Expr (Client Process Call Shared)
open Markup

namespace Expr

variable {ε σ α β : Type}

/-! ### Steps one by one -/

theorem Client.direct_bind (x : Client α) (f : α → Client β) :
    (x.bind f).direct = (f x.direct).direct := by
  induction x with
  | done a => rfl
  | compile source next ih => exact ih _
  | evaluate source vars next ih => exact ih _

theorem Process.direct_bind (r : Process ε σ α) (f : α → Process ε σ β) :
    (r >>= f).direct = r.direct >>= fun a => (f a).direct := by
  funext s
  refine (Client.direct_bind (r s) _).trans ?_
  show _ = EStateM.bind r.direct (fun a => (f a).direct) s
  rw [EStateM.bind, direct]
  cases (r s).direct <;> rfl

end Expr

namespace Handled

variable {α β : Type}

/-- What is given without a cache. -/
def Evaluation.direct (x : Evaluation α) : Except ExpressionError α := Client.direct x

theorem Evaluation.direct_bind (x : Evaluation α) (f : α → Evaluation β) :
    (x >>= f).direct = x.direct >>= fun a => (f a).direct := by
  refine (Client.direct_bind x _).trans ?_
  rw [Evaluation.direct]
  cases Client.direct x <;> rfl

theorem Evaluation.direct_pure (a : α) : Evaluation.direct (pure a) = .ok a := rfl

theorem evaluate_direct (vars : String → Value) (e : Expression) :
    (evaluate vars e).direct = e.evaluate vars := by
  show (Expression.compile e.source >>= fun e => e.evaluate vars) = _
  rw [e.compile_source]
  rfl

/-! ### Attributes and arguments -/

theorem spansText_direct (vars : String → Value) (literals : Bool) (spans : List Span) :
    (spansText vars literals spans).direct = Trellis.spansText vars literals spans := by
  induction spans with
  | nil => rfl
  | cons span rest ih =>
    cases span with
    | literal s =>
      simp only [spansText, Trellis.spansText, Evaluation.direct_bind, ih]
      rfl
    | escaped e =>
      simp only [spansText, Trellis.spansText, Evaluation.direct_bind, evaluate_direct, ih]
      rfl
    | raw e =>
      simp only [spansText, Trellis.spansText, Evaluation.direct_bind, evaluate_direct, ih]
      rfl

theorem attributeValue_direct (vars : String → Value) (a : Attribute) :
    (attributeValue vars a).direct = a.evaluate vars := by
  obtain ⟨name, value, escaped⟩ := a
  cases value with
  | implicit => rfl
  | expression e =>
    show Evaluation.direct (evaluate vars e >>= fun v => pure (v, escaped)) =
      (e.evaluate vars).map fun v => (v, escaped)
    rw [Evaluation.direct_bind, evaluate_direct]
    cases e.evaluate vars <;> rfl
  | spans spans =>
    show Evaluation.direct (spansText vars escaped spans >>= fun s => pure (Value.str s, false)) =
      (Trellis.spansText vars escaped spans).map fun s => (Value.str s, false)
    rw [Evaluation.direct_bind, spansText_direct]
    cases Trellis.spansText vars escaped spans <;> rfl

theorem contributions_direct (mode : Mode) (vars : String → Value) (attributes : List Attribute) :
    (contributions mode vars attributes).direct = Trellis.contributions mode vars attributes := by
  induction attributes with
  | nil => rfl
  | cons a rest ih =>
    simp only [contributions, Trellis.contributions, Attribute.contribution, Evaluation.direct_bind,
      attributeValue_direct, ih, bind_assoc]
    rfl

theorem attributesText_direct (mode : Mode) (vars : String → Value) (attributes : List Attribute) :
    (attributesText mode vars attributes).direct = Trellis.attributesText mode vars attributes := by
  rw [attributesText, Evaluation.direct_bind, contributions_direct]
  rfl

theorem evaluateAll_direct (vars : String → Value) (es : List Expression) :
    (evaluateAll vars es).direct = Trellis.evaluateAll vars es := by
  induction es with
  | nil => rfl
  | cons e rest ih =>
    simp only [evaluateAll, Trellis.evaluateAll, Evaluation.direct_bind, evaluate_direct, ih]
    rfl

theorem missing_direct (vars : String → Value) (p : Parameter) :
    (missing vars p).direct = p.missing vars := by
  obtain ⟨name, default⟩ := p
  cases default with
  | none => rfl
  | some e => exact evaluate_direct vars e

theorem bindArguments_direct (vars : String → Value) (surplus : Option String)
    (parameters : List Parameter) (arguments : List Expression) :
    (bindArguments vars surplus parameters arguments).direct =
      Trellis.bindArguments vars surplus parameters arguments := by
  induction parameters generalizing arguments with
  | nil =>
    rw [bindArguments.eq_def, Trellis.bindArguments.eq_def]
    cases surplus with
    | none => rfl
    | some name =>
      simp only [Evaluation.direct_bind, evaluateAll_direct]
      rfl
  | cons p ps ih =>
    cases arguments with
    | nil =>
      simp only [bindArguments, Trellis.bindArguments, Evaluation.direct_bind, missing_direct, ih]
      rfl
    | cons e rest =>
      simp only [bindArguments, Trellis.bindArguments, Evaluation.direct_bind, evaluate_direct, ih]
      rfl

/-! ### Steps of rendering -/

theorem ask_direct (f : (String → Value) → Evaluation α) :
    (ask f).direct = Trellis.Rendering.ask fun vars => (f vars).direct := by
  funext s
  refine (Client.direct_bind (f s.scope.get) _).trans ?_
  rw [Trellis.Rendering.ask, Evaluation.direct]
  cases Client.direct (f s.scope.get) <;> rfl

theorem evaluate_ask_direct (e : Expression) :
    (ask fun vars => evaluate vars e).direct = Trellis.Rendering.evaluate e := by
  rw [ask_direct]
  exact congrArg _ (funext fun vars => evaluate_direct vars e)

theorem within_direct (enter leave : RenderState → RenderState) (r : Rendering α) :
    (within enter leave r).direct = Trellis.Rendering.within enter leave r.direct := by
  funext s
  refine (Client.direct_bind (r (enter s)) _).trans ?_
  rw [Trellis.Rendering.within, Process.direct]
  cases (r (enter s)).direct <;> rfl

theorem indented_direct (r : Rendering α) :
    (indented r).direct = Trellis.Rendering.indented r.direct :=
  within_direct _ _ r

theorem underFrame_direct (bindings : List (String × Value)) (r : Rendering α) :
    (underFrame bindings r).direct = Trellis.Rendering.underFrame bindings r.direct :=
  within_direct _ _ r

theorem atDepth_direct (depth : Nat) (r : Rendering α) :
    (atDepth depth r).direct = Trellis.Rendering.atDepth depth r.direct := by
  funext s
  exact congrFun (within_direct (fun t => { t with scope := (s.scope.splitOff depth).2 })
    (fun t => { t with scope := t.scope.restore (s.scope.splitOff depth).1 }) r) s

theorem runLoop_direct (item : String) (key : Option String) (length : Nat) (body : Rendering Unit)
    (index : Nat) (entries : List (Value × Value)) :
    (runLoop item key length body index entries).direct =
      Trellis.runLoop item key length body.direct index entries := by
  induction entries generalizing index with
  | nil => rfl
  | cons entry rest ih =>
    rw [runLoop, Process.direct_bind, underFrame_direct, Trellis.runLoop]
    exact congrArg _ (funext fun _ => ih (index + 1))

theorem writeTag_direct (w : RenderSetting) (name : String) (attributes : List Attribute)
    (selfClosing atOnce : Bool) (children : Rendering Unit) :
    (writeTag w name attributes selfClosing atOnce children).direct =
      Trellis.writeTag w name attributes selfClosing atOnce children.direct := by
  have hbegin (w : RenderSetting) (name : String) (attributes : List Attribute) :
      Process.direct (do
        Process.step (unless isInline name do Rendering.newline w.pretty)
        let text ← ask fun vars => attributesText w.mode vars attributes
        Process.step (Rendering.write ("<" ++ name ++ text))) = beginTag w name attributes := by
    simp only [Process.direct_bind, ask_direct, attributesText_direct]
    rw [beginTag]
    cases isInline name <;> rfl
  rw [writeTag_eq, ← hbegin]
  cases atOnce with
  | true =>
    simp only [writeTag, Process.direct_bind, bind_assoc]
    rfl
  | false =>
    simp only [writeTag, Process.direct_bind, bind_assoc, indented_direct, Bool.false_eq_true, if_false]
    rfl

/-! ### Nodes -/

section
variable (w : RenderSetting)

mutual

theorem renderNode_direct (cs : CallStack) (n : Node) :
    (renderNode w cs n).direct = Trellis.renderNode w cs n := by
  cases n with
  | doctype name =>
    rw [renderNode, Trellis.renderNode]
    rfl
  | tag name attributes selfClosing children =>
    rw [renderNode, Trellis.renderNode, writeTag_direct, renderNodes_direct]
  | text spans =>
    rw [renderNode, Trellis.renderNode, Process.direct_bind, ask_direct]
    simp only [spansText_direct]
    rfl
  | output e escaped =>
    rw [renderNode, Trellis.renderNode, Process.direct_bind, evaluate_ask_direct]
    rfl
  | assign name e =>
    rw [renderNode, Trellis.renderNode, Process.direct_bind, evaluate_ask_direct]
    rfl
  | cond branches otherwise =>
    rw [renderNode, Trellis.renderNode, renderCond_direct]
  | each item key collection body fallback =>
    rw [renderNode, Trellis.renderNode, Process.direct_bind, evaluate_ask_direct]
    refine congrArg _ (funext fun v => ?_)
    cases v.iterate? with
    | none => rfl
    | some items =>
      cases items with
      | nil => exact renderOptional_direct cs fallback
      | cons first rest =>
        refine (runLoop_direct ..).trans ?_
        rw [renderNodes_direct]
  | caseOf subject whens default =>
    rw [renderNode, Trellis.renderNode, Process.direct_bind, evaluate_ask_direct]
    exact congrArg _ (funext fun v => renderCase_direct cs v whens default)
  | comment text =>
    rw [renderNode, Trellis.renderNode]
    rfl
  | mixin m =>
    rw [renderNode, Trellis.renderNode]
    rfl
  | call name arguments body =>
    rw [renderNode, Trellis.renderNode, Process.direct_bind]
    refine congrArg _ (funext fun depth => ?_)
    cases w.mixins.find? name with
    | none => rfl
    | some m =>
      dsimp only
      generalize hpush : cs.push? ⟨body, depth⟩ = pushed
      cases pushed with
      | none => rfl
      | some inner =>
        dsimp only
        rw [Process.direct_bind, ask_direct]
        simp only [bindArguments_direct, underFrame_direct]
        rw [renderNodes_direct inner m.body]
        rfl
  | content =>
    rw [renderNode, Trellis.renderNode]
    generalize hpop : cs.pop? = popped
    match popped with
    | none => rfl
    | some (⟨none, _⟩, _) => rfl
    | some (⟨some body, depth⟩, outer) =>
      dsimp only
      rw [atDepth_direct, renderNodes_direct]
  | block name mode children =>
    rw [renderNode, Trellis.renderNode, renderNodes_direct]
  | filter name content options =>
    rw [renderNode, Trellis.renderNode]
    cases w.filters.find? name <;> rfl
termination_by cs.rank (sizeOf n)
decreasing_by
  any_goals exact CallStack.rank_smaller (by simp +arith)
  · exact CallStack.rank_push ‹_› (by simp +arith)
  · exact CallStack.rank_pop ‹_› (by simp +arith)

/-- **The one renderer becomes the other without a cache.** -/
theorem renderNodes_direct (cs : CallStack) (ns : List Node) :
    (renderNodes w cs ns).direct = Trellis.renderNodes w cs ns := by
  cases ns with
  | nil =>
    rw [renderNodes, Trellis.renderNodes]
    rfl
  | cons n rest =>
    rw [renderNodes, Trellis.renderNodes, Process.direct_bind, renderNode_direct,
      renderNodes_direct]
termination_by cs.rank (sizeOf ns)
decreasing_by
  all_goals exact CallStack.rank_smaller (by simp +arith)

theorem renderOptional_direct (cs : CallStack) (ns : Option (List Node)) :
    (renderOptional w cs ns).direct = Trellis.renderOptional w cs ns := by
  cases ns with
  | none =>
    rw [renderOptional, Trellis.renderOptional]
    rfl
  | some ns => rw [renderOptional, Trellis.renderOptional, renderNodes_direct]
termination_by cs.rank (sizeOf ns)
decreasing_by
  all_goals exact CallStack.rank_smaller (by simp +arith)

theorem renderCond_direct (cs : CallStack) (branches : List Branch)
    (otherwise : Option (List Node)) :
    (renderCond w cs branches otherwise).direct = Trellis.renderCond w cs branches otherwise := by
  cases branches with
  | nil => rw [renderCond, Trellis.renderCond, renderOptional_direct]
  | cons branch rest =>
    obtain ⟨test, negated, body⟩ := branch
    rw [renderCond, Trellis.renderCond, Process.direct_bind, evaluate_ask_direct]
    refine congrArg _ (funext fun v => ?_)
    split
    · exact renderNodes_direct cs body
    · exact renderCond_direct cs rest otherwise
termination_by cs.rank (sizeOf branches + sizeOf otherwise)
decreasing_by
  all_goals exact CallStack.rank_smaller (by simp +arith)

theorem renderCase_direct (cs : CallStack) (subject : Value) (whens : List When)
    (default : Option (List Node)) :
    (renderCase w cs subject whens default).direct =
      Trellis.renderCase w cs subject whens default := by
  cases whens with
  | nil => rw [renderCase, Trellis.renderCase, renderOptional_direct]
  | cons alternative rest =>
    obtain ⟨value, body⟩ := alternative
    rw [renderCase, Trellis.renderCase, Process.direct_bind, evaluate_ask_direct]
    refine congrArg _ (funext fun v => ?_)
    split
    · exact renderNodes_direct cs body
    · exact renderCase_direct cs subject rest default
termination_by cs.rank (sizeOf whens + sizeOf default)
decreasing_by
  all_goals exact CallStack.rank_smaller (by simp +arith)

end

theorem render_direct (nodes : List Node) (vars : Variables) (sink : Sink) :
    (render w nodes vars sink).direct = Trellis.render w nodes vars sink := by
  rw [render, Client.direct_bind, Trellis.render, ← renderNodes_direct, Process.direct]
  cases (renderNodes w .empty nodes ⟨.start vars, sink, 0, false, false⟩).direct <;> rfl

end

end Handled

namespace Template

theorem handledTo_direct (t : Template) (filters : Table Filter) (vars : Variables) (sink : Sink) :
    (t.handledTo filters vars sink).direct = t.renderTo filters vars sink := by
  rw [handledTo, Client.direct_bind, Handled.render_direct]
  rfl

theorem handled_direct (t : Template) (filters : Table Filter) (vars : Variables) :
    (t.handled filters vars).direct = t.render filters vars := by
  rw [handled, Client.direct_bind, handledTo_direct]
  rfl

end Template

/-! ### What is seen of the cache -/

/-- **The cache cannot be seen**, behind any calls of handlers that cache and of handlers that do
not. All that tells of it is which texts it holds, and that these have one object each. -/
theorem cache_invisible (calls : List Call) :
    let c := Expr.Cache.empty.after calls
    -- Every answer is the one that is given without a cache.
    (∀ caching source,
      (c.compile caching source).1.map Shared.expression = Expression.compile source) ∧
    (∀ caching source vars,
      (c.evaluate caching source vars).1 =
        Expression.compile source >>= fun e => e.evaluate vars) ∧
    -- A text is held if a handler that caches has compiled it, and then has one object for good.
    (∀ source, c.holds source = true ↔
      ∃ call ∈ calls, call.caching = true ∧ call.source = source ∧
        ∃ e, Expression.compile source = .ok e) ∧
    (∀ source, c.holds source = true →
      ∃ shared, ∀ more, ((c.after more).compile true source).1 = .ok shared) ∧
    -- A handler that does not cache leaves the entries alone and does not look at them.
    (∀ source vars,
      (c.compile false source).2.entries = c.entries ∧
      (c.evaluate false source vars).2.entries = c.entries ∧
      ∀ entries, (Expr.Cache.compile false source ⟨entries, c.next⟩).1 = (c.compile false source).1 ∧
        (Expr.Cache.evaluate false source vars ⟨entries, c.next⟩).1 =
          (c.evaluate false source vars).1) ∧
    -- Whatever is done with a handler comes to the same, and so does rendering.
    (∀ (α : Type) (x : Client α) caching,
      (x.run caching c).1 = x.direct ∧ ∃ more, (x.run caching c).2 = c.after more) ∧
    (∀ (t : Template) filters vars caching,
      ((t.handled filters vars).run caching c).1 = t.render filters vars) ∧
    (∀ (t : Template) filters vars sink caching,
      ((t.handledTo filters vars sink).run caching c).1 = t.renderTo filters vars sink) := by
  intro c
  have hsound : c.Sound := Expr.Cache.sound_empty.after calls
  refine ⟨hsound.compile_eq, hsound.evaluate_eq, fun source => ?_, fun _ => Expr.Cache.compile_of_holds,
    fun source vars => ⟨c.entries_compile_false source, ?_, fun entries =>
      have hnext : (⟨entries, c.next⟩ : Expr.Cache).next = c.next := rfl
      ⟨Expr.Cache.compile_false_congr hnext source, Expr.Cache.evaluate_false_congr hnext source vars⟩⟩,
    fun _ x => hsound.run_eq x, fun t filters vars caching => ?_,
    fun t filters vars sink caching => ?_⟩
  · rw [Expr.Cache.holds_after_iff]
    simp [Expr.Cache.holds, Expr.Cache.empty, Table.has, Call.Enters]
  · rw [Expr.Cache.evaluate_snd]
    exact c.entries_compile_false source
  · rw [(hsound.run_eq _ caching).1, Template.handled_direct]
  · rw [(hsound.run_eq _ caching).1, Template.handledTo_direct]

end Trellis
