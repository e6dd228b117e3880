import Trellis.Proofs.Marks
import Trellis.Template

/-!
# `Trellis.Proofs.TwoRuns`: two renderings side by side

Two renderings start with variables that are the same but for one, which is a text in both.
As long as no decision depends on that text, they go through the same steps. They call the
same mixins, make the same passes through loops, and fail with the same faults. What they
write differs only in texts that have the same marks.

`RenderState.Beside` is the relation between their states, and `Parallel` the relation
between parts of them. A part that is parallel to itself is `Steady`. There is one lemma for
each step of `Trellis.Render.State`; a part that is put together from steady parts is steady
by `Parallel.bind`. Where a part computes something first, `Parallel` keeps how the two
results are related: they are equal if the variable does not occur in what is computed
(`eval_congr`), and both texts if it is the variable itself (`Expression.evaluate_shown`).

Only sinks without a limit are considered: a text that is longer can be cut off earlier.
-/

set_option autoImplicit false

namespace Trellis

open Markup

/-! ### Results of two computations -/

/-- Both computations succeed, with related results, or both fail in the same way. -/
inductive Both {ε α β : Type} (Q : α → β → Prop) : Except ε α → Except ε β → Prop
  | ok {a : α} {b : β} (h : Q a b) : Both Q (.ok a) (.ok b)
  | error (e : ε) : Both Q (.error e) (.error e)

namespace Both

variable {ε α β γ δ : Type} {Q : α → β → Prop} {R : γ → δ → Prop}

/-- Two computations that are the same, with results that are related to themselves. -/
theorem of_eq {S : α → α → Prop} {r r' : Except ε α} (h : r = r')
    (hS : ∀ a, r = .ok a → S a a) : Both S r r' := by
  subst h
  cases r with
  | ok a => exact .ok (hS a rfl)
  | error e => exact .error e

theorem bind {r : Except ε α} {r' : Except ε β} {k : α → Except ε γ} {k' : β → Except ε δ}
    (h : Both Q r r') (hk : ∀ a b, Q a b → Both R (k a) (k' b)) : Both R (r >>= k) (r' >>= k') := by
  cases h with
  | ok h => exact hk _ _ h
  | error e => exact .error e

theorem map {r : Except ε α} {r' : Except ε β} {f : α → γ} {f' : β → δ} (h : Both Q r r')
    (hf : ∀ a b, Q a b → R (f a) (f' b)) : Both R (r.map f) (r'.map f') := by
  cases h with
  | ok h => exact .ok (hf _ _ h)
  | error e => exact .error e

end Both

/-! ### What an expression looks at -/

mutual

/-- The variable does not occur in the expression. -/
def Expr.Avoids (x : String) : Expr → Prop
  | .literal _ => True
  | .variable name => name ≠ x
  | .list items => avoidsAll x items
  | .map entries => avoidsEntries x entries
  | .member target _ => target.Avoids x
  | .item target index => target.Avoids x ∧ index.Avoids x
  | .call callee arguments => callee.AvoidsAsCallee x ∧ avoidsAll x arguments
  | .unary _ operand => operand.Avoids x
  | .binary _ left right => left.Avoids x ∧ right.Avoids x
  | .choose test yes no => test.Avoids x ∧ yes.Avoids x ∧ no.Avoids x

/-- The variable does not occur in what is called. The name of a function is no variable. -/
def Expr.AvoidsAsCallee (x : String) : Expr → Prop
  | .member receiver _ => receiver.Avoids x
  | _ => True

/-- The variable does not occur in the expressions. -/
def avoidsAll (x : String) : List Expr → Prop
  | [] => True
  | e :: es => e.Avoids x ∧ avoidsAll x es

/-- The variable does not occur in the entries of a map. -/
def avoidsEntries (x : String) : List (String × Expr) → Prop
  | [] => True
  | (_, e) :: rest => e.Avoids x ∧ avoidsEntries x rest

end

section
variable {x : String} {vars vars' : String → Value} (hvars : ∀ y, y ≠ x → vars y = vars' y)
include hvars

set_option linter.unusedSectionVars false in
mutual

/-- The value of an expression is that of the variables that occur in it. -/
theorem eval_congr : ∀ e : Expr, e.Avoids x → Expr.eval vars e = Expr.eval vars' e
  | .literal _, _ => by rw [Expr.eval, Expr.eval]
  | .variable name, h => by rw [Expr.eval, Expr.eval, hvars name h]
  | .list items, h => by rw [Expr.eval, Expr.eval, evalAll_congr items h]
  | .map entries, h => by rw [Expr.eval, Expr.eval, evalEntries_congr entries h]
  | .member target _, h => by rw [Expr.eval, Expr.eval, eval_congr target h]
  | .item target index, h => by
    rw [Expr.eval, Expr.eval, eval_congr target h.1, eval_congr index h.2]
  | .call callee arguments, h => by
    rw [Expr.eval, Expr.eval, evalAll_congr arguments h.2]
    cases callee with
    | member receiver name =>
      have hreceiver : receiver.Avoids x := h.1
      dsimp only
      rw [eval_congr receiver hreceiver]
    | _ => rfl
  | .unary _ operand, h => by rw [Expr.eval, Expr.eval, eval_congr operand h]
  | .binary _ left right, h => by
    rw [Expr.eval, Expr.eval, eval_congr left h.1, eval_congr right h.2]
  | .choose test yes no, h => by
    rw [Expr.eval, Expr.eval, eval_congr test h.1, eval_congr yes h.2.1, eval_congr no h.2.2]

theorem evalAll_congr : ∀ es : List Expr,
    avoidsAll x es → Expr.evalAll vars es = Expr.evalAll vars' es
  | [], _ => by rw [Expr.evalAll, Expr.evalAll]
  | e :: es, h => by rw [Expr.evalAll, Expr.evalAll, eval_congr e h.1, evalAll_congr es h.2]

theorem evalEntries_congr : ∀ entries : List (String × Expr),
    avoidsEntries x entries → Expr.evalEntries vars entries = Expr.evalEntries vars' entries
  | [], _ => by rw [Expr.evalEntries, Expr.evalEntries]
  | (key, e) :: rest, h => by
    rw [Expr.evalEntries, Expr.evalEntries, eval_congr e h.1, evalEntries_congr rest h.2]

end

end

/-! ### Variables of which one is another text -/

/-- A text that is not empty. -/
def Value.IsText (v : Value) : Prop := ∃ s, s ≠ "" ∧ v = .str s

/-- Variables that are the same but for one, which is a text in both. -/
structure Apart (x : String) (vars vars' : String → Value) : Prop where
  text : (vars x).IsText
  text' : (vars' x).IsText
  others : ∀ y, y ≠ x → vars y = vars' y

/-- Two values that are the same, or are texts. -/
inductive Shown : Value → Value → Prop
  | same (v : Value) : Shown v v
  | texts {v w : Value} (h : v.IsText) (h' : w.IsText) : Shown v w

namespace Expression

/-- The variable does not occur in the expression. -/
def Avoids (x : String) (e : Expression) : Prop := e.tree.Avoids x

/-- The variable is the whole expression, or does not occur in it. -/
def ShowsWhole (x : String) (e : Expression) : Prop := e.tree = .variable x ∨ e.Avoids x

variable {x : String} {vars vars' : String → Value} {e : Expression}

theorem evaluate_congr (hvars : Apart x vars vars') (h : e.Avoids x) :
    e.evaluate vars = e.evaluate vars' := by
  rw [evaluate, evaluate, eval_congr hvars.others e.tree h]

/-- An expression that shows the variable as a whole has a value in both cases. -/
theorem evaluate_shown (hvars : Apart x vars vars') (h : e.ShowsWhole x) :
    Both Shown (e.evaluate vars) (e.evaluate vars') := by
  rcases h with h | h
  · rw [evaluate, evaluate, h, Expr.eval, Expr.eval]
    exact .ok (.texts hvars.text hvars.text')
  · exact Both.of_eq (evaluate_congr hvars h) fun v _ => .same v

end Expression

/-- Two sets of variables that are the same but for one, which is a text that is not empty
in both. -/
structure Variables.Apart (x : String) (vars vars' : Variables) : Prop where
  text : ∃ s, s ≠ "" ∧ Table.find? x vars = some (.str s)
  text' : ∃ s, s ≠ "" ∧ Table.find? x vars' = some (.str s)
  others : ∀ y, y ≠ x → Table.find? y vars = Table.find? y vars'

/-! ### Scopes -/

/-- The variable has no value in some frames. -/
def Absent (x : String) (frames : List Variables) : Prop :=
  ∀ frame ∈ frames, Table.find? x frame = none

theorem Absent.findSome? {x : String} {frames : List Variables} (h : Absent x frames) :
    frames.findSome? (Table.find? x) = none :=
  List.findSome?_eq_none_iff.mpr h

/-- Two scopes that are the same but for one of the given variables, which no frame hides. -/
structure Scope.Apart (x : String) (s t : Scope) : Prop where
  frames : s.frames = t.frames
  absent : Absent x s.frames
  globals : s.globals.Apart x t.globals

namespace Scope.Apart

variable {x : String} {s t : Scope}

theorem get (h : s.Apart x t) : Trellis.Apart x s.get t.get := by
  have habsent := h.absent.findSome?
  refine ⟨?_, ?_, fun y hy => ?_⟩
  · obtain ⟨a, ha, hfind⟩ := h.globals.text
    exact ⟨a, ha, by rw [Scope.get, Scope.find?, habsent, hfind]; rfl⟩
  · obtain ⟨a, ha, hfind⟩ := h.globals.text'
    exact ⟨a, ha, by rw [Scope.get, Scope.find?, ← h.frames, habsent, hfind]; rfl⟩
  · rw [Scope.get, Scope.get, Scope.find?, Scope.find?, h.frames, h.globals.others y hy]

theorem start {vars vars' : Variables} (h : vars.Apart x vars') :
    (Scope.start vars).Apart x (.start vars') where
  frames := rfl
  absent frame hframe := by rw [List.mem_singleton.mp hframe]; rfl
  globals := h

theorem depth (h : s.Apart x t) : s.depth = t.depth := by
  rw [Scope.depth, Scope.depth, h.frames]

theorem pushFrame (h : s.Apart x t) : s.pushFrame.Apart x t.pushFrame where
  frames := congrArg (List.cons []) h.frames
  absent := List.forall_mem_cons.mpr ⟨rfl, h.absent⟩
  globals := h.globals

theorem popFrame (h : s.Apart x t) : s.popFrame.Apart x t.popFrame := by
  obtain ⟨globals, frames⟩ := s
  obtain ⟨globals', frames'⟩ := t
  obtain ⟨rfl, habsent, hglobals⟩ := h
  unfold Scope.popFrame
  split
  · next top under rest heq =>
    cases heq
    exact ⟨rfl, fun frame hframe => habsent frame (List.mem_cons_of_mem _ hframe), hglobals⟩
  · exact ⟨rfl, habsent, hglobals⟩

theorem set {name : String} (h : s.Apart x t) (hname : name ≠ x) (v : Value) :
    (s.set name v).Apart x (t.set name v) := by
  obtain ⟨globals, frames⟩ := s
  obtain ⟨globals', frames'⟩ := t
  obtain ⟨rfl, habsent, hglobals⟩ := h
  cases frames with
  | nil => exact ⟨rfl, habsent, hglobals⟩
  | cons top rest =>
    obtain ⟨htop, hrest⟩ := List.forall_mem_cons.mp habsent
    refine ⟨rfl, List.forall_mem_cons.mpr ⟨?_, hrest⟩, hglobals⟩
    rw [Table.find?_insert, if_neg hname.symm, htop]

theorem setAll {bindings : List (String × Value)} (h : s.Apart x t)
    (hnames : ∀ b ∈ bindings, b.1 ≠ x) : (s.setAll bindings).Apart x (t.setAll bindings) := by
  induction bindings generalizing s t with
  | nil => exact h
  | cons b rest ih =>
    obtain ⟨hb, hrest⟩ := List.forall_mem_cons.mp hnames
    exact ih (h.set hb b.2) hrest

/-- What is below some depth, and above it. -/
theorem splitOff (h : s.Apart x t) (depth : Nat) :
    (s.splitOff depth).1 = (t.splitOff depth).1 ∧ Absent x (s.splitOff depth).1 ∧
      (s.splitOff depth).2.Apart x (t.splitOff depth).2 := by
  obtain ⟨globals, frames⟩ := s
  obtain ⟨globals', frames'⟩ := t
  obtain ⟨rfl, habsent, hglobals⟩ := h
  exact ⟨rfl, fun frame hframe => habsent frame (List.mem_of_mem_take hframe),
    rfl, fun frame hframe => habsent frame (List.mem_of_mem_drop hframe), hglobals⟩

theorem restore {above : List Variables} (h : s.Apart x t) (habove : Absent x above) :
    (s.restore above).Apart x (t.restore above) where
  frames := congrArg (above ++ ·) h.frames
  absent frame hframe := (List.mem_append.mp hframe).elim (habove frame) (h.absent frame)
  globals := h.globals

end Scope.Apart

/-! ### Two renderings -/

/-- Two states of which the variables are the same but for one, and in which texts with the
same marks have been written. -/
structure RenderState.Beside (x : String) (s t : RenderState) : Prop where
  scope : s.scope.Apart x t.scope
  room : s.sink.room = none
  room' : t.sink.room = none
  marks : marks s.sink.text = marks t.sink.text
  indent : s.indent = t.indent
  started : s.started = t.started
  blockEmitted : s.blockEmitted = t.blockEmitted

/-- How two renderings can end: both well, with related results, or both with one fault. -/
inductive Ends {α β : Type} (x : String) (Q : α → β → Prop) :
    EStateM.Result RenderFault RenderState α → EStateM.Result RenderFault RenderState β → Prop
  | ok {a : α} {b : β} {s t : RenderState} (h : Q a b) (hs : s.Beside x t) :
    Ends x Q (.ok a s) (.ok b t)
  | error (e : RenderFault) {s t : RenderState} : Ends x Q (.error e s) (.error e t)

/-- Two renderings that end in the same way if they start side by side. -/
structure Parallel {α β : Type} (x : String) (Q : α → β → Prop) (r : Rendering α)
    (r' : Rendering β) : Prop where
  ends : ∀ s t, s.Beside x t → Ends x Q (r s) (r' t)

/-- A part of a rendering that ends in the same way as itself, wherever it starts. -/
abbrev Steady (x : String) (r : Rendering Unit) : Prop := Parallel x (fun _ _ => True) r r

namespace Parallel

variable {α β γ δ : Type} {x : String} {Q : α → β → Prop} {R : γ → δ → Prop}

theorem result {a : α} {b : β} (h : Q a b) : Parallel x Q (pure a) (pure b) where
  ends _ _ hs := .ok h hs

theorem fail (e : RenderFault) : Parallel x Q (throw e) (throw e) where
  ends _ _ _ := .error e

theorem bind {r : Rendering α} {r' : Rendering β} {k : α → Rendering γ} {k' : β → Rendering δ}
    (h : Parallel x Q r r') (hk : ∀ a b, Q a b → Parallel x R (k a) (k' b)) :
    Parallel x R (r >>= k) (r' >>= k') where
  ends s t hs := by
    have hends := h.ends s t hs
    show Ends x R (EStateM.bind r k s) (EStateM.bind r' k' t)
    unfold EStateM.bind
    generalize r s = first, r' t = first' at hends ⊢
    cases hends with
    | ok hab hst => exact (hk _ _ hab).ends _ _ hst
    | error e => exact .error e

theorem state : Parallel x (fun s t : RenderState => s.Beside x t) get get where
  ends _ _ hs := .ok hs hs

theorem change {f g : RenderState → RenderState}
    (h : ∀ s t, s.Beside x t → (f s).Beside x (g t)) :
    Parallel x (fun _ _ => True) (modify f) (modify g) where
  ends s t hs := .ok trivial (h s t hs)

theorem ask {f : (String → Value) → Except ExpressionError α}
    {g : (String → Value) → Except ExpressionError β}
    (h : ∀ vars vars', Apart x vars vars' → Both Q (f vars) (g vars')) :
    Parallel x Q (Rendering.ask f) (Rendering.ask g) where
  ends s t hs := by
    have hboth := h _ _ hs.scope.get
    unfold Rendering.ask
    generalize f s.scope.get = answer, g t.scope.get = answer' at hboth ⊢
    cases hboth with
    | ok hab => exact .ok hab hs
    | error e => exact .error _

/-- What the variable does not occur in has one value. -/
theorem evaluate {e : Expression} (h : e.Avoids x) :
    Parallel x Eq (Rendering.evaluate e) (Rendering.evaluate e) :=
  ask fun _ _ hvars => Both.of_eq (e.evaluate_congr hvars h) fun _ _ => rfl

theorem depth : Parallel x Eq Rendering.depth Rendering.depth :=
  state.bind fun _ _ hs => .result hs.scope.depth

/-- Pieces of text with the same marks may be written instead of each other. -/
theorem write {piece piece' : String} (h : SameMarks piece piece') :
    Parallel x (fun _ _ => True) (Rendering.write piece) (Rendering.write piece') where
  ends s t hs := by
    unfold Rendering.write Sink.offer
    rw [hs.room, hs.room']
    -- Whether anything counts as written must not depend on the text.
    by_cases hpiece : piece = ""
    · rw [if_pos (String.isEmpty_iff.mpr hpiece),
        if_pos (String.isEmpty_iff.mpr (h.empty.mp hpiece))]
      exact .ok trivial hs
    · have hpiece' : ¬piece' = "" := fun hpiece' => hpiece (h.empty.mpr hpiece')
      rw [if_neg (mt String.isEmpty_iff.mp hpiece), if_neg (mt String.isEmpty_iff.mp hpiece')]
      have hmarks : marks (s.sink.text ++ piece) = marks (t.sink.text ++ piece') := by
        rw [marks_append, marks_append, hs.marks, h.marks]
      exact .ok trivial ⟨hs.scope, rfl, rfl, hmarks, hs.indent, rfl, hs.blockEmitted⟩

/-- Inside changed states that are side by side, and undoing the change leaves them so. -/
theorem within {enter leave enter' leave' : RenderState → RenderState}
    {r : Rendering α} {r' : Rendering β} (henter : ∀ s t, s.Beside x t → (enter s).Beside x (enter' t))
    (hleave : ∀ s t, s.Beside x t → (leave s).Beside x (leave' t)) (h : Parallel x Q r r') :
    Parallel x Q (Rendering.within enter leave r) (Rendering.within enter' leave' r') where
  ends s t hs := by
    have hends := h.ends _ _ (henter s t hs)
    unfold Rendering.within
    generalize r (enter s) = part, r' (enter' t) = part' at hends ⊢
    cases hends with
    | ok hab hst => exact .ok hab (hleave _ _ hst)
    | error e => exact .error e

end Parallel

namespace Steady

variable {x : String}

theorem write (piece : String) : Steady x (Rendering.write piece) :=
  Parallel.write (.refl piece)

theorem newline (pretty : Bool) : Steady x (Rendering.newline pretty) := by
  refine Parallel.state.bind fun s t hs => ?_
  rw [hs.started, hs.indent]
  split
  · exact write _
  · exact .result trivial

/-- A part behind a new line. -/
theorem behindNewline {r : Rendering Unit} (h : Steady x r) (pretty : Bool) :
    Steady x (Rendering.newline pretty >>= fun _ => r) :=
  (newline pretty).bind fun _ _ _ => h

theorem setBlockEmitted (f : Bool → Bool) :
    Steady x (modify fun s => { s with blockEmitted := f s.blockEmitted }) :=
  .change fun _ _ hs => { hs with blockEmitted := congrArg f hs.blockEmitted }

theorem markBlock : Steady x Rendering.markBlock := setBlockEmitted fun _ => true

theorem assign {name : String} (hname : name ≠ x) (v : Value) :
    Steady x (Rendering.assign name v) :=
  .change fun _ _ hs => { hs with scope := hs.scope.set hname v }

theorem indented {r : Rendering Unit} (h : Steady x r) : Steady x (Rendering.indented r) := by
  refine Parallel.within (fun s t hs => ?_) (fun s t hs => ?_) h
  · exact { hs with indent := congrArg (· + 1) hs.indent }
  · exact { hs with indent := congrArg (· - 1) hs.indent }

theorem underFrame {bindings : List (String × Value)} (hnames : ∀ b ∈ bindings, b.1 ≠ x)
    {r : Rendering Unit} (h : Steady x r) : Steady x (Rendering.underFrame bindings r) := by
  refine Parallel.within (fun s t hs => ?_) (fun s t hs => ?_) h
  · exact { hs with scope := hs.scope.pushFrame.setAll hnames }
  · exact { hs with scope := hs.scope.popFrame }

theorem atDepth (depth : Nat) {r : Rendering Unit} (h : Steady x r) :
    Steady x (Rendering.atDepth depth r) where
  ends s t hs := by
    obtain ⟨habove, habsent, hscope⟩ := hs.scope.splitOff depth
    -- What is taken off is the same on both sides, and is put back on top of both.
    have hrestore {u v : RenderState} (huv : u.Beside x v) :
        ({ u with scope := u.scope.restore (s.scope.splitOff depth).1 } : RenderState).Beside x
          { v with scope := v.scope.restore (t.scope.splitOff depth).1 } := by
      rw [← habove]
      exact { huv with scope := huv.scope.restore habsent }
    have hbelow {u v : RenderState} (huv : u.Beside x v) :
        ({ u with scope := (s.scope.splitOff depth).2 } : RenderState).Beside x
          { v with scope := (t.scope.splitOff depth).2 } :=
      { huv with scope := hscope }
    exact (Parallel.within (fun _ _ => hbelow) (fun _ _ => hrestore) h).ends s t hs

/-- The passes of a loop that binds other names. -/
theorem runLoop {item : String} {key : Option String} {length : Nat} {body : Rendering Unit}
    (hitem : item ≠ x) (hkey : key ≠ some x) (hloop : "loop" ≠ x) (h : Steady x body)
    (index : Nat) (items : List (Value × Value)) :
    Steady x (Trellis.runLoop item key length body index items) := by
  induction items generalizing index with
  | nil => exact .result trivial
  | cons entry rest ih =>
    have hnames : ∀ b ∈ loopBindings item key index length entry, b.1 ≠ x := by
      intro b hb
      rcases List.mem_append.mp hb with hb | hb
      · rcases List.mem_cons.mp hb with rfl | hb
        · exact hitem
        · obtain ⟨k, hk, rfl⟩ := List.mem_map.mp hb
          exact fun hkx => hkey (by rw [Option.mem_toList.mp hk]; exact congrArg some hkx)
      · rw [List.mem_singleton.mp hb]
        exact hloop
    exact (h.underFrame hnames).bind fun _ _ _ => ih (index + 1)

end Steady

end Trellis
