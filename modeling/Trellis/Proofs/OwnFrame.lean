import Mathlib.Data.List.Forall2
import Trellis.Proofs.Binding
import Trellis.Proofs.Faults
import Trellis.Proofs.TwoRuns

/-!
# `Trellis.Proofs.OwnFrame`: nodes under a frame of their own

Loops and calls put a frame on top for some nodes, and take it off behind them. This module follows
two renderings of such nodes, under frames that differ in what they say of some names. If the nodes
do not look these names up (`LooksUp`), the renderings write the same and end in the same way. If
they do not put out the content of a call around them (`PutsContent`), they leave the frames below
as they are. Both together are `level_underFrame`.

Meanwhile other frames come and go on top. Where one of them binds a name, nothing is seen of the
difference, and the content of a call is rendered without the frames that were put on top of its
place. So what is said of the nodes depends on the names that the frames on top bind for certain
(`Veil.Suits`), and is said of the contents of the calls under way too (`Veil.Fits`).

`Veil.alike_renderNodes` is the induction over the renderer. What is noted for the layout counts
only if there is one.
-/

set_option autoImplicit false

namespace Trellis

open Markup Rendering

/-! ### What nodes look up and put out -/

/-- The expressions that are evaluated for a node itself, apart from those of the nodes inside it
and of a mixin's body. -/
def Node.evaluated (mixins : Table Mixin) : Node → List Expression
  | .mixin _ => []
  | .call name arguments _ =>
    match mixins.find? name with
    | none => []
    | some m => m.sources arguments
  | n => n.expressions

/-- The names that the passes of a loop bind. -/
def passNames (item : String) (key : Option String) : List String := item :: key.toList ++ ["loop"]

/-- The lists of nodes right inside a node in which a name means what it means at the node. -/
def Node.listsSeeing (x : String) : Node → List (List Node)
  | .mixin _ => []
  | .each item key _ body fallback =>
    (if x ∈ passNames item key then [] else [body]) ++ fallback.toList
  | n => n.childLists

/-- Rendering some nodes may look a name up, also in the mixins that are called, before it is
bound again. -/
inductive LooksUp (mixins : Table Mixin) (x : String) : List Node → Prop
  | here {ns : List Node} {n : Node} {e : Expression} (hn : n ∈ ns) (he : e ∈ n.evaluated mixins)
    (h : ¬e.Avoids x) : LooksUp mixins x ns
  | inside {ns children : List Node} {n : Node} (hn : n ∈ ns)
    (hchildren : children ∈ n.listsSeeing x) (h : LooksUp mixins x children) : LooksUp mixins x ns
  | called {ns : List Node} {name : String} {arguments : List Expression}
    {body : Option (List Node)} {m : Mixin} (hn : .call name arguments body ∈ ns)
    (hm : mixins.find? name = some m) (hx : x ∉ m.names) (h : LooksUp mixins x m.body) :
    LooksUp mixins x ns

/-- Some nodes put out the content of the call in the body of whose mixin they stand. -/
inductive PutsContent : List Node → Prop
  | here {ns : List Node} (h : .content ∈ ns) : PutsContent ns
  | inside {ns children : List Node} {n : Node} (hn : n ∈ ns) (hn' : ∀ m, n ≠ .mixin m)
    (hchildren : children ∈ n.childLists) (h : PutsContent children) : PutsContent ns

theorem LooksUp.mono {mixins : Table Mixin} {x : String} {ns more : List Node}
    (h : LooksUp mixins x ns) (hsub : ns ⊆ more) : LooksUp mixins x more := by
  cases h with
  | here hn he h => exact .here (hsub hn) he h
  | inside hn hchildren h => exact .inside (hsub hn) hchildren h
  | called hn hm hx h => exact .called (hsub hn) hm hx h

theorem PutsContent.mono {ns more : List Node} (h : PutsContent ns) (hsub : ns ⊆ more) :
    PutsContent more := by
  cases h with
  | here h => exact .here (hsub h)
  | inside hn hn' hchildren h => exact .inside (hsub hn) hn' hchildren h

theorem not_putsContent_nil : ¬PutsContent [] := by
  intro h
  cases h with
  | here h => cases h
  | inside hn => cases hn

/-- Some nodes put out content if the first does, or something in it, or the others do. -/
theorem putsContent_cons_iff {n : Node} {ns : List Node} :
    PutsContent (n :: ns) ↔ n = .content ∨
      ((∀ m, n ≠ .mixin m) ∧ ∃ children ∈ n.childLists, PutsContent children) ∨
      PutsContent ns := by
  constructor
  · intro h
    cases h with
    | here h => exact (List.mem_cons.mp h).imp Eq.symm fun h => .inr (.here h)
    | inside hn hn' hchildren h =>
      rcases List.mem_cons.mp hn with rfl | hn
      · exact .inr (.inl ⟨hn', _, hchildren, h⟩)
      · exact .inr (.inr (.inside hn hn' hchildren h))
  · rintro (rfl | ⟨hn', children, hchildren, h⟩ | h)
    · exact .here List.mem_cons_self
    · exact .inside List.mem_cons_self hn' hchildren h
    · exact h.mono (List.subset_cons_self n ns)

theorem not_looksUp_nil {mixins : Table Mixin} {x : String} : ¬LooksUp mixins x [] := by
  intro h
  cases h with
  | here hn => cases hn
  | inside hn => cases hn
  | called hn => cases hn

/-- Some nodes look a name up if the first does, or something in it or the body of the mixin that
it calls, or the others do. -/
theorem looksUp_cons_iff {mixins : Table Mixin} {x : String} {n : Node} {ns : List Node} :
    LooksUp mixins x (n :: ns) ↔ (∃ e ∈ n.evaluated mixins, ¬e.Avoids x) ∨
      (∃ children ∈ n.listsSeeing x, LooksUp mixins x children) ∨
      (∃ name arguments body m, n = .call name arguments body ∧ mixins.find? name = some m ∧
        x ∉ m.names ∧ LooksUp mixins x m.body) ∨ LooksUp mixins x ns := by
  constructor
  · intro h
    cases h with
    | here hn he h =>
      rcases List.mem_cons.mp hn with rfl | hn
      · exact .inl ⟨_, he, h⟩
      · exact .inr (.inr (.inr (.here hn he h)))
    | inside hn hchildren h =>
      rcases List.mem_cons.mp hn with rfl | hn
      · exact .inr (.inl ⟨_, hchildren, h⟩)
      · exact .inr (.inr (.inr (.inside hn hchildren h)))
    | called hn hm hx h =>
      rcases List.mem_cons.mp hn with rfl | hn
      · exact .inr (.inr (.inl ⟨_, _, _, _, rfl, hm, hx, h⟩))
      · exact .inr (.inr (.inr (.called hn hm hx h)))
  · rintro (⟨e, he, h⟩ | ⟨children, hchildren, h⟩ | ⟨name, arguments, body, m, rfl, hm, hx, h⟩ | h)
    · exact .here List.mem_cons_self he h
    · exact .inside List.mem_cons_self hchildren h
    · exact .called List.mem_cons_self hm hx h
    · exact h.mono (List.subset_cons_self n ns)

theorem names_loopBindings (item : String) (key : Option String) (index length : Nat)
    (entry : Value × Value) :
    (loopBindings item key index length entry).map (·.1) = passNames item key := by
  cases key <;> rfl

/-! ### What is computed from variables -/

/-- An expression has one value, if only variables differ that do not occur in it. -/
theorem Expression.evaluate_eq_of_avoids {e : Expression} (names : List String)
    {vars vars' : String → Value} (hvars : ∀ y, y ∉ names → vars y = vars' y)
    (h : ∀ y ∈ names, e.Avoids y) : e.evaluate vars = e.evaluate vars' := by
  induction names generalizing vars with
  | nil => rw [funext fun y => hvars y List.not_mem_nil]
  | cons x names ih =>
    obtain ⟨hx, hnames⟩ := List.forall_mem_cons.mp h
    -- One variable after the other gets its other value.
    let between : String → Value := fun y => if y = x then vars' y else vars y
    have hfirst : e.evaluate vars = e.evaluate between := by
      rw [Expression.evaluate, Expression.evaluate]
      rw [eval_congr (x := x) (fun y hy => (if_neg hy).symm) e.tree hx]
    refine hfirst.trans (ih (fun y hy => ?_) hnames)
    by_cases hyx : y = x
    · exact if_pos hyx
    · exact (if_neg hyx).trans (hvars y (List.not_mem_cons_of_ne_of_not_mem hyx hy))

section
variable {vars vars' : String → Value}

theorem spansText_eq_of_forall (literals : Bool) {spans : List Span}
    (h : ∀ e ∈ spans.flatMap Span.expressions, e.evaluate vars = e.evaluate vars') :
    spansText vars literals spans = spansText vars' literals spans := by
  induction spans with
  | nil => rfl
  | cons span rest ih =>
    rw [List.flatMap_cons] at h
    obtain ⟨hspan, hrest⟩ := List.forall_mem_append.mp h
    cases span with
    | literal s => rw [spansText, spansText, ih hrest]
    | escaped e => rw [spansText, spansText, ih hrest, hspan e (List.mem_singleton_self e)]
    | raw e => rw [spansText, spansText, ih hrest, hspan e (List.mem_singleton_self e)]

theorem attributesText_eq_of_forall (mode : Mode) {attributes : List Attribute}
    (h : ∀ e ∈ attributes.flatMap Attribute.expressions, e.evaluate vars = e.evaluate vars') :
    attributesText mode vars attributes = attributesText mode vars' attributes := by
  have hall : contributions mode vars attributes = contributions mode vars' attributes := by
    induction attributes with
    | nil => rfl
    | cons a rest ih =>
      rw [List.flatMap_cons] at h
      obtain ⟨ha, hrest⟩ := List.forall_mem_append.mp h
      have hvalue : a.evaluate vars = a.evaluate vars' := by
        obtain ⟨name, value, escaped⟩ := a
        cases value with
        | implicit => rfl
        | expression e =>
          exact congrArg (Except.map fun v => (v, escaped)) (ha e (List.mem_singleton_self e))
        | spans spans =>
          exact congrArg (Except.map fun s => (Value.str s, false))
            (spansText_eq_of_forall escaped ha)
      rw [contributions, contributions, ih hrest, Attribute.contribution, Attribute.contribution,
        hvalue]
  rw [attributesText, attributesText, hall]

end

/-! ### Two scopes -/

/-- What is the same for two renderings that differ in what one frame says: the names of which it
may say something else, the given variables, and the frames below. -/
structure Veil where
  hidden : List String
  globals : Variables
  low : List Variables

/-- A frame gives some names a value. -/
def BindsAll (names : List String) (frame : Variables) : Prop :=
  ∀ x ∈ names, (Table.find? x frame).isSome

namespace Veil

variable (v : Veil)

/-- Two scopes that are the same but for what one frame says of the hidden names. The frames above
it bind some names for certain. -/
inductive Scopes : List (List String) → Scope → Scope → Prop
  | intro {names : List (List String)} {top : List Variables} {own own' : Variables}
    (hnames : List.Forall₂ BindsAll names top)
    (hown : ∀ x, x ∉ v.hidden → Table.find? x own = Table.find? x own') :
    Scopes names ⟨v.globals, top ++ own :: v.low⟩ ⟨v.globals, top ++ own' :: v.low⟩

variable {v}

namespace Scopes

variable {names : List (List String)} {c d : Scope}

theorem depth_eq (h : v.Scopes names c d) : c.depth = names.length + (v.low.length + 1) := by
  obtain @⟨top, own, own', hnames, -⟩ := h
  show (top ++ own :: v.low).length = _
  rw [List.length_append, hnames.length_eq]
  rfl

theorem depth_eq' (h : v.Scopes names c d) : c.depth = d.depth := by
  cases h
  simp [Scope.depth]

/-- With no frame above. -/
theorem bare {own own' : Variables}
    (h : ∀ x, x ∉ v.hidden → Table.find? x own = Table.find? x own') :
    v.Scopes [] ⟨v.globals, own :: v.low⟩ ⟨v.globals, own' :: v.low⟩ :=
  @intro v [] [] own own' .nil h

/-- A name has one value, if it is not hidden or some frame above binds it. -/
theorem get_eq (h : v.Scopes names c d) {x : String} (hx : x ∈ v.hidden → x ∈ names.flatten) :
    c.get x = d.get x := by
  obtain @⟨top, own, own', hnames, hown⟩ := h
  unfold Scope.get Scope.find?
  suffices hfind : (top ++ own :: v.low).findSome? (Table.find? x) =
      (top ++ own' :: v.low).findSome? (Table.find? x) by rw [hfind]
  induction hnames with
  | nil =>
    rw [List.nil_append, List.nil_append, List.findSome?_cons, List.findSome?_cons,
      hown x fun hhidden => List.not_mem_nil (hx hhidden)]
  | @cons first frame names top hfirst _ ih =>
    rw [List.cons_append, List.cons_append, List.findSome?_cons, List.findSome?_cons]
    cases hframe : Table.find? x frame with
    | some u => rfl
    | none =>
      refine ih fun hhidden => (List.mem_append.mp (hx hhidden)).resolve_left fun hmem => ?_
      exact absurd (hfirst x hmem) (by rw [hframe]; simp)

theorem set (h : v.Scopes names c d) (name : String) (u : Value) :
    v.Scopes names (c.set name u) (d.set name u) := by
  obtain @⟨top, own, own', hnames, hown⟩ := h
  -- The frame on top is the one that is changed.
  cases hnames with
  | nil =>
    refine bare fun x hx => ?_
    rw [Table.find?_insert, Table.find?_insert, hown x hx]
  | @cons first frame names top hfirst hrest =>
    refine @intro v _ (Table.insert name u frame :: top) _ _ (.cons (fun x hx => ?_) hrest) hown
    rw [Table.find?_insert]
    split
    · rfl
    · exact hfirst x hx

theorem frame (h : v.Scopes names c d) (bindings : List (String × Value)) :
    v.Scopes (bindings.map (·.1) :: names) (c.pushFrame.setAll bindings)
      (d.pushFrame.setAll bindings) := by
  obtain @⟨top, own, own', hnames, hown⟩ := h
  rw [Scope.setAll_pushFrame, Scope.setAll_pushFrame]
  refine @intro v _ (Table.insertAll bindings [] :: top) _ _ (.cons ?_ hnames) hown
  intro x hx
  exact Table.find?_insertAll_isSome hx []

theorem popFrame {first : List String} (h : v.Scopes (first :: names) c d) :
    v.Scopes names c.popFrame d.popFrame := by
  obtain @⟨_, own, own', hnames, hown⟩ := h
  obtain _ | ⟨-, hrest⟩ := hnames
  cases hrest with
  | nil => exact bare hown
  | cons hsecond hrest => exact .intro (.cons hsecond hrest) hown

/-- The frame itself is taken off, and with it the difference. -/
theorem popFrame_own (h : v.Scopes [] c d) (hlow : 0 < v.low.length) :
    c.popFrame = ⟨v.globals, v.low⟩ ∧ d.popFrame = ⟨v.globals, v.low⟩ := by
  obtain ⟨hidden, globals, low⟩ := v
  obtain @⟨top, own, own', hnames, -⟩ := h
  cases hnames
  match low, hlow with
  | _ :: _, _ => exact ⟨rfl, rfl⟩

/-- Frames on top are taken off and put back. -/
theorem splitOff {more : List (List String)} (h : v.Scopes (more ++ names) c d) :
    ∃ above c' d', c.splitOff (names.length + (v.low.length + 1)) = (above, c') ∧
      d.splitOff (names.length + (v.low.length + 1)) = (above, d') ∧ v.Scopes names c' d' ∧
      List.Forall₂ BindsAll more above := by
  obtain @⟨top, own, own', hnames, hown⟩ := h
  obtain ⟨above, below, habove, hbelow, rfl⟩ : ∃ above below, List.Forall₂ BindsAll more above ∧
      List.Forall₂ BindsAll names below ∧ top = above ++ below := by
    refine ⟨top.take more.length, top.drop more.length, ?_, ?_, (List.take_append_drop _ _).symm⟩
    · simpa using List.forall₂_take more.length hnames
    · simpa using List.forall₂_drop more.length hnames
  have hsplit (frame : Variables) :
      Scope.splitOff ⟨v.globals, above ++ below ++ frame :: v.low⟩
        (names.length + (v.low.length + 1)) = (above, ⟨v.globals, below ++ frame :: v.low⟩) := by
    have hlength : (below ++ frame :: v.low).length = names.length + (v.low.length + 1) := by
      rw [List.length_append, hbelow.length_eq]
      rfl
    rw [← hlength, List.append_assoc,
      Scope.splitOff_eq (hlength ▸ Nat.succ_pos _) (by simp [Scope.depth])]
    simp [Scope.depth]
  exact ⟨above, _, _, hsplit own, hsplit own', .intro hbelow hown, habove⟩

theorem restore {more : List (List String)} {above : List Variables} (h : v.Scopes names c d)
    (habove : List.Forall₂ BindsAll more above) :
    v.Scopes (more ++ names) (c.restore above) (d.restore above) := by
  obtain @⟨top, own, own', hnames, hown⟩ := h
  unfold Scope.restore
  dsimp only
  rw [← List.append_assoc, ← List.append_assoc]
  exact .intro (List.rel_append habove hnames) hown

end Scopes

end Veil

/-! ### Two renderings -/

/-- Two states that have written the same, in the same layout if that counts. -/
structure RenderState.SameOutput (pretty : Bool) (s t : RenderState) : Prop where
  sink : s.sink = t.sink
  indent : pretty = true → s.indent = t.indent
  started : pretty = true → s.started = t.started
  blockEmitted : pretty = true → s.blockEmitted = t.blockEmitted

/-- How two renderings can end: both well, with related results, or both with one fault, and in
related states. -/
inductive EndTogether {α β : Type} (B : RenderState → RenderState → Prop) (Q : α → β → Prop) :
    EStateM.Result RenderFault RenderState α → EStateM.Result RenderFault RenderState β → Prop
  | ok {a : α} {b : β} {s t : RenderState} (h : Q a b) (hs : B s t) :
    EndTogether B Q (.ok a s) (.ok b t)
  | error (e : RenderFault) {s t : RenderState} (hs : B s t) :
    EndTogether B Q (.error e s) (.error e t)

namespace EndTogether

variable {α β γ δ : Type} {B B' : RenderState → RenderState → Prop} {Q : α → β → Prop}
  {R : γ → δ → Prop} {r : Rendering α} {r' : Rendering β} {s t : RenderState}

theorem bind {k : α → Rendering γ} {k' : β → Rendering δ} (h : EndTogether B Q (r s) (r' t))
    (hk : ∀ a b s' t', Q a b → B s' t' → EndTogether B R (k a s') (k' b t')) :
    EndTogether B R ((r >>= k) s) ((r' >>= k') t) := by
  show EndTogether B R (EStateM.bind r k s) (EStateM.bind r' k' t)
  unfold EStateM.bind
  generalize r s = first, r' t = first' at h ⊢
  cases h with
  | ok hab hst => exact hk _ _ _ _ hab hst
  | error e hst => exact .error e hst

/-- Inside changed states. -/
theorem within {enter leave enter' leave' : RenderState → RenderState}
    (h : ∀ s' t', B s' t' → EndTogether B Q (r s') (r' t')) (henter : B (enter s) (enter' t))
    (hleave : ∀ s' t', B s' t' → B' (leave s') (leave' t')) :
    EndTogether B' Q (Rendering.within enter leave r s) (Rendering.within enter' leave' r' t) := by
  have hends := h _ _ henter
  unfold Rendering.within
  generalize r (enter s) = part, r' (enter' t) = part' at hends ⊢
  cases hends with
  | ok hab hst => exact .ok hab (hleave _ _ hst)
  | error e hst => exact .error e (hleave _ _ hst)

end EndTogether

namespace Veil

variable {v : Veil}

/-- Two states with such scopes that have written the same. -/
structure Between (v : Veil) (pretty : Bool) (names : List (List String)) (s t : RenderState) :
    Prop extends RenderState.SameOutput pretty s t where
  scope : v.Scopes names s.scope t.scope

/-- Two parts of a rendering that end in the same way in two such states. -/
structure Alike {α β : Type} (v : Veil) (pretty : Bool) (names : List (List String))
    (Q : α → β → Prop) (r : Rendering α) (r' : Rendering β) : Prop where
  ends : ∀ s t, v.Between pretty names s t → EndTogether (v.Between pretty names) Q (r s) (r' t)

namespace Alike

variable {α β γ δ : Type} {pretty : Bool} {names inner : List (List String)} {Q : α → β → Prop}
  {R : γ → δ → Prop}

theorem result {a : α} {b : β} (h : Q a b) : v.Alike pretty names Q (pure a) (pure b) where
  ends _ _ hs := .ok h hs

theorem fail (e : RenderFault) : v.Alike pretty names Q (throw e) (throw e) where
  ends _ _ hs := .error e hs

theorem bind {r : Rendering α} {r' : Rendering β} {k : α → Rendering γ} {k' : β → Rendering δ}
    (h : v.Alike pretty names Q r r') (hk : ∀ a b, Q a b → v.Alike pretty names R (k a) (k' b)) :
    v.Alike pretty names R (r >>= k) (r' >>= k') where
  ends s t hs := (h.ends s t hs).bind fun a b s' t' hab hst => (hk a b hab).ends s' t' hst

theorem state : v.Alike pretty names (fun s t : RenderState => v.Between pretty names s t) get get
    where
  ends _ _ hs := .ok hs hs

theorem change {f g : RenderState → RenderState}
    (h : ∀ s t, v.Between pretty names s t → v.Between pretty names (f s) (g t)) :
    v.Alike pretty names Eq (modify f) (modify g) where
  ends s t hs := .ok rfl (h s t hs)

theorem mono {r : Rendering α} {r' : Rendering β} {Q' : α → β → Prop}
    (h : v.Alike pretty names Q r r') (hQ : ∀ a b, Q a b → Q' a b) :
    v.Alike pretty names Q' r r' where
  ends s t hs := by
    have hends := h.ends s t hs
    generalize r s = result, r' t = result' at hends ⊢
    cases hends with
    | ok hab hst => exact .ok (hQ _ _ hab) hst
    | error e hst => exact .error e hst

/-- What is computed from variables in sight is the same. -/
theorem askSame {f : (String → Value) → Except ExpressionError α}
    (h : ∀ vars vars' : String → Value,
      (∀ x, (x ∈ v.hidden → x ∈ names.flatten) → vars x = vars' x) → f vars = f vars') :
    v.Alike pretty names (fun a b => a = b ∧ ∃ vars, f vars = .ok a) (Rendering.ask f)
      (Rendering.ask f) where
  ends s t hs := by
    unfold Rendering.ask
    rw [h _ _ fun x hx => hs.scope.get_eq hx]
    cases hf : f t.scope.get with
    | ok a => exact .ok ⟨rfl, _, hf⟩ hs
    | error e => exact .error _ hs

theorem ask {f : (String → Value) → Except ExpressionError α}
    (h : ∀ vars vars' : String → Value,
      (∀ x, (x ∈ v.hidden → x ∈ names.flatten) → vars x = vars' x) → f vars = f vars') :
    v.Alike pretty names Eq (Rendering.ask f) (Rendering.ask f) :=
  (askSame h).mono fun _ _ hab => hab.1

theorem depth {k : Nat → Rendering α} {k' : Nat → Rendering β}
    (h : v.Alike pretty names Q (k (names.length + (v.low.length + 1)))
      (k' (names.length + (v.low.length + 1)))) :
    v.Alike pretty names Q (Rendering.depth >>= k) (Rendering.depth >>= k') where
  ends s t hs := by
    show EndTogether (v.Between pretty names) Q (k s.scope.depth s) (k' t.scope.depth t)
    rw [← hs.scope.depth_eq', hs.scope.depth_eq]
    exact h.ends s t hs

theorem write (piece : String) :
    v.Alike pretty names Eq (Rendering.write piece) (Rendering.write piece) where
  ends s t hs := by
    unfold Rendering.write
    rw [hs.sink]
    split
    · exact .ok rfl hs
    · cases t.sink.offer piece with
      | mk accepted sink =>
        have hst : v.Between pretty names { s with sink := sink, started := true }
            { t with sink := sink, started := true } :=
          ⟨⟨rfl, hs.indent, fun _ => rfl, hs.blockEmitted⟩, hs.scope⟩
        cases accepted with
        | true => exact .ok rfl hst
        | false => exact .error _ hst

theorem newline :
    v.Alike pretty names Eq (Rendering.newline pretty) (Rendering.newline pretty) := by
  refine state.bind fun s t hs => ?_
  cases pretty with
  | false => exact .result rfl
  | true =>
    rw [hs.started rfl, hs.indent rfl]
    split
    · exact write _
    · exact .result rfl

theorem setBlockEmitted {f g : Bool → Bool}
    (h : pretty = true → ∀ s t, v.Between pretty names s t → f s.blockEmitted = g t.blockEmitted) :
    v.Alike pretty names Eq (modify fun s => { s with blockEmitted := f s.blockEmitted })
      (modify fun s => { s with blockEmitted := g s.blockEmitted }) :=
  .change fun s t hs => { hs with blockEmitted := fun hp => h hp s t hs }

theorem noteBlock (f : Bool → Bool) :
    v.Alike pretty names Eq (modify fun s => { s with blockEmitted := f s.blockEmitted })
      (modify fun s => { s with blockEmitted := f s.blockEmitted }) :=
  .setBlockEmitted fun hp _ _ hs => congrArg f (hs.blockEmitted hp)

theorem assign (name : String) (u : Value) :
    v.Alike pretty names Eq (Rendering.assign name u) (Rendering.assign name u) :=
  .change fun _ _ hs => { hs with scope := hs.scope.set name u }

theorem indented {r : Rendering α} {r' : Rendering β} (h : v.Alike pretty names Q r r') :
    v.Alike pretty names Q (Rendering.indented r) (Rendering.indented r') where
  ends _ _ hs := EndTogether.within h.ends
    { hs with indent := fun hp => congrArg (· + 1) (hs.indent hp) }
    fun _ _ hst => { hst with indent := fun hp => congrArg (· - 1) (hst.indent hp) }

theorem underFrame (bindings : List (String × Value)) {r : Rendering α} {r' : Rendering β}
    (h : v.Alike pretty (bindings.map (·.1) :: names) Q r r') :
    v.Alike pretty names Q (Rendering.underFrame bindings r) (Rendering.underFrame bindings r')
    where
  ends _ _ hs := EndTogether.within h.ends { hs with scope := hs.scope.frame bindings }
    fun _ _ hst => { hst with scope := hst.scope.popFrame }

theorem atDepth {more : List (List String)} {r : Rendering α} {r' : Rendering β}
    (h : v.Alike pretty names Q r r') :
    v.Alike pretty (more ++ names) Q (Rendering.atDepth (names.length + (v.low.length + 1)) r)
      (Rendering.atDepth (names.length + (v.low.length + 1)) r') where
  ends s t hs := by
    obtain ⟨above, c, d, hc, hd, hscopes, habove⟩ := hs.scope.splitOff
    unfold Rendering.atDepth
    rw [hc, hd]
    exact EndTogether.within h.ends { hs with scope := hscopes }
      fun _ _ hst => { hst with scope := hst.scope.restore habove }

theorem runLoop {item : String} {key : Option String} {length : Nat} {body body' : Rendering Unit}
    (h : v.Alike pretty (passNames item key :: names) Eq body body') (index : Nat)
    (items : List (Value × Value)) :
    v.Alike pretty names Eq (Trellis.runLoop item key length body index items)
      (Trellis.runLoop item key length body' index items) := by
  induction items generalizing index with
  | nil => exact .result rfl
  | cons entry rest ih =>
    have hpass := h
    rw [← names_loopBindings item key index length entry] at hpass
    exact (hpass.underFrame _).bind fun _ _ _ => ih (index + 1)

/-- What is noted for the tag around a tag counts only in a layout. -/
theorem writeTag {w : RenderSetting} (hw : pretty = w.pretty) (name : String)
    {attributes : List Attribute} (selfClosing atOnce : Bool)
    (h : ∀ vars vars' : String → Value,
      (∀ x, (x ∈ v.hidden → x ∈ names.flatten) → vars x = vars' x) →
      attributesText w.mode vars attributes = attributesText w.mode vars' attributes)
    {children children' : Rendering Unit} (hchildren : v.Alike pretty names Eq children children') :
    v.Alike pretty names Eq (Trellis.writeTag w name attributes selfClosing atOnce children)
      (Trellis.writeTag w name attributes selfClosing atOnce children') := by
  have hbegin :
      v.Alike pretty names Eq (beginTag w name attributes) (beginTag w name attributes) := by
    have htext : v.Alike pretty names Eq (do
        let text ← Rendering.ask fun vars => attributesText w.mode vars attributes
        Rendering.write ("<" ++ name ++ text)) (do
        let text ← Rendering.ask fun vars => attributesText w.mode vars attributes
        Rendering.write ("<" ++ name ++ text)) := by
      refine Alike.bind (.ask h) ?_
      rintro text _ rfl
      exact write _
    unfold beginTag
    rw [← hw]
    split
    · exact htext
    · exact newline.bind fun _ _ _ => htext
  have henter : v.Alike pretty names (fun outer outer' => pretty = true → outer = outer') enterTag
      enterTag := by
    refine (write ">").bind fun _ _ _ => state.bind fun s t hs => ?_
    exact (noteBlock fun _ => false).bind fun _ _ _ => .result hs.blockEmitted
  have hleave {outer outer' : Bool} (houter : pretty = true → outer = outer') :
      v.Alike pretty names Eq (leaveTag w name outer) (leaveTag w name outer') := by
    have hend : v.Alike pretty names Eq (do
        Rendering.write ("</" ++ name ++ ">")
        modify fun s => { s with blockEmitted := outer || !isInline name }) (do
        Rendering.write ("</" ++ name ++ ">")
        modify fun s => { s with blockEmitted := outer' || !isInline name }) :=
      (write _).bind fun _ _ _ =>
        setBlockEmitted (f := fun _ => outer || !isInline name)
          (g := fun _ => outer' || !isInline name) fun hp _ _ _ => by rw [houter hp]
    unfold leaveTag
    rw [← hw]
    refine state.bind fun s t hs => ?_
    cases pretty with
    | true =>
      rw [hs.blockEmitted rfl]
      split
      · exact newline.bind fun _ _ _ => hend
      · exact hend
    | false =>
      -- Without a layout, nothing is written before the closing tag in any case.
      cases s.blockEmitted <;> cases t.blockEmitted <;> exact hend
  rw [writeTag_eq, writeTag_eq]
  refine hbegin.bind fun _ _ _ => ?_
  cases atOnce with
  | true =>
    exact (write _).bind fun _ _ _ => noteBlock (· || !isInline name)
  | false =>
    exact henter.bind fun _ _ houter => hchildren.indented.bind fun _ _ _ => hleave houter

end Alike

/-! ### Nodes that suit the frames on top -/

/-- Nodes that look up no hidden name that may be seen, and that put out the content of a call only
if there is one that was begun above the frame. -/
structure Suits (v : Veil) (mixins : Table Mixin) (above : List Caller) (names : List (List String))
    (ns : List Node) : Prop where
  content : above = [] → ¬PutsContent ns
  lookup : ∀ x ∈ v.hidden, x ∉ names.flatten → ¬LooksUp mixins x ns

/-- The calls that were begun above the frame fit the frames on top: their contents suit the frames
that were there when they were begun. -/
inductive Fits (v : Veil) (mixins : Table Mixin) : List Caller → List (List String) → Prop
  | nil (names : List (List String)) : Fits v mixins [] names
  | call {c : Caller} {outer : List Caller} {names : List (List String)} (more : List (List String))
    (hbody : ∀ ns ∈ c.body, c.depth = names.length + (v.low.length + 1) ∧
      v.Suits mixins outer names ns)
    (houter : Fits v mixins outer names) : Fits v mixins (c :: outer) (more ++ names)

section
variable {mixins : Table Mixin} {above : List Caller} {names : List (List String)}

theorem Fits.frame (h : v.Fits mixins above names) (first : List String) :
    v.Fits mixins above (first :: names) := by
  cases h with
  | nil => exact .nil _
  | call more hbody houter => exact .call (first :: more) hbody houter

theorem Suits.mono {ns more : List Node} (h : v.Suits mixins above names more) (hsub : ns ⊆ more) :
    v.Suits mixins above names ns where
  content habove hns := h.content habove (hns.mono hsub)
  lookup x hx hnames hns := h.lookup x hx hnames (hns.mono hsub)

/-- What is rendered under the same frames as the node that it is right inside. -/
theorem Suits.inside {n : Node} {children : List Node} (h : v.Suits mixins above names [n])
    (hn : ∀ m, n ≠ .mixin m) (hchildren : children ∈ n.childLists)
    (hsees : ∀ x, children ∈ n.listsSeeing x) : v.Suits mixins above names children where
  content habove hns := h.content habove (.inside (List.mem_singleton_self n) hn hchildren hns)
  lookup x hx hnames hns :=
    h.lookup x hx hnames (.inside (List.mem_singleton_self n) (hsees x) hns)

/-- The body of a loop, under the frame of a pass. -/
theorem Suits.loopBody {item : String} {key : Option String} {collection : Expression}
    {body : List Node} {fallback : Option (List Node)}
    (h : v.Suits mixins above names [.each item key collection body fallback]) :
    v.Suits mixins above (passNames item key :: names) body where
  content habove hns :=
    h.content habove (.inside (List.mem_singleton_self _) nofun List.mem_cons_self hns)
  lookup x hx hnames hns := by
    rw [List.flatten_cons, List.mem_append, not_or] at hnames
    refine h.lookup x hx hnames.2 (.inside (List.mem_singleton_self _) ?_ hns)
    show body ∈ (if x ∈ passNames item key then [] else [body]) ++ fallback.toList
    rw [if_neg hnames.1]
    exact List.mem_cons_self

/-- The body of a mixin, under the frame of a call that was just begun. -/
theorem Suits.mixinBody {name : String} {arguments : List Expression} {body : Option (List Node)}
    {m : Mixin} {c : Caller} (h : v.Suits mixins above names [.call name arguments body])
    (hm : mixins.find? name = some m) :
    v.Suits mixins (c :: above) (m.names :: names) m.body where
  content := nofun
  lookup x hx hnames hns := by
    rw [List.flatten_cons, List.mem_append, not_or] at hnames
    exact h.lookup x hx hnames.2 (.called (List.mem_singleton_self _) hm hnames.1 hns)

/-- Where the content of a call is put out, the call was begun above the frame, and its content
suits the frames of its place. -/
theorem Fits.content {base : List Caller} {cs rest : CallStack} {body : List Node} {depth : Nat}
    (h : v.Fits mixins above names) (hcs : cs.callers = above ++ base)
    (hn : v.Suits mixins above names [.content])
    (hpop : cs.callers = ⟨some body, depth⟩ :: rest.callers) :
    ∃ outer more below, names = more ++ below ∧ depth = below.length + (v.low.length + 1) ∧
      rest.callers = outer ++ base ∧ v.Fits mixins outer below ∧
      v.Suits mixins outer below body := by
  cases h with
  | nil => exact absurd (.here (List.mem_singleton_self _)) (hn.content rfl)
  | @call c outer below more hbody houter =>
    obtain ⟨rfl, hrest⟩ := List.cons.inj (hcs.symm.trans hpop)
    obtain ⟨hdepth, hsuits⟩ := hbody body rfl
    exact ⟨outer, more, below, rfl, hdepth, hrest.symm, houter, hsuits⟩

/-- What is evaluated for a node has one value. -/
theorem Suits.evaluated {n : Node} (h : v.Suits mixins above names [n])
    {vars vars' : String → Value}
    (hvars : ∀ x, (x ∈ v.hidden → x ∈ names.flatten) → vars x = vars' x) :
    ∀ e ∈ n.evaluated mixins, e.evaluate vars = e.evaluate vars' := by
  intro e he
  refine Expression.evaluate_eq_of_avoids (v.hidden.filter fun x => x ∉ names.flatten)
    (fun y hy => hvars y fun hhidden => ?_) ?_
  · by_contra hnames
    exact hy (List.mem_filter.mpr ⟨hhidden, by simpa using hnames⟩)
  · intro y hy
    obtain ⟨hhidden, hnames⟩ := List.mem_filter.mp hy
    by_contra havoids
    exact h.lookup y hhidden (by simpa using hnames) (.here (List.mem_singleton_self n) he havoids)

end

/-! ### Nodes -/

section
variable {w : RenderSetting} {base : List Caller}

set_option linter.unusedSectionVars false in
mutual

/-- **Nodes that suit the frames are rendered alike.** There is one statement for each function of
the renderer. -/
theorem alike_renderNode (cs : CallStack) (above : List Caller) (names : List (List String))
    (n : Node) (hcs : cs.callers = above ++ base) (hfits : v.Fits w.mixins above names) :
    v.Suits w.mixins above names [n] →
      v.Alike w.pretty names Eq (renderNode w cs n) (renderNode w cs n) := by
  cases n with
  | doctype name =>
    intro hn
    rw [renderNode]
    exact Alike.newline.bind fun _ _ _ => (Alike.write _).bind fun _ _ _ =>
      Alike.noteBlock fun _ => true
  | tag name attributes selfClosing children =>
    intro hn
    rw [renderNode]
    have hchildren : v.Suits w.mixins above names children :=
      hn.inside nofun List.mem_cons_self fun _ => List.mem_cons_self
    exact Alike.writeTag rfl name selfClosing _
      (fun _ _ hvars => attributesText_eq_of_forall w.mode (hn.evaluated hvars))
      (alike_renderNodes cs above names children hcs hfits hchildren)
  | text spans =>
    intro hn
    rw [renderNode]
    refine Alike.bind (.ask fun _ _ hvars => spansText_eq_of_forall false (hn.evaluated hvars)) ?_
    rintro text _ rfl
    exact .write _
  | output e escaped =>
    intro hn
    rw [renderNode]
    refine Alike.bind (.ask fun _ _ hvars => hn.evaluated hvars e (List.mem_singleton_self e)) ?_
    rintro u _ rfl
    exact .write _
  | assign name e =>
    intro hn
    rw [renderNode]
    refine Alike.bind (.ask fun _ _ hvars => hn.evaluated hvars e (List.mem_singleton_self e)) ?_
    rintro u _ rfl
    exact .assign name u
  | cond branches otherwise =>
    intro hn
    rw [renderNode]
    refine alike_renderCond cs above names branches otherwise hcs hfits
      (fun _ _ hvars b hb => hn.evaluated hvars b.test (List.mem_map_of_mem hb))
      (fun b hb => ?_) fun ns hns => ?_
    · have hmem : b.body ∈ branches.map (·.body) ++ otherwise.toList :=
        List.mem_append_left _ (List.mem_map_of_mem hb)
      exact hn.inside nofun hmem fun _ => hmem
    · have hmem : ns ∈ branches.map (·.body) ++ otherwise.toList :=
        List.mem_append_right _ (Option.mem_toList.mpr hns)
      exact hn.inside nofun hmem fun _ => hmem
  | each item key collection body fallback =>
    intro hn
    rw [renderNode]
    refine Alike.bind (.ask fun _ _ hvars =>
      hn.evaluated hvars collection (List.mem_singleton_self collection)) ?_
    rintro u _ rfl
    cases u.iterate? with
    | none => exact .fail _
    | some items =>
      cases items with
      | nil =>
        refine alike_renderOptional cs above names fallback hcs hfits fun ns hns => ?_
        exact hn.inside nofun (List.mem_cons_of_mem _ (Option.mem_toList.mpr hns))
          fun _ => List.mem_append_right _ (Option.mem_toList.mpr hns)
      | cons first rest =>
        exact Alike.runLoop (alike_renderNodes cs above (passNames item key :: names) body hcs
          (hfits.frame _) hn.loopBody) 0 (first :: rest)
  | caseOf subject whens default =>
    intro hn
    rw [renderNode]
    refine Alike.bind (.ask fun _ _ hvars => hn.evaluated hvars subject List.mem_cons_self) ?_
    rintro u _ rfl
    refine alike_renderCase cs above names u whens default hcs hfits
      (fun _ _ hvars a ha => hn.evaluated hvars a.value
        (List.mem_cons_of_mem _ (List.mem_map_of_mem ha)))
      (fun a ha => ?_) fun ns hns => ?_
    · have hmem : a.body ∈ whens.map (·.body) ++ default.toList :=
        List.mem_append_left _ (List.mem_map_of_mem ha)
      exact hn.inside nofun hmem fun _ => hmem
    · have hmem : ns ∈ whens.map (·.body) ++ default.toList :=
        List.mem_append_right _ (Option.mem_toList.mpr hns)
      exact hn.inside nofun hmem fun _ => hmem
  | comment text =>
    intro hn
    rw [renderNode]
    exact Alike.newline.bind fun _ _ _ => (Alike.write _).bind fun _ _ _ =>
      Alike.noteBlock fun _ => true
  | mixin m =>
    intro hn
    rw [renderNode]
    exact .result rfl
  | call name arguments body =>
    intro hn
    rw [renderNode]
    refine Alike.depth ?_
    cases hm : w.mixins.find? name with
    | none => exact .fail _
    | some m =>
      dsimp only
      split
      · exact .fail _
      · next inner hpush =>
        have hinner : inner.callers =
            ⟨body, names.length + (v.low.length + 1)⟩ :: above ++ base := by
          rw [(CallStack.push?_some hpush).2, hcs]
          rfl
        have hsources {vars vars' : String → Value}
            (hvars : ∀ x, (x ∈ v.hidden → x ∈ names.flatten) → vars x = vars' x) :
            m.bind arguments vars = m.bind arguments vars' := by
          refine m.bind_congr arguments fun e he => hn.evaluated hvars e ?_
          show e ∈ match w.mixins.find? name with
            | none => []
            | some m => m.sources arguments
          rw [hm]
          exact he
        have hbody : ∀ ns ∈ body, v.Suits w.mixins above names ns := fun ns hns =>
          hn.inside nofun (Option.mem_toList.mpr hns) fun _ => Option.mem_toList.mpr hns
        have hinside : v.Fits w.mixins (⟨body, names.length + (v.low.length + 1)⟩ :: above)
            (m.names :: names) :=
          .call [m.names] (fun ns hns => ⟨rfl, hbody ns hns⟩) hfits
        -- The frame of the call binds the names of the parameters, so they are in sight.
        refine Alike.bind (.askSame fun _ _ => hsources) ?_
        rintro bindings _ ⟨rfl, vars, hbind⟩
        refine .underFrame bindings ?_
        rw [names_of_bind hbind]
        exact alike_renderNodes inner _ _ m.body hinner hinside (hn.mixinBody hm)
  | content =>
    intro hn
    rw [renderNode]
    split
    · exact .result rfl
    · exact .result rfl
    · next body depth rest hpop =>
      -- The call was begun above the frame, so the frame stays below where its content is rendered.
      obtain ⟨outer, more, below, hnames, hdepth, hrest, houter, hbody⟩ :=
        hfits.content hcs hn (CallStack.pop?_some hpop)
      rw [hnames, hdepth]
      exact (alike_renderNodes rest outer below body hrest houter hbody).atDepth
  | block name mode children =>
    intro hn
    rw [renderNode]
    exact alike_renderNodes cs above names children hcs hfits
      (hn.inside nofun List.mem_cons_self fun _ => List.mem_cons_self)
  | filter name content options =>
    intro hn
    rw [renderNode]
    cases w.filters.find? name with
    | none => exact .fail _
    | some filter => exact .write _
termination_by cs.rank (sizeOf n)
decreasing_by
  any_goals exact CallStack.rank_smaller (by simp +arith)
  · exact CallStack.rank_push ‹_› (by simp +arith)
  · exact CallStack.rank_pop ‹_› (by simp +arith)

theorem alike_renderNodes (cs : CallStack) (above : List Caller) (names : List (List String))
    (ns : List Node) (hcs : cs.callers = above ++ base) (hfits : v.Fits w.mixins above names) :
    v.Suits w.mixins above names ns →
      v.Alike w.pretty names Eq (renderNodes w cs ns) (renderNodes w cs ns) := by
  cases ns with
  | nil =>
    intro _
    rw [renderNodes]
    exact .result rfl
  | cons n rest =>
    intro hns
    rw [renderNodes]
    exact (alike_renderNode cs above names n hcs hfits
      (hns.mono (List.cons_subset_cons n (List.nil_subset rest)))).bind fun _ _ _ =>
        alike_renderNodes cs above names rest hcs hfits (hns.mono (List.subset_cons_self n rest))
termination_by cs.rank (sizeOf ns)
decreasing_by
  all_goals exact CallStack.rank_smaller (by simp +arith)

theorem alike_renderOptional (cs : CallStack) (above : List Caller) (names : List (List String))
    (ns : Option (List Node)) (hcs : cs.callers = above ++ base)
    (hfits : v.Fits w.mixins above names) :
    (∀ m ∈ ns, v.Suits w.mixins above names m) →
      v.Alike w.pretty names Eq (renderOptional w cs ns) (renderOptional w cs ns) := by
  cases ns with
  | none =>
    intro _
    rw [renderOptional]
    exact .result rfl
  | some ns =>
    intro hns
    rw [renderOptional]
    exact alike_renderNodes cs above names ns hcs hfits (hns ns rfl)
termination_by cs.rank (sizeOf ns)
decreasing_by
  all_goals exact CallStack.rank_smaller (by simp +arith)

theorem alike_renderCond (cs : CallStack) (above : List Caller) (names : List (List String))
    (branches : List Branch) (otherwise : Option (List Node)) (hcs : cs.callers = above ++ base)
    (hfits : v.Fits w.mixins above names) :
    (∀ vars vars' : String → Value, (∀ x, (x ∈ v.hidden → x ∈ names.flatten) → vars x = vars' x) →
      ∀ b ∈ branches, b.test.evaluate vars = b.test.evaluate vars') →
    (∀ b ∈ branches, v.Suits w.mixins above names b.body) →
    (∀ ns ∈ otherwise, v.Suits w.mixins above names ns) →
      v.Alike w.pretty names Eq (renderCond w cs branches otherwise)
        (renderCond w cs branches otherwise) := by
  cases branches with
  | nil =>
    intro _ _ hotherwise
    rw [renderCond]
    exact alike_renderOptional cs above names otherwise hcs hfits hotherwise
  | cons branch rest =>
    intro htests hbranches hotherwise
    obtain ⟨test, negated, body⟩ := branch
    obtain ⟨hbody, hrest⟩ := List.forall_mem_cons.mp hbranches
    rw [renderCond]
    refine Alike.bind (.ask fun vars vars' hvars => htests vars vars' hvars _ List.mem_cons_self) ?_
    rintro u _ rfl
    split
    · exact alike_renderNodes cs above names body hcs hfits hbody
    · exact alike_renderCond cs above names rest otherwise hcs hfits
        (fun vars vars' hvars b hb => htests vars vars' hvars b (List.mem_cons_of_mem _ hb)) hrest
        hotherwise
termination_by cs.rank (sizeOf branches + sizeOf otherwise)
decreasing_by
  all_goals exact CallStack.rank_smaller (by simp +arith)

theorem alike_renderCase (cs : CallStack) (above : List Caller) (names : List (List String))
    (subject : Value) (whens : List When) (default : Option (List Node))
    (hcs : cs.callers = above ++ base) (hfits : v.Fits w.mixins above names) :
    (∀ vars vars' : String → Value, (∀ x, (x ∈ v.hidden → x ∈ names.flatten) → vars x = vars' x) →
      ∀ a ∈ whens, a.value.evaluate vars = a.value.evaluate vars') →
    (∀ a ∈ whens, v.Suits w.mixins above names a.body) →
    (∀ ns ∈ default, v.Suits w.mixins above names ns) →
      v.Alike w.pretty names Eq (renderCase w cs subject whens default)
        (renderCase w cs subject whens default) := by
  cases whens with
  | nil =>
    intro _ _ hdefault
    rw [renderCase]
    exact alike_renderOptional cs above names default hcs hfits hdefault
  | cons alternative rest =>
    intro hvalues hwhens hdefault
    obtain ⟨value, body⟩ := alternative
    obtain ⟨hbody, hrest⟩ := List.forall_mem_cons.mp hwhens
    rw [renderCase]
    refine Alike.bind
      (.ask fun vars vars' hvars => hvalues vars vars' hvars _ List.mem_cons_self) ?_
    rintro u _ rfl
    split
    · exact alike_renderNodes cs above names body hcs hfits hbody
    · exact alike_renderCase cs above names subject rest default hcs hfits
        (fun vars vars' hvars a ha => hvalues vars vars' hvars a (List.mem_cons_of_mem _ ha)) hrest
        hdefault
termination_by cs.rank (sizeOf whens + sizeOf default)
decreasing_by
  all_goals exact CallStack.rank_smaller (by simp +arith)

end

end

end Veil

/-! ### Behind the frame -/

/-- Two states at one place, that is with the same scope, that have written the same. -/
structure RenderState.Level (pretty : Bool) (c : Scope) (s t : RenderState) : Prop
    extends RenderState.SameOutput pretty s t where
  scope : s.scope = c
  scope' : t.scope = c

theorem RenderState.Level.refl (pretty : Bool) (s : RenderState) : s.Level pretty s.scope s :=
  { sink := rfl, indent := fun _ => rfl, started := fun _ => rfl, blockEmitted := fun _ => rfl
    scope := rfl, scope' := rfl }

/-- What ends at a place like another, ends at that place. -/
theorem EndTogether.scope_after {α β : Type} {pretty : Bool} {c : Scope} {Q : α → β → Prop}
    {r : Rendering α} {r' : Rendering β} {s t : RenderState}
    (h : EndTogether (RenderState.Level pretty c) Q (r s) (r' t)) : (r.after s).scope = c := by
  unfold Rendering.after
  generalize r s = result, r' t = result' at h ⊢
  cases h with
  | ok _ hst => exact hst.scope
  | error _ hst => exact hst.scope

/-- **Nodes under a frame of their own leave no trace of it.** Two renderings of them, under frames
that differ in hidden names only, end in the same way, and leave the frames below. -/
theorem level_underFrame {w : RenderSetting} {c : Scope} (hc : 0 < c.depth) {hidden : List String}
    {cs : CallStack} {above base : List Caller} {ns : List Node}
    {bindings bindings' : List (String × Value)}
    (hcs : cs.callers = above ++ base)
    (hfits : (Veil.mk hidden c.globals c.frames).Fits w.mixins above [])
    (hns : (Veil.mk hidden c.globals c.frames).Suits w.mixins above [] ns)
    (hbindings : ∀ x, x ∉ hidden → Table.find? x (Table.insertAll bindings []) =
      Table.find? x (Table.insertAll bindings' []))
    {s t : RenderState} (hst : s.Level w.pretty c t) :
    EndTogether (RenderState.Level w.pretty c) Eq (underFrame bindings (renderNodes w cs ns) s)
      (underFrame bindings' (renderNodes w cs ns) t) := by
  have halike := Veil.alike_renderNodes cs above [] ns hcs hfits hns
  refine EndTogether.within halike.ends { hst with scope := ?_ } fun s' t' hs' => ?_
  · rw [hst.scope, hst.scope', Scope.setAll_pushFrame, Scope.setAll_pushFrame]
    exact .bare hbindings
  · obtain ⟨hpop, hpop'⟩ := hs'.scope.popFrame_own hc
    exact { hs' with scope := hpop, scope' := hpop' }

end Trellis
