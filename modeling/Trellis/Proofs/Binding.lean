import Mathlib.Data.List.Basic
import Mathlib.Data.List.Forall2
import Trellis.Proofs.Calls
import Trellis.Proofs.Steps

/-!
# `Trellis.Proofs.Binding`: what the parameters of a mixin stand for

A call evaluates some expressions, in order: for each parameter the argument at its place or else
its default, and for a rest parameter the arguments that are left (`Mixin.sources`). All of them
are evaluated where the call stands, so no parameter is in sight for another. Two lemmas take
`Mixin.bind` to these expressions: it gives all parameters their values if all expressions have
one (`bind_of_sources`), and else it ends with the first that has none (`bind_of_error`).

`CallScope` says what names mean in the body of the mixin.
-/

set_option autoImplicit false

namespace Trellis

/-- The expression that gives a parameter its value. -/
def Parameter.source? (p : Parameter) (argument : Option Expression) : Option Expression :=
  argument.or p.default

/-- The value of a parameter; without an expression it is nothing. -/
def Parameter.value (vars : String → Value) (p : Parameter) (argument : Option Expression) :
    Except ExpressionError Value :=
  match p.source? argument with
  | some e => e.evaluate vars
  | none => .ok .null

/-- The expressions that a call evaluates, in order. -/
def Mixin.sources (m : Mixin) (arguments : List Expression) : List Expression :=
  (m.parameters.mapIdx fun i p => p.source? arguments[i]?).filterMap id ++
    if m.rest.isSome then arguments.drop m.parameters.length else []

/-- The names of the parameters, with that of the rest parameter. -/
def Mixin.names (m : Mixin) : List String := m.parameters.map (·.name) ++ m.rest.toList

/-- What names mean in the body of a mixin that is called with some arguments from some scope. -/
structure CallScope (m : Mixin) (arguments : List Expression) (outside inside : Scope) : Prop where
  parameter : ∀ (i : Nat) (p : Parameter), m.parameters[i]? = some p →
    ∃ v, p.value outside.get arguments[i]? = .ok v ∧ inside.find? p.name = some v
  rest : ∀ name, m.rest = some name →
    ∃ vs, List.Forall₂ (fun e v => e.evaluate outside.get = .ok v)
        (arguments.drop m.parameters.length) vs ∧
      inside.find? name = some (.list vs)
  other : ∀ name, name ∉ m.names → inside.find? name = outside.find? name

/-! ### Expressions one after the other -/

section
variable {vars : String → Value}

theorem evaluateAll_of_forall {es : List Expression} (h : ∀ e ∈ es, ∃ v, e.evaluate vars = .ok v) :
    ∃ vs, evaluateAll vars es = .ok vs ∧
      List.Forall₂ (fun e v => e.evaluate vars = .ok v) es vs := by
  induction es with
  | nil => exact ⟨[], rfl, .nil⟩
  | cons e es ih =>
    obtain ⟨⟨v, hv⟩, hrest⟩ := List.forall_mem_cons.mp h
    obtain ⟨vs, hvs, hall⟩ := ih hrest
    refine ⟨v :: vs, ?_, .cons hv hall⟩
    rw [evaluateAll, hv, hvs]
    rfl

theorem evaluateAll_of_error {before after : List Expression} {e : Expression}
    {fault : ExpressionError} (h : ∀ b ∈ before, ∃ v, b.evaluate vars = .ok v)
    (he : e.evaluate vars = .error fault) :
    evaluateAll vars (before ++ e :: after) = .error fault := by
  induction before with
  | nil =>
    rw [List.nil_append, evaluateAll, he]
    rfl
  | cons b before ih =>
    obtain ⟨⟨v, hv⟩, hrest⟩ := List.forall_mem_cons.mp h
    rw [List.cons_append, evaluateAll, hv, ih hrest]
    rfl

theorem evaluateAll_eq_of_forall {vars' : String → Value} {es : List Expression}
    (h : ∀ e ∈ es, e.evaluate vars = e.evaluate vars') :
    evaluateAll vars es = evaluateAll vars' es := by
  induction es with
  | nil => rfl
  | cons e es ih =>
    obtain ⟨he, hes⟩ := List.forall_mem_cons.mp h
    rw [evaluateAll, evaluateAll, he, ih hes]

/-- If one of some expressions has no value, there is a first. -/
theorem exists_first_error {es : List Expression} {e : Expression} {fault : ExpressionError}
    (he : e ∈ es) (h : e.evaluate vars = .error fault) :
    ∃ before first after fault', es = before ++ first :: after ∧
      (∀ b ∈ before, ∃ v, b.evaluate vars = .ok v) ∧ first.evaluate vars = .error fault' := by
  induction es with
  | nil => cases he
  | cons d es ih =>
    cases hd : d.evaluate vars with
    | error fault' => exact ⟨[], d, es, fault', rfl, nofun, hd⟩
    | ok v =>
      rcases List.mem_cons.mp he with rfl | he
      · cases hd.symm.trans h
      · obtain ⟨before, first, after, fault', rfl, hbefore, hfirst⟩ := ih he
        exact ⟨d :: before, first, after, fault', rfl,
          List.forall_mem_cons.mpr ⟨⟨v, hd⟩, hbefore⟩, hfirst⟩

/-! ### One parameter and the others -/

variable {rest : Option String}

theorem bindArguments_cons (p : Parameter) (ps : List Parameter) (arguments : List Expression) :
    bindArguments vars rest (p :: ps) arguments = (do
      let v ← p.value vars arguments.head?
      return (p.name, v) :: (← bindArguments vars rest ps arguments.tail)) := by
  cases arguments with
  | nil =>
    rw [bindArguments]
    unfold Parameter.missing Parameter.value Parameter.source?
    rw [List.head?_nil, Option.none_or]
    rfl
  | cons e es => rw [bindArguments]; rfl

theorem sources_cons (name : String) (p : Parameter) (ps : List Parameter) (body : List Node)
    (arguments : List Expression) :
    Mixin.sources ⟨name, p :: ps, rest, body⟩ arguments =
      (p.source? arguments.head?).toList ++
        Mixin.sources ⟨name, ps, rest, body⟩ arguments.tail := by
  unfold Mixin.sources
  have htail (i : Nat) : arguments[i + 1]? = arguments.tail[i]? := List.getElem?_tail.symm
  have hdrop : arguments.drop (ps.length + 1) = arguments.tail.drop ps.length := by
    rw [List.drop_tail]
  dsimp only
  rw [List.mapIdx_cons, List.length_cons, hdrop, List.filterMap_cons, List.head?_eq_getElem?]
  simp only [htail]
  cases p.source? arguments[0]? <;> simp

/-! ### All parameters -/

/-- All parameters are bound, and nothing else. -/
theorem names_of_bind {m : Mixin} {arguments : List Expression} {bindings : List (String × Value)}
    (h : m.bind arguments vars = .ok bindings) : bindings.map (·.1) = m.names := by
  obtain ⟨name, ps, rest, body⟩ := m
  unfold Mixin.bind at h
  unfold Mixin.names
  dsimp only at h ⊢
  induction ps generalizing arguments bindings with
  | nil =>
    cases rest with
    | none =>
      rw [bindArguments] at h
      cases h
      rfl
    | some rest =>
      rw [bindArguments] at h
      obtain ⟨vs, -, h⟩ := of_bind_eq_ok h
      cases h
      rfl
  | cons p ps ih =>
    rw [bindArguments_cons] at h
    obtain ⟨v, -, h⟩ := of_bind_eq_ok h
    obtain ⟨more, hmore, h⟩ := of_bind_eq_ok h
    cases h
    exact congrArg (p.name :: ·) (ih hmore)

/-- Where all expressions have a value, all parameters have one. -/
theorem bind_of_sources (m : Mixin) (arguments : List Expression)
    (h : ∀ e ∈ m.sources arguments, ∃ v, e.evaluate vars = .ok v) :
    ∃ bindings, m.bind arguments vars = .ok bindings ∧
      (∀ (i : Nat) (p : Parameter), m.parameters[i]? = some p →
        ∃ v, p.value vars arguments[i]? = .ok v ∧ (p.name, v) ∈ bindings) ∧
      ∀ name, m.rest = some name →
        ∃ vs, List.Forall₂ (fun e v => e.evaluate vars = .ok v)
            (arguments.drop m.parameters.length) vs ∧
          (name, Value.list vs) ∈ bindings := by
  obtain ⟨name, ps, rest, body⟩ := m
  unfold Mixin.bind
  dsimp only
  induction ps generalizing arguments with
  | nil =>
    cases rest with
    | none => exact ⟨[], rfl, nofun, nofun⟩
    | some rest =>
      have harguments : ∀ e ∈ arguments, ∃ v, e.evaluate vars = .ok v := h
      obtain ⟨vs, hvs, hall⟩ := evaluateAll_of_forall harguments
      refine ⟨[(rest, .list vs)], ?_, nofun, fun name hname => ⟨vs, hall, ?_⟩⟩
      · rw [bindArguments, hvs]
        rfl
      · cases hname
        exact List.mem_singleton_self _
  | cons p ps ih =>
    rw [sources_cons] at h
    obtain ⟨hp, hps⟩ := List.forall_mem_append.mp h
    obtain ⟨bindings, hbindings, hparameters, hrest⟩ := ih arguments.tail hps
    obtain ⟨v, hv⟩ : ∃ v, p.value vars arguments.head? = .ok v := by
      unfold Parameter.value
      cases hsource : p.source? arguments.head? with
      | none => exact ⟨.null, rfl⟩
      | some e => exact hp e (Option.mem_toList.mpr hsource)
    refine ⟨(p.name, v) :: bindings, ?_, fun i q hq => ?_, fun name hname => ?_⟩
    · rw [bindArguments_cons, hv, hbindings]
      rfl
    · cases i with
      | zero =>
        cases hq
        rw [← List.head?_eq_getElem?]
        exact ⟨v, hv, List.mem_cons_self⟩
      | succ i =>
        obtain ⟨u, hu, hmem⟩ := hparameters i q hq
        rw [List.getElem?_tail] at hu
        exact ⟨u, hu, List.mem_cons_of_mem _ hmem⟩
    · obtain ⟨vs, hvs, hmem⟩ := hrest name hname
      rw [List.drop_tail] at hvs
      exact ⟨vs, hvs, List.mem_cons_of_mem _ hmem⟩

/-- The first expression without a value ends the binding. -/
theorem bind_of_error (m : Mixin) {arguments before after : List Expression} {e : Expression}
    {fault : ExpressionError} (hsources : m.sources arguments = before ++ e :: after)
    (h : ∀ b ∈ before, ∃ v, b.evaluate vars = .ok v) (he : e.evaluate vars = .error fault) :
    m.bind arguments vars = .error fault := by
  obtain ⟨name, ps, rest, body⟩ := m
  unfold Mixin.bind
  dsimp only
  induction ps generalizing arguments before with
  | nil =>
    cases rest with
    | none =>
      have hnone : [] = before ++ e :: after := hsources
      exact absurd hnone.symm (by simp)
    | some rest =>
      have harguments : arguments = before ++ e :: after := hsources
      rw [bindArguments, harguments, evaluateAll_of_error h he]
      rfl
  | cons p ps ih =>
    rw [sources_cons] at hsources
    rw [bindArguments_cons]
    unfold Parameter.value
    cases hsource : p.source? arguments.head? with
    | none =>
      -- Nothing is evaluated for this parameter.
      rw [hsource] at hsources
      show (do
        let more ← bindArguments vars rest ps arguments.tail
        return (p.name, Value.null) :: more) = _
      rw [ih h hsources]
      rfl
    | some first =>
      rw [hsource] at hsources
      cases before with
      | nil =>
        cases hsources
        dsimp only
        rw [he]
        rfl
      | cons b before =>
        obtain ⟨rfl, hrest⟩ := List.cons.inj hsources
        obtain ⟨⟨v, hv⟩, hbefore⟩ := List.forall_mem_cons.mp h
        dsimp only
        rw [hv, ih hbefore hrest]
        rfl

/-- What parameters stand for depends on these expressions only. -/
theorem Mixin.bind_congr {vars' : String → Value} (m : Mixin) (arguments : List Expression)
    (h : ∀ e ∈ m.sources arguments, e.evaluate vars = e.evaluate vars') :
    m.bind arguments vars = m.bind arguments vars' := by
  obtain ⟨name, ps, rest, body⟩ := m
  unfold Mixin.bind
  dsimp only
  induction ps generalizing arguments with
  | nil =>
    cases rest with
    | none => rw [bindArguments, bindArguments]
    | some rest =>
      have harguments : ∀ e ∈ arguments, e.evaluate vars = e.evaluate vars' := h
      rw [bindArguments, bindArguments, evaluateAll_eq_of_forall harguments]
  | cons p ps ih =>
    rw [sources_cons] at h
    obtain ⟨hp, hps⟩ := List.forall_mem_append.mp h
    have hvalue : p.value vars arguments.head? = p.value vars' arguments.head? := by
      unfold Parameter.value
      cases hsource : p.source? arguments.head? with
      | none => rfl
      | some e => exact hp e (Option.mem_toList.mpr hsource)
    rw [bindArguments_cons, bindArguments_cons, hvalue, ih _ hps]

end

/-! ### The frame of a call -/

namespace Table

variable {α : Type} {pairs : List (String × α)} {key : String}

theorem find?_insertAll_of_notMem (h : key ∉ pairs.map (·.1)) (t : Table α) :
    (t.insertAll pairs).find? key = t.find? key := by
  induction pairs generalizing t with
  | nil => rfl
  | cons pair pairs ih =>
    obtain ⟨hpair, hpairs⟩ := List.ne_and_not_mem_of_not_mem_cons h
    refine (ih hpairs _).trans ?_
    rw [find?_insert, if_neg hpair]

/-- With a key for each pair, everything that is put in is there. -/
theorem find?_insertAll_of_mem {x : α} (hkeys : (pairs.map (·.1)).Nodup) (h : (key, x) ∈ pairs)
    (t : Table α) : (t.insertAll pairs).find? key = some x := by
  induction pairs generalizing t with
  | nil => cases h
  | cons pair pairs ih =>
    obtain ⟨hpair, hpairs⟩ := List.nodup_cons.mp hkeys
    rcases List.mem_cons.mp h with rfl | h
    · refine (find?_insertAll_of_notMem hpair _).trans ?_
      exact find?_insert_self _ _ _
    · exact ih hpairs h _

theorem find?_insertAll_isSome (h : key ∈ pairs.map (·.1)) (t : Table α) :
    ((t.insertAll pairs).find? key).isSome := by
  induction pairs generalizing t with
  | nil => cases h
  | cons pair pairs ih =>
    -- The last pair with the key counts.
    by_cases hpairs : key ∈ pairs.map (·.1)
    · exact ih hpairs _
    · obtain rfl := (List.mem_cons.mp h).resolve_right hpairs
      show (Table.find? pair.1 (Table.insertAll pairs (Table.insert pair.1 pair.2 t))).isSome
      rw [find?_insertAll_of_notMem hpairs, find?_insert_self]
      rfl

end Table

/-- On top of other frames, a name means what was bound, and else what it meant before. -/
theorem Scope.find?_setAll_pushFrame (c : Scope) (bindings : List (String × Value))
    (name : String) :
    (c.pushFrame.setAll bindings).find? name =
      (Table.find? name (Table.insertAll bindings [])).or (c.find? name) := by
  rw [Scope.setAll_pushFrame]
  unfold Scope.find?
  rw [List.findSome?_cons]
  cases Table.find? name (Table.insertAll bindings []) <;> rfl

/-- With a name for each parameter, they mean in their frame what they stand for. -/
theorem callScope_of_bind {m : Mixin} {arguments : List Expression} {c : Scope}
    (hdistinct : m.names.Nodup) (h : ∀ e ∈ m.sources arguments, ∃ v, e.evaluate c.get = .ok v) :
    ∃ bindings, m.bind arguments c.get = .ok bindings ∧
      CallScope m arguments c (c.pushFrame.setAll bindings) := by
  obtain ⟨bindings, hbind, hparameters, hrest⟩ := bind_of_sources m arguments h
  have hnames := names_of_bind hbind
  rw [← hnames] at hdistinct
  have hmem {name : String} {v : Value} (hv : (name, v) ∈ bindings) :
      (c.pushFrame.setAll bindings).find? name = some v := by
    rw [Scope.find?_setAll_pushFrame, Table.find?_insertAll_of_mem hdistinct hv]
    rfl
  refine ⟨bindings, hbind, fun i p hp => ?_, fun name hname => ?_, fun name hname => ?_⟩
  · obtain ⟨v, hv, hin⟩ := hparameters i p hp
    exact ⟨v, hv, hmem hin⟩
  · obtain ⟨vs, hvs, hin⟩ := hrest name hname
    exact ⟨vs, hvs, hmem hin⟩
  · rw [Scope.find?_setAll_pushFrame, Table.find?_insertAll_of_notMem (hnames ▸ hname)]
    rfl

end Trellis
