/-!
# `Trellis.Proofs.Steps`: computations taken apart

What is read and rendered is read and rendered step by step, and a failure ends it. These
are the facts about such computations by which a success is followed back through the steps,
and put together from them, so that no proof has to open a `do` block for itself.
-/

set_option autoImplicit false

namespace Trellis

/-- What a computation that succeeds has gone through. -/
theorem of_bind_eq_ok {ε α β : Type} {x : Except ε α} {f : α → Except ε β} {y : β}
    (h : (x >>= f) = .ok y) : ∃ a, x = .ok a ∧ f a = .ok y := by
  cases x with
  | error e => cases h
  | ok a => exact ⟨a, rfl, h⟩

/-- A computation whose result is passed on has given one. -/
theorem of_map_eq_ok {ε α β : Type} {x : Except ε α} {f : α → β} {y : β} (h : x.map f = .ok y) :
    ∃ a, x = .ok a ∧ f a = y := by
  cases x with
  | error e => cases h
  | ok a => exact ⟨a, rfl, Except.ok.inj h⟩

/-- A step that succeeds leaves the steps behind it. -/
theorem bind_eq_of_ok {ε α β : Type} {x : Except ε α} {a : α} (h : x = .ok a) (f : α → Except ε β) :
    (x >>= f) = f a := by
  rw [h]
  rfl

/-- What a computation with a state that succeeds has gone through. -/
theorem of_bind_eq_result {ε σ α β : Type} {a : EStateM ε σ α} {k : α → EStateM ε σ β}
    {y : β} {p p' : σ} (h : (a >>= k) p = .ok y p') :
    ∃ x between, a p = .ok x between ∧ k x between = .ok y p' := by
  change EStateM.bind a k p = _ at h
  unfold EStateM.bind at h
  cases ha : a p with
  | ok x between =>
    rw [ha] at h
    exact ⟨x, between, rfl, h⟩
  | error e between =>
    rw [ha] at h
    cases h

/-- A computation with a state that fails does so in its first part or behind it. -/
theorem of_bind_eq_failure {ε σ α β : Type} {a : EStateM ε σ α} {k : α → EStateM ε σ β}
    {e : ε} {p p' : σ} (h : (a >>= k) p = .error e p') :
    a p = .error e p' ∨ ∃ x between, a p = .ok x between ∧ k x between = .error e p' := by
  change EStateM.bind a k p = _ at h
  unfold EStateM.bind at h
  cases ha : a p with
  | ok x between =>
    rw [ha] at h
    exact .inr ⟨x, between, rfl, h⟩
  | error e' between =>
    rw [ha] at h
    cases h
    exact .inl rfl

/-- A computation succeeds if its steps do. -/
theorem bind_eq_result {ε σ α β : Type} {a : EStateM ε σ α} {k : α → EStateM ε σ β}
    {x : α} {y : β} {p between p' : σ} (ha : a p = .ok x between) (hk : k x between = .ok y p') :
    (a >>= k) p = .ok y p' := by
  change EStateM.bind a k p = _
  rw [EStateM.bind, ha]
  exact hk

end Trellis
