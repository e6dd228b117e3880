import Trellis.Expr.Client

/-!
# `Trellis.Proofs.Sharing`: the cache of expressions

A cache that started empty is what some calls of handlers have made of it (`Cache.after`). Each of
its entries is what its text is compiled to (`Cache.Sound`). From this one invariant it follows that
no answer depends on the cache: not that of a call (`Sound.compile_eq`, `Sound.evaluate_eq`), and
not what a computation comes to that asks a handler as often as it likes (`Sound.run_eq`).

What is entered stays (`find?_after`), so a text has the same object for good. It is entered exactly
when a handler that caches has compiled it (`holds_after_iff`).
-/

set_option autoImplicit false

namespace Trellis.Expr

/-- One call of a handler that caches or does not. -/
inductive Call where
  | compile (caching : Bool) (source : String)
  | evaluate (caching : Bool) (source : String) (vars : String → Value)

namespace Call

def caching : Call → Bool
  | .compile caching _ => caching
  | .evaluate caching _ _ => caching

def source : Call → String
  | .compile _ source => source
  | .evaluate _ source _ => source

/-- Does the call enter a text, unless it is entered already? -/
def Enters (call : Call) (source : String) : Prop :=
  call.caching = true ∧ call.source = source ∧ ∃ e, Expression.compile source = .ok e

end Call

namespace Cache

/-- What a call makes of the cache. -/
def step (c : Cache) : Call → Cache
  | .compile caching source => (c.compile caching source).2
  | .evaluate caching source vars => (c.evaluate caching source vars).2

/-- What some calls make of the cache. -/
def after (c : Cache) (calls : List Call) : Cache := calls.foldl step c

/-- Each entry is what its text is compiled to. -/
def Sound (c : Cache) : Prop :=
  ∀ source shared, Table.find? source c.entries = some shared →
    Expression.compile source = .ok shared.expression

theorem sound_empty : Sound .empty := nofun

/-! ### One call -/

/-- What compiling does: a text that is found is left as it is, one that cannot be read too, and
any other becomes a new object, which is entered by a handler that caches. -/
theorem compile_cases (caching : Bool) (source : String) (c : Cache) :
    (∃ shared, caching = true ∧ Table.find? source c.entries = some shared ∧
      c.compile caching source = (.ok shared, c)) ∨
    (∃ e, (caching = true → Table.find? source c.entries = none) ∧
      Expression.compile source = .error e ∧ c.compile caching source = (.error e, c)) ∨
    (∃ expression, (caching = true → Table.find? source c.entries = none) ∧
      Expression.compile source = .ok expression ∧
      c.compile caching source = (.ok ⟨c.next, expression⟩,
        ⟨if caching then Table.insert source ⟨c.next, expression⟩ c.entries else c.entries,
          c.next + 1⟩)) := by
  rw [compile]
  split
  · next shared hfound =>
    cases caching with
    | false => cases hfound
    | true => exact .inl ⟨shared, rfl, hfound, rfl⟩
  · next hnone =>
    have hnone : caching = true → Table.find? source c.entries = none := by
      rintro rfl
      exact hnone
    split
    · next e he => exact .inr (.inl ⟨e, hnone, he, rfl⟩)
    · next expression he => exact .inr (.inr ⟨expression, hnone, he, rfl⟩)

/-- Evaluation makes of the cache what compiling makes of it. -/
theorem evaluate_snd (caching : Bool) (source : String) (vars : String → Value) (c : Cache) :
    (c.evaluate caching source vars).2 = (c.compile caching source).2 := by
  rw [evaluate]
  split
  · next h => rw [h]
  · next h => rw [h]

theorem step_eq (c : Cache) (call : Call) :
    c.step call = (c.compile call.caching call.source).2 := by
  cases call with
  | compile => rfl
  | evaluate => exact evaluate_snd ..

section
variable {c : Cache} (h : c.Sound)
include h

/-- **The answer to a text is what it is compiled to**, whatever is cached. -/
theorem Sound.compile_eq (caching : Bool) (source : String) :
    (c.compile caching source).1.map Shared.expression = Expression.compile source := by
  rcases compile_cases caching source c with ⟨shared, _, hfound, hc⟩ | ⟨e, _, he, hc⟩ | ⟨x, _, hx, hc⟩
  · rw [hc, h source shared hfound]
    rfl
  · rw [hc, he]
    rfl
  · rw [hc, hx]
    rfl

theorem Sound.evaluate_eq (caching : Bool) (source : String) (vars : String → Value) :
    (c.evaluate caching source vars).1 =
      Expression.compile source >>= fun e => e.evaluate vars := by
  rw [← h.compile_eq caching source, evaluate]
  split
  · next hc => rw [hc]; rfl
  · next hc => rw [hc]; rfl

theorem Sound.step (call : Call) : (c.step call).Sound := by
  rw [step_eq]
  rcases compile_cases call.caching call.source c with ⟨_, _, _, hc⟩ | ⟨_, _, _, hc⟩ | ⟨x, _, hx, hc⟩
  · rwa [hc]
  · rwa [hc]
  · rw [hc]
    intro source shared hfound
    cases hcaching : call.caching with
    | false =>
      rw [hcaching] at hfound
      exact h source shared hfound
    | true =>
      rw [hcaching, if_pos rfl, Table.find?_insert] at hfound
      split at hfound
      · next hsource =>
        cases hfound
        rw [hsource, hx]
      · exact h source shared hfound

theorem Sound.after (calls : List Call) : (c.after calls).Sound := by
  induction calls generalizing c with
  | nil => exact h
  | cons call calls ih => exact ih (h.step call)

end

/-! ### What is entered -/

theorem find?_step {c : Cache} {source : String} {shared : Shared}
    (h : Table.find? source c.entries = some shared) (call : Call) :
    Table.find? source (c.step call).entries = some shared := by
  rw [step_eq]
  rcases compile_cases call.caching call.source c with ⟨_, _, _, hc⟩ | ⟨_, _, _, hc⟩ |
    ⟨x, hnone, _, hc⟩
  · rwa [hc]
  · rwa [hc]
  · rw [hc]
    dsimp only
    split
    · next hcaching =>
      -- What is entered now was not there before.
      rw [Table.find?_insert, if_neg, h]
      rintro rfl
      rw [hnone hcaching] at h
      cases h
    · exact h

/-- What is entered stays. -/
theorem find?_after {c : Cache} {source : String} {shared : Shared}
    (h : Table.find? source c.entries = some shared) (calls : List Call) :
    Table.find? source (c.after calls).entries = some shared := by
  induction calls generalizing c with
  | nil => exact h
  | cons call calls ih => exact ih (find?_step h call)

theorem holds_iff {c : Cache} {source : String} :
    c.holds source = true ↔ ∃ shared, Table.find? source c.entries = some shared :=
  Option.isSome_iff_exists

/-- A text that is entered has one object for all handlers that cache, whatever calls come in
between. -/
theorem compile_of_holds {c : Cache} {source : String} (h : c.holds source = true) :
    ∃ shared, ∀ calls, ((c.after calls).compile true source).1 = .ok shared := by
  obtain ⟨shared, hfound⟩ := holds_iff.1 h
  refine ⟨shared, fun calls => ?_⟩
  rw [compile, if_pos rfl, find?_after hfound calls]

theorem holds_step_iff (c : Cache) (call : Call) (source : String) :
    (c.step call).holds source = true ↔ c.holds source = true ∨ call.Enters source := by
  rw [step_eq]
  rcases compile_cases call.caching call.source c with ⟨shared, _, hfound, hc⟩ | ⟨e, _, he, hc⟩ |
    ⟨x, _, hx, hc⟩
  · rw [hc]
    refine ⟨.inl, fun h => h.elim id ?_⟩
    rintro ⟨_, rfl, _⟩
    exact holds_iff.2 ⟨shared, hfound⟩
  · rw [hc]
    refine ⟨.inl, fun h => h.elim id ?_⟩
    rintro ⟨_, rfl, x, hx⟩
    rw [he] at hx
    cases hx
  · rw [hc, holds, holds]
    cases hcaching : call.caching with
    | false => simp [Table.has, Call.Enters, hcaching]
    | true =>
      rw [if_pos rfl, Table.has, Table.has, Table.find?_insert]
      split
      · next hsource =>
        subst hsource
        simp [Call.Enters, hcaching, hx]
      · next hsource => simp [Call.Enters, Ne.symm hsource]

/-- What is entered behind some calls: what was entered before, and what one of them enters. -/
theorem holds_after_iff (c : Cache) (calls : List Call) (source : String) :
    (c.after calls).holds source = true ↔
      c.holds source = true ∨ ∃ call ∈ calls, call.Enters source := by
  induction calls generalizing c with
  | nil => simp [after]
  | cons call calls ih =>
    rw [after, List.foldl_cons, ← after, ih, holds_step_iff, or_assoc]
    simp

/-! ### Handlers that do not cache -/

/-- A handler that does not cache leaves the entries alone. -/
theorem entries_compile_false (c : Cache) (source : String) :
    (c.compile false source).2.entries = c.entries := by
  rcases compile_cases false source c with ⟨_, h, _⟩ | ⟨_, _, _, hc⟩ | ⟨_, _, _, hc⟩
  · cases h
  · rw [hc]
  · rw [hc]
    rfl

/-- Its answer would be the same with other entries. -/
theorem compile_false_congr {c c' : Cache} (h : c'.next = c.next) (source : String) :
    (c'.compile false source).1 = (c.compile false source).1 := by
  rw [compile, compile, if_neg Bool.false_ne_true, if_neg Bool.false_ne_true]
  cases Expression.compile source with
  | error e => rfl
  | ok x => rw [h]

theorem evaluate_false_congr {c c' : Cache} (h : c'.next = c.next) (source : String)
    (vars : String → Value) :
    (c'.evaluate false source vars).1 = (c.evaluate false source vars).1 := by
  have hc := compile_false_congr h source
  rw [evaluate, evaluate]
  split
  · next e _ he =>
    rw [he] at hc
    split
    · next he' =>
      rw [he'] at hc
      cases hc
      rfl
    · next he' =>
      rw [he'] at hc
      cases hc
  · next x _ hx =>
    rw [hx] at hc
    split
    · next hx' =>
      rw [hx'] at hc
      cases hc
    · next hx' =>
      rw [hx'] at hc
      cases hc
      rfl

/-! ### Computations -/

section
variable {α : Type} {c : Cache}

/-- **What a computation comes to does not depend on the cache**, and what it makes of the cache is
what some calls make of it. -/
theorem Sound.run_eq (h : c.Sound) (x : Client α) (caching : Bool) :
    (x.run caching c).1 = x.direct ∧ ∃ calls, (x.run caching c).2 = c.after calls := by
  induction x generalizing c with
  | done a => exact ⟨rfl, [], rfl⟩
  | compile source next ih =>
    have hrun : (Client.compile source next).run caching c =
        (next (Expression.compile source)).run caching (c.step (.compile caching source)) := by
      rw [← h.compile_eq caching source]
      rfl
    obtain ⟨hresult, calls, hcalls⟩ := ih _ (h.step (.compile caching source))
    rw [hrun]
    exact ⟨hresult, .compile caching source :: calls, hcalls⟩
  | evaluate source vars next ih =>
    have hrun : (Client.evaluate source vars next).run caching c =
        (next (Expression.compile source >>= fun e => e.evaluate vars)).run caching
          (c.step (.evaluate caching source vars)) := by
      rw [← h.evaluate_eq caching source vars]
      rfl
    obtain ⟨hresult, calls, hcalls⟩ := ih _ (h.step (.evaluate caching source vars))
    rw [hrun]
    exact ⟨hresult, .evaluate caching source vars :: calls, hcalls⟩

end

end Cache

end Trellis.Expr
