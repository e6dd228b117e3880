import Trellis.Document.Node
import Trellis.Render.Fault

/-!
# `Trellis.Render.CallStack`: the mixin calls under way

A call brings its content along, which the mixin's body may put out with `block`, any
number of times. The content is then rendered as at the place of the call: under the
calls that were under way there, and in the variables of that place. So the stack
holds, for each call, its content and how many frames there were.

The stack has a bound, and rendering ends because of it: `CallStack.rank` measures what
is still to be rendered. It is a list with one number for each call, the outermost
first, and one for the nodes at hand. A call makes the last number smaller and puts a
number behind it; rendering the content of a call makes the number of that call
smaller and drops what stands behind. Lists of bounded length, compared at the first
place where they differ, have no infinite descent.
-/

set_option autoImplicit false

namespace Trellis

/-- A call under way: its content, if it has any, and the number of frames at its
place. -/
structure Caller where
  body : Option (List Node)
  depth : Nat

/-- The calls under way, the innermost first. -/
structure CallStack where
  callers : List Caller
  bounded : callers.length ≤ maxCallDepth

namespace CallStack

/-- No call is under way. -/
def empty : CallStack := ⟨[], Nat.zero_le _⟩

/-- The stack with one more call, if there may be one more. -/
def push? (s : CallStack) (c : Caller) : Option CallStack :=
  if h : s.callers.length < maxCallDepth then some ⟨c :: s.callers, h⟩ else none

/-- The innermost call and the stack at its place. -/
def pop? : CallStack → Option (Caller × CallStack)
  | ⟨[], _⟩ => none
  | ⟨c :: rest, h⟩ => some (c, ⟨rest, Nat.le_of_succ_le h⟩)

end CallStack

/-! ## Descent -/

/-- `Descends xs ys`: at the first place where the lists differ, `xs` has the smaller
number. -/
inductive Descends : List Nat → List Nat → Prop where
  | here {a b : Nat} {xs ys : List Nat} (h : a < b) : Descends (a :: xs) (b :: ys)
  | there {a : Nat} {xs ys : List Nat} (h : Descends xs ys) : Descends (a :: xs) (a :: ys)

theorem Descends.append (start : List Nat) {xs ys : List Nat} (h : Descends xs ys) :
    Descends (start ++ xs) (start ++ ys) := by
  induction start with
  | nil => exact h
  | cons a start ih => exact .there ih

theorem Descends.not_nil {xs : List Nat} : ¬ Descends xs [] := by
  intro h
  cases h

/-- What stands below a list: a smaller first number and anything behind it, or the same
first number and something below the rest. -/
theorem Descends.cons_iff {xs ys : List Nat} {b : Nat} :
    Descends xs (b :: ys) ↔ ∃ a zs, xs = a :: zs ∧ (a < b ∨ a = b ∧ Descends zs ys) := by
  constructor
  · intro h
    cases h with
    | here h => exact ⟨_, _, rfl, .inl h⟩
    | there h => exact ⟨_, _, rfl, .inr ⟨rfl, h⟩⟩
  · rintro ⟨a, zs, rfl, h | ⟨rfl, h⟩⟩
    · exact .here h
    · exact .there h

/-- A list of at most `bound` numbers. -/
def Rank (bound : Nat) : Type := { xs : List Nat // xs.length ≤ bound }

/-- One rank is below another if its list descends from the other's. -/
def Rank.Below {bound : Nat} (r s : Rank bound) : Prop := Descends r.1 s.1

/-- By the first number, and for equal first numbers by the rest. -/
theorem Rank.acc_cons {bound : Nat} (ih : ∀ r : Rank bound, Acc Below r) (a : Nat)
    (r : Rank bound) :
    ∀ h : (a :: r.1).length ≤ bound + 1, Acc (@Below (bound + 1)) ⟨a :: r.1, h⟩ := by
  induction a using Nat.strongRecOn generalizing r with
  | ind a smaller =>
    induction ih r with
    | intro r _ later =>
      refine fun h => ⟨_, fun s hs => ?_⟩
      obtain ⟨ys, hy⟩ := s
      obtain ⟨b, zs, rfl, hb | ⟨rfl, hz⟩⟩ := Descends.cons_iff.1 hs
      · exact smaller b hb ⟨zs, by simpa using hy⟩ hy
      · exact later ⟨zs, by simpa using hy⟩ hz hy

theorem Rank.acc {bound : Nat} (r : Rank bound) : Acc Below r := by
  induction bound with
  | zero =>
    obtain ⟨xs, hx⟩ := r
    refine ⟨_, fun s h => ?_⟩
    cases List.length_eq_zero_iff.1 (Nat.le_zero.1 hx)
    exact absurd h Descends.not_nil
  | succ bound ih =>
    obtain ⟨xs, hx⟩ := r
    match xs, hx with
    | [], _ => exact ⟨_, fun s h => absurd h Descends.not_nil⟩
    | a :: rest, hx => exact acc_cons ih a ⟨rest, by simpa using hx⟩ hx

instance (bound : Nat) : WellFoundedRelation (Rank bound) where
  rel := Rank.Below
  wf := ⟨Rank.acc⟩

/-- The number of a call: odd, so that rendering its content is less. -/
noncomputable def Caller.rank (c : Caller) : Nat := 2 * sizeOf c.body + 1

/-- What is still to be rendered under some calls, when the nodes at hand have the given
size. -/
noncomputable def CallStack.rank (s : CallStack) (size : Nat) : Rank (maxCallDepth + 1) :=
  ⟨s.callers.reverse.map Caller.rank ++ [2 * size], by simpa using s.bounded⟩

theorem CallStack.rank_smaller {s : CallStack} {m n : Nat} (h : m < n) :
    WellFoundedRelation.rel (s.rank m) (s.rank n) :=
  Descends.append _ (.here (by omega))

theorem CallStack.rank_push {s t : CallStack} {c : Caller} {m n : Nat} (h : s.push? c = some t)
    (hn : sizeOf c.body < n) : WellFoundedRelation.rel (t.rank m) (s.rank n) := by
  unfold CallStack.push? at h
  split at h
  · cases h
    show Descends ((c :: s.callers).reverse.map Caller.rank ++ [2 * m])
      (s.callers.reverse.map Caller.rank ++ [2 * n])
    simp only [List.reverse_cons, List.map_append, List.append_assoc, List.map_cons, List.map_nil,
      List.cons_append, List.nil_append]
    exact Descends.append _ (.here (by unfold Caller.rank; omega))
  · cases h

theorem CallStack.rank_pop {s t : CallStack} {c : Caller} {m n : Nat} (h : s.pop? = some (c, t))
    (hm : m ≤ sizeOf c.body) : WellFoundedRelation.rel (t.rank m) (s.rank n) := by
  obtain ⟨callers, hb⟩ := s
  cases callers with
  | nil => cases h
  | cons d rest =>
    cases h
    show Descends (rest.reverse.map Caller.rank ++ [2 * m])
      ((c :: rest).reverse.map Caller.rank ++ [2 * n])
    simp only [List.reverse_cons, List.map_append, List.append_assoc, List.map_cons, List.map_nil,
      List.cons_append, List.nil_append]
    exact Descends.append _ (.here (by unfold Caller.rank; omega))

end Trellis
