import Mathlib
import Trellis.Expr.Arithmetic

/-!
# `Trellis.Proofs.DoubleOrder`: the order of doubles

What a double is for Lean is an unpacked double: no number, an infinity, a zero, or a sign with
a mantissa and an exponent. Their order is partial. A pair has none exactly if one of the two is
no number (`compare_eq_none_iff`), and it is turned round when the two are exchanged
(`compare_swap`).

The order that expressions work with is total, `compareFloats`. It is the partial one with `gt`
for the pairs that have none (`compareFloats_eq`).
-/

set_option autoImplicit false

namespace Trellis.Expr

open Float.Model

/-- Exchanging two doubles turns their order round, if they have one. -/
theorem compare_swap (x y : UnpackedFloat) : y.compare x = (x.compare y).map Ordering.swap := by
  cases x with
  | notANumber => cases y <;> rfl
  | infinity s => cases s <;> cases y with
    | infinity t => cases t <;> rfl
    | _ => rfl
  | zero s => cases y with
    | infinity t => cases t <;> rfl
    | finite t => cases t <;> rfl
    | _ => rfl
  | finite s m e hm => cases s <;> cases y with
    | infinity t => cases t <;> rfl
    | finite t n f hn =>
      -- Of one sign, they are compared by exponent and then by mantissa.
      cases t <;> simp [UnpackedFloat.compare, Ordering.swap_then,
        Std.OrientedOrd.eq_swap (a := f), Std.OrientedOrd.eq_swap (a := n)]
    | _ => rfl

/-- Two doubles have no order exactly if one of them is no number. -/
theorem compare_eq_none_iff (x y : UnpackedFloat) :
    x.compare y = none ↔ x.isNaN = true ∨ y.isNaN = true := by
  cases x with
  | notANumber => cases y <;> simp [UnpackedFloat.compare, UnpackedFloat.isNaN]
  | infinity s => cases s <;> cases y with
    | infinity t => cases t <;> simp [UnpackedFloat.compare, UnpackedFloat.isNaN]
    | _ => simp [UnpackedFloat.compare, UnpackedFloat.isNaN]
  | zero s => cases y with
    | infinity t => cases t <;> simp [UnpackedFloat.compare, UnpackedFloat.isNaN]
    | finite t => cases t <;> simp [UnpackedFloat.compare, UnpackedFloat.isNaN]
    | _ => simp [UnpackedFloat.compare, UnpackedFloat.isNaN]
  | finite s m e hm => cases s <;> cases y with
    | infinity t => cases t <;> simp [UnpackedFloat.compare, UnpackedFloat.isNaN]
    | finite t n f hn => cases t <;> simp [UnpackedFloat.compare, UnpackedFloat.isNaN]
    | _ => simp [UnpackedFloat.compare, UnpackedFloat.isNaN]

/-- The total order is the partial one, where a pair without an order counts as `gt`. -/
theorem compareFloats_eq (x y : Float) :
    compareFloats x y = (x.toModel.unpack.compare y.toModel.unpack).getD .gt := by
  have hlt : x < y ↔ x.toModel.unpack.compare y.toModel.unpack = some .lt := by
    show decide ((x.toModel.unpack.compare y.toModel.unpack == some .lt) = true) = true ↔ _
    simp
  have heq : (x == y) = (x.toModel.unpack.compare y.toModel.unpack == some .eq) := rfl
  unfold compareFloats
  simp only [hlt, heq]
  cases x.toModel.unpack.compare y.toModel.unpack with
  | none => rfl
  | some o => cases o <;> rfl

/-- Doubles that are numbers are ordered in the same way from both sides. -/
theorem compareFloats_swap {x y : Float} (hx : x.isNaN = false) (hy : y.isNaN = false) :
    compareFloats y x = (compareFloats x y).swap := by
  have hsome : x.toModel.unpack.compare y.toModel.unpack ≠ none := fun hnone =>
    ((compare_eq_none_iff _ _).1 hnone).elim (fun h => Bool.noConfusion (hx.symm.trans h))
      fun h => Bool.noConfusion (hy.symm.trans h)
  obtain ⟨o, ho⟩ := Option.ne_none_iff_exists'.1 hsome
  rw [compareFloats_eq, compareFloats_eq, compare_swap, ho]
  rfl

/-- Next to what is no number, each double counts as the greater one. -/
theorem compareFloats_of_isNaN {x y : Float} (h : x.isNaN = true ∨ y.isNaN = true) :
    compareFloats x y = .gt := by
  rw [compareFloats_eq, (compare_eq_none_iff _ _).2 h]
  rfl

end Trellis.Expr
