import Trellis.Proofs.DoubleOrder
import Trellis.Proofs.Rounding

/-!
# `Trellis.Proofs.NearestDouble`: the double nearest to a whole number

Lean has a logical model of doubles: unpacked, they have a sign, a mantissa and an exponent, and
packed, they are bits. The operations on doubles unpack, work on the parts, round and pack again.
This module follows `Float.ofInt` through that model.

`IsWhole x a` says that an unpacked double is exactly the whole number `a`.

* It survives packing (`unpack_pack_of_isWhole`).
* Rounding a product leads to it (`isWhole_roundWithAccuracy`). The model shifts digits out one by
  one and remembers two things about them. That is enough to tell the nearest multiple
  (`shiftRight_eq`, `roundedMantissa_shiftRight`).
* So the double that a whole number is converted to stands for the number rounded to 53 digits
  (`isWhole_ofInt`). Below `2 ^ 53`, the conversion goes through a multiplication by one.
* Doubles that stand for whole numbers are compared as these are (`compare_of_isWhole`).
-/

set_option autoImplicit false

namespace Trellis

open Float.Model UnpackedFloat

/-- The double is exactly the whole number: zero, or 53 digits at some exponent. -/
inductive IsWhole : UnpackedFloat → Int → Prop
  | zero (s : Sign) : IsWhole (.zero s) 0
  | finite (s : Sign) {m k n : Nat} {e : Int} (hpos : 0 < m) (low : 2 ^ 52 ≤ m)
    (high : m < 2 ^ 53) (exponent : e = k - 52) (room : k < 1024)
    (value : n * 2 ^ 52 = m * 2 ^ k) : IsWhole (.finite s m e hpos) (s.apply n)

/-! ### Packing -/

theorem unpackSign_packComponents {spec : Format} (s : Sign) (e : BitVec spec.exponentBits)
    (m : BitVec spec.mantissaBitsWithoutImplicit) :
    Sign.ofBitVec (unpackSign (packComponents spec s e m)) = s := by
  have hbits : unpackSign (packComponents spec s e m) = s.toBitVec := by
    ext i hi
    have hi0 : i = 0 := by omega
    subst hi0
    simp [unpackSign, packComponents, BitVec.getLsbD_eq_getElem, BitVec.getLsbD_append,
      BitVec.getElem_append]
  rw [hbits]
  cases s <;> rfl

/-- The leading digit is not stored. -/
theorem leading_append {m : Nat} (low : 2 ^ 52 ≤ m) (high : m < 2 ^ 53) :
    (1#1 ++ BitVec.ofNat 52 m).toNat = m := by
  rw [BitVec.toNat_append, ← Nat.shiftLeft_add_eq_or_of_lt (BitVec.isLt _), BitVec.toNat_ofNat]
  show 1 <<< 52 + m % 2 ^ 52 = m
  rw [Nat.one_shiftLeft]
  omega

/-- A number of 53 digits can be packed and unpacked again. -/
theorem unpack_pack_finite (s : Sign) {m k : Nat} (hpos : 0 < m) (low : 2 ^ 52 ≤ m)
    (high : m < 2 ^ 53) (room : k < 1024) :
    (pack (.finite s m (k - 52 : Int) hpos)).unpack = .finite s m (k - 52 : Int) hpos := by
  have hlog : m.log2 + 1 = Format.binary64.mantissaBits := by
    rw [(Nat.log2_eq_iff hpos.ne').2 ⟨low, high⟩]
    rfl
  have hbiased : ((k - 52 : Int) + Format.binary64.exponentBias +
      Format.binary64.mantissaBitsWithoutImplicit).toNat = k + 1023 := by
    show ((k - 52 : Int) + (1023 : Nat) + (52 : Nat)).toNat = k + 1023
    omega
  have hpack : UnpackedFloat.pack Format.binary64 (.finite s m (k - 52 : Int) hpos) =
      packComponents Format.binary64 s (BitVec.ofNat 11 (k + 1023)) (BitVec.ofNat 52 m) := by
    unfold UnpackedFloat.pack
    dsimp only
    rw [hbiased, if_neg (by omega), if_pos hlog]
  have hstored : (BitVec.ofNat 11 (k + 1023)).toNat = k + 1023 := by
    rw [BitVec.toNat_ofNat, Nat.mod_eq_of_lt (by omega)]
  -- The stored exponent is not one of those that are kept for other doubles.
  have hother {e : BitVec 11} (he : e.toNat = 2047 ∨ e.toNat = 0) :
      BitVec.ofNat 11 (k + 1023) ≠ e := by
    rintro rfl
    omega
  have hexponent : ((k + 1023 : Nat) : Int) - (Format.binary64.exponentBias + (52 : Nat) : Int) =
      k - 52 := by
    show ((k + 1023 : Nat) : Int) - ((1023 : Nat) + (52 : Nat) : Int) = k - 52
    omega
  show UnpackedFloat.unpack Format.binary64
    (UnpackedFloat.pack Format.binary64 (.finite s m (k - 52 : Int) hpos)) = _
  rw [hpack]
  unfold UnpackedFloat.unpack
  simp only [unpackExponent_packComponents, unpackMantissa_packComponents,
    unpackSign_packComponents]
  rw [if_neg (hother (.inl rfl)), if_neg (hother (.inr rfl))]
  simp only [hstored, leading_append low high, hexponent]

/-- What stands for a whole number can be packed and unpacked again. -/
theorem unpack_pack_of_isWhole {x : UnpackedFloat} {a : Int} (h : IsWhole x a) :
    (pack x).unpack = x := by
  cases h with
  | zero s => cases s <;> rfl
  | finite s hpos low high exponent room value =>
    subst exponent
    exact unpack_pack_finite s hpos low high room

/-! ### Rounding to 53 digits -/

/-- Twice a rest, taken once more to the unit. -/
theorem two_mul_mod {r unit : Nat} (h : r < unit) :
    2 * r % unit = if 2 * r < unit then 2 * r else 2 * r - unit := by
  split
  · next hless => exact Nat.mod_eq_of_lt hless
  · rw [Nat.mod_eq_sub_mod (by omega), Nat.mod_eq_of_lt (by omega)]

/-- The digits that are shifted out are kept as far as rounding needs them: whether they make up
at least half a unit, and whether there is more to them. -/
theorem shiftRight_eq (m k : Nat) :
    (ExtendedMantissa.mk m false false) >>> k =
      ⟨m / 2 ^ k, decide (2 ^ k ≤ 2 * (m % 2 ^ k)), decide (2 * (m % 2 ^ k) % 2 ^ k ≠ 0)⟩ := by
  induction k with
  | zero => simp [HShiftRight.hShiftRight, Nat.repeat, Nat.mod_one]
  | succ k ih =>
    show (ExtendedMantissa.shiftRightOne ((ExtendedMantissa.mk m false false) >>> k)) = _
    rw [ih]
    have hlt := Nat.mod_lt m (Nat.two_pow_pos k)
    -- The last digit that was not shifted out comes in front of the rest.
    have hrest : m % 2 ^ (k + 1) = m % 2 ^ k + 2 ^ k * (m / 2 ^ k % 2) := by
      rw [Nat.pow_succ, Nat.mod_mul]
    have hagain : 2 * (m % 2 ^ (k + 1)) % 2 ^ (k + 1) = 2 * (m % 2 ^ k) := by
      rw [hrest, Nat.pow_succ', Nat.mul_mod_mul_left, Nat.add_mul_mod_self_left, Nat.mod_mod]
    unfold ExtendedMantissa.shiftRightOne
    rw [hagain, hrest, two_mul_mod hlt, Nat.pow_succ']
    congr 1
    · rw [Nat.div_div_eq_div_mul, Nat.mul_comm]
    · rcases Nat.mod_two_eq_zero_or_one (m / 2 ^ k) with h | h
      · rw [h, Nat.mul_zero, decide_eq_false (by omega)]
        rfl
      · rw [h, Nat.mul_one, decide_eq_true (by omega)]
        rfl
    · rw [← Bool.decide_or, decide_eq_decide]
      split <;> omega

/-- So the mantissa is rounded to the nearest multiple of what it is shifted by. -/
theorem roundedMantissa_shiftRight (m k : Nat) :
    ((ExtendedMantissa.mk m false false) >>> k).roundedMantissa = nearestMultiple (2 ^ k) m := by
  have hlt := Nat.mod_lt m (Nat.two_pow_pos k)
  rw [shiftRight_eq, two_mul_mod hlt]
  unfold nearestMultiple
  generalize 2 ^ k = unit at hlt ⊢
  rcases Nat.lt_trichotomy (2 * (m % unit)) unit with h | h | h
  · rw [if_pos h, if_pos h, decide_eq_false (by omega : ¬unit ≤ 2 * (m % unit))]
    cases decide (2 * (m % unit) ≠ 0) <;> rfl
  · rw [if_neg (by omega), if_neg (by omega), if_pos h, decide_eq_true h.ge,
      decide_eq_false (by omega)]
    rfl
  · rw [if_neg (by omega), if_neg (by omega), if_neg (by omega), decide_eq_true h.le,
      decide_eq_true (by omega)]
    rfl

theorem binary64_targetExponent (m : Nat) (e : Int) :
    Format.binary64.targetExponent (totalExponent m e) = max (m.log2 + e - 52) (-1074) := by
  show max ((m.log2 + 1 + e : Int) - (53 : Nat)) (-1074) = max (m.log2 + e - 52) (-1074)
  omega

/-- Digits are shifted out until 53 are left. -/
theorem shiftToTargetExponent_eq {m : Nat} {e : Int} (h : 52 ≤ m.log2)
    (he : -1074 ≤ m.log2 + e - 52) :
    shiftToTargetExponent Format.binary64 m e .exact =
      ((ExtendedMantissa.mk m false false) >>> (m.log2 - 52), m.log2 + e - 52) := by
  have hshift : (Format.binary64.targetExponent (totalExponent m e) - e).toNat = m.log2 - 52 := by
    rw [binary64_targetExponent]
    omega
  unfold shiftToTargetExponent shiftToExponent
  dsimp only
  rw [hshift]
  refine Prod.ext rfl ?_
  dsimp only
  omega

/-- Once rounded, there are 53 digits, or they end in a zero that is shifted out. -/
theorem shiftToTargetExponent_rounded {q : Nat} {e : Int} (low : 2 ^ 52 ≤ q) (high : q ≤ 2 ^ 53)
    (he : -1074 ≤ e) :
    ∃ q' j, (shiftToTargetExponent Format.binary64 q e .exact).1.mantissa = q' ∧
      (shiftToTargetExponent Format.binary64 q e .exact).2 = e + (j : Nat) ∧
      q = q' * 2 ^ j ∧ 2 ^ 52 ≤ q' ∧ q' < 2 ^ 53 ∧ j ≤ 1 := by
  have hq : q ≠ 0 := by omega
  rcases high.lt_or_eq with high | rfl
  · have hlog : q.log2 = 52 := (Nat.log2_eq_iff hq).2 ⟨low, high⟩
    rw [shiftToTargetExponent_eq (by omega) (by omega), hlog]
    exact ⟨q, 0, rfl, by dsimp only; omega, by omega, low, high, by omega⟩
  · have hlog : (2 ^ 53).log2 = 53 := Nat.log2_two_pow
    rw [shiftToTargetExponent_eq (by omega) (by omega), hlog]
    exact ⟨2 ^ 52, 1, rfl, by dsimp only; omega, rfl, le_refl _, by decide, le_refl _⟩

/-- Rounding gives the nearest number of 53 digits. -/
theorem isWhole_roundWithAccuracy (s : Sign) {m i n : Nat} (h : 52 ≤ m.log2) (hi : i ≤ m.log2)
    (hroom : m.log2 < i + 1023) (hn : n * 2 ^ i = roundedNat m) :
    IsWhole (roundWithAccuracy Format.binary64 s m (-i) .exact) (s.apply n) := by
  obtain ⟨low, high⟩ := nearestMultiple_lastDigit h
  obtain ⟨q, j, hmantissa, hexponent, hq, hlow, hhigh, hj⟩ :=
    shiftToTargetExponent_rounded (e := m.log2 + -(i : Int) - 52) low high (by omega)
  have hvalue : n * 2 ^ 52 = q * 2 ^ (m.log2 - i + j) := by
    refine Nat.eq_of_mul_eq_mul_right (Nat.two_pow_pos i) ?_
    calc n * 2 ^ 52 * 2 ^ i = n * 2 ^ i * 2 ^ 52 := Nat.mul_right_comm ..
      _ = q * 2 ^ j * (2 ^ (m.log2 - 52) * 2 ^ 52) := by
        rw [hn, roundedNat, hq, Nat.mul_assoc _ (lastDigit m), lastDigit]
      _ = q * (2 ^ j * 2 ^ (m.log2 - i + i)) := by
        rw [← Nat.pow_add, Nat.sub_add_cancel h, Nat.sub_add_cancel hi, Nat.mul_assoc]
      _ = q * 2 ^ (m.log2 - i + j) * 2 ^ i := by
        rw [Nat.mul_assoc, ← Nat.pow_add, ← Nat.pow_add]
        congr 2
        omega
  unfold roundWithAccuracy
  rw [shiftToTargetExponent_eq h (by omega)]
  dsimp only
  rw [roundedMantissa_shiftRight]
  simp only [lastDigit] at hmantissa hexponent
  rw [dif_neg (by rw [hmantissa]; omega)]
  refine .finite s _ (by rwa [hmantissa]) (by rwa [hmantissa]) ?_ ?_ (by rwa [hmantissa])
  · rw [hexponent]
    omega
  · omega

/-! ### The order -/

/-- Numbers of 53 digits are compared by exponent and then by mantissa. -/
theorem compare_digits {m n k l a b : Nat} {d e : Int} (hm : 2 ^ 52 ≤ m) (hm' : m < 2 ^ 53)
    (hn : 2 ^ 52 ≤ n) (hn' : n < 2 ^ 53) (hd : d = k - 52) (he : e = l - 52)
    (ha : a * 2 ^ 52 = m * 2 ^ k) (hb : b * 2 ^ 52 = n * 2 ^ l) :
    (compare d e).then (compare m n) = compare a b := by
  have hless {m n k l a b : Nat} (hm : m < 2 ^ 53) (hn : 2 ^ 52 ≤ n) (hkl : k < l)
      (ha : a * 2 ^ 52 = m * 2 ^ k) (hb : b * 2 ^ 52 = n * 2 ^ l) : a < b := by
    refine Nat.lt_of_mul_lt_mul_right (a := 2 ^ 52) ?_
    calc a * 2 ^ 52 < 2 ^ 53 * 2 ^ k := ha ▸ Nat.mul_lt_mul_of_pos_right hm (Nat.two_pow_pos k)
      _ = 2 ^ 52 * 2 ^ (k + 1) := by rw [← Nat.pow_add, ← Nat.pow_add]; congr 1; omega
      _ ≤ 2 ^ 52 * 2 ^ l := Nat.mul_le_mul_left _ (Nat.pow_le_pow_right (by decide) hkl)
      _ ≤ b * 2 ^ 52 := hb ▸ Nat.mul_le_mul_right _ hn
  rcases Nat.lt_trichotomy k l with hkl | rfl | hkl
  · rw [compare_lt_iff_lt.2 (by omega : d < e), compare_lt_iff_lt.2 (hless hm' hn hkl ha hb)]
    rfl
  · have hpos := Nat.two_pow_pos k
    rw [compare_eq_iff_eq.2 (by omega : d = e)]
    show compare m n = compare a b
    rcases Nat.lt_trichotomy m n with h | rfl | h
    · have hab := Nat.mul_lt_mul_of_pos_right h hpos
      rw [compare_lt_iff_lt.2 h, compare_lt_iff_lt.2 (by omega)]
    · rw [compare_eq_iff_eq.2 rfl, compare_eq_iff_eq.2 (by omega)]
    · have hab := Nat.mul_lt_mul_of_pos_right h hpos
      rw [compare_gt_iff_gt.2 h, compare_gt_iff_gt.2 (by omega)]
  · rw [compare_gt_iff_gt.2 (by omega : e < d), compare_gt_iff_gt.2 (hless hn' hm hkl hb ha)]
    rfl

/-- With a sign in front of both, numbers are compared the same way or the other way. -/
theorem compare_apply (s : Sign) (a b : Nat) :
    compare (s.apply a) (s.apply b) =
      match s with
      | .positive => compare a b
      | .negative => (compare a b).swap := by
  rcases Nat.lt_trichotomy a b with h | rfl | h
  · rw [compare_lt_iff_lt.2 h]
    cases s with
    | positive => exact compare_lt_iff_lt.2 (Int.ofNat_lt.2 h)
    | negative => exact compare_gt_iff_gt.2 (Int.neg_lt_neg (Int.ofNat_lt.2 h))
  · rw [compare_eq_iff_eq.2 rfl, compare_eq_iff_eq.2 rfl]
    cases s <;> rfl
  · rw [compare_gt_iff_gt.2 h]
    cases s with
    | positive => exact compare_gt_iff_gt.2 (Int.ofNat_lt.2 h)
    | negative => exact compare_lt_iff_lt.2 (Int.neg_lt_neg (Int.ofNat_lt.2 h))

/-- Doubles that stand for whole numbers are compared as these. -/
theorem compare_of_isWhole {x y : UnpackedFloat} {a b : Int} (hx : IsWhole x a) (hy : IsWhole y b) :
    x.compare y = some (compare a b) := by
  have hpositive {m k n : Nat} (low : 2 ^ 52 ≤ m) (value : n * 2 ^ 52 = m * 2 ^ k) :
      0 < (n : Int) := by
    have hm := Nat.mul_pos (Nat.lt_of_lt_of_le (Nat.two_pow_pos 52) low) (Nat.two_pow_pos k)
    omega
  cases hx with
  | zero s => cases hy with
    | zero t => rfl
    | finite t hpos low high exponent room value =>
      have hn := hpositive low value
      cases t with
      | positive => exact congrArg some (compare_lt_iff_lt.2 hn).symm
      | negative => exact congrArg some (compare_gt_iff_gt.2 (Int.neg_neg_of_pos hn)).symm
  | finite s hpos low high exponent room value =>
    have hn := hpositive low value
    cases hy with
    | zero t => cases s with
      | positive => exact congrArg some (compare_gt_iff_gt.2 hn).symm
      | negative => exact congrArg some (compare_lt_iff_lt.2 (Int.neg_neg_of_pos hn)).symm
    | finite t hpos' low' high' exponent' room' value' =>
      have hn' := hpositive low' value'
      have hdigits := compare_digits low high low' high' exponent exponent' value value'
      cases s <;> cases t
      · rw [compare_apply .negative, ← hdigits]
        rfl
      · exact congrArg some (compare_lt_iff_lt.2 ((Int.neg_neg_of_pos hn).trans hn')).symm
      · exact congrArg some (compare_gt_iff_gt.2 ((Int.neg_neg_of_pos hn').trans hn)).symm
      · rw [compare_apply .positive, ← hdigits]
        rfl

/-! ### The double nearest to a whole number -/

/-- Turning the sign round. -/
theorem isWhole_neg {x : UnpackedFloat} {a : Int} (h : IsWhole x a) : IsWhole x.neg (-a) := by
  cases h with
  | zero s => exact .zero _
  | finite s hpos low high exponent room value =>
    cases s with
    | positive => exact .finite .negative hpos low high exponent room value
    | negative =>
      rw [Sign.apply, Int.neg_neg]
      exact .finite .positive hpos low high exponent room value

/-- The double that a small number is converted to. -/
theorem isWhole_round {n : Nat} (hn : n ≠ 0) (hsmall : n < 2 ^ 53) :
    IsWhole (UnpackedFloat.round Format.binary64 .positive n 0) n := by
  have hlog := (Nat.log2_lt hn).2 hsmall
  have hshift : (0 - Format.binary64.targetExponent (totalExponent n 0)).toNat = 52 - n.log2 := by
    rw [binary64_targetExponent]
    omega
  unfold UnpackedFloat.round decreaseExponent
  dsimp only
  rw [hshift, Nat.shiftLeft_eq, Int.zero_sub]
  have hdigits : 2 ^ 52 ≤ n * 2 ^ (52 - n.log2) ∧ n * 2 ^ (52 - n.log2) < 2 ^ 53 := by
    constructor
    · calc 2 ^ 52 = 2 ^ n.log2 * 2 ^ (52 - n.log2) := by rw [← Nat.pow_add]; congr 1; omega
        _ ≤ n * 2 ^ (52 - n.log2) := Nat.mul_le_mul_right _ (Nat.log2_self_le hn)
    · calc n * 2 ^ (52 - n.log2) < 2 ^ (n.log2 + 1) * 2 ^ (52 - n.log2) :=
          Nat.mul_lt_mul_of_pos_right Nat.lt_log2_self (Nat.two_pow_pos _)
        _ = 2 ^ 53 := by rw [← Nat.pow_add]; congr 1; omega
  have hlog' : (n * 2 ^ (52 - n.log2)).log2 = 52 := (Nat.log2_eq_iff (by omega)).2 hdigits
  exact isWhole_roundWithAccuracy .positive (by omega) (by omega) (by omega)
    (roundedNat_of_lt hdigits.2).symm

/-- The digits of the double that stands for a number without a sign. -/
theorem exists_of_isWhole {x : UnpackedFloat} {n : Nat} (hx : IsWhole x n) (hn : n ≠ 0) :
    ∃ (m k : Nat) (hpos : 0 < m), x = .finite .positive m (k - 52) hpos ∧ 2 ^ 52 ≤ m ∧
      m < 2 ^ 53 ∧ n * 2 ^ 52 = m * 2 ^ k := by
  generalize ha : (n : Int) = a at hx
  cases hx with
  | zero s => exact absurd (Int.ofNat.inj ha) hn
  | @finite s m k n' e hpos low high exponent room value =>
    subst exponent
    cases s with
    | positive =>
      cases Int.ofNat.inj ha
      exact ⟨m, k, hpos, rfl, low, high, value⟩
    | negative =>
      have hneg : (n : Int) = -n' := ha
      omega

/-- Nothing changes when a small number is multiplied by one. -/
theorem isWhole_mul_one {x : UnpackedFloat} {n : Nat} (hx : IsWhole x n) (hn : n ≠ 0)
    (hsmall : n < 2 ^ 53) :
    IsWhole (UnpackedFloat.mul Format.binary64 x
      (.finite .positive (2 ^ 52) (-52) (Nat.two_pow_pos 52))) n := by
  obtain ⟨m, k, hpos, rfl, low, high, value⟩ := exists_of_isWhole hx hn
  have hk : k < 53 := by
    refine (Nat.pow_lt_pow_iff_right (a := 2) (by decide)).1 ?_
    refine Nat.lt_of_mul_lt_mul_left (a := 2 ^ 52) ?_
    calc 2 ^ 52 * 2 ^ k ≤ n * 2 ^ 52 := value ▸ Nat.mul_le_mul_right _ low
      _ < 2 ^ 52 * 2 ^ 53 := by omega
  have hlog : m.log2 = 52 := (Nat.log2_eq_iff hpos.ne').2 ⟨low, high⟩
  have hlog' : (m * 2 ^ 52).log2 = 104 := by rw [log2_mul_two_pow hpos.ne', hlog]
  have hexponent : (k - 52 : Int) + -52 = -((104 - k : Nat) : Int) := by omega
  unfold UnpackedFloat.mul
  dsimp only
  rw [hexponent]
  refine isWhole_roundWithAccuracy .positive (by omega) (by omega) (by omega) ?_
  rw [roundedNat_mul_two_pow hlog.ge, roundedNat_of_lt high]
  refine Nat.eq_of_mul_eq_mul_right (Nat.two_pow_pos k) ?_
  calc n * 2 ^ (104 - k) * 2 ^ k = n * 2 ^ 52 * 2 ^ 52 := by
        rw [Nat.mul_assoc, ← Nat.pow_add, Nat.mul_assoc, ← Nat.pow_add]
        congr 2
        omega
    _ = m * 2 ^ 52 * 2 ^ k := by rw [value, Nat.mul_right_comm]

/-- A greater number is rounded. -/
theorem isWhole_ofScientific {n : Nat} (hlarge : 2 ^ 53 ≤ n) (h : n < 2 ^ 64) :
    IsWhole (UnpackedFloat.ofScientific Format.binary64 n 0) (roundedNat n) := by
  have hn : n ≠ 0 := by omega
  have hlog : 53 ≤ n.log2 := (Nat.le_log2 hn).2 hlarge
  have hlog' : n.log2 < 64 := (Nat.log2_lt hn).2 h
  have hlog53 := log2_mul_two_pow hn 53
  have hrounded := isWhole_roundWithAccuracy .positive (m := n * 2 ^ 53) (i := 53)
    (n := roundedNat n) (by omega) (by omega) (by omega) (roundedNat_mul_two_pow (by omega) 53).symm
  unfold UnpackedFloat.ofScientific
  rw [dif_neg hn, if_neg (by decide), if_neg ?_, if_pos (by decide)]
  · unfold UnpackedFloat.mul
    dsimp only
    rw [Int.toNat_zero, Nat.pow_zero, Nat.mul_one, Int.add_zero, Nat.shiftLeft_eq]
    exact hrounded
  · show ¬(0 : Int) < -((2 : Int) ^ 11 + n.log2)
    omega

/-- A small number is converted as it is. -/
theorem toFloat_eq {n : Nat} (hn : n ≠ 0) (h : n < 2 ^ 64) :
    n.toUInt64.toFloat.toModel = pack (UnpackedFloat.round Format.binary64 .positive n 0) := by
  have hnat : n.toUInt64.toNat = n := UInt64.toNat_ofNat_of_lt h
  have hpositive : compare (n : Int) 0 = .gt := compare_gt_iff_gt.2 (by omega)
  show pack (UnpackedFloat.normalize Format.binary64 (n.toUInt64.toNat : Int) 0 .positive) = _
  unfold UnpackedFloat.normalize
  rw [hnat, hpositive]
  rfl

/-- The double nearest to a number without a sign. -/
theorem isWhole_ofNat {n : Nat} (h : n < 2 ^ 64) :
    IsWhole (Float.ofNat n).toModel.unpack (roundedNat n) := by
  by_cases hn : n = 0
  · subst hn
    exact .zero .positive
  by_cases hsmall : n < 2 ^ 53
  · have hround := isWhole_round hn hsmall
    have hmul := isWhole_mul_one hround hn hsmall
    have hone : (Float.ofBits 0x3FF0000000000000).toModel.unpack =
        .finite .positive (2 ^ 52) (-52) (Nat.two_pow_pos 52) := rfl
    have hofNat : (Float.ofNat n).toModel.unpack = (pack (UnpackedFloat.mul Format.binary64
        n.toUInt64.toFloat.toModel.unpack
        (Float.ofBits 0x3FF0000000000000).toModel.unpack)).unpack := by
      show (Float.ofScientific n false 0).toModel.unpack = _
      unfold Float.ofScientific
      rw [dif_pos ⟨hsmall, by decide⟩]
      rfl
    rw [hofNat, toFloat_eq hn h, hone, unpack_pack_of_isWhole hround, unpack_pack_of_isWhole hmul,
      roundedNat_of_lt hsmall]
    exact hmul
  · have hlarge := isWhole_ofScientific (Nat.le_of_not_lt hsmall) h
    have hofNat : (Float.ofNat n).toModel.unpack =
        (pack (UnpackedFloat.ofScientific Format.binary64 n 0)).unpack := by
      show (Float.ofScientific n false 0).toModel.unpack = _
      unfold Float.ofScientific
      rw [dif_neg (by omega)]
      rfl
    rw [hofNat, unpack_pack_of_isWhole hlarge]
    exact hlarge

/-- The double nearest to a whole number stands for the number rounded to 53 digits. -/
theorem isWhole_ofInt {a : Int} (h : a.natAbs < 2 ^ 64) :
    IsWhole (Float.ofInt a).toModel.unpack (rounded a) := by
  cases a with
  | ofNat n => exact isWhole_ofNat h
  | negSucc n =>
    have hneg := isWhole_neg (isWhole_ofNat (n := n + 1) h)
    show IsWhole (pack (Float.ofNat (n + 1)).toModel.unpack.neg).unpack (-roundedNat (n + 1))
    rw [unpack_pack_of_isWhole hneg]
    exact hneg

end Trellis
