import Mathlib

/-!
# `Trellis.Proofs.Rounding`: whole numbers of 53 binary digits

A double has 53 binary digits and an exponent. So of a whole number it keeps the first 53 digits,
rounded, and has zeros for the others: `roundedNat`, and `rounded` for numbers on either side of
zero. The number is taken to the nearest multiple of the unit in its last digit that is kept
(`nearestMultiple`).

What matters for comparing is that rounding keeps numbers in their order (`rounded_mono`) and that
it changes none up to `2 ^ 53` (`rounded_of_natAbs_le`). The first is clear for numbers of the
same length, which have one unit. Otherwise there is a power of two between them, which rounding
does not cross (`roundedNat_bounds`).
-/

set_option autoImplicit false

namespace Trellis

/-- How many units make up the number, to the nearest. Of two that are as near, it is the even
one. -/
def nearestMultiple (unit n : Nat) : Nat :=
  if 2 * (n % unit) < unit then n / unit
  else if 2 * (n % unit) = unit then n / unit + n / unit % 2
  else n / unit + 1

/-- The unit in the last of the first 53 binary digits of a number. -/
def lastDigit (n : Nat) : Nat := 2 ^ (n.log2 - 52)

/-- The nearest number that has no more than 53 binary digits, but for zeros behind them. -/
def roundedNat (n : Nat) : Nat := nearestMultiple (lastDigit n) n * lastDigit n

/-- The same on either side of zero. -/
def rounded : Int → Int
  | .ofNat n => roundedNat n
  | .negSucc n => -roundedNat (n + 1)

theorem lastDigit_pos (n : Nat) : 0 < lastDigit n := Nat.two_pow_pos _

/-! ### Multiples of a unit -/

theorem nearestMultiple_bounds (unit n : Nat) :
    n / unit ≤ nearestMultiple unit n ∧ nearestMultiple unit n ≤ n / unit + 1 := by
  unfold nearestMultiple
  split
  · omega
  · split <;> omega

theorem nearestMultiple_mono (unit : Nat) : Monotone (nearestMultiple unit) := by
  intro m n hmn
  have hdiv : m / unit ≤ n / unit := Nat.div_le_div_right hmn
  rcases hdiv.lt_or_eq with hlt | heq
  · have hm := (nearestMultiple_bounds unit m).2
    have hn := (nearestMultiple_bounds unit n).1
    omega
  · -- Between the same two multiples, the rests decide.
    have hrest : m % unit ≤ n % unit := by
      have hm := Nat.div_add_mod m unit
      have hn := Nat.div_add_mod n unit
      rw [heq] at hm
      omega
    unfold nearestMultiple
    rw [heq]
    split
    · split
      · omega
      · split <;> omega
    · split <;> split <;> try split
      all_goals omega

theorem nearestMultiple_mul {unit : Nat} (h : 0 < unit) (q : Nat) :
    nearestMultiple unit (q * unit) = q := by
  unfold nearestMultiple
  rw [Nat.mul_mod_left, Nat.mul_div_cancel _ h, if_pos (by omega)]

/-- The scale does not matter. -/
theorem nearestMultiple_scale (unit n : Nat) {s : Nat} (h : 0 < s) :
    nearestMultiple (unit * s) (n * s) = nearestMultiple unit n := by
  unfold nearestMultiple
  rw [Nat.mul_mod_mul_right, Nat.mul_div_mul_right _ _ h, ← Nat.mul_assoc]
  simp only [Nat.mul_lt_mul_right h, Nat.mul_left_inj h.ne']

/-! ### 53 digits -/

theorem lastDigit_of_lt {n : Nat} (h : n < 2 ^ 53) : lastDigit n = 1 := by
  unfold lastDigit
  by_cases hn : n = 0
  · rw [hn]
    rfl
  · have hlog := (Nat.log2_lt hn).2 h
    rw [Nat.sub_eq_zero_of_le (by omega), Nat.pow_zero]

/-- A number of no more than 53 digits is kept. -/
theorem roundedNat_of_lt {n : Nat} (h : n < 2 ^ 53) : roundedNat n = n := by
  have hone := nearestMultiple_mul Nat.one_pos n
  rw [Nat.mul_one] at hone
  rw [roundedNat, lastDigit_of_lt h, hone, Nat.mul_one]

/-- There are 53 digits, or one more if they were rounded up from ones only. -/
theorem nearestMultiple_lastDigit {n : Nat} (h : 52 ≤ n.log2) :
    2 ^ 52 ≤ nearestMultiple (lastDigit n) n ∧ nearestMultiple (lastDigit n) n ≤ 2 ^ 53 := by
  have hn : n ≠ 0 := by
    rintro rfl
    cases h
  have hlow : 2 ^ 52 * lastDigit n ≤ n := by
    rw [lastDigit, ← Nat.pow_add, Nat.add_sub_cancel' h]
    exact Nat.log2_self_le hn
  have hhigh : n < 2 ^ 53 * lastDigit n := by
    rw [lastDigit, ← Nat.pow_add, show 53 + (n.log2 - 52) = n.log2 + 1 by omega]
    exact Nat.lt_log2_self
  obtain ⟨hfloor, hceil⟩ := nearestMultiple_bounds (lastDigit n) n
  have hdigits := (Nat.le_div_iff_mul_le (lastDigit_pos n)).2 hlow
  have hdigits' := (Nat.div_lt_iff_lt_mul (lastDigit_pos n)).2 hhigh
  omega

/-- Rounding does not go beyond the powers of two around a number. -/
theorem roundedNat_bounds {n : Nat} (hn : n ≠ 0) :
    2 ^ n.log2 ≤ roundedNat n ∧ roundedNat n ≤ 2 ^ (n.log2 + 1) := by
  by_cases h : 52 ≤ n.log2
  · obtain ⟨hlow, hhigh⟩ := nearestMultiple_lastDigit h
    have hpow : 2 ^ n.log2 = 2 ^ 52 * lastDigit n := by
      rw [lastDigit, ← Nat.pow_add, Nat.add_sub_cancel' h]
    have hpow' : 2 ^ (n.log2 + 1) = 2 ^ 53 * lastDigit n := by
      rw [lastDigit, ← Nat.pow_add, show 53 + (n.log2 - 52) = n.log2 + 1 by omega]
    rw [roundedNat, hpow, hpow']
    exact ⟨Nat.mul_le_mul_right _ hlow, Nat.mul_le_mul_right _ hhigh⟩
  · rw [roundedNat_of_lt ((Nat.log2_lt hn).1 (by omega))]
    exact ⟨Nat.log2_self_le hn, Nat.lt_log2_self.le⟩

theorem roundedNat_mono : Monotone roundedNat := by
  intro m n hmn
  by_cases hm : m = 0
  · rw [hm]
    exact Nat.zero_le _
  · have hn : n ≠ 0 := by omega
    have hlog : m.log2 ≤ n.log2 := (Nat.le_log2 hn).2 ((Nat.log2_self_le hm).trans hmn)
    rcases hlog.lt_or_eq with hlt | heq
    · -- There is a power of two between the two numbers.
      calc roundedNat m ≤ 2 ^ (m.log2 + 1) := (roundedNat_bounds hm).2
        _ ≤ 2 ^ n.log2 := Nat.pow_le_pow_right (by decide) hlt
        _ ≤ roundedNat n := (roundedNat_bounds hn).1
    · unfold roundedNat lastDigit
      rw [heq]
      exact Nat.mul_le_mul_right _ (nearestMultiple_mono _ hmn)

theorem log2_mul_two_pow {n : Nat} (hn : n ≠ 0) (k : Nat) : (n * 2 ^ k).log2 = n.log2 + k := by
  rw [Nat.log2_eq_iff (Nat.mul_ne_zero hn (Nat.two_pow_pos k).ne')]
  constructor
  · rw [Nat.pow_add]
    exact Nat.mul_le_mul_right _ (Nat.log2_self_le hn)
  · rw [Nat.add_right_comm, Nat.pow_add]
    exact Nat.mul_lt_mul_of_pos_right Nat.lt_log2_self (Nat.two_pow_pos k)

/-- Zeros behind all digits stay. -/
theorem roundedNat_mul_two_pow {n : Nat} (h : 52 ≤ n.log2) (k : Nat) :
    roundedNat (n * 2 ^ k) = roundedNat n * 2 ^ k := by
  have hn : n ≠ 0 := by
    rintro rfl
    cases h
  have hdigit : lastDigit (n * 2 ^ k) = lastDigit n * 2 ^ k := by
    rw [lastDigit, log2_mul_two_pow hn, lastDigit, ← Nat.pow_add, Nat.sub_add_comm h]
  rw [roundedNat, hdigit, nearestMultiple_scale _ _ (Nat.two_pow_pos k), roundedNat,
    Nat.mul_assoc]

/-! ### Either side of zero -/

theorem rounded_mono : Monotone rounded := by
  intro a b hab
  cases a with
  | ofNat m => cases b with
    | ofNat n => exact Int.ofNat_le.2 (roundedNat_mono (Int.ofNat_le.1 hab))
    | negSucc n =>
      exact absurd hab (Int.not_le.2 ((Int.negSucc_lt_zero n).trans_le (Int.natCast_nonneg m)))
  | negSucc m => cases b with
    | ofNat n =>
      show -(roundedNat (m + 1) : Int) ≤ roundedNat n
      omega
    | negSucc n =>
      have hmono := roundedNat_mono (show n + 1 ≤ m + 1 by omega)
      show -(roundedNat (m + 1) : Int) ≤ -(roundedNat (n + 1) : Int)
      omega

theorem roundedNat_of_le {n : Nat} (h : n ≤ 2 ^ 53) : roundedNat n = n := by
  rcases h.lt_or_eq with hlt | rfl
  · exact roundedNat_of_lt hlt
  · decide

/-- Up to `2 ^ 53`, all whole numbers are kept. -/
theorem rounded_of_natAbs_le {a : Int} (h : a.natAbs ≤ 2 ^ 53) : rounded a = a := by
  cases a with
  | ofNat n => exact congrArg Int.ofNat (roundedNat_of_le h)
  | negSucc n => exact congrArg (fun m : Nat => -(m : Int)) (roundedNat_of_le h)

end Trellis
