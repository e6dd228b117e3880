import Trellis.Proofs.WholeOrder

/-!
# `Trellis.Proofs.WholeArithmetic`: arithmetic on whole numbers

Nothing, the truth values and the whole numbers of 64 bits take part in arithmetic as whole
numbers (`Counts`). An operation on two of them never wraps. It gives the exact number where 64
bits hold it (`Fits`), and otherwise a double, which is the same operation on the nearest doubles
(`Gives`). A quotient that is no whole number is a double as well.

The least number is a corner of its own. 64 bits hold neither its negative nor its quotient by
minus one, and its remainder by minus one is zero, but comes as a double (`remainder_least`). There
is no other quotient that 64 bits do not hold (`fits_tdiv`).

`exactOn_eval` puts the operators together. It also says that a division fails exactly if the
divisor is zero, and that nothing else does: a double of a divisor that is not zero is not zero
either (`ofInt_beq_zero`).
-/

set_option autoImplicit false

namespace Trellis.Expr

/-! ### Numbers of 64 bits -/

/-- 64 bits hold the number. -/
def Fits (n : Int) : Prop := -2 ^ 63 ≤ n ∧ n < 2 ^ 63

theorem fits_toInt (m : Int64) : Fits m.toInt := ⟨m.le_toInt, m.toInt_lt⟩

theorem int64?_of_fits {n : Int} (h : Fits n) :
    ∃ m : Int64, Decimal.int64? n = some m ∧ m.toInt = n := by
  obtain ⟨hlow, hhigh⟩ := h
  refine ⟨.ofInt n, if_pos ?_, Int64.toInt_ofInt_of_le hlow hhigh⟩
  exact ⟨hlow, Int.le_sub_one_of_lt hhigh⟩

theorem int64?_of_not_fits {n : Int} (h : ¬Fits n) : Decimal.int64? n = none :=
  if_neg fun hbounds => h ⟨hbounds.1, Int.lt_of_le_sub_one hbounds.2⟩

/-- No quotient of numbers of 64 bits is too large for 64 bits, but for one. -/
theorem fits_tdiv {a b : Int} (ha : Fits a) (hb : b ≠ 0) (hcorner : ¬(a = -2 ^ 63 ∧ b = -1)) :
    Fits (a.tdiv b) := by
  unfold Fits at *
  have habs : (a.tdiv b).natAbs = a.natAbs / b.natAbs := Int.natAbs_tdiv a b
  by_cases hone : b = -1
  · subst hone
    rw [Int.tdiv_neg, Int.tdiv_one]
    omega
  · by_cases hunit : b = 1
    · subst hunit
      rwa [Int.tdiv_one]
    · -- Such a divisor halves the number at least.
      have hhalf : a.natAbs / b.natAbs ≤ a.natAbs / 2 := Nat.div_le_div_left (by omega) (by decide)
      omega

theorem fits_tmod {a b : Int} (ha : Fits a) : Fits (a.tmod b) := by
  unfold Fits at *
  have habs : (a.tmod b).natAbs = a.natAbs % b.natAbs := Int.natAbs_tmod a b
  have hle : a.natAbs % b.natAbs ≤ a.natAbs := Nat.mod_le _ _
  rcases Int.le_total 0 a with h | h
  · have hsign := Int.tmod_nonneg b h
    omega
  · have hsign := Int.tmod_nonneg b (Int.neg_nonneg_of_nonpos h)
    rw [Int.neg_tmod] at hsign
    omega

/-! ### Operands -/

/-- The number as which a value takes part in exact arithmetic. -/
inductive Counts : Value → Int → Prop
  | null : Counts .null 0
  | bool (b : Bool) : Counts (.bool b) b.toInt
  | int (n : Int64) : Counts (.int n) n.toInt

theorem Counts.whole? {v : Value} {a : Int} (h : Counts v a) :
    ∃ m : Int64, Expr.whole? v = some m ∧ m.toInt = a := by
  cases h with
  | null => exact ⟨0, rfl, rfl⟩
  | bool b => exact ⟨Value.ofTruth b, rfl, by cases b <;> rfl⟩
  | int n => exact ⟨n, rfl, rfl⟩

theorem Counts.fits {v : Value} {a : Int} (h : Counts v a) : Fits a := by
  obtain ⟨m, -, rfl⟩ := h.whole?
  exact fits_toInt m

theorem Counts.number? {v : Value} {a : Int} (h : Counts v a) : v.number? = some (.ofInt a) := by
  cases h with
  | bool b => cases b <;> rfl
  | _ => rfl

theorem Counts.toNumber {v : Value} {a : Int} (h : Counts v a) :
    ∃ m : Int64, Expr.toNumber v = .ok (.int m) ∧ m.toInt = a := by
  cases h with
  | null => exact ⟨0, rfl, rfl⟩
  | bool b => exact ⟨Value.ofTruth b, rfl, by cases b <;> rfl⟩
  | int n => exact ⟨n, rfl, rfl⟩

/-- Addition joins neither texts nor lists here. -/
theorem Counts.add {v w : Value} {a b : Int} (hv : Counts v a) (hw : Counts w b) :
    Expr.add v w = arithmetic .add v w := by
  cases hv <;> cases hw <;> rfl

theorem rounded_ne_zero {b : Int} (h : b ≠ 0) : rounded b ≠ 0 := by
  have hpos {n : Nat} (hn : n ≠ 0) : 0 < roundedNat n :=
    (Nat.two_pow_pos n.log2).trans_le (roundedNat_bounds hn).1
  cases b with
  | ofNat n =>
    have hn := hpos fun hn => h (congrArg Int.ofNat hn)
    show (roundedNat n : Int) ≠ 0
    omega
  | negSucc n =>
    have hn := hpos (n := n + 1) (by omega)
    show -(roundedNat (n + 1) : Int) ≠ 0
    omega

/-- The double of a number other than zero is not zero. -/
theorem ofInt_beq_zero {b : Int} (hfits : Fits b) (hb : b ≠ 0) : (Float.ofInt b == 0) = false := by
  have hwhole := isWhole_ofInt (a := b) (by unfold Fits at hfits; omega)
  have hzero := isWhole_ofInt (a := 0) (by decide)
  have hofInt : (0 : Float) = .ofInt 0 := rfl
  rw [hofInt]
  show ((Float.ofInt b).toModel.unpack.compare (Float.ofInt 0).toModel.unpack == some .eq) = false
  rw [compare_of_isWhole hwhole hzero]
  exact beq_false_of_ne fun h => rounded_ne_zero hb (compare_eq_iff_eq.1 (Option.some.inj h))

/-! ### Operators -/

/-- The outcome is the exact number where 64 bits hold it, and otherwise the double. -/
inductive Gives (n : Int) (x : Float) : Except EvalFault Value → Prop
  | exact (m : Int64) (value : m.toInt = n) : Gives n x (.ok (.int m))
  | double (beyond : ¬Fits n) : Gives n x (.ok (.float x))

theorem Gives.of_fits {n : Int} {x : Float} {o : Except EvalFault Value} (h : Gives n x o)
    (hn : Fits n) : ∃ m : Int64, m.toInt = n ∧ o = .ok (.int m) := by
  cases h with
  | exact m value => exact ⟨m, value, rfl⟩
  | double beyond => exact absurd hn beyond

theorem Gives.of_not_fits {n : Int} {x : Float} {o : Except EvalFault Value} (h : Gives n x o)
    (hn : ¬Fits n) : o = .ok (.float x) := by
  cases h with
  | exact m value => exact absurd (value ▸ fits_toInt m) hn
  | double => rfl

/-- What the operators of arithmetic come to on the numbers `a` and `b`. -/
structure ExactOn (a b : Int) (outcome : ArithmeticOp → Except EvalFault Value) : Prop where
  sum : Gives (a + b) (.ofInt a + .ofInt b) (outcome .add)
  difference : Gives (a - b) (.ofInt a - .ofInt b) (outcome .subtract)
  product : Gives (a * b) (.ofInt a * .ofInt b) (outcome .multiply)
  quotient : b ≠ 0 → b ∣ a → Gives (a / b) (.ofInt a / .ofInt b) (outcome .divide)
  fraction : b ≠ 0 → ¬b ∣ a → outcome .divide = .ok (.float (.ofInt a / .ofInt b))
  /-- The remainder has the sign of `a`. -/
  remainder : b ≠ 0 → ¬(a = -2 ^ 63 ∧ b = -1) →
    ∃ m : Int64, m.toInt = a.tmod b ∧ outcome .modulo = .ok (.int m)
  least : a = -2 ^ 63 → b = -1 → ∃ x : Float, (x == 0) = true ∧ outcome .modulo = .ok (.float x)
  fault (op : ArithmeticOp) (e : EvalFault) :
    outcome op = .error e ↔ op.divides = true ∧ b = 0 ∧ e = .divisionByZero

/-- The exact number, if there is one, is given by whole numbers, and else the double by
doubles. -/
def orDouble (m? : Option Int64) (x : Float) : Value :=
  match m? with
  | some m => .int m
  | none => .float x

theorem gives_int64? (n : Int) (x : Float) : Gives n x (.ok (orDouble (Decimal.int64? n) x)) := by
  by_cases h : Fits n
  · obtain ⟨m, hm, hvalue⟩ := int64?_of_fits h
    rw [hm]
    exact .exact m hvalue
  · rw [int64?_of_not_fits h]
    exact .double h

/-- An operation fails for a divisor of zero only. -/
theorem arithmetic_counts {v w : Value} {m k : Int64} (hv : whole? v = some m)
    (hw : whole? w = some k) (hv' : v.number? = some (.ofInt m.toInt))
    (hw' : w.number? = some (.ofInt k.toInt)) (op : ArithmeticOp) :
    arithmetic op v w =
      if op.divides = true ∧ k.toInt = 0 then .error .divisionByZero
      else .ok (orDouble (wholeResult? op m k) (onFloats op (.ofInt m.toInt) (.ofInt k.toInt))) := by
  have hzero : (k == 0) = true ↔ k.toInt = 0 := by
    rw [beq_iff_eq, ← Int64.toInt_inj]
    rfl
  unfold arithmetic
  rw [hv, hw]
  dsimp only
  by_cases hdivision : op.divides = true ∧ k.toInt = 0
  · rw [if_pos hdivision, if_pos (Bool.and_eq_true_iff.2 ⟨hdivision.1, hzero.2 hdivision.2⟩)]
  · have hno : ¬(op.divides && k == 0) = true := fun h =>
      hdivision ((Bool.and_eq_true_iff.1 h).imp_right hzero.1)
    rw [if_neg hdivision, if_neg hno]
    cases wholeResult? op m k with
    | some n => rfl
    | none =>
      have hno' : ¬(op.divides && Float.ofInt k.toInt == 0) = true := fun h => by
        obtain ⟨hdivides, hfloat⟩ := Bool.and_eq_true_iff.1 h
        have hk : k.toInt ≠ 0 := fun hk => hdivision ⟨hdivides, hk⟩
        rw [ofInt_beq_zero (fits_toInt k) hk] at hfloat
        cases hfloat
      unfold floatArithmetic
      rw [hv', hw']
      dsimp only
      rw [if_neg hno']
      rfl

/-- The remainder of the least number by minus one is done on doubles. It is zero. -/
theorem remainder_least : (onFloats .modulo (.ofInt (-2 ^ 63)) (.ofInt (-1)) == 0) = true := by
  decide

theorem exactOn_arithmetic {v w : Value} {a b : Int} (hv : Counts v a) (hw : Counts w b) :
    ExactOn a b fun op => arithmetic op v w := by
  have hv' := hv.number?
  have hw' := hw.number?
  obtain ⟨m, hm, rfl⟩ := hv.whole?
  obtain ⟨k, hk, rfl⟩ := hw.whole?
  have hrun := arithmetic_counts hm hk hv' hw'
  have hok {op : ArithmeticOp} (h : ¬(op.divides = true ∧ k.toInt = 0)) :
      arithmetic op v w = .ok (orDouble (wholeResult? op m k)
        (onFloats op (.ofInt m.toInt) (.ofInt k.toInt))) := by
    rw [hrun, if_neg h]
  constructor
  case sum =>
    rw [hok (by simp [ArithmeticOp.divides])]
    exact gives_int64? _ _
  case difference =>
    rw [hok (by simp [ArithmeticOp.divides])]
    exact gives_int64? _ _
  case product =>
    rw [hok (by simp [ArithmeticOp.divides])]
    exact gives_int64? _ _
  case quotient =>
    intro hb hdvd
    have hresult : wholeResult? .divide m k = Decimal.int64? (m.toInt / k.toInt) := by
      unfold wholeResult? exactResult?
      dsimp only
      rw [if_pos (Int.dvd_iff_tmod_eq_zero.1 hdvd), Int.tdiv_eq_ediv_of_dvd hdvd]
      rfl
    rw [hok fun h => hb h.2, hresult]
    exact gives_int64? _ _
  case fraction =>
    intro hb hdvd
    have hresult : wholeResult? .divide m k = none := by
      unfold wholeResult? exactResult?
      dsimp only
      rw [if_neg fun h => hdvd (Int.dvd_iff_tmod_eq_zero.2 h)]
      rfl
    rw [hok fun h => hb h.2, hresult]
    rfl
  case remainder =>
    intro hb hcorner
    obtain ⟨q, hq, -⟩ := int64?_of_fits (fits_tdiv (fits_toInt m) hb hcorner)
    obtain ⟨r, hr, hvalue⟩ := int64?_of_fits (fits_tmod (b := k.toInt) (fits_toInt m))
    have hresult : wholeResult? .modulo m k = some r := by
      unfold wholeResult?
      dsimp only
      rw [hq, hr]
      rfl
    rw [hok fun h => hb h.2, hresult]
    exact ⟨r, hvalue, rfl⟩
  case least =>
    intro ha hb
    have hresult : wholeResult? .modulo m k = none := by
      unfold wholeResult?
      dsimp only
      rw [ha, hb]
      rfl
    rw [hok (by rw [hb]; decide), hresult, ha, hb]
    exact ⟨_, remainder_least, rfl⟩
  case fault =>
    intro op e
    rw [hrun]
    split
    · next h => simp [h, eq_comm]
    · next h => exact iff_of_false nofun fun hfault => h ⟨hfault.1, hfault.2.1⟩

/-- The negative of a number leaves the 64 bits for the least one only. -/
theorem gives_negate {v : Value} {a : Int} (h : Counts v a) :
    Gives (-a) (-.ofInt a) (applyUnary .negate v) := by
  obtain ⟨m, hm, rfl⟩ := h.toNumber
  have hvalue : negateNumber (.int m) = orDouble (Decimal.int64? (-m.toInt)) (-.ofInt m.toInt) := by
    rw [negateNumber]
    cases Decimal.int64? (-m.toInt) <;> rfl
  rw [applyUnary, hm]
  show Gives _ _ (.ok (negateNumber (.int m)))
  rw [hvalue]
  exact gives_int64? _ _

/-! ### Expressions -/

/-- **Arithmetic on whole numbers is exact, or done on doubles.** Let two expressions come to
nothing, truth values or whole numbers, and count as `a` and `b`. The five operators then come to
what `ExactOn` says, and the negative of the first is exact if 64 bits hold it, and else a
double. -/
theorem exactOn_eval {vars : String → Value} {l r : Expr} {v w : Value} {a b : Int}
    (hl : eval vars l = .ok v) (hr : eval vars r = .ok w) (hv : Counts v a) (hw : Counts w b) :
    (ExactOn a b fun op => eval vars (.binary (.arithmetic op) l r)) ∧
      Gives (-a) (-.ofInt a) (eval vars (.unary .negate l)) := by
  have hbinary (op : ArithmeticOp) :
      eval vars (.binary (.arithmetic op) l r) = arithmetic op v w := by
    rw [eval, hl, hr]
    cases op with
    | add => exact hv.add hw
    | _ => rfl
  have hunary : eval vars (.unary .negate l) = applyUnary .negate v := by
    rw [eval, hl]
    rfl
  simp only [hbinary, hunary]
  exact ⟨exactOn_arithmetic hv hw, gives_negate hv⟩

/-- The least number by minus one: the quotient is a double, and so is the remainder, though it
is zero. The number itself has no negative of 64 bits. -/
theorem exactOn_eval_least :
    let vars : String → Value := fun _ => .null
    let l : Expr := .literal (.int Int64.minValue)
    let r : Expr := .unary .negate (.literal (.bool true))
    eval vars l = .ok (.int Int64.minValue) ∧ eval vars r = .ok (.int (-1)) ∧
      Counts (.int Int64.minValue) (-2 ^ 63) ∧ Counts (.int (-1)) (-1) ∧
      eval vars (.binary (.arithmetic .divide) l r) =
        .ok (.float (.ofInt (-2 ^ 63) / .ofInt (-1))) ∧
      (∃ x : Float, (x == 0) = true ∧
        eval vars (.binary (.arithmetic .modulo) l r) = .ok (.float x)) ∧
      eval vars (.unary .negate l) = .ok (.float (-.ofInt (-2 ^ 63))) := by
  intro vars l r
  have hl : eval vars l = .ok (.int Int64.minValue) := rfl
  have hr : eval vars r = .ok (.int (-1)) := rfl
  have hv : Counts (.int Int64.minValue) (-2 ^ 63) := .int Int64.minValue
  have hw : Counts (.int (-1)) (-1) := .int (-1)
  obtain ⟨hall, hnegate⟩ := exactOn_eval hl hr hv hw
  have hbeyond : ¬Fits (2 ^ 63) := by
    unfold Fits
    omega
  refine ⟨hl, hr, hv, hw, ?_, hall.least rfl rfl, hnegate.of_not_fits hbeyond⟩
  exact (hall.quotient (by decide) (by decide)).of_not_fits hbeyond

end Trellis.Expr
