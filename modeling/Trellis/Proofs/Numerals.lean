import Trellis.Proofs.Leading
import Trellis.Proofs.Lists
import Trellis.Proofs.WholeArithmetic

/-!
# `Trellis.Proofs.Numerals`: whole numbers and their texts

The text of a whole number can be read in two ways. The function `number` takes sign and digits
together, and gives back every number of 64 bits (`readInt?_intText`). In an expression, the digits
are a token of their own, and a minus in front is an operator (`read_minus_toDigits`). The digits
of the least number have a value that 64 bits do not hold, so they are read as a double, and its
negative is a double as well.

`eval_intText` states both for all numbers: the two ways agree, but for the least number.
-/

set_option autoImplicit false

namespace Trellis.Expr

open Text

/-- Below zero, a number is written as a minus and the digits of its distance from zero. -/
theorem intText_of_neg {i : Int64} (h : i.toInt < 0) :
    (Value.intText i).toList = '-' :: Nat.toDigits 10 i.toInt.natAbs := by
  obtain ⟨n, hn⟩ := Int.eq_negSucc_of_lt_zero h
  rw [Value.intText, hn]
  show ("-" ++ toString (n + 1)).toList = _
  rw [String.toList_append]
  exact congrArg ('-' :: ·) String.toList_ofList

/-! ### As an expression -/

/-- What the digits of a number are by themselves. -/
def digitsLiteral (n : Nat) : Value := orDouble (Decimal.int64? n) (Decimal.nearest n 0)

theorem atom?_toDigits (n : Nat) :
    (readNumber.ofWhole (Nat.toDigits 10 n)).atom? = some (.literal (digitsLiteral n)) := by
  unfold readNumber.ofWhole digitsLiteral
  rw [digitsValue_toDigits]
  cases Decimal.int64? (n : Int) <;> rfl

theorem ofToken?_toDigits (n : Nat) :
    UnaryOp.ofToken? (readNumber.ofWhole (Nat.toDigits 10 n)) = none := by
  unfold readNumber.ofWhole
  split <;> rfl

theorem read_toDigits (n : Nat) : read (Nat.toDigits 10 n) = .ok (.literal (digitsLiteral n)) :=
  read_of_leads (ofToken?_toDigits n) (atom?_toDigits n) (leads_toDigits n endsNumber_nil)

/-- A minus is an operator, also in front of digits. -/
theorem read_minus_toDigits (n : Nat) :
    read ('-' :: Nat.toDigits 10 n) = .ok (.unary .negate (.literal (digitsLiteral n))) := by
  have hlexes := (leads_minus _).lexes (leads_toDigits n endsNumber_nil).lexes_singleton
  refine read_eq_ok_iff_lexes.2 ⟨_, hlexes, ?_⟩
  have hoperand : Derives .unary [readNumber.ofWhole (Nat.toDigits 10 n)]
      (.literal (digitsLiteral n)) [] := by
    refine .simple (fun t ht => ?_) (.atom (atom?_toDigits n)) (.noAccess nofun)
    cases ht
    exact ofToken?_toDigits n
  exact .plain (.operators (.unary rfl hoperand) (.noOperand nofun)) nofun

/-- The distance of the least number from zero, as a double. -/
theorem digitsLiteral_least : digitsLiteral (2 ^ 63) = .float (.ofInt (2 ^ 63)) := by
  rfl

/-- Below zero, a number is the negative of its distance from zero, if 64 bits hold that. -/
theorem eval_minus_toDigits {i : Int64} (h : i.toInt < 0) (vars : String → Value) :
    eval vars (.unary .negate (.literal (digitsLiteral i.toInt.natAbs))) =
      .ok (if i = Int64.minValue then .float (Value.nearest i) else .int i) := by
  have hlow := i.le_toInt
  show applyUnary .negate (digitsLiteral i.toInt.natAbs) = _
  split
  · next hleast =>
    subst hleast
    show applyUnary .negate (digitsLiteral (2 ^ 63)) = _
    rw [digitsLiteral_least]
    rfl
  · next hleast =>
    have hmin : i.toInt ≠ -2 ^ 63 := fun hmin => hleast (Int64.toInt_inj.1 hmin)
    obtain ⟨k, hk, hvalue⟩ := int64?_of_fits (n := (i.toInt.natAbs : Int)) (by unfold Fits; omega)
    have hgives := gives_negate (.int k)
    obtain ⟨m, hm, hresult⟩ := hgives.of_fits (by unfold Fits; omega)
    have hmi : m = i := Int64.toInt_inj.1 (by omega)
    rw [digitsLiteral, hk]
    rw [hmi] at hresult
    exact hresult

/-! ### By conversion -/

/-- The digits of a number, with a sign or without, are read as the number. -/
theorem readInt?_intText (i : Int64) : Decimal.readInt? (Value.intText i).toList = some i := by
  have hdigits (n : Nat) : (Nat.toDigits 10 n).isEmpty = false ∧
      (Nat.toDigits 10 n).all Char.isDigit = true :=
    ⟨List.isEmpty_eq_false_iff.2 Nat.toDigits_ne_nil, List.all_eq_true.2 isDigit_toDigits⟩
  rcases lt_or_ge i.toInt 0 with h | h
  · obtain ⟨hempty, hall⟩ := hdigits i.toInt.natAbs
    have hvalue : -(i.toInt.natAbs : Int) = i.toInt := by omega
    rw [intText_of_neg h]
    unfold Decimal.readInt? Decimal.signed
    simp only [hempty, hall, digitsValue_toDigits, hvalue, int64?_toInt, Bool.not_true,
      Bool.or_self, Bool.false_eq_true, if_false, if_true]
  · obtain ⟨hempty, hall⟩ := hdigits i.toInt.toNat
    have hvalue : (i.toInt.toNat : Int) = i.toInt := Int.toNat_of_nonneg h
    have hsigned : Decimal.signed (Nat.toDigits 10 i.toInt.toNat) =
        (false, Nat.toDigits 10 i.toInt.toNat) := by
      have hhead := headIs_toDigits i.toInt.toNat
      unfold Decimal.signed
      split
      · next hds =>
        rw [hds] at hhead
        cases hhead
      · next hds =>
        rw [hds] at hhead
        cases hhead
      · rfl
    rw [intText_of_nonneg (Int64.le_iff_toInt_le.2 h)]
    unfold Decimal.readInt?
    simp only [hsigned, hempty, hall, digitsValue_toDigits, hvalue, int64?_toInt, Bool.not_true,
      Bool.or_self, Bool.false_eq_true, if_false]

/-- There is no blank in the text of a number. -/
theorem isBlank_intText (i : Int64) : ∀ c ∈ (Value.intText i).toList, isBlank c = false := by
  have hdigits (n : Nat) : ∀ c ∈ Nat.toDigits 10 n, isBlank c = false :=
    fun c hc => isBlank_of_isDigit (isDigit_toDigits c hc)
  rcases lt_or_ge i.toInt 0 with h | h
  · rw [intText_of_neg h]
    exact List.forall_mem_cons.2 ⟨rfl, hdigits _⟩
  · rw [intText_of_nonneg (Int64.le_iff_toInt_le.2 h)]
    exact hdigits _

theorem numberOfText_intText (i : Int64) : numberOfText (Value.intText i) = .int i := by
  unfold numberOfText
  rw [Source.trim_of_ink (isBlank_intText i)]
  dsimp only
  rw [readInt?_intText]

/-! ### Both ways -/

/-- **The text of a whole number is read as the number, but for the least one.** In an expression,
the text of the least number comes to the nearest double. The function `number` gives back all
numbers. -/
theorem eval_intText (i : Int64) :
    (∃ e, read (Value.int i).text.toList = .ok e ∧ ∀ vars, eval vars e =
        .ok (if i = Int64.minValue then .float (Value.nearest i) else .int i)) ∧
      ∀ vars, eval vars (.call (.variable "number") [.literal (.str (Value.int i).text)]) =
        .ok (.int i) := by
  constructor
  · show ∃ e, read (Value.intText i).toList = .ok e ∧ _
    rcases lt_or_ge i.toInt 0 with h | h
    · rw [intText_of_neg h]
      exact ⟨_, read_minus_toDigits _, eval_minus_toDigits h⟩
    · have hvalue : (i.toInt.toNat : Int) = i.toInt := Int.toNat_of_nonneg h
      have hleast : i ≠ Int64.minValue := by
        rintro rfl
        exact absurd h (by decide)
      have hliteral : digitsLiteral i.toInt.toNat = .int i := by
        rw [digitsLiteral, hvalue, int64?_toInt]
        rfl
      rw [intText_of_nonneg (Int64.le_iff_toInt_le.2 h), if_neg hleast]
      exact ⟨_, read_toDigits _, fun vars => congrArg Except.ok hliteral⟩
  · intro vars
    exact congrArg Except.ok (numberOfText_intText i)

/-- The least number is not what its text comes to. -/
theorem eval_intText_least :
    ∃ e, read (Value.int Int64.minValue).text.toList = .ok e ∧
      eval (fun _ => .null) e ≠ .ok (.int Int64.minValue) := by
  have hneg : Int64.minValue.toInt < 0 := by decide
  have heval := eval_minus_toDigits hneg fun _ => .null
  rw [if_pos rfl] at heval
  show ∃ e, read (Value.intText Int64.minValue).toList = .ok e ∧ _
  rw [intText_of_neg hneg]
  refine ⟨_, read_minus_toDigits _, fun h => ?_⟩
  cases heval.symm.trans h

end Trellis.Expr
