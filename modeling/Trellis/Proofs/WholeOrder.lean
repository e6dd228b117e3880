import Trellis.Proofs.Mirroring
import Trellis.Proofs.NearestDouble

/-!
# `Trellis.Proofs.WholeOrder`: the order of whole numbers

Comparisons work on doubles, also when both sides are whole numbers of 64 bits, for which a
double has not digits enough. So what is compared are the two numbers rounded to 53 digits
(`compare?_int`). Rounding never turns two numbers round, but it may make them equal. Then none of
`<`, `==` and `>` holds between them, since `==` compares all digits.
-/

set_option autoImplicit false

namespace Trellis.Expr

/-- The two numbers are equal, or different even when rounded. -/
def ToldApart (a b : Int64) : Prop := a = b ∨ rounded a.toInt ≠ rounded b.toInt

/-- Up to `2 ^ 53` on either side of zero, all numbers are told apart. -/
theorem toldApart_of_natAbs_le {a b : Int64} (ha : a.toInt.natAbs ≤ 2 ^ 53)
    (hb : b.toInt.natAbs ≤ 2 ^ 53) : ToldApart a b := by
  unfold ToldApart
  rw [rounded_of_natAbs_le ha, rounded_of_natAbs_le hb]
  exact (em (a = b)).imp_right fun hne h => hne (Int64.toInt_inj.1 h)

theorem isWhole_nearest (a : Int64) :
    IsWhole (Value.nearest a).toModel.unpack (rounded a.toInt) := by
  have hlow := a.le_toInt
  have hhigh := a.toInt_lt
  exact isWhole_ofInt (by omega)

/-- Two whole numbers are compared after rounding. -/
theorem compare?_int (a b : Int64) :
    compare? (.int a) (.int b) = some (compare (rounded a.toInt) (rounded b.toInt)) := by
  show some (compareFloats (Value.nearest a) (Value.nearest b)) = _
  rw [compareFloats_eq, compare_of_isWhole (isWhole_nearest a) (isWhole_nearest b)]
  rfl

/-- Rounding leaves the order of two numbers as it is, unless it makes them equal. -/
theorem compare_rounded_iff (a b : Int64) :
    compare (rounded a.toInt) (rounded b.toInt) = compare a.toInt b.toInt ↔ ToldApart a b := by
  unfold ToldApart
  rcases Int.lt_trichotomy a.toInt b.toInt with h | h | h
  · have hle := rounded_mono h.le
    have hne : a ≠ b := fun heq => h.ne (congrArg Int64.toInt heq)
    rw [compare_lt_iff_lt.2 h, compare_lt_iff_lt, or_iff_right hne]
    exact ⟨ne_of_lt, hle.lt_of_ne⟩
  · rw [h]
    exact iff_of_true ((compare_eq_iff_eq.2 rfl).trans (compare_eq_iff_eq.2 rfl).symm)
      (.inl (Int64.toInt_inj.1 h))
  · have hle := rounded_mono h.le
    have hne : a ≠ b := fun heq => h.ne' (congrArg Int64.toInt heq)
    rw [compare_gt_iff_gt.2 h, compare_gt_iff_gt, or_iff_right hne]
    exact ⟨fun hgt => hgt.ne', fun hne => hle.lt_of_ne hne.symm⟩

/-- The four comparisons together tell the order. -/
theorem Comparison.holds_ext_iff (o o' : Ordering) :
    (∀ c : Comparison, c.holds o = c.holds o') ↔ o = o' := by
  constructor
  · intro h
    have hless := h .less
    have hgreater := h .greater
    cases o <;> cases o' <;> trivial
  · rintro rfl _
    rfl

/-- Just one of the three. -/
def ExactlyOne (p q r : Prop) : Prop := p ∧ ¬q ∧ ¬r ∨ ¬p ∧ q ∧ ¬r ∨ ¬p ∧ ¬q ∧ r

/-- Between two numbers that are not told apart, none of the three holds. -/
theorem exactlyOne_iff (a b : Int64) :
    ExactlyOne (Comparison.less.holds (compare (rounded a.toInt) (rounded b.toInt)) = true) (a = b)
      (Comparison.greater.holds (compare (rounded a.toInt) (rounded b.toInt)) = true) ↔
    ToldApart a b := by
  unfold ToldApart
  by_cases hab : a = b
  · subst hab
    rw [compare_eq_iff_eq.2 rfl]
    simp [ExactlyOne, Comparison.holds]
  · rcases Int.lt_trichotomy (rounded a.toInt) (rounded b.toInt) with h | h | h
    · rw [compare_lt_iff_lt.2 h]
      simp [ExactlyOne, Comparison.holds, hab, h.ne]
    · rw [compare_eq_iff_eq.2 h]
      simp [ExactlyOne, Comparison.holds, hab, h]
    · rw [compare_gt_iff_gt.2 h]
      simp [ExactlyOne, Comparison.holds, hab, h.ne']

/-- **Whole numbers are compared after rounding to 53 digits.** All four comparisons succeed. They
say what is so of the numbers themselves exactly if these are equal, or different even when
rounded. This is also when just one of `<`, `==` and `>` holds. -/
theorem eval_order_int {vars : String → Value} {l r : Expr} {a b : Int64}
    (hl : eval vars l = .ok (.int a)) (hr : eval vars r = .ok (.int b)) :
    (∀ c : Comparison, eval vars (.binary (.order c) l r) =
        .ok (.bool (c.holds (compare (rounded a.toInt) (rounded b.toInt))))) ∧
      ((∀ c : Comparison, eval vars (.binary (.order c) l r) =
        .ok (.bool (c.holds (compare a.toInt b.toInt)))) ↔ ToldApart a b) ∧
      (ExactlyOne (eval vars (.binary (.order .less) l r) = .ok (.bool true))
        (eval vars (.binary .equal l r) = .ok (.bool true))
        (eval vars (.binary (.order .greater) l r) = .ok (.bool true)) ↔ ToldApart a b) := by
  have horder (c : Comparison) : eval vars (.binary (.order c) l r) =
      .ok (.bool (c.holds (compare (rounded a.toInt) (rounded b.toInt)))) := by
    rw [eval_order hl hr, compareValues, compare?_int]
  have hequal : eval vars (.binary .equal l r) = .ok (.bool (a == b)) := by
    rw [eval, hl, hr]
    rfl
  refine ⟨horder, ?_, ?_⟩
  · simp only [horder, Except.ok.injEq, Value.bool.injEq]
    rw [Comparison.holds_ext_iff, compare_rounded_iff]
  · simp only [horder, hequal, Except.ok.injEq, Value.bool.injEq, beq_iff_eq]
    exact exactlyOne_iff a b

/-- The whole number `2 ^ 53`, with 53 zeros behind its first digit. -/
def evenNeighbour : Expr := .literal (.int 9007199254740992)

/-- The next number, which has 54 digits. -/
def oddNeighbour : Expr := .literal (.int 9007199254740993)

theorem eval_order_int_neighbours :
    eval (fun _ => .null) evenNeighbour = .ok (.int 9007199254740992) ∧
      eval (fun _ => .null) oddNeighbour = .ok (.int 9007199254740993) ∧
      ¬ToldApart 9007199254740992 9007199254740993 ∧
      ¬ExactlyOne
        (eval (fun _ => .null) (.binary (.order .less) evenNeighbour oddNeighbour) =
          .ok (.bool true))
        (eval (fun _ => .null) (.binary .equal evenNeighbour oddNeighbour) = .ok (.bool true))
        (eval (fun _ => .null) (.binary (.order .greater) evenNeighbour oddNeighbour) =
          .ok (.bool true)) := by
  have hl : eval (fun _ => .null) evenNeighbour = .ok (.int 9007199254740992) := rfl
  have hr : eval (fun _ => .null) oddNeighbour = .ok (.int 9007199254740993) := rfl
  have hnot : ¬ToldApart 9007199254740992 9007199254740993 := by
    unfold ToldApart
    decide
  exact ⟨hl, hr, hnot, fun hone => hnot ((eval_order_int hl hr).2.2.1 hone)⟩

/-- The comparison says that `2 ^ 53` is not less than the next number. -/
theorem not_less_neighbours :
    (9007199254740992 : Int64) < 9007199254740993 ∧
      eval (fun _ => .null) (.binary (.order .less) evenNeighbour oddNeighbour) =
        .ok (.bool false) := by
  have hsame : compare (rounded (9007199254740992 : Int64).toInt)
      (rounded (9007199254740993 : Int64).toInt) = .eq := by decide
  refine ⟨by decide, ?_⟩
  rw [evenNeighbour, oddNeighbour, eval_order rfl rfl, compareValues, compare?_int, hsame]
  rfl

end Trellis.Expr
