import Mathlib
import Trellis.Expr.Eval
import Trellis.Proofs.DoubleOrder

/-!
# `Trellis.Proofs.Mirroring`: comparisons seen from both sides

Exchanging the operands of a comparison and turning its sign round should not change what comes
out: `v < w` and `w > v` say the same. For texts, and for numbers that have an order, it does not
(`compare?_swap`). Where one of the two numbers is a double that is no number, there is no order,
and the left operand counts as the greater one. So then each operand is greater than the other,
depending on where it stands (`compare?_of_unordered`).

`eval_order_mirror` states both for expressions with any values.
-/

set_option autoImplicit false

namespace Trellis.Expr

/-- The comparison that says the same with its operands exchanged. -/
def Comparison.mirror : Comparison → Comparison
  | .less => .greater
  | .lessEqual => .greaterEqual
  | .greater => .less
  | .greaterEqual => .lessEqual

@[simp] theorem Comparison.mirror_holds_swap (c : Comparison) (o : Ordering) :
    c.mirror.holds o.swap = c.holds o := by
  cases c <;> cases o <;> rfl

/-- The two values are compared as numbers, one of which is no number. -/
def Unordered (v w : Value) : Prop :=
  ∃ x y, v.number? = some x ∧ w.number? = some y ∧ (x.isNaN = true ∨ y.isNaN = true)

/-! ### The order of two values -/

/-- How two values are compared, from both sides. -/
inductive Compared (v w : Value) : Prop
  | asTexts (s t : String) (h : compare? v w = some (compareTexts s t))
    (h' : compare? w v = some (compareTexts t s)) (hno : v.number? = none ∨ w.number? = none)
  | asNumbers {x y : Float} (hv : v.number? = some x) (hw : w.number? = some y)
    (h : compare? v w = some (compareFloats x y)) (h' : compare? w v = some (compareFloats y x))
  | notAtAll (h : compare? v w = none) (h' : compare? w v = none)
    (hno : v.number? = none ∨ w.number? = none)

theorem compared (v w : Value) : Compared v w := by
  cases v with
  | str s => cases w with
    | str t => exact .asTexts s t rfl rfl (.inl rfl)
    | null => exact .asTexts s "" rfl rfl (.inl rfl)
    | _ => exact .notAtAll rfl rfl (.inl rfl)
  | null => cases w with
    | str t => exact .asTexts "" t rfl rfl (.inr rfl)
    | list | map => exact .notAtAll rfl rfl (.inr rfl)
    | _ => exact .asNumbers rfl rfl rfl rfl
  | list | map => cases w <;> exact .notAtAll rfl rfl (.inl rfl)
  | _ => cases w with
    | str | list | map => exact .notAtAll rfl rfl (.inr rfl)
    | _ => exact .asNumbers rfl rfl rfl rfl

theorem compareTexts_swap (s t : String) : compareTexts t s = (compareTexts s t).swap := by
  unfold compareTexts
  rcases lt_trichotomy s t with h | rfl | h
  · rw [if_pos h, if_neg h.asymm, if_neg h.ne']
    rfl
  · rw [if_neg (lt_irrefl s), if_pos rfl]
    rfl
  · rw [if_pos h, if_neg h.asymm, if_neg h.ne']
    rfl

/-- Exchanging two values turns their order round. -/
theorem compare?_swap {v w : Value} (h : ¬Unordered v w) :
    compare? w v = (compare? v w).map Ordering.swap := by
  cases compared v w with
  | asTexts s t hvw hwv => rw [hvw, hwv, compareTexts_swap, Option.map_some]
  | @asNumbers x y hv hw hvw hwv =>
    have hnan : ¬(x.isNaN = true ∨ y.isNaN = true) := fun hnan => h ⟨x, y, hv, hw, hnan⟩
    rw [not_or, Bool.not_eq_true, Bool.not_eq_true] at hnan
    rw [hvw, hwv, compareFloats_swap hnan.1 hnan.2, Option.map_some]
  | notAtAll hvw hwv => rw [hvw, hwv, Option.map_none]

/-- Without an order, each of the two counts as the greater one. -/
theorem compare?_of_unordered {v w : Value} (h : Unordered v w) :
    compare? v w = some .gt ∧ compare? w v = some .gt := by
  obtain ⟨x, y, hx, hy, hnan⟩ := h
  cases compared v w with
  | asTexts s t hvw hwv hno => cases hno <;> simp_all
  | asNumbers hv hw hvw hwv =>
    cases hx.symm.trans hv
    cases hy.symm.trans hw
    rw [hvw, hwv, compareFloats_of_isNaN hnan, compareFloats_of_isNaN hnan.symm]
    exact ⟨rfl, rfl⟩
  | notAtAll hvw hwv hno => cases hno <;> simp_all

/-! ### Expressions -/

/-- Both fail, or both come to the same truth value. -/
inductive SameVerdict : Except EvalFault Value → Except EvalFault Value → Prop
  | error (e e' : EvalFault) : SameVerdict (.error e) (.error e')
  | ok (b : Bool) : SameVerdict (.ok (.bool b)) (.ok (.bool b))

/-- A comparison is evaluated by comparing what its sides come to. -/
theorem eval_order {vars : String → Value} {l r : Expr} {v w : Value} (hl : eval vars l = .ok v)
    (hr : eval vars r = .ok w) (c : Comparison) :
    eval vars (.binary (.order c) l r) = compareValues c v w := by
  rw [eval, hl, hr]
  rfl

/-- Comparing says the same from both sides, exactly if there is an order. -/
theorem compareValues_mirror_iff (v w : Value) :
    (∀ c, SameVerdict (compareValues c v w) (compareValues c.mirror w v)) ↔ ¬Unordered v w := by
  constructor
  · intro h hun
    obtain ⟨hvw, hwv⟩ := compare?_of_unordered hun
    have hless := h .less
    unfold compareValues at hless
    rw [hvw, hwv] at hless
    cases hless
  · intro h c
    unfold compareValues
    rw [compare?_swap h]
    cases compare? v w with
    | none => exact .error _ _
    | some o =>
      dsimp only [Option.map_some]
      rw [Comparison.mirror_holds_swap]
      exact .ok _

/-- What it takes for a comparison to hold. -/
theorem compareValues_eq_true_iff (c : Comparison) (v w : Value) :
    compareValues c v w = .ok (.bool true) ↔ ∃ o, compare? v w = some o ∧ c.holds o = true := by
  unfold compareValues
  cases compare? v w with
  | none => simp
  | some o => simp

/-- **Comparisons mirror wherever there is an order.** `l < r` and `r > l`, and all other
comparisons with their mirrors, both fail or come to the same, exactly if not one of the two is a
double that is no number, compared with a number. `l < r` and `r < l` never both hold. `l > r` and
`r > l` both hold exactly if there is no order. -/
theorem eval_order_mirror {vars : String → Value} {l r : Expr} {v w : Value}
    (hl : eval vars l = .ok v) (hr : eval vars r = .ok w) :
    ((∀ c, SameVerdict (eval vars (.binary (.order c) l r))
        (eval vars (.binary (.order c.mirror) r l))) ↔ ¬Unordered v w) ∧
      ¬(eval vars (.binary (.order .less) l r) = .ok (.bool true) ∧
        eval vars (.binary (.order .less) r l) = .ok (.bool true)) ∧
      (eval vars (.binary (.order .greater) l r) = .ok (.bool true) ∧
        eval vars (.binary (.order .greater) r l) = .ok (.bool true) ↔ Unordered v w) := by
  simp only [eval_order hl hr, eval_order hr hl, compareValues_eq_true_iff]
  have hswap {o o' : Ordering} (hun : ¬Unordered v w) (hvw : compare? v w = some o)
      (hwv : compare? w v = some o') : o' = o.swap := by
    rw [compare?_swap hun, hvw] at hwv
    exact (Option.some.inj hwv).symm
  refine ⟨compareValues_mirror_iff v w, ?_, ?_⟩
  · rintro ⟨⟨o, hvw, ho⟩, o', hwv, ho'⟩
    have hun : ¬Unordered v w := by
      intro hun
      rw [(compare?_of_unordered hun).1] at hvw
      cases hvw
      cases ho
    cases hswap hun hvw hwv
    cases o <;> cases ho
    cases ho'
  · constructor
    · rintro ⟨⟨o, hvw, ho⟩, o', hwv, ho'⟩
      by_contra hun
      cases hswap hun hvw hwv
      cases o <;> cases ho
      cases ho'
    · intro hun
      obtain ⟨hvw, hwv⟩ := compare?_of_unordered hun
      exact ⟨⟨_, hvw, rfl⟩, _, hwv, rfl⟩

/-- What `number('x')` is read as. It comes to the double that is no number. -/
def numberOfX : Expr := .call (.variable "number") [.literal (.str "x")]

theorem eval_numberOfX (vars : String → Value) :
    eval vars numberOfX = .ok (.float Decimal.Double.nan.toFloat) := by
  cbv

theorem eval_order_mirror_numberOfX :
    eval (fun _ => .null) numberOfX = .ok (.float Decimal.Double.nan.toFloat) ∧
      eval (fun _ => .null) (.literal (.int 1)) = .ok (.int 1) ∧
      Unordered (.float Decimal.Double.nan.toFloat) (.int 1) ∧
      eval (fun _ => .null) (.binary (.order .greater) numberOfX (.literal (.int 1))) =
        .ok (.bool true) ∧
      eval (fun _ => .null) (.binary (.order .greater) (.literal (.int 1)) numberOfX) =
        .ok (.bool true) := by
  have hx := eval_numberOfX fun _ => .null
  have hone : eval (fun _ => .null) (.literal (.int 1)) = .ok (.int 1) := rfl
  have hun : Unordered (.float Decimal.Double.nan.toFloat) (.int 1) :=
    ⟨_, _, rfl, rfl, .inl (by decide)⟩
  obtain ⟨-, -, hboth⟩ := eval_order_mirror hx hone
  exact ⟨hx, hone, hun, hboth.2 hun⟩

/-- `number('x') < 1` does not hold, and `1 > number('x')` does. -/
theorem not_mirrored_numberOfX :
    ¬SameVerdict
      (eval (fun _ => .null) (.binary (.order .less) numberOfX (.literal (.int 1))))
      (eval (fun _ => .null) (.binary (.order .greater) (.literal (.int 1)) numberOfX)) := by
  have hx := eval_numberOfX fun _ => .null
  have hless : compareValues .less (.float Decimal.Double.nan.toFloat) (.int 1) =
      .ok (.bool false) := by
    unfold compareValues
    rw [(compare?_of_unordered ⟨_, _, rfl, rfl, .inl (by decide)⟩).1]
    rfl
  have hgreater : compareValues .greater (.int 1) (.float Decimal.Double.nan.toFloat) =
      .ok (.bool true) := by
    unfold compareValues
    rw [(compare?_of_unordered ⟨_, _, rfl, rfl, .inr (by decide)⟩).1]
    rfl
  rw [eval_order hx rfl, eval_order rfl hx, hless, hgreater]
  exact nofun

end Trellis.Expr
