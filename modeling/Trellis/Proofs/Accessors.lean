import Mathlib.Data.List.Chain
import Trellis.Proofs.Leading

/-!
# `Trellis.Proofs.Accessors`: chains of names and places

What is inside a value is reached step by step, by the name of a member or by the place of an item
(`Accessor`). A place can be written in brackets, `x[0]`, or like a name behind a point, `x.0`. One
should be as good as the other, and for a single place it is.

Two places in a row are another matter. The tokens are found before the grammar is asked, and
digits with a point and digits behind them are one token, a double: the tokens of `x.0.1` are `x`,
a point and `0.1`. Behind a point, a double is an error. So `read_chain` says that a chain in
points is read like the one in brackets exactly if no two places in it stand side by side
(`Apart`).
-/

set_option autoImplicit false

namespace Trellis.Expr

open Text Source

/-- One step into a value. -/
inductive Accessor where
  | name (w : String) (isWord : isWord w = true)
  | place (n : Int64) (nonneg : 0 ≤ n)

namespace Accessor

/-- The step behind a point. -/
def dotted : Accessor → List Char
  | .name w _ => '.' :: w.toList
  | .place n _ => '.' :: (Value.intText n).toList

/-- The step as a name behind a point, or as a place in brackets. -/
def bracketed : Accessor → List Char
  | .name w _ => '.' :: w.toList
  | .place n _ => '[' :: ((Value.intText n).toList ++ [']'])

def dottedTokens : Accessor → List Token
  | .name w _ => [.mark .dot, .word w]
  | .place n _ => [.mark .dot, .int n]

def bracketedTokens : Accessor → List Token
  | .name w _ => [.mark .dot, .word w]
  | .place n _ => [.mark .openBracket, .int n, .mark .closeBracket]

/-- What the step makes of a target. -/
def reach (target : Expr) : Accessor → Expr
  | .name w _ => .member target w
  | .place n _ => .item target (.literal (.int n))

def isPlace : Accessor → Bool
  | .name .. => false
  | .place .. => true

end Accessor

/-- No two places stand side by side. -/
def Apart (steps : List Accessor) : Prop :=
  steps.IsChain fun a b => a.isPlace = true → b.isPlace = false

theorem apart_cons {a : Accessor} {steps : List Accessor} :
    Apart (a :: steps) ↔
      (∀ b ∈ steps.head?, a.isPlace = true → b.isPlace = false) ∧ Apart steps :=
  List.isChain_cons

/-- The tree of a chain of steps from a variable. -/
def chainTree (x : String) (steps : List Accessor) : Expr :=
  steps.foldl Accessor.reach (.variable x)

/-! ### Where a step ends -/

section
variable {steps : List Accessor}

/-- A step begins with a point or with a bracket. -/
theorem headIs_dotted {p : Char → Bool} (hpoint : p '.' = false) (steps : List Accessor) :
    headIs p (steps.flatMap Accessor.dotted) = false := by
  cases steps with
  | nil => rfl
  | cons a steps => cases a <;> exact hpoint

theorem headIs_bracketed {p : Char → Bool} (hpoint : p '.' = false) (hbracket : p '[' = false)
    (steps : List Accessor) : headIs p (steps.flatMap Accessor.bracketed) = false := by
  cases steps with
  | nil => rfl
  | cons a steps =>
    cases a with
    | name => exact hpoint
    | place => exact hbracket

theorem headIs_append_of_isWord {p : Char → Bool} {w : String} (h : isWord w = true)
    (hp : ∀ c, isWordStart c = true → p c = false) (bs : List Char) :
    headIs p (w.toList ++ bs) = false := by
  rw [isWord, Bool.and_eq_true] at h
  cases hw : w.toList with
  | nil =>
    rw [hw] at h
    cases h.1
  | cons c cs =>
    rw [hw] at h
    exact hp c h.1

/-- A character of a kind is no point, if points are not of that kind. -/
theorem beq_dot_eq_false {p : Char → Bool} (hpoint : p '.' = false) (c : Char) (h : p c = true) :
    (c == '.') = false := by
  refine eq_false_of_ne_true fun hdot => ?_
  rw [eq_of_beq hdot, hpoint] at h
  cases h

theorem headIs_intText {n : Int64} (nonneg : 0 ≤ n) {p : Char → Bool}
    (hp : ∀ c, c.isDigit = true → p c = false) (bs : List Char) :
    headIs p ((Value.intText n).toList ++ bs) = false := by
  have hhead := headIs_toDigits n.toInt.toNat
  rw [intText_of_nonneg nonneg]
  cases hds : Nat.toDigits 10 n.toInt.toNat with
  | nil => exact absurd hds Nat.toDigits_ne_nil
  | cons c cs =>
    rw [hds] at hhead
    exact hp c hhead

/-- Behind a point, neither a name nor a place begins with another point. -/
theorem leads_dot_word {w : String} (h : isWord w = true) (bs : List Char) :
    (Token.mark .dot).Leads ['.'] (w.toList ++ bs) :=
  leads_dot (headIs_append_of_isWord h (beq_dot_eq_false rfl) bs)

theorem leads_dot_intText {n : Int64} (nonneg : 0 ≤ n) (bs : List Char) :
    (Token.mark .dot).Leads ['.'] ((Value.intText n).toList ++ bs) :=
  leads_dot (headIs_intText nonneg (beq_dot_eq_false rfl) bs)

/-- Digits end before a step to a name. -/
theorem endsNumber_dotted (h : ∀ b ∈ steps.head?, b.isPlace = false) :
    EndsNumber (steps.flatMap Accessor.dotted) := by
  refine ⟨headIs_dotted rfl steps, fun rest hrest => ?_⟩
  cases steps with
  | nil => cases hrest
  | cons a steps =>
    cases a with
    | name w isWord =>
      obtain rfl : w.toList ++ steps.flatMap Accessor.dotted = rest := (List.cons.inj hrest).2
      exact headIs_append_of_isWord isWord (fun _ => isDigit_of_isWordStart) _
    | place => cases h _ rfl

theorem endsNumber_closeBracket (bs : List Char) : EndsNumber (']' :: bs) := ⟨rfl, nofun⟩

/-! ### Chains that are read -/

theorem lexes_bracketed (steps : List Accessor) :
    Lexes (steps.flatMap Accessor.bracketed) (steps.flatMap Accessor.bracketedTokens) := by
  induction steps with
  | nil => exact .nil
  | cons a steps ih =>
    cases a with
    | name w isWord =>
      exact (leads_dot_word isWord _).lexes
        ((leads_word isWord (headIs_bracketed rfl rfl steps)).lexes ih)
    | place n nonneg =>
      have hclose := (leads_closeBracket _).lexes ih
      have hdigits := (leads_int nonneg (endsNumber_closeBracket _)).lexes hclose
      have hopen := (leads_openBracket _).lexes hdigits
      rw [List.flatMap_cons, Accessor.bracketed, List.cons_append, List.append_assoc]
      exact hopen

theorem lexes_dotted (h : Apart steps) :
    Lexes (steps.flatMap Accessor.dotted) (steps.flatMap Accessor.dottedTokens) := by
  induction steps with
  | nil => exact .nil
  | cons a steps ih =>
    obtain ⟨hnext, hsteps⟩ := apart_cons.1 h
    cases a with
    | name w isWord =>
      exact (leads_dot_word isWord _).lexes
        ((leads_word isWord (headIs_dotted rfl steps)).lexes (ih hsteps))
    | place n nonneg =>
      have hends := endsNumber_dotted fun b hb => hnext b hb rfl
      exact (leads_dot_intText nonneg _).lexes ((leads_int nonneg hends).lexes (ih hsteps))

theorem derives_dotted (steps : List Accessor) (target : Expr) :
    Derives (.access target) (steps.flatMap Accessor.dottedTokens)
      (steps.foldl Accessor.reach target) [] := by
  induction steps generalizing target with
  | nil => exact .noAccess nofun
  | cons a steps ih =>
    cases a with
    | name => exact .member (ih _)
    | place => exact .place (ih _)

/-- In brackets, a place is an expression by itself. -/
theorem derives_bracketed (steps : List Accessor) (target : Expr) :
    Derives (.access target) (steps.flatMap Accessor.bracketedTokens)
      (steps.foldl Accessor.reach target) [] := by
  induction steps generalizing target with
  | nil => exact .noAccess nofun
  | cons a steps ih =>
    cases a with
    | name => exact .member (ih _)
    | place n =>
      refine .item ?_ (ih _)
      have hplace (rest : List Token) : Derives .unary (.int n :: .mark .closeBracket :: rest)
          (.literal (.int n)) (.mark .closeBracket :: rest) := by
        refine .simple ?_ (.atom rfl) (.noAccess ?_) <;> rintro t ⟨⟩ <;> rfl
      refine .plain (.operators (hplace _) (.noOperand ?_)) ?_ <;> rintro t ⟨⟩ <;> nofun

/-! ### Chains that are not read -/

/-- A place, with another place behind, is part of a double. -/
theorem leads_dotted_place {n m : Int64} (hn : 0 ≤ n) (hm : 0 ≤ m) (steps : List Accessor) :
    ∃ x, (Token.float x).Leads ((Value.intText n).toList ++ '.' :: (Value.intText m).toList)
      (steps.flatMap Accessor.dotted) := by
  rw [intText_of_nonneg hn, intText_of_nonneg hm]
  exact leads_fraction _ _ (headIs_dotted rfl steps)

theorem eq_place_cons (h : ¬∀ b ∈ steps.head?, b.isPlace = false) :
    ∃ n nonneg others, steps = .place n nonneg :: others := by
  cases steps with
  | nil => exact absurd nofun h
  | cons a others =>
    cases a with
    | name =>
      refine absurd (fun b hb => ?_) h
      cases hb
      rfl
    | place n nonneg => exact ⟨n, nonneg, others, rfl⟩

/-- If steps in points are read at all, no two places stand side by side. -/
theorem apart_of_derives {ts rest : List Token} {target e : Expr}
    (hlexes : Lexes (steps.flatMap Accessor.dotted) ts)
    (h : Derives (.access target) ts e rest) : Apart steps := by
  induction steps generalizing ts target with
  | nil => exact .nil
  | cons a steps ih =>
    cases a with
    | name w isWord =>
      obtain ⟨behind, rfl, hbehind⟩ := (leads_dot_word isWord _).lexes_iff.1 hlexes
      obtain ⟨later, rfl, hlater⟩ :=
        (leads_word isWord (headIs_dotted rfl steps)).lexes_iff.1 hbehind
      cases h with
      | noAccess last => cases last _ rfl
      | member others => exact apart_cons.2 ⟨nofun, ih hlater others⟩
    | place n nonneg =>
      obtain ⟨behind, rfl, hbehind⟩ := (leads_dot_intText nonneg _).lexes_iff.1 hlexes
      by_cases hnext : ∀ b ∈ steps.head?, b.isPlace = false
      · obtain ⟨later, rfl, hlater⟩ :=
          (leads_int nonneg (endsNumber_dotted hnext)).lexes_iff.1 hbehind
        cases h with
        | noAccess last => cases last _ rfl
        | place others => exact apart_cons.2 ⟨fun b hb _ => hnext b hb, ih hlater others⟩
      · -- what stands behind the point is one token with the next place
        obtain ⟨m, hm, others, rfl⟩ := eq_place_cons hnext
        obtain ⟨x, hx⟩ := leads_dotted_place nonneg hm others
        have hbehind : Lexes ((Value.intText n).toList ++ '.' :: (Value.intText m).toList ++
            others.flatMap Accessor.dotted) behind := by
          rw [List.append_assoc]
          exact hbehind
        obtain ⟨later, rfl, -⟩ := hx.lexes_iff.1 hbehind
        cases h with
        | noAccess last => cases last _ rfl

end

/-! ### Both ways to write a chain -/

section
variable {x : String} {steps : List Accessor}

theorem read_bracketed (hx : isWord x = true) (hfree : x ∉ takenWords) :
    read (x.toList ++ steps.flatMap Accessor.bracketed) = .ok (chainTree x steps) := by
  obtain ⟨hword, hop⟩ := ofWord_of_not_mem hfree
  have hlexes := (leads_word hx (headIs_bracketed rfl rfl steps)).lexes (lexes_bracketed steps)
  have hderives := derives_bracketed steps (.variable x)
  exact read_eq_ok_iff_lexes.2
    ⟨_, hlexes, derives_choice_of_access hop (congrArg some hword) hderives⟩

theorem read_dotted (hx : isWord x = true) (hfree : x ∉ takenWords) (h : Apart steps) :
    read (x.toList ++ steps.flatMap Accessor.dotted) = .ok (chainTree x steps) := by
  obtain ⟨hword, hop⟩ := ofWord_of_not_mem hfree
  have hlexes := (leads_word hx (headIs_dotted rfl steps)).lexes (lexes_dotted h)
  have hderives := derives_dotted steps (.variable x)
  exact read_eq_ok_iff_lexes.2
    ⟨_, hlexes, derives_choice_of_access hop (congrArg some hword) hderives⟩

theorem apart_of_read (hx : isWord x = true) (hfree : x ∉ takenWords) {e : Expr}
    (h : read (x.toList ++ steps.flatMap Accessor.dotted) = .ok e) : Apart steps := by
  obtain ⟨hword, hop⟩ := ofWord_of_not_mem hfree
  obtain ⟨ts, hlexes, hderives⟩ := read_eq_ok_iff_lexes.1 h
  obtain ⟨later, rfl, hlater⟩ := (leads_word hx (headIs_dotted rfl steps)).lexes_iff.1 hlexes
  obtain ⟨_, _, haccess⟩ := access_of_derives_choice hop (congrArg some hword) hderives
  exact apart_of_derives hlater haccess

/-- **A chain of steps in points is read like the one in brackets, unless two places stand side by
side.** Then it is not read at all. -/
theorem read_chain (hx : isWord x = true) (hfree : x ∉ takenWords) :
    read (x.toList ++ steps.flatMap Accessor.bracketed) = .ok (chainTree x steps) ∧
      (Apart steps →
        read (x.toList ++ steps.flatMap Accessor.dotted) = .ok (chainTree x steps)) ∧
      (¬Apart steps → ∃ fault, read (x.toList ++ steps.flatMap Accessor.dotted) = .error fault) := by
  refine ⟨read_bracketed hx hfree, read_dotted hx hfree, fun h => ?_⟩
  cases hread : read (x.toList ++ steps.flatMap Accessor.dotted) with
  | ok e => exact absurd (apart_of_read hx hfree hread) h
  | error fault => exact ⟨fault, rfl⟩

end

/-- Names between two places keep them apart. -/
theorem read_chain_apart :
    read "x.a.0.b.1".toList = read "x.a[0].b[1]".toList ∧
      ∃ fault, read "x.a.0.1.b".toList = .error fault := by
  have hx : isWord "x" = true := by decide
  have hfree : "x" ∉ takenWords := by decide
  have hapart : Apart [.name "a" (by decide), .place 0 (by decide), .name "b" (by decide),
      .place 1 (by decide)] := by simp [Apart, Accessor.isPlace]
  have hbeside : ¬Apart [.name "a" (by decide), .place 0 (by decide), .place 1 (by decide),
      .name "b" (by decide)] := by simp [Apart, Accessor.isPlace]
  obtain ⟨hbracketed, hdotted, -⟩ := read_chain hx hfree
  exact ⟨(hdotted hapart).trans hbracketed.symm, (read_chain hx hfree).2.2 hbeside⟩

/-- One place behind another is reached in brackets only. -/
theorem read_places :
    read "x[0][1]".toList =
        .ok (.item (.item (.variable "x") (.literal (.int 0))) (.literal (.int 1))) ∧
      ¬∃ e, read "x.0.1".toList = .ok e := by
  have hx : isWord "x" = true := by decide
  have hfree : "x" ∉ takenWords := by decide
  let places : List Accessor := [.place 0 (by decide), .place 1 (by decide)]
  have hbracketed : read ("x".toList ++ places.flatMap Accessor.bracketed) =
      .ok (chainTree "x" places) := read_bracketed hx hfree
  refine ⟨hbracketed, fun ⟨e, he⟩ => ?_⟩
  have hapart : Apart places := apart_of_read hx hfree he
  simp [places, Apart, Accessor.isPlace] at hapart

end Trellis.Expr
