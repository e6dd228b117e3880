import Trellis.Expr.Print
import Trellis.Proofs.Leading

/-!
# `Trellis.Proofs.Printing`: what is printed is read back

An expression that has a text is read back from it, which is `read_print`. There are two halves.

* The tokens of an expression derive that expression. Where a place asks for a tier, the expression
  stands in parentheses if its own is looser, and then can be followed by anything that may follow a
  target. Otherwise it may be followed by operators that bind no tighter than the place asks for.
  `Respelled` has one statement for each kind of place, and each of them rests on the next tighter
  one. `respelled` is the induction over trees.
* The text of the tokens lexes to the tokens. Each is read from its own text
  (`Token.Writable`), and ends before the space behind it.
-/

set_option autoImplicit false

namespace Trellis.Expr

open Text

/-! ### Places for an expression -/

/-- Nothing goes on with the target before the tokens. -/
def EndsTarget (ts : List Token) : Prop := ∀ t ∈ ts.head?, t.accesses = false

/-- Nothing goes on with an expression before the tokens, but an operator that binds no tighter than
the tier. -/
def EndsTier (k : Nat) (ts : List Token) : Prop :=
  EndsTarget ts ∧ ∀ t ∈ ts.head?, ∀ op, BinaryOp.ofToken? t = some op → op.precedence ≤ k

/-- Nothing goes on with the expression before the tokens. -/
def EndsChoice (ts : List Token) : Prop :=
  EndsTarget ts ∧ ∀ t ∈ ts.head?, BinaryOp.ofToken? t = none ∧ t ≠ .mark .question

/-- Before a mark that is no operator, an expression is at its end. -/
theorem endsChoice_mark {m : Mark} (haccess : (Token.mark m).accesses = false)
    (hop : BinaryOp.ofToken? (.mark m) = none) (hm : m ≠ .question) (ts : List Token) :
    EndsChoice (.mark m :: ts) := by
  refine ⟨fun t ht => ?_, fun t ht => ?_⟩ <;> cases ht
  · exact haccess
  · exact ⟨hop, fun h => hm (Token.mark.inj h)⟩

theorem EndsChoice.endsTier {ts : List Token} (h : EndsChoice ts) (k : Nat) : EndsTier k ts := by
  refine ⟨h.1, fun t ht op hop => ?_⟩
  rw [(h.2 t ht).1] at hop
  cases hop

@[simp] theorem BinaryOp.ofToken?_sign (op : BinaryOp) : BinaryOp.ofToken? op.sign = some op := by
  cases op with
  | order c => cases c <;> rfl
  | arithmetic op => cases op <;> rfl
  | _ => rfl

@[simp] theorem UnaryOp.ofToken?_sign (op : UnaryOp) : UnaryOp.ofToken? op.sign = some op := by
  cases op <;> rfl

/-- The tiers of the printer are those of the reader. -/
theorem BinaryOp.precedence_eq_tier (op : BinaryOp) : op.precedence = op.tier := by
  cases op with
  | arithmetic op => cases op <;> rfl
  | _ => rfl

theorem BinaryOp.tier_bounds (op : BinaryOp) : 1 ≤ op.tier ∧ op.tier < unaryTier := by
  cases op with
  | order c => exact ⟨by simp [tier], by simp [tier, unaryTier]⟩
  | arithmetic op => cases op <;> decide
  | _ => decide

/-- Before an operator, what binds at least as tightly is at its end. -/
theorem endsTier_sign (op : BinaryOp) (ts : List Token) : EndsTier op.tier (op.sign :: ts) := by
  refine ⟨fun t ht => ?_, fun t ht op' hop' => ?_⟩ <;> cases ht
  · cases op with
    | order c => cases c <;> rfl
    | arithmetic op => cases op <;> rfl
    | _ => rfl
  · rw [BinaryOp.ofToken?_sign] at hop'
    cases hop'
    exact Nat.le_of_eq op.precedence_eq_tier

/-- The expression is read from its tokens at each place where it may stand. -/
structure Respelled (e : Expr) : Prop where
  whole {more : List Token} : EndsChoice more → Derives .choice (e.spelled ++ more) e more
  /-- An operand of an operator of the tier `k`, where operators of the level `l` are read. -/
  operators {k l : Nat} {e' : Expr} {more rest : List Token} : l ≤ k → 1 ≤ k → k ≤ unaryTier →
    EndsTier k more → Derives (.operands l e) more e' rest →
    Derives (.operators l) (enclosed e.tier k e.spelled ++ more) e' rest
  operand {more : List Token} : EndsTarget more →
    Derives .unary (enclosed e.tier unaryTier e.spelled ++ more) e more
  target {e' : Expr} {more rest : List Token} : Derives (.access e) more e' rest →
    Derives .unary (enclosed e.tier targetTier e.spelled ++ more) e' rest

section
variable {e : Expr}

/-- An expression in parentheses is a target. -/
theorem derives_enclosed {ts more rest : List Token} {e' : Expr} {own asked : Nat}
    (hlt : own < asked)
    (whole : ∀ {more}, EndsChoice more → Derives .choice (ts ++ more) e more)
    (h : Derives (.access e) more e' rest) :
    Derives .unary (enclosed own asked ts ++ more) e' rest := by
  have hinside : Derives .choice (ts ++ .mark .closeParen :: more) e (.mark .closeParen :: more) :=
    whole (endsChoice_mark rfl rfl (by decide) more)
  have hopen : ∀ t ∈ (enclosed own asked ts ++ more).head?, UnaryOp.ofToken? t = none := by
    rw [enclosed, if_pos hlt]
    intro t ht
    cases ht
    rfl
  refine .simple hopen ?_ h
  rw [enclosed, if_pos hlt, List.append_assoc]
  exact .parentheses hinside

theorem enclosed_of_le {own asked : Nat} (h : asked ≤ own) (ts : List Token) :
    enclosed own asked ts = ts := if_neg (Nat.not_lt.2 h)

/-- An expression of some tier, from how it is read without parentheses. -/
theorem Respelled.of_operators (htier : 1 ≤ e.tier)
    (target : targetTier ≤ e.tier → ∀ {more rest e'}, Derives (.access e) more e' rest →
      Derives .unary (e.spelled ++ more) e' rest)
    (operand : unaryTier ≤ e.tier → ∀ {more}, EndsTarget more →
      Derives .unary (e.spelled ++ more) e more)
    (operators : ∀ {k l more rest e'}, l ≤ k → k ≤ e.tier → EndsTier k more →
      Derives (.operands l e) more e' rest → Derives (.operators l) (e.spelled ++ more) e' rest) :
    Respelled e := by
  have whole {more} (h : EndsChoice more) : Derives .choice (e.spelled ++ more) e more := by
    refine .plain (operators (Nat.zero_le 1) htier (h.endsTier 1) (.noOperand ?_)) ?_
    · intro t ht op hop
      rw [(h.2 t ht).1] at hop
      cases hop
    · exact fun t ht => (h.2 t ht).2
  constructor
  case whole => exact whole
  case operators =>
    intro k l e' more rest hl hk hk' hmore h
    by_cases hlt : e.tier < k
    · exact .operators (derives_enclosed hlt whole (.noAccess hmore.1)) h
    · rw [enclosed_of_le (Nat.not_lt.1 hlt)]
      exact operators hl (Nat.not_lt.1 hlt) hmore h
  case operand =>
    intro more hmore
    by_cases hlt : e.tier < unaryTier
    · exact derives_enclosed hlt whole (.noAccess hmore)
    · rw [enclosed_of_le (Nat.not_lt.1 hlt)]
      exact operand (Nat.not_lt.1 hlt) hmore
  case target =>
    intro e' more rest h
    by_cases hlt : e.tier < targetTier
    · exact derives_enclosed hlt whole h
    · rw [enclosed_of_le (Nat.not_lt.1 hlt)]
      exact target (Nat.not_lt.1 hlt) h

/-- An expression that is read as an operand. -/
theorem Respelled.of_operand (htier : unaryTier ≤ e.tier)
    (target : targetTier ≤ e.tier → ∀ {more rest e'}, Derives (.access e) more e' rest →
      Derives .unary (e.spelled ++ more) e' rest)
    (operand : ∀ {more}, EndsTarget more → Derives .unary (e.spelled ++ more) e more) :
    Respelled e :=
  .of_operators (Nat.le_trans (by decide) htier) target (fun _ => operand)
    fun _ _ hmore h => .operators (operand hmore.1) h

/-- An expression that is read as a target. -/
theorem Respelled.of_target (htier : targetTier ≤ e.tier)
    (target : ∀ {more rest e'}, Derives (.access e) more e' rest →
      Derives .unary (e.spelled ++ more) e' rest) : Respelled e :=
  .of_operand (Nat.le_trans (by decide) htier) (fun _ => target) fun hmore => target (.noAccess hmore)

/-- An expression that is read as something primary. -/
theorem Respelled.of_primary (htier : targetTier ≤ e.tier)
    (head : ∀ t ∈ e.spelled.head?, UnaryOp.ofToken? t = none) (hne : e.spelled ≠ [])
    (primary : ∀ more, Derives .primary (e.spelled ++ more) e more) : Respelled e := by
  refine .of_target htier fun h => .simple (fun t ht => head t ?_) (primary _) h
  cases hspelled : e.spelled with
  | nil => exact absurd hspelled hne
  | cons u us =>
    rw [hspelled] at ht
    exact ht

/-- A choice. -/
theorem Respelled.of_choose (htier : e.tier = 0)
    (whole : ∀ {more}, EndsChoice more → Derives .choice (e.spelled ++ more) e more) :
    Respelled e where
  whole := whole
  operators hl hk hk' hmore h :=
    .operators (derives_enclosed (htier ▸ hk) whole (.noAccess hmore.1)) h
  operand hmore := derives_enclosed (htier ▸ by decide) whole (.noAccess hmore)
  target h := derives_enclosed (htier ▸ by decide) whole h

end

/-! ### Trees -/

/-- The forms that are expressions of their own. -/
def Form.isExpression : Form → Bool
  | .choice | .operators _ | .unary | .primary => true
  | _ => false

/-- No expression begins with a closing bracket. -/
theorem Derives.unclosed {form : Form} {ts rest : List Token} {result : form.Result}
    (h : Derives form ts result rest) (hform : form.isExpression = true) :
    ∀ t ∈ ts.head?, t ≠ .mark .closeParen ∧ t ≠ .mark .closeBracket := by
  induction h with
  | plain _ _ ih => exact ih rfl
  | choose _ _ _ ih => exact ih rfl
  | operators _ _ ih => exact ih rfl
  | simple _ _ _ ih => exact ih rfl
  | unary operator =>
    intro t ht
    cases ht
    constructor <;> rintro rfl <;> cases operator
  | atom atom =>
    intro t ht
    cases ht
    constructor <;> rintro rfl <;> cases atom
  | parentheses => intro t ht; cases ht; exact ⟨nofun, nofun⟩
  | list => intro t ht; cases ht; exact ⟨nofun, nofun⟩
  | map => intro t ht; cases ht; exact ⟨nofun, nofun⟩
  | _ => cases hform

/-- The notation of a value stands for it. -/
theorem atom?_of_literalToken? {v : Value} {t : Token} (h : literalToken? v = some t) :
    t.atom? = some (.literal v) ∧ UnaryOp.ofToken? t = none := by
  cases v with
  | null => cases h; exact ⟨rfl, rfl⟩
  | bool b => cases b <;> cases h <;> exact ⟨rfl, rfl⟩
  | int n =>
    rw [literalToken?] at h
    split at h
    · cases h
      exact ⟨rfl, rfl⟩
    · cases h
  | str s => cases h; exact ⟨rfl, rfl⟩
  | float x => cases h
  | list vs => cases h
  | map entries => cases h

theorem ofWord_of_not_reserved {name : String} (h : reservedWords.contains name = false) :
    ofWord name = .variable name ∧ UnaryOp.ofToken? (.word name) = none := by
  have hreserved : ∀ w ∈ takenWords, reservedWords.contains w = true := by decide
  refine ofWord_of_not_mem fun hmem => ?_
  rw [hreserved _ hmem] at h
  cases h

mutual

/-- **The tokens of a tree are read as the tree**, at each place. -/
theorem respelled : ∀ e : Expr, e.printable = true → Respelled e
  | .literal v, h => by
    rw [printable, Option.isSome_iff_exists] at h
    obtain ⟨t, ht⟩ := h
    obtain ⟨hatom, hop⟩ := atom?_of_literalToken? ht
    have hspelled : spelled (.literal v) = [t] := by rw [spelled, ht]; rfl
    refine .of_primary (Nat.le_refl _) ?_ ?_ ?_ <;> rw [hspelled]
    · rintro u ⟨⟩
      exact hop
    · exact List.cons_ne_nil _ _
    · exact fun more => .atom hatom
  | .variable name, h => by
    rw [printable, Bool.and_eq_true, Bool.not_eq_true'] at h
    obtain ⟨hword, hop⟩ := ofWord_of_not_reserved h.2
    refine .of_primary (Nat.le_refl _) ?_ ?_ ?_ <;> rw [spelled]
    · rintro u ⟨⟩
      exact hop
    · exact List.cons_ne_nil _ _
    · exact fun more => .atom (congrArg some hword)
  | .list items, h => by
    rw [printable] at h
    refine .of_primary (Nat.le_refl _) ?_ ?_ fun more => ?_ <;> rw [spelled]
    · rintro u ⟨⟩
      rfl
    · exact List.cons_ne_nil _ _
    · simp only [List.cons_append, List.append_assoc]
      exact .list (derives_spelledItems items h (.inr rfl) more)
  | .map entries, h => by
    rw [printable] at h
    refine .of_primary (Nat.le_refl _) ?_ ?_ fun more => ?_ <;> rw [spelled]
    · rintro u ⟨⟩
      rfl
    · exact List.cons_ne_nil _ _
    · simp only [List.cons_append, List.append_assoc]
      exact .map (derives_spelledEntries entries h more)
  | .member target name, h => by
    rw [printable, Bool.and_eq_true] at h
    refine .of_target (Nat.le_refl _) fun hmore => ?_
    rw [spelled, List.append_assoc]
    exact (respelled target h.1).target (.member hmore)
  | .item target index, h => by
    rw [printable, Bool.and_eq_true] at h
    refine .of_target (Nat.le_refl _) fun {more} _ _ hmore => ?_
    rw [spelled]
    simp only [List.cons_append, List.append_assoc]
    have hinside := (respelled index h.2).whole
      (endsChoice_mark (m := .closeBracket) rfl rfl (by decide) more)
    exact (respelled target h.1).target (.item hinside hmore)
  | .call callee arguments, h => by
    rw [printable, Bool.and_eq_true] at h
    refine .of_target (Nat.le_refl _) fun {more} _ _ hmore => ?_
    rw [spelled]
    simp only [List.cons_append, List.append_assoc]
    have hinside := derives_spelledItems arguments h.2 (.inl rfl) more
    exact (respelled callee h.1).target (.call hinside hmore)
  | .unary op operand, h => by
    rw [printable] at h
    refine .of_operand (Nat.le_refl _) (fun h => absurd h (Nat.not_succ_le_self 7)) fun hmore => ?_
    rw [spelled]
    exact .unary op.ofToken?_sign ((respelled operand h).operand hmore)
  | .binary op left right, h => by
    rw [printable, Bool.and_eq_true] at h
    have hbounds := op.tier_bounds
    have hplain (asked : Nat) (hasked : unaryTier ≤ asked) : ¬ asked ≤ op.tier := by omega
    refine .of_operators hbounds.1 (fun h => absurd h (hplain _ (by decide)))
      (fun h => absurd h (hplain _ (Nat.le_refl _))) fun {k l more rest e'} hl hk hmore hrest => ?_
    rw [spelled]
    simp only [List.cons_append, List.append_assoc]
    -- The right operand ends before an operator that binds no tighter.
    have hright : Derives (.operators (op.precedence + 1))
        (enclosed right.tier (op.tier + 1) right.spelled ++ more) right more := by
      have hends : EndsTier (op.tier + 1) more :=
        ⟨hmore.1, fun t ht op' hop' => Nat.le_trans (hmore.2 t ht op' hop') (Nat.le_succ_of_le hk)⟩
      rw [op.precedence_eq_tier]
      refine (respelled right h.2).operators (Nat.le_refl _) (by omega) (by omega) hends
        (.noOperand fun t ht op' hop' => ?_)
      exact Nat.lt_succ_of_le (Nat.le_trans (hmore.2 t ht op' hop') hk)
    have hothers := Derives.operand op.ofToken?_sign
      (op.precedence_eq_tier ▸ Nat.le_trans hl hk) hright hrest
    exact (respelled left h.1).operators (Nat.le_trans hl hk) hbounds.1 (Nat.le_of_lt hbounds.2)
      (endsTier_sign op _) hothers
  | .choose test yes no, h => by
    rw [printable, Bool.and_eq_true, Bool.and_eq_true] at h
    refine .of_choose rfl fun {more} hmore => ?_
    rw [spelled]
    simp only [List.cons_append, List.append_assoc]
    have hquestion (ts : List Token) : EndsTier 1 (.mark .question :: ts) := by
      refine ⟨fun t ht => ?_, fun t ht op hop => ?_⟩ <;> cases ht
      · rfl
      · cases hop
    have htest (ts : List Token) := (respelled test h.1.1).operators (Nat.zero_le 1) (Nat.le_refl 1)
      (by decide) (hquestion ts) (.noOperand fun t ht op hop => by cases ht; cases hop)
    exact .choose (htest _)
      ((respelled yes h.1.2).whole (endsChoice_mark rfl rfl (by decide) _))
      ((respelled no h.2).whole hmore)

theorem derives_spelledItems : ∀ (items : List Expr), printableItems items = true →
    ∀ {close : Mark}, close = .closeParen ∨ close = .closeBracket → ∀ more : List Token,
      Derives (.items close) (spelledItems items ++ .mark close :: more) items more
  | [], _, _, _, _ => by
    rw [spelledItems]
    exact .noItem
  | [e], h, close, hclose, more => by
    rw [printableItems, Bool.and_eq_true] at h
    rw [spelledItems]
    have hends : EndsChoice (.mark close :: more) := by
      rcases hclose with rfl | rfl <;> exact endsChoice_mark rfl rfl (by decide) more
    have hitem := (respelled e h.1).whole hends
    have hunclosed := hitem.unclosed rfl
    refine .lastItem ?_ (fun t ht => ?_) hitem
    · rcases hclose with rfl | rfl <;> decide
    · rcases hclose with rfl | rfl
      · exact (hunclosed t ht).1
      · exact (hunclosed t ht).2
  | e :: e' :: rest, h, close, hclose, more => by
    rw [printableItems, Bool.and_eq_true] at h
    rw [spelledItems.eq_def]
    simp only [List.cons_append, List.append_assoc]
    have hothers := derives_spelledItems (e' :: rest) h.2 hclose more
    have hitem := (respelled e h.1).whole (endsChoice_mark (m := .comma) rfl rfl (by decide)
      (spelledItems (e' :: rest) ++ .mark close :: more))
    have hunclosed := hitem.unclosed rfl
    refine .nextItem (fun t ht => ?_) hitem hothers
    rcases hclose with rfl | rfl
    · exact (hunclosed t ht).1
    · exact (hunclosed t ht).2

theorem derives_spelledEntries : ∀ (entries : List (String × Expr)),
    printableEntries entries = true → ∀ more : List Token,
      Derives .entries (spelledEntries entries ++ .mark .closeBrace :: more) entries more
  | [], _, _ => by
    rw [spelledEntries]
    exact .noEntry
  | [(key, e)], h, more => by
    rw [printableEntries, Bool.and_eq_true] at h
    rw [spelledEntries]
    exact .lastEntry rfl ((respelled e h.1).whole (endsChoice_mark rfl rfl (by decide) more))
  | (key, e) :: entry :: rest, h, more => by
    rw [printableEntries, Bool.and_eq_true] at h
    rw [spelledEntries.eq_def]
    simp only [List.cons_append, List.append_assoc]
    exact .nextEntry rfl ((respelled e h.1).whole (endsChoice_mark rfl rfl (by decide) _))
      (derives_spelledEntries (entry :: rest) h.2 more)

end

/-! ### Texts -/

/-- A token that is read from its own text. -/
def Token.Writable (t : Token) : Prop :=
  ∃ c cs, t.text = c :: cs ∧ readToken 0 c cs = .ok (some t, cs.length + 1)

theorem writable_mark (m : Mark) : (Token.mark m).Writable := by
  cases m <;> exact ⟨_, _, rfl, rfl⟩

/-- A character written inside quotes is read as itself. -/
theorem readString?_escapeChar (c : Char) {cs text : List Char} {n : Nat}
    (h : readString? '"' cs = some (text, n)) :
    readString? '"' (escapeChar c ++ cs) = some (c :: text, (escapeChar c).length + n) := by
  unfold escapeChar
  split
  case h_6 hslash hquote _ _ _ =>
    rw [List.singleton_append, readString?_cons hslash, if_neg hquote, h, List.length_singleton,
      Nat.add_comm]
    rfl
  all_goals
    simp only [List.cons_append, List.nil_append, readString?, h, Option.map_some, unescape]
    rw [Nat.add_comm]
    rfl

theorem readString?_flatMap_escapeChar (cs : List Char) :
    readString? '"' (cs.flatMap escapeChar ++ ['"']) =
      some (cs, (cs.flatMap escapeChar ++ ['"']).length) := by
  induction cs with
  | nil => rfl
  | cons c cs ih =>
    rw [List.flatMap_cons, List.append_assoc, readString?_escapeChar c ih]
    simp only [List.length_append]

theorem writable_str (s : String) : (Token.str s).Writable := by
  refine ⟨'"', s.toList.flatMap escapeChar ++ ['"'], rfl, ?_⟩
  rw [readToken_quote rfl, readString?_flatMap_escapeChar]
  simp only [String.ofList_toList]

/-- A token that is read in front of nothing. -/
theorem Token.Leads.writable {t : Token} (h : t.Leads t.text []) : t.Writable := by
  obtain ⟨c, cs, htext, hread⟩ := h
  rw [List.append_nil] at hread
  exact ⟨c, cs, htext, hread⟩

theorem writable_word {w : String} (h : isWord w = true) : (Token.word w).Writable :=
  (leads_word h rfl).writable

theorem writable_int {n : Int64} (h : 0 ≤ n) : (Token.int n).Writable :=
  (leads_int h endsNumber_nil).writable

theorem writable_literal {v : Value} {t : Token} (h : literalToken? v = some t) : t.Writable := by
  cases v with
  | null => cases h; exact writable_word rfl
  | bool b => cases b <;> cases h <;> exact writable_word rfl
  | int n =>
    rw [literalToken?] at h
    split at h
    · next hn =>
      cases h
      exact writable_int hn
    · cases h
  | str s => cases h; exact writable_str s
  | float x => cases h
  | list vs => cases h
  | map entries => cases h

/-- All of the tokens are read from their texts. -/
abbrev Writable (ts : List Token) : Prop := ∀ t ∈ ts, t.Writable

theorem Writable.append {ts us : List Token} (h : Writable ts) (h' : Writable us) :
    Writable (ts ++ us) := List.forall_mem_append.2 ⟨h, h'⟩

theorem Writable.cons {t : Token} {ts : List Token} (h : t.Writable) (h' : Writable ts) :
    Writable (t :: ts) := List.forall_mem_cons.2 ⟨h, h'⟩

theorem Writable.mark (m : Mark) {ts : List Token} (h : Writable ts) : Writable (.mark m :: ts) :=
  .cons (writable_mark m) h

theorem Writable.nil : Writable [] := nofun

theorem Writable.enclosed {ts : List Token} (h : Writable ts) (own asked : Nat) :
    Writable (enclosed own asked ts) := by
  unfold Expr.enclosed
  split
  · exact .mark _ (h.append (.mark _ .nil))
  · exact h

theorem writable_unarySign (op : UnaryOp) : op.sign.Writable := by
  cases op <;> exact writable_mark _

theorem writable_binarySign (op : BinaryOp) : op.sign.Writable := by
  cases op with
  | order c => cases c <;> exact writable_mark _
  | arithmetic op => cases op <;> exact writable_mark _
  | _ => exact writable_mark _

mutual

theorem writable_spelled : ∀ e : Expr, e.printable = true → Writable e.spelled
  | .literal v, h => by
    rw [printable, Option.isSome_iff_exists] at h
    obtain ⟨t, ht⟩ := h
    rw [spelled, ht]
    exact .cons (writable_literal ht) .nil
  | .variable name, h => by
    rw [printable, Bool.and_eq_true] at h
    rw [spelled]
    exact .cons (writable_word h.1) .nil
  | .list items, h => by
    rw [printable] at h
    rw [spelled]
    exact .append (.mark _ (writable_spelledItems items h)) (.mark _ .nil)
  | .map entries, h => by
    rw [printable] at h
    rw [spelled]
    exact .append (.mark _ (writable_spelledEntries entries h)) (.mark _ .nil)
  | .member target name, h => by
    rw [printable, Bool.and_eq_true] at h
    rw [spelled]
    exact ((writable_spelled target h.1).enclosed _ _).append
      (.mark _ (.cons (writable_word h.2) .nil))
  | .item target index, h => by
    rw [printable, Bool.and_eq_true] at h
    rw [spelled]
    exact .append (((writable_spelled target h.1).enclosed _ _).append
      (.mark _ (writable_spelled index h.2))) (.mark _ .nil)
  | .call callee arguments, h => by
    rw [printable, Bool.and_eq_true] at h
    rw [spelled]
    exact .append (((writable_spelled callee h.1).enclosed _ _).append
      (.mark _ (writable_spelledItems arguments h.2))) (.mark _ .nil)
  | .unary op operand, h => by
    rw [printable] at h
    rw [spelled]
    exact .cons (writable_unarySign op) ((writable_spelled operand h).enclosed _ _)
  | .binary op left right, h => by
    rw [printable, Bool.and_eq_true] at h
    rw [spelled]
    exact ((writable_spelled left h.1).enclosed _ _).append
      (.cons (writable_binarySign op) ((writable_spelled right h.2).enclosed _ _))
  | .choose test yes no, h => by
    rw [printable, Bool.and_eq_true, Bool.and_eq_true] at h
    rw [spelled]
    exact .append (((writable_spelled test h.1.1).enclosed _ _).append
      (.mark _ (writable_spelled yes h.1.2))) (.mark _ (writable_spelled no h.2))

theorem writable_spelledItems : ∀ items : List Expr, printableItems items = true →
    Writable (spelledItems items)
  | [], _ => by
    rw [spelledItems]
    exact .nil
  | [e], h => by
    rw [printableItems, Bool.and_eq_true] at h
    rw [spelledItems]
    exact writable_spelled e h.1
  | e :: e' :: rest, h => by
    rw [printableItems, Bool.and_eq_true] at h
    rw [spelledItems.eq_def]
    exact (writable_spelled e h.1).append (.mark _ (writable_spelledItems (e' :: rest) h.2))

theorem writable_spelledEntries : ∀ entries : List (String × Expr),
    printableEntries entries = true → Writable (spelledEntries entries)
  | [], _ => by
    rw [spelledEntries]
    exact .nil
  | [(key, e)], h => by
    rw [printableEntries, Bool.and_eq_true] at h
    rw [spelledEntries]
    exact .cons (writable_str key) (.mark _ (writable_spelled e h.1))
  | (key, e) :: entry :: rest, h => by
    rw [printableEntries, Bool.and_eq_true] at h
    rw [spelledEntries.eq_def]
    exact .append (.cons (writable_str key) (.mark _ (writable_spelled e h.1)))
      (.mark _ (writable_spelledEntries (entry :: rest) h.2))

end

/-- A token is read from its text, and what stands behind a blank after it. -/
theorem Token.Writable.lexes {t : Token} (h : t.Writable) {bs : List Char} (hbs : HeadBlank bs)
    {ts : List Token} (hts : Lexes bs ts) : Lexes (t.text ++ bs) (t :: ts) := by
  obtain ⟨c, cs, htext, hread⟩ := h
  rw [htext, List.cons_append]
  refine .token (readToken_append hread hbs) ?_
  rw [Nat.add_sub_cancel, List.drop_left]
  exact hts

/-- Tokens with a space between each two are read from their texts. -/
theorem lexes_joinWith : ∀ ts : List Token, Writable ts →
    Lexes (joinWith [' '] (ts.map Token.text)) ts
  | [], _ => .nil
  | [t], h => by
    have ht := (h t List.mem_cons_self).lexes headBlank_nil .nil
    rwa [List.append_nil] at ht
  | t :: u :: rest, h => by
    obtain ⟨ht, hrest⟩ := List.forall_mem_cons.1 h
    have hbehind := Lexes.space (c := ' ') rfl (lexes_joinWith (u :: rest) hrest)
    have hall := ht.lexes (headBlank_space _) hbehind
    rwa [List.append_cons] at hall

/-- **Reading inverts printing.** An expression that has a text is read back from it. -/
theorem read_print (e : Expr) (h : e.printable = true) : read e.print.toList = .ok e := by
  have hderives : Derives .choice (e.spelled ++ []) e [] := (respelled e h).whole ⟨nofun, nofun⟩
  rw [List.append_nil] at hderives
  rw [print, String.toList_ofList]
  exact read_eq_ok_iff_lexes.2 ⟨e.spelled, lexes_joinWith e.spelled (writable_spelled e h), hderives⟩

/-- A tree with parentheses on both sides of operators, a nested choice, and texts that are
escaped. -/
theorem read_print_choose :
    let e : Expr :=
      .choose
        (.binary .or (.variable "a")
          (.binary .and (.unary .not (.member (.variable "b") "true")) (.literal (.bool false))))
        (.binary (.arithmetic .subtract) (.literal (.int 1))
          (.binary (.arithmetic .subtract) (.variable "x") (.unary .negate (.literal (.int 2)))))
        (.choose (.binary .strictEqual (.call (.variable "f") [.literal (.str "\"q\""), .list []])
            (.map [("k", .literal .null)]))
          (.item (.binary (.arithmetic .multiply) (.variable "y") (.literal (.int 3)))
            (.choose (.variable "z") (.literal (.int 4)) (.literal (.int 5))))
          (.literal .null))
    e.printable = true ∧
      e.print = "a || ! b . true && false ? 1 - ( x - - 2 ) : " ++
        "f ( \"\\\"q\\\"\" , [ ] ) === \x7b \"k\" : null \x7d ? " ++
        "( y * 3 ) [ z ? 4 : 5 ] : null" ∧
      read e.print.toList = .ok e :=
  ⟨by decide +kernel, by decide +kernel, read_print _ (by decide +kernel)⟩

end Trellis.Expr
