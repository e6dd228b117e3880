import Trellis.Expr.Reader

/-!
# `Trellis.Proofs.Derivation`: the grammar of expressions

`Derives` says by rules what tokens are read as, with one rule for each way in which a function
of the reader can succeed. The reader goes through tokens that carry offsets and may fail in many
ways; the rules know only the tokens, and what is read of them.

* `Derives.of_reads`: what the reader reads is derived. The proof follows the recursion of the
  reader, with one statement for each of its functions.
* `Derives.reads`: what is derived is read, by induction over the rules.
* `read_eq_ok_iff` puts both together for a whole text: it is read as an expression exactly if
  that expression is derived from all of its tokens.
-/

set_option autoImplicit false

namespace Trellis.Expr

/-! ### The rules -/

/-- The tokens without their offsets. -/
def tokensOf (ls : List Lexeme) : List Token := ls.map Lexeme.token

/-- What the reader may be about to read. -/
inductive Form where
  | choice
  | operators (level : Nat)
  /-- What follows an operand. -/
  | operands (level : Nat) (left : Expr)
  | unary
  /-- What follows a target. -/
  | access (target : Expr)
  | primary
  /-- Expressions up to a closing mark. -/
  | items (close : Mark)
  /-- Entries of a map, up to its closing brace. -/
  | entries

/-- What a form is read as. -/
abbrev Form.Result : Form → Type
  | .items _ => List Expr
  | .entries => List (String × Expr)
  | _ => Expr

/-- The expression that a token is by itself. -/
def Token.atom? : Token → Option Expr
  | .int n => some (.literal (.int n))
  | .float x => some (.literal (.float x))
  | .str s => some (.literal (.str s))
  | .word w => some (ofWord w)
  | .mark _ => none

/-- Does the token go on with the expression before it? -/
def Token.accesses : Token → Bool
  | .mark m => m = .dot || m = .openBracket || m = .openParen
  | _ => false

theorem Token.accesses_eq_false {t : Token} (hdot : t ≠ .mark .dot)
    (hbracket : t ≠ .mark .openBracket) (hparen : t ≠ .mark .openParen) : t.accesses = false := by
  cases t with
  | mark m =>
    simp only [ne_eq, Token.mark.injEq] at hdot hbracket hparen
    simp [Token.accesses, hdot, hbracket, hparen]
  | _ => rfl

/-- A form is read from the first tokens, gives a result, and leaves the second tokens. -/
inductive Derives : (form : Form) → List Token → form.Result → List Token → Prop
  | plain {ts rest : List Token} {e : Expr} (operators : Derives (.operators 0) ts e rest)
    (last : ∀ t ∈ rest.head?, t ≠ .mark .question) : Derives .choice ts e rest
  | choose {ts behind others rest : List Token} {test yes no : Expr}
    (operators : Derives (.operators 0) ts test (.mark .question :: behind))
    (first : Derives .choice behind yes (.mark .colon :: others))
    (second : Derives .choice others no rest) : Derives .choice ts (.choose test yes no) rest
  | operators {level : Nat} {ts behind rest : List Token} {left e : Expr}
    (first : Derives .unary ts left behind) (others : Derives (.operands level left) behind e rest) :
    Derives (.operators level) ts e rest
  | noOperand {level : Nat} {left : Expr} {rest : List Token}
    (last : ∀ t ∈ rest.head?, ∀ op, BinaryOp.ofToken? t = some op → op.precedence < level) :
    Derives (.operands level left) rest left rest
  | operand {level : Nat} {left right e : Expr} {t : Token} {op : BinaryOp}
    {ts behind rest : List Token} (operator : BinaryOp.ofToken? t = some op)
    (bound : level ≤ op.precedence) (first : Derives (.operators (op.precedence + 1)) ts right behind)
    (others : Derives (.operands level (.binary op left right)) behind e rest) :
    Derives (.operands level left) (t :: ts) e rest
  | unary {t : Token} {op : UnaryOp} {ts rest : List Token} {e : Expr}
    (operator : UnaryOp.ofToken? t = some op) (operand : Derives .unary ts e rest) :
    Derives .unary (t :: ts) (.unary op e) rest
  | simple {ts behind rest : List Token} {target e : Expr}
    (noOperator : ∀ t ∈ ts.head?, UnaryOp.ofToken? t = none)
    (first : Derives .primary ts target behind) (others : Derives (.access target) behind e rest) :
    Derives .unary ts e rest
  | noAccess {target : Expr} {rest : List Token} (last : ∀ t ∈ rest.head?, t.accesses = false) :
    Derives (.access target) rest target rest
  | member {target e : Expr} {name : String} {ts rest : List Token}
    (others : Derives (.access (.member target name)) ts e rest) :
    Derives (.access target) (.mark .dot :: .word name :: ts) e rest
  | place {target e : Expr} {n : Int64} {ts rest : List Token}
    (others : Derives (.access (.item target (.literal (.int n)))) ts e rest) :
    Derives (.access target) (.mark .dot :: .int n :: ts) e rest
  | item {target index e : Expr} {ts behind rest : List Token}
    (inside : Derives .choice ts index (.mark .closeBracket :: behind))
    (others : Derives (.access (.item target index)) behind e rest) :
    Derives (.access target) (.mark .openBracket :: ts) e rest
  | call {target e : Expr} {arguments : List Expr} {ts behind rest : List Token}
    (inside : Derives (.items .closeParen) ts arguments behind)
    (others : Derives (.access (.call target arguments)) behind e rest) :
    Derives (.access target) (.mark .openParen :: ts) e rest
  | atom {t : Token} {e : Expr} {rest : List Token} (atom : t.atom? = some e) :
    Derives .primary (t :: rest) e rest
  | parentheses {ts rest : List Token} {e : Expr}
    (inside : Derives .choice ts e (.mark .closeParen :: rest)) :
    Derives .primary (.mark .openParen :: ts) e rest
  | list {ts rest : List Token} {items : List Expr}
    (inside : Derives (.items .closeBracket) ts items rest) :
    Derives .primary (.mark .openBracket :: ts) (.list items) rest
  | map {ts rest : List Token} {entries : List (String × Expr)}
    (inside : Derives .entries ts entries rest) :
    Derives .primary (.mark .openBrace :: ts) (.map entries) rest
  | noItem {close : Mark} {rest : List Token} : Derives (.items close) (.mark close :: rest) [] rest
  | lastItem {close : Mark} {ts rest : List Token} {e : Expr} (noComma : close ≠ .comma)
    (unclosed : ∀ t ∈ ts.head?, t ≠ .mark close)
    (item : Derives .choice ts e (.mark close :: rest)) : Derives (.items close) ts [e] rest
  | nextItem {close : Mark} {ts behind rest : List Token} {e : Expr} {more : List Expr}
    (unclosed : ∀ t ∈ ts.head?, t ≠ .mark close)
    (item : Derives .choice ts e (.mark .comma :: behind))
    (others : Derives (.items close) behind more rest) : Derives (.items close) ts (e :: more) rest
  | noEntry {rest : List Token} : Derives .entries (.mark .closeBrace :: rest) [] rest
  | lastEntry {t : Token} {key : String} {ts rest : List Token} {e : Expr} (isKey : keyOf t = .ok key)
    (value : Derives .choice ts e (.mark .closeBrace :: rest)) :
    Derives .entries (t :: .mark .colon :: ts) [(key, e)] rest
  | nextEntry {t : Token} {key : String} {ts behind rest : List Token} {e : Expr}
    {more : List (String × Expr)} (isKey : keyOf t = .ok key)
    (value : Derives .choice ts e (.mark .comma :: behind))
    (others : Derives .entries behind more rest) :
    Derives .entries (t :: .mark .colon :: ts) ((key, e) :: more) rest

/-! ### Marks -/

/-- A mark that is found stands in front. -/
theorem tokens_of_expect {m : Mark} {ls : List Lexeme} {r : Reading Unit ls.length}
    (h : expect m ls = .ok r) : tokensOf ls = .mark m :: tokensOf r.rest := by
  cases ls with
  | nil => cases h
  | cons t rest =>
    rw [expect] at h
    split at h
    · next found hfound =>
      split at h
      · next hm =>
        cases h
        rw [← hm, ← hfound]
        rfl
      · cases h
    · cases h

theorem tokens_of_behind? {m : Mark} {ls : List Lexeme}
    {r : { rest : List Lexeme // rest.length < ls.length }} (h : behind? m ls = some r) :
    tokensOf ls = .mark m :: tokensOf r.1 := by
  cases ls with
  | nil => cases h
  | cons t rest =>
    rw [behind?] at h
    split at h
    · next found hfound =>
      split at h
      · next hm =>
        cases h
        rw [← hm, ← hfound]
        rfl
      · cases h
    · cases h

theorem behind?_eq_none_iff {m : Mark} {ls : List Lexeme} :
    behind? m ls = none ↔ ∀ t ∈ (tokensOf ls).head?, t ≠ .mark m := by
  cases ls with
  | nil => exact ⟨fun _ => nofun, fun _ => rfl⟩
  | cons t rest =>
    rw [behind?]
    have hhead : ∀ u, u ∈ (tokensOf (t :: rest)).head? ↔ t.token = u := by simp [tokensOf]
    simp only [hhead, forall_eq']
    split
    · next found hfound =>
      rw [hfound]
      split
      · next hm => simp [hm]
      · next hm => simp [hm]
    · next hmark => exact ⟨fun _ hm => hmark m hm, fun _ => rfl⟩

/-- A mark in front is found. -/
theorem expect_of_tokens {m : Mark} {ls : List Lexeme} {ts : List Token}
    (h : tokensOf ls = .mark m :: ts) :
    ∃ rest hlt, tokensOf rest = ts ∧ expect m ls = .ok ⟨(), rest, hlt⟩ := by
  obtain ⟨l, rest, rfl, hl, hrest⟩ := List.map_eq_cons_iff.1 h
  refine ⟨rest, Nat.lt_succ_self _, hrest, ?_⟩
  obtain ⟨t, offset⟩ := l
  cases hl
  simp [expect]

theorem behind?_of_tokens {m : Mark} {ls : List Lexeme} {ts : List Token}
    (h : tokensOf ls = .mark m :: ts) :
    ∃ rest hlt, tokensOf rest = ts ∧ behind? m ls = some ⟨rest, hlt⟩ := by
  obtain ⟨l, rest, rfl, hl, hrest⟩ := List.map_eq_cons_iff.1 h
  refine ⟨rest, Nat.lt_succ_self _, hrest, ?_⟩
  obtain ⟨t, offset⟩ := l
  cases hl
  simp [behind?]

/-- A key of a map is no mark. -/
theorem behind?_of_key {m : Mark} {l : Lexeme} {ls : List Lexeme} {key : String}
    (h : keyOf l.token = .ok key) : behind? m (l :: ls) = none := by
  refine behind?_eq_none_iff.2 fun t ht hm => ?_
  cases ht
  rw [hm] at h
  cases h

/-! ### What is read is derived -/

mutual

theorem derives_of_readChoice {ls : List Lexeme} {r : Reading Expr ls.length}
    (h : readChoice ls = .ok r) : Derives .choice (tokensOf ls) r.value (tokensOf r.rest) := by
  rw [readChoice] at h
  split at h
  · cases h
  · next test ls1 h1 htest =>
    have hoperators := derives_of_readOperators htest
    split at h
    · next hplain =>
      cases h
      exact .plain hoperators (behind?_eq_none_iff.1 hplain)
    · next ls2 h2 hquestion =>
      split at h
      · cases h
      · next yes ls3 h3 hyes =>
        split at h
        · cases h
        · next ls4 h4 hcolon =>
          split at h
          · cases h
          · next no ls5 h5 hno =>
            cases h
            have hfirst := derives_of_readChoice hyes
            rw [tokens_of_expect hcolon] at hfirst
            rw [tokens_of_behind? hquestion] at hoperators
            exact .choose hoperators hfirst (derives_of_readChoice hno)
termination_by (ls.length, 4)

theorem derives_of_readOperators {level : Nat} {ls : List Lexeme} {r : Reading Expr ls.length}
    (h : readOperators level ls = .ok r) :
    Derives (.operators level) (tokensOf ls) r.value (tokensOf r.rest) := by
  rw [readOperators] at h
  split at h
  · cases h
  · next left rest hlt hleft =>
    exact .operators (derives_of_readUnary hleft) (derives_of_readOperands h)
termination_by (ls.length, 3)

theorem derives_of_readOperands {level : Nat} {left : Expr} {ls : List Lexeme} {bound : Nat}
    {hb : ls.length < bound} {r : Reading Expr bound}
    (h : readOperands level left ls bound hb = .ok r) :
    Derives (.operands level left) (tokensOf ls) r.value (tokensOf r.rest) := by
  cases ls with
  | nil =>
    rw [readOperands] at h
    cases h
    exact .noOperand nofun
  | cons t rest =>
    rw [readOperands] at h
    split at h
    · next hnone =>
      cases h
      refine .noOperand fun u hu op hop => ?_
      cases hu
      rw [hnone] at hop
      cases hop
    · next op hop =>
      split at h
      · next hlt =>
        cases h
        refine .noOperand fun u hu op' hop' => ?_
        cases hu
        cases hop.symm.trans hop'
        exact hlt
      · next hle =>
        split at h
        · cases h
        · next right rest1 h1 hright =>
          exact .operand hop (Nat.le_of_not_lt hle) (derives_of_readOperators hright)
            (derives_of_readOperands h)
termination_by (ls.length, 3)
decreasing_by
  all_goals subst_vars
  all_goals simp_wf
  all_goals omega

theorem derives_of_readUnary {ls : List Lexeme} {r : Reading Expr ls.length}
    (h : readUnary ls = .ok r) : Derives .unary (tokensOf ls) r.value (tokensOf r.rest) := by
  cases ls with
  | nil =>
    rw [readUnary] at h
    cases h
  | cons t rest =>
    rw [readUnary] at h
    split at h
    · next op hop =>
      split at h
      · cases h
      · next operand rest1 h1 hoperand =>
        cases h
        exact .unary hop (derives_of_readUnary hoperand)
    · next hnone =>
      obtain ⟨target, behind, hfirst, hothers⟩ := derives_of_readPostfix h
      refine .simple (fun u hu => ?_) hfirst hothers
      cases hu
      exact hnone
termination_by (ls.length, 2)
decreasing_by
  all_goals subst_vars
  all_goals simp_wf
  all_goals omega

theorem derives_of_readPostfix {ls : List Lexeme} {r : Reading Expr ls.length}
    (h : readPostfix ls = .ok r) : ∃ target behind, Derives .primary (tokensOf ls) target behind ∧
      Derives (.access target) behind r.value (tokensOf r.rest) := by
  rw [readPostfix] at h
  split at h
  · cases h
  · next target behind hlt htarget =>
    exact ⟨target, tokensOf behind, derives_of_readPrimary htarget, derives_of_readAccess h⟩
termination_by (ls.length, 1)

theorem derives_of_readAccess {target : Expr} {ls : List Lexeme} {bound : Nat}
    {hb : ls.length < bound} {r : Reading Expr bound}
    (h : readAccess target ls bound hb = .ok r) :
    Derives (.access target) (tokensOf ls) r.value (tokensOf r.rest) := by
  cases ls with
  | nil =>
    rw [readAccess] at h
    cases h
    exact .noAccess nofun
  | cons t rest =>
    rw [readAccess.eq_def] at h
    dsimp only at h
    show Derives (.access target) (t.token :: tokensOf rest) r.value (tokensOf r.rest)
    split at h
    · next hdot =>
      -- A name or a number behind a point.
      rw [hdot]
      cases rest with
      | nil => cases h
      | cons name rest1 =>
        dsimp only at h
        show Derives _ (_ :: name.token :: tokensOf rest1) _ _
        split at h
        · next w hw =>
          rw [hw]
          exact .member (derives_of_readAccess h)
        · next n hn =>
          rw [hn]
          exact .place (derives_of_readAccess h)
        · cases h
    · next hopen =>
      -- An index, up to its closing bracket.
      rw [hopen]
      split at h
      · cases h
      · next index rest1 h1 hindex =>
        split at h
        · cases h
        · next rest2 h2 hclose =>
          have hinside := derives_of_readChoice hindex
          rw [tokens_of_expect hclose] at hinside
          exact .item hinside (derives_of_readAccess h)
    · next hopen =>
      -- The arguments of a call.
      rw [hopen]
      split at h
      · cases h
      · next arguments rest1 h1 harguments =>
        exact .call (derives_of_readList (by decide) harguments) (derives_of_readAccess h)
    · next hdot hbracket hparen =>
      cases h
      refine .noAccess fun u hu => ?_
      cases hu
      exact Token.accesses_eq_false hdot hbracket hparen
termination_by (ls.length, 1)
decreasing_by
  all_goals subst_vars
  all_goals simp_wf
  all_goals omega

theorem derives_of_readList {close : Mark} (hclose : close ≠ .comma) {ls : List Lexeme}
    {r : Reading (List Expr) ls.length} (h : readList close ls = .ok r) :
    Derives (.items close) (tokensOf ls) r.value (tokensOf r.rest) := by
  rw [readList] at h
  split at h
  · next rest hlt hend =>
    cases h
    rw [tokens_of_behind? hend]
    exact .noItem
  · next hopen =>
    have hunclosed := behind?_eq_none_iff.1 hopen
    split at h
    · cases h
    · next first ls1 h1 hfirst =>
      have hitem := derives_of_readChoice hfirst
      split at h
      · next ls2 h2 hcomma =>
        split at h
        · cases h
        · next more ls3 h3 hmore =>
          cases h
          rw [tokens_of_behind? hcomma] at hitem
          exact .nextItem hunclosed hitem (derives_of_readList hclose hmore)
      · split at h
        · cases h
        · next ls2 h2 hend =>
          cases h
          rw [tokens_of_expect hend] at hitem
          exact .lastItem hclose hunclosed hitem
termination_by (ls.length, 5)

theorem derives_of_readPrimary {ls : List Lexeme} {r : Reading Expr ls.length}
    (h : readPrimary ls = .ok r) : Derives .primary (tokensOf ls) r.value (tokensOf r.rest) := by
  cases ls with
  | nil =>
    rw [readPrimary] at h
    cases h
  | cons t rest =>
    rw [readPrimary] at h
    show Derives .primary (t.token :: tokensOf rest) r.value (tokensOf r.rest)
    split at h
    · next n hn => cases h; exact .atom (by rw [hn]; rfl)
    · next x hx => cases h; exact .atom (by rw [hx]; rfl)
    · next s hs => cases h; exact .atom (by rw [hs]; rfl)
    · next w hw => cases h; exact .atom (by rw [hw]; rfl)
    · next hopen =>
      rw [hopen]
      split at h
      · cases h
      · next inner rest1 h1 hinner =>
        split at h
        · cases h
        · next rest2 h2 hclose =>
          cases h
          have hinside := derives_of_readChoice hinner
          rw [tokens_of_expect hclose] at hinside
          exact .parentheses hinside
    · next hopen =>
      rw [hopen]
      split at h
      · cases h
      · next items rest1 h1 hitems =>
        cases h
        exact .list (derives_of_readList (by decide) hitems)
    · next hopen =>
      rw [hopen]
      split at h
      · cases h
      · next entries rest1 h1 hentries =>
        cases h
        exact .map (derives_of_readEntries hentries)
    · cases h
termination_by (ls.length, 0)
decreasing_by
  all_goals subst_vars
  all_goals simp_wf
  all_goals omega

theorem derives_of_readEntries {ls : List Lexeme} {r : Reading (List (String × Expr)) ls.length}
    (h : readEntries ls = .ok r) : Derives .entries (tokensOf ls) r.value (tokensOf r.rest) := by
  rw [readEntries.eq_def] at h
  split at h
  · next rest hlt hend =>
    cases h
    rw [tokens_of_behind? hend]
    exact .noEntry
  · cases ls with
    | nil => cases h
    | cons t rest =>
      dsimp only at h
      split at h
      · cases h
      · next key hkey =>
        split at h
        · cases h
        · next ls1 h1 hcolon =>
          have hfront : tokensOf (t :: rest) = t.token :: .mark .colon :: tokensOf ls1 :=
            congrArg (t.token :: ·) (tokens_of_expect hcolon)
          rw [hfront]
          split at h
          · cases h
          · next value ls2 h2 hvalue =>
            have hentry := derives_of_readChoice hvalue
            split at h
            · next ls3 h3 hcomma =>
              split at h
              · cases h
              · next more ls4 h4 hmore =>
                cases h
                rw [tokens_of_behind? hcomma] at hentry
                exact .nextEntry hkey hentry (derives_of_readEntries hmore)
            · split at h
              · cases h
              · next ls3 h3 hend =>
                cases h
                rw [tokens_of_expect hend] at hentry
                exact .lastEntry hkey hentry
termination_by (ls.length, 5)
decreasing_by
  all_goals subst_vars
  all_goals simp_wf
  all_goals omega

end

/-! ### What is derived is read -/

/-- The reader reads a form, gives the result, and leaves the rest. -/
abbrev Form.Reads (ls : List Lexeme) : (form : Form) → form.Result → List Lexeme → Prop
  | .choice, e, rest => ∃ h, readChoice ls = .ok ⟨e, rest, h⟩
  | .operators level, e, rest => ∃ h, readOperators level ls = .ok ⟨e, rest, h⟩
  | .operands level left, e, rest =>
    ∀ bound hb, ∃ h, readOperands level left ls bound hb = .ok ⟨e, rest, h⟩
  | .unary, e, rest => ∃ h, readUnary ls = .ok ⟨e, rest, h⟩
  | .access target, e, rest => ∀ bound hb, ∃ h, readAccess target ls bound hb = .ok ⟨e, rest, h⟩
  | .primary, e, rest => ∃ h, readPrimary ls = .ok ⟨e, rest, h⟩
  | .items close, es, rest => ∃ h, readList close ls = .ok ⟨es, rest, h⟩
  | .entries, es, rest => ∃ h, readEntries ls = .ok ⟨es, rest, h⟩

/-- **What is derived is read**, whatever the offsets of the tokens are. -/
theorem Derives.reads {form : Form} {ts rest : List Token} {result : form.Result}
    (h : Derives form ts result rest) {ls : List Lexeme} (hls : tokensOf ls = ts) :
    ∃ behind, tokensOf behind = rest ∧ form.Reads ls result behind := by
  induction h generalizing ls with
  | plain _ last ih =>
    obtain ⟨ls1, rfl, h1, hread⟩ := ih hls
    exact ⟨ls1, rfl, h1, by rw [readChoice, hread]; simp only [behind?_eq_none_iff.2 last]⟩
  | choose _ _ _ ih ihfirst ihsecond =>
    obtain ⟨ls1, htokens1, h1, hread1⟩ := ih hls
    obtain ⟨ls2, h2, htokens2, hquestion⟩ := behind?_of_tokens htokens1
    obtain ⟨ls3, htokens3, h3, hread3⟩ := ihfirst htokens2
    obtain ⟨ls4, h4, htokens4, hcolon⟩ := expect_of_tokens htokens3
    obtain ⟨ls5, htokens5, h5, hread5⟩ := ihsecond htokens4
    refine ⟨ls5, htokens5, by omega, ?_⟩
    rw [readChoice, hread1]
    simp only [hquestion, hread3, hcolon, hread5]
  | operators _ _ ih ihothers =>
    obtain ⟨ls1, htokens1, h1, hread1⟩ := ih hls
    obtain ⟨ls2, htokens2, hread2⟩ := ihothers htokens1
    obtain ⟨h2, hread2⟩ := hread2 _ h1
    exact ⟨ls2, htokens2, h2, by rw [readOperators, hread1]; exact hread2⟩
  | noOperand last =>
    refine ⟨ls, hls, fun bound hb => ⟨hb, ?_⟩⟩
    cases ls with
    | nil => rw [readOperands]
    | cons l ls =>
      subst hls
      rw [readOperands]
      split
      · rfl
      · next op hop => rw [if_pos (last _ rfl op hop)]
  | operand operator bound _ _ ih ihothers =>
    obtain ⟨l, ls1, rfl, rfl, htokens⟩ := List.map_eq_cons_iff.1 hls
    obtain ⟨ls2, htokens2, h2, hread2⟩ := ih htokens
    obtain ⟨ls3, htokens3, hread3⟩ := ihothers htokens2
    refine ⟨ls3, htokens3, fun n hn => ?_⟩
    obtain ⟨h3, hread3⟩ := hread3 n (by simp at hn; omega)
    refine ⟨h3, ?_⟩
    rw [readOperands]
    simp only [operator, if_neg (Nat.not_lt.2 bound), hread2, hread3]
  | unary operator _ ih =>
    obtain ⟨l, ls1, rfl, rfl, htokens⟩ := List.map_eq_cons_iff.1 hls
    obtain ⟨ls2, htokens2, h2, hread2⟩ := ih htokens
    refine ⟨ls2, htokens2, by simp; omega, ?_⟩
    rw [readUnary]
    simp only [operator, hread2]
  | @simple _ _ _ _ _ noOperator _ _ ih ihothers =>
    obtain ⟨ls1, htokens1, h1, hread1⟩ := ih hls
    obtain ⟨ls2, htokens2, hread2⟩ := ihothers htokens1
    obtain ⟨h2, hread2⟩ := hread2 _ h1
    refine ⟨ls2, htokens2, h2, ?_⟩
    cases ls with
    | nil => exact absurd h1 (Nat.not_lt_zero _)
    | cons l ls =>
      subst hls
      rw [readUnary]
      simp only [noOperator l.token rfl]
      rw [readPostfix, hread1]
      exact hread2
  | noAccess last =>
    refine ⟨ls, hls, fun bound hb => ⟨hb, ?_⟩⟩
    cases ls with
    | nil => rw [readAccess]
    | cons l ls =>
      subst hls
      have hlast := last l.token rfl
      rw [readAccess.eq_def]
      dsimp only
      split
      · next hdot => rw [hdot] at hlast; cases hlast
      · next hopen => rw [hopen] at hlast; cases hlast
      · next hopen => rw [hopen] at hlast; cases hlast
      · rfl
  | member _ ih =>
    obtain ⟨⟨_, _⟩, _, rfl, rfl, htokens⟩ := List.map_eq_cons_iff.1 hls
    obtain ⟨⟨_, _⟩, ls1, rfl, rfl, htokens1⟩ := List.map_eq_cons_iff.1 htokens
    obtain ⟨ls2, htokens2, hread2⟩ := ih htokens1
    refine ⟨ls2, htokens2, fun n hn => ?_⟩
    obtain ⟨h2, hread2⟩ := hread2 n (by simp at hn; omega)
    exact ⟨h2, by rw [readAccess.eq_def]; exact hread2⟩
  | place _ ih =>
    obtain ⟨⟨_, _⟩, _, rfl, rfl, htokens⟩ := List.map_eq_cons_iff.1 hls
    obtain ⟨⟨_, _⟩, ls1, rfl, rfl, htokens1⟩ := List.map_eq_cons_iff.1 htokens
    obtain ⟨ls2, htokens2, hread2⟩ := ih htokens1
    refine ⟨ls2, htokens2, fun n hn => ?_⟩
    obtain ⟨h2, hread2⟩ := hread2 n (by simp at hn; omega)
    exact ⟨h2, by rw [readAccess.eq_def]; exact hread2⟩
  | item _ _ ih ihothers =>
    obtain ⟨⟨_, _⟩, ls1, rfl, rfl, htokens⟩ := List.map_eq_cons_iff.1 hls
    obtain ⟨ls2, htokens2, h2, hread2⟩ := ih htokens
    obtain ⟨ls3, h3, htokens3, hclose⟩ := expect_of_tokens htokens2
    obtain ⟨ls4, htokens4, hread4⟩ := ihothers htokens3
    refine ⟨ls4, htokens4, fun n hn => ?_⟩
    obtain ⟨h4, hread4⟩ := hread4 n (by simp at hn; omega)
    refine ⟨h4, ?_⟩
    rw [readAccess.eq_def]
    simp only [hread2, hclose, hread4]
  | call _ _ ih ihothers =>
    obtain ⟨⟨_, _⟩, ls1, rfl, rfl, htokens⟩ := List.map_eq_cons_iff.1 hls
    obtain ⟨ls2, htokens2, h2, hread2⟩ := ih htokens
    obtain ⟨ls3, htokens3, hread3⟩ := ihothers htokens2
    refine ⟨ls3, htokens3, fun n hn => ?_⟩
    obtain ⟨h3, hread3⟩ := hread3 n (by simp at hn; omega)
    refine ⟨h3, ?_⟩
    rw [readAccess.eq_def]
    simp only [hread2, hread3]
  | atom atom =>
    obtain ⟨⟨t, _⟩, ls1, rfl, rfl, htokens⟩ := List.map_eq_cons_iff.1 hls
    refine ⟨ls1, htokens, by simp, ?_⟩
    cases t with
    | mark m => cases atom
    | _ => cases atom; rw [readPrimary]
  | parentheses _ ih =>
    obtain ⟨⟨_, _⟩, ls1, rfl, rfl, htokens⟩ := List.map_eq_cons_iff.1 hls
    obtain ⟨ls2, htokens2, h2, hread2⟩ := ih htokens
    obtain ⟨ls3, h3, htokens3, hclose⟩ := expect_of_tokens htokens2
    refine ⟨ls3, htokens3, by simp; omega, ?_⟩
    rw [readPrimary]
    simp only [hread2, hclose]
  | list _ ih =>
    obtain ⟨⟨_, _⟩, ls1, rfl, rfl, htokens⟩ := List.map_eq_cons_iff.1 hls
    obtain ⟨ls2, htokens2, h2, hread2⟩ := ih htokens
    refine ⟨ls2, htokens2, by simp; omega, ?_⟩
    rw [readPrimary]
    simp only [hread2]
  | map _ ih =>
    obtain ⟨⟨_, _⟩, ls1, rfl, rfl, htokens⟩ := List.map_eq_cons_iff.1 hls
    obtain ⟨ls2, htokens2, h2, hread2⟩ := ih htokens
    refine ⟨ls2, htokens2, by simp; omega, ?_⟩
    rw [readPrimary]
    simp only [hread2]
  | noItem =>
    obtain ⟨ls1, h1, htokens1, hclose⟩ := behind?_of_tokens hls
    exact ⟨ls1, htokens1, h1, by rw [readList]; simp only [hclose]⟩
  | lastItem noComma unclosed _ ih =>
    obtain ⟨ls1, htokens1, h1, hread1⟩ := ih hls
    obtain ⟨ls2, h2, htokens2, hclose⟩ := expect_of_tokens htokens1
    have hopen := behind?_eq_none_iff.2 (hls ▸ unclosed)
    have hlast : behind? .comma ls1 = none := by
      refine behind?_eq_none_iff.2 fun t ht hcomma => noComma ?_
      rw [htokens1] at ht
      cases ht
      cases hcomma
      rfl
    refine ⟨ls2, htokens2, by omega, ?_⟩
    rw [readList]
    simp only [hopen, hread1, hlast, hclose]
  | nextItem unclosed _ _ ih ihothers =>
    obtain ⟨ls1, htokens1, h1, hread1⟩ := ih hls
    obtain ⟨ls2, h2, htokens2, hcomma⟩ := behind?_of_tokens htokens1
    obtain ⟨ls3, htokens3, h3, hread3⟩ := ihothers htokens2
    have hopen := behind?_eq_none_iff.2 (hls ▸ unclosed)
    refine ⟨ls3, htokens3, by omega, ?_⟩
    rw [readList]
    simp only [hopen, hread1, hcomma, hread3]
  | noEntry =>
    obtain ⟨ls1, h1, htokens1, hclose⟩ := behind?_of_tokens hls
    exact ⟨ls1, htokens1, h1, by rw [readEntries.eq_def]; simp only [hclose]⟩
  | lastEntry isKey _ ih =>
    obtain ⟨l, ls1, rfl, rfl, htokens⟩ := List.map_eq_cons_iff.1 hls
    obtain ⟨ls2, h2, htokens2, hcolon⟩ := expect_of_tokens htokens
    obtain ⟨ls3, htokens3, h3, hread3⟩ := ih htokens2
    obtain ⟨ls4, h4, htokens4, hclose⟩ := expect_of_tokens htokens3
    have hlast : behind? .comma ls3 = none := by
      refine behind?_eq_none_iff.2 fun t ht hcomma => ?_
      rw [htokens3] at ht
      cases ht
      cases hcomma
    refine ⟨ls4, htokens4, by simp; omega, ?_⟩
    rw [readEntries.eq_def]
    simp only [behind?_of_key isKey, isKey, hcolon, hread3, hlast, hclose]
  | nextEntry isKey _ _ ih ihothers =>
    obtain ⟨l, ls1, rfl, rfl, htokens⟩ := List.map_eq_cons_iff.1 hls
    obtain ⟨ls2, h2, htokens2, hcolon⟩ := expect_of_tokens htokens
    obtain ⟨ls3, htokens3, h3, hread3⟩ := ih htokens2
    obtain ⟨ls4, h4, htokens4, hcomma⟩ := behind?_of_tokens htokens3
    obtain ⟨ls5, htokens5, h5, hread5⟩ := ihothers htokens4
    refine ⟨ls5, htokens5, by simp; omega, ?_⟩
    rw [readEntries.eq_def]
    simp only [behind?_of_key isKey, isKey, hcolon, hread3, hcomma, hread5]

/-- A text is read as an expression exactly if the expression is derived from its tokens. -/
theorem read_eq_ok_iff {cs : List Char} {e : Expr} :
    read cs = .ok e ↔ ∃ ls, lexemes cs = .ok ls ∧ Derives .choice (tokensOf ls) e [] := by
  rw [read]
  constructor
  · intro h
    split at h
    · cases h
    · cases h
    · next ls _ hls =>
      refine ⟨ls, hls, ?_⟩
      split at h
      · cases h
      · next hread =>
        cases h
        exact derives_of_readChoice hread
      · cases h
  · rintro ⟨ls, hls, hderives⟩
    obtain ⟨rest, hrest, hlt, hread⟩ := hderives.reads rfl
    cases List.map_eq_nil_iff.1 hrest
    rw [hls]
    cases ls with
    | nil => exact absurd hlt (Nat.not_lt_zero _)
    | cons l ls => simp only [hread]

end Trellis.Expr
