import Trellis.Proofs.Leading
import Trellis.Proofs.TwoRuns

/-!
# `Trellis.Proofs.Vocabulary`: what an expression can mention

A template gives names to values in more ways than an expression can ask for them. A name that is no
word, such as `a-b`, is never looked up, whatever text the expression is read from
(`avoids_of_read`). So no value of an expression depends on what goes by such a name.

The variables of an expression come from the words among its tokens (`Derives.avoids`, by induction
over the grammar), and a token that is a word has the characters of one (`isWord_of_mem`).
-/

set_option autoImplicit false

namespace Trellis.Expr

open Text

/-! ### Tokens that are words -/

theorem ofWhole_ne_word (ds : List Char) (w : String) : readNumber.ofWhole ds ≠ .word w := by
  unfold readNumber.ofWhole
  split <;> exact Token.noConfusion

theorem readNumber_ne_word (cs : List Char) (w : String) : (readNumber cs).1 ≠ .word w := by
  unfold readNumber
  dsimp only
  split
  · split
    · exact ofWhole_ne_word _ w
    · exact Token.noConfusion
  · exact ofWhole_ne_word _ w

/-- What is read as a word is one. -/
theorem isWord_of_readToken {c : Char} {cs : List Char} {w : String} {n : Nat}
    (h : readToken 0 c cs = .ok (some (.word w), n)) : isWord w = true := by
  by_cases hstart : isWordStart c = true
  · rw [readToken_word hstart] at h
    cases h
    have hpart : isWordPart c = true := isWordPart_of_isWordStart hstart
    rw [isWord, String.toList_ofList, List.all_takeWhile, List.takeWhile_cons_of_pos hpart,
      Bool.and_true]
    exact hstart
  · unfold readToken at h
    rw [if_neg hstart] at h
    split at h
    · cases h
    · split at h
      · injection h with h
        injection h with h _
        exact absurd (Option.some.inj h) (readNumber_ne_word _ w)
      · split at h
        · split at h <;> cases h
        · split at h <;> cases h

theorem isWord_of_mem {cs : List Char} {ts : List Token} (h : Lexes cs ts) {w : String}
    (hw : Token.word w ∈ ts) : isWord w = true := by
  induction h with
  | nil => cases hw
  | space _ _ ih => exact ih hw
  | token first _ ih =>
    rcases List.mem_cons.1 hw with rfl | hw
    · exact isWord_of_readToken first
    · exact ih hw

/-! ### Variables -/

theorem Avoids.asCallee {x : String} {e : Expr} (h : e.Avoids x) : e.AvoidsAsCallee x := by
  cases e with
  | member receiver name => exact h
  | _ => trivial

theorem avoids_ofWord {w x : String} (h : w ≠ x) : (ofWord w).Avoids x := by
  unfold ofWord
  split
  · trivial
  · split
    · trivial
    · split
      · trivial
      · exact h

theorem avoids_of_atom {t : Token} {e : Expr} {x : String} (h : t.atom? = some e)
    (ht : t ≠ .word x) : e.Avoids x := by
  cases t with
  | word w =>
    cases h
    exact avoids_ofWord fun hw => ht (congrArg Token.word hw)
  | mark => cases h
  | _ =>
    cases h
    trivial

/-- The variable does not occur in what a form is read as. -/
def Form.Avoids (x : String) : (form : Form) → form.Result → Prop
  | .items _, es => avoidsAll x es
  | .entries, pairs => avoidsEntries x pairs
  | .choice, e => e.Avoids x
  | .operators _, e => e.Avoids x
  | .operands _ _, e => e.Avoids x
  | .unary, e => e.Avoids x
  | .access _, e => e.Avoids x
  | .primary, e => e.Avoids x

/-- The expression that has been read already. -/
def Form.before? : Form → Option Expr
  | .operands _ left => some left
  | .access target => some target
  | _ => none

/-- **A variable of an expression is a word among its tokens.** The tokens that are left over have
no such word either. -/
theorem Derives.avoids {x : String} {form : Form} {ts rest : List Token} {result : form.Result}
    (h : Derives form ts result rest) (hbefore : ∀ e ∈ form.before?, e.Avoids x)
    (hts : Token.word x ∉ ts) : form.Avoids x result ∧ Token.word x ∉ rest := by
  induction h with
  | plain _ _ ih => exact ih nofun hts
  | choose _ _ _ ih ihfirst ihsecond =>
    obtain ⟨htest, hbehind⟩ := ih nofun hts
    obtain ⟨hyes, hothers⟩ := ihfirst nofun (List.not_mem_of_not_mem_cons hbehind)
    obtain ⟨hno, hrest⟩ := ihsecond nofun (List.not_mem_of_not_mem_cons hothers)
    exact ⟨⟨htest, hyes, hno⟩, hrest⟩
  | operators _ _ ih ihothers =>
    obtain ⟨hleft, hbehind⟩ := ih nofun hts
    exact ihothers (by rintro _ ⟨⟩; exact hleft) hbehind
  | noOperand _ => exact ⟨hbefore _ rfl, hts⟩
  | operand _ _ _ _ ih ihothers =>
    obtain ⟨hright, hbehind⟩ := ih nofun (List.not_mem_of_not_mem_cons hts)
    exact ihothers (by rintro _ ⟨⟩; exact ⟨hbefore _ rfl, hright⟩) hbehind
  | unary _ _ ih => exact ih nofun (List.not_mem_of_not_mem_cons hts)
  | simple _ _ _ ih ihothers =>
    obtain ⟨htarget, hbehind⟩ := ih nofun hts
    exact ihothers (by rintro _ ⟨⟩; exact htarget) hbehind
  | noAccess _ => exact ⟨hbefore _ rfl, hts⟩
  | member _ ih =>
    have htarget := hbefore _ rfl
    have hlater := List.not_mem_of_not_mem_cons (List.not_mem_of_not_mem_cons hts)
    exact ih (by rintro _ ⟨⟩; exact htarget) hlater
  | place _ ih =>
    have hlater := List.not_mem_of_not_mem_cons (List.not_mem_of_not_mem_cons hts)
    exact ih (by rintro _ ⟨⟩; exact ⟨hbefore _ rfl, trivial⟩) hlater
  | item _ _ ih ihothers =>
    obtain ⟨hindex, hbehind⟩ := ih nofun (List.not_mem_of_not_mem_cons hts)
    exact ihothers (by rintro _ ⟨⟩; exact ⟨hbefore _ rfl, hindex⟩)
      (List.not_mem_of_not_mem_cons hbehind)
  | call _ _ ih ihothers =>
    obtain ⟨harguments, hbehind⟩ := ih nofun (List.not_mem_of_not_mem_cons hts)
    exact ihothers (by rintro _ ⟨⟩; exact ⟨(hbefore _ rfl).asCallee, harguments⟩) hbehind
  | atom atom =>
    exact ⟨avoids_of_atom atom fun ht => hts (ht ▸ List.mem_cons_self),
      List.not_mem_of_not_mem_cons hts⟩
  | parentheses _ ih =>
    obtain ⟨he, hrest⟩ := ih nofun (List.not_mem_of_not_mem_cons hts)
    exact ⟨he, List.not_mem_of_not_mem_cons hrest⟩
  | list _ ih => exact ih nofun (List.not_mem_of_not_mem_cons hts)
  | map _ ih => exact ih nofun (List.not_mem_of_not_mem_cons hts)
  | noItem => exact ⟨trivial, List.not_mem_of_not_mem_cons hts⟩
  | lastItem _ _ _ ih =>
    obtain ⟨he, hrest⟩ := ih nofun hts
    exact ⟨⟨he, trivial⟩, List.not_mem_of_not_mem_cons hrest⟩
  | nextItem _ _ _ ih ihothers =>
    obtain ⟨he, hbehind⟩ := ih nofun hts
    obtain ⟨hmore, hrest⟩ := ihothers nofun (List.not_mem_of_not_mem_cons hbehind)
    exact ⟨⟨he, hmore⟩, hrest⟩
  | noEntry => exact ⟨trivial, List.not_mem_of_not_mem_cons hts⟩
  | lastEntry _ _ ih =>
    have hvalue := List.not_mem_of_not_mem_cons (List.not_mem_of_not_mem_cons hts)
    obtain ⟨he, hrest⟩ := ih nofun hvalue
    exact ⟨⟨he, trivial⟩, List.not_mem_of_not_mem_cons hrest⟩
  | nextEntry _ _ _ ih ihothers =>
    have hvalue := List.not_mem_of_not_mem_cons (List.not_mem_of_not_mem_cons hts)
    obtain ⟨he, hbehind⟩ := ih nofun hvalue
    obtain ⟨hmore, hrest⟩ := ihothers nofun (List.not_mem_of_not_mem_cons hbehind)
    exact ⟨⟨he, hmore⟩, hrest⟩

/-- No expression mentions a name that is no word. -/
theorem avoids_of_read {cs : List Char} {e : Expr} {x : String} (h : read cs = .ok e)
    (hx : isWord x = false) : e.Avoids x := by
  obtain ⟨ts, hlexes, hderives⟩ := read_eq_ok_iff_lexes.1 h
  refine (hderives.avoids nofun fun hmem => ?_).1
  rw [isWord_of_mem hlexes hmem] at hx
  cases hx

end Trellis.Expr
