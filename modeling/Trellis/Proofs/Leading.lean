import Trellis.Expr.Print
import Trellis.Proofs.Lexing

/-!
# `Trellis.Proofs.Leading`: a token in front of other text

Between two tokens there need not be a blank. What ends a token is that the text behind it cannot
go on with it. `Token.Leads` says that a token is read in front of some text, and
`Token.Leads.lexes_iff` that the other tokens then are those of that text.

* A word ends before any character that words do not have (`leads_word`).
* Digits end before anything but a digit and a point with a digit behind (`EndsNumber`). Before
  such a point they are the whole part of a double (`leads_fraction`).
* Marks that begin no longer mark end before anything. A point ends before anything but another
  point (`leads_dot`).

The module also has what the grammar makes of a token that stands by itself or in front of
accesses, `derives_choice_of_access`.
-/

set_option autoImplicit false

namespace Trellis.Expr

open Text Source

/-- The token is read from its own text, when it stands in front of `bs`. -/
def Token.Leads (t : Token) (text bs : List Char) : Prop :=
  ∃ c cs, text = c :: cs ∧ readToken 0 c (cs ++ bs) = .ok (some t, cs.length + 1)

theorem Token.Leads.lexes_iff {t : Token} {text bs : List Char} {ts : List Token}
    (h : t.Leads text bs) : Lexes (text ++ bs) ts ↔ ∃ ts', ts = t :: ts' ∧ Lexes bs ts' := by
  obtain ⟨c, cs, rfl, hread⟩ := h
  constructor
  · intro hlexes
    cases hlexes with
    | space hspace _ =>
      rw [readToken, if_pos hspace] at hread
      cases hread
    | token first later =>
      cases hread.symm.trans first
      rw [Nat.add_sub_cancel, List.append_eq, List.drop_left] at later
      exact ⟨_, rfl, later⟩
  · rintro ⟨ts', rfl, hlater⟩
    refine .token hread ?_
    rwa [Nat.add_sub_cancel, List.append_eq, List.drop_left]

theorem Token.Leads.lexes {t : Token} {text bs : List Char} {ts : List Token}
    (h : t.Leads text bs) (hbs : Lexes bs ts) : Lexes (text ++ bs) (t :: ts) :=
  h.lexes_iff.2 ⟨ts, rfl, hbs⟩

/-- A token that is read from all of a text. -/
theorem Token.Leads.lexes_singleton {t : Token} {text : List Char} (h : t.Leads text []) :
    Lexes text [t] := by
  have hlexes := h.lexes .nil
  rwa [List.append_nil] at hlexes

/-! ### Words -/

theorem isDigit_of_isWordStart {c : Char} (h : isWordStart c = true) : c.isDigit = false := by
  rw [isWordStart, Bool.or_eq_true, Bool.or_eq_true, beq_iff_eq, beq_iff_eq] at h
  rcases h with (h | rfl) | rfl
  · refine eq_false_of_ne_true fun hdigit => ?_
    delta isLetter Char.isAlpha Char.isUpper Char.isLower at h
    have hrange : 48 ≤ c.toNat ∧ c.toNat ≤ 57 := by
      simpa [Char.isDigit, UInt32.le_iff_toNat_le] using hdigit
    simp [UInt32.le_iff_toNat_le] at h
    omega
  · rfl
  · rfl

/-- A character that begins a word begins nothing else. -/
theorem readToken_word {c : Char} (h : isWordStart c = true) (cs : List Char) :
    readToken 0 c cs = .ok (some (.word (String.ofList ((c :: cs).takeWhile isWordPart))),
      ((c :: cs).takeWhile isWordPart).length) := by
  have hspace : isSpace c = false :=
    isSpace_eq_false (isBlank_of_isWordPart (isWordPart_of_isWordStart h))
  have hdigit : c.isDigit = false := isDigit_of_isWordStart h
  have hquote : (c == '"' || c == '\'') = false := by
    refine eq_false_of_ne_true fun hquote => ?_
    rw [Bool.or_eq_true, beq_iff_eq, beq_iff_eq] at hquote
    rcases hquote with rfl | rfl <;> cases h
  unfold readToken
  simp only [hspace, hdigit, hquote, h, Bool.false_eq_true, if_false, if_true]

/-- All of the characters of a kind are taken, up to one that is not of the kind. -/
theorem takeWhile_append_end {p : Char → Bool} {cs bs : List Char} (hcs : ∀ c ∈ cs, p c = true)
    (hbs : headIs p bs = false) : (cs ++ bs).takeWhile p = cs := by
  have hall : cs.takeWhile p = cs := List.takeWhile_eq_self_iff.2 hcs
  have hend : (cs.takeWhile p ++ bs).takeWhile p = cs.takeWhile p := takeWhile_append_of_not hbs
  rwa [hall] at hend

theorem leads_word {w : String} (h : isWord w = true) {bs : List Char}
    (hbs : headIs isWordPart bs = false) : (Token.word w).Leads w.toList bs := by
  rw [isWord, Bool.and_eq_true] at h
  obtain ⟨hstart, hall⟩ := h
  have htake := takeWhile_append_end (List.all_eq_true.1 hall) hbs
  cases hw : w.toList with
  | nil =>
    rw [hw] at hstart
    cases hstart
  | cons c cs =>
    rw [hw] at hstart htake
    refine ⟨c, cs, rfl, ?_⟩
    rw [readToken_word hstart, ← List.cons_append, htake, ← hw, String.ofList_toList, hw]
    rfl

/-! ### Numbers -/

/-- A digit begins a number. -/
theorem readToken_digit {c : Char} (h : c.isDigit = true) (cs : List Char) :
    readToken 0 c cs = .ok (some (readNumber (c :: cs)).1, (readNumber (c :: cs)).2) := by
  have hspace : isSpace c = false := isSpace_eq_false (isBlank_of_isDigit h)
  unfold readToken
  simp only [hspace, h, Bool.false_eq_true, if_false, if_true]

/-- What is read as a number is the token in front. -/
theorem leads_of_readNumber {ds bs : List Char} {t : Token} (hhead : headIs Char.isDigit ds = true)
    (h : readNumber (ds ++ bs) = (t, ds.length)) : t.Leads ds bs := by
  cases ds with
  | nil => cases hhead
  | cons c cs => exact ⟨c, cs, rfl, by rw [readToken_digit hhead, ← List.cons_append, h]; rfl⟩

/-- Neither a digit stands in front, nor a point with a digit behind it. -/
def EndsNumber (bs : List Char) : Prop :=
  headIs Char.isDigit bs = false ∧ ∀ rest, bs = '.' :: rest → headIs Char.isDigit rest = false

theorem endsNumber_nil : EndsNumber [] := ⟨rfl, nofun⟩

/-- Digits make up a whole number. -/
theorem readNumber_digits {ds bs : List Char} (hds : ∀ c ∈ ds, c.isDigit = true)
    (hbs : EndsNumber bs) : readNumber (ds ++ bs) = (readNumber.ofWhole ds, ds.length) := by
  unfold readNumber
  simp only [takeWhile_append_end hds hbs.1, List.drop_left]
  split
  · next rest =>
    have hnone : rest.takeWhile Char.isDigit = [] :=
      takeWhile_append_end (List.forall_mem_nil _) (hbs.2 rest rfl)
    rw [hnone]
    rfl
  · rfl

/-- With a point and digits behind, digits are a double. -/
theorem readNumber_fraction {ds es bs : List Char} (hds : ∀ c ∈ ds, c.isDigit = true)
    (hes : ∀ c ∈ es, c.isDigit = true) (hne : es ≠ []) (hbs : headIs Char.isDigit bs = false) :
    readNumber (ds ++ '.' :: es ++ bs) =
      (.float (Decimal.nearest (Decimal.digitsValue (ds ++ es)) (-es.length)),
        (ds ++ '.' :: es).length) := by
  have hpoint : headIs Char.isDigit ('.' :: (es ++ bs)) = false := rfl
  unfold readNumber
  rw [List.append_assoc, List.cons_append]
  simp only [takeWhile_append_end hds hpoint, List.drop_left, takeWhile_append_end hes hbs,
    List.isEmpty_eq_false_iff.2 hne, Bool.false_eq_true, if_false, List.length_append,
    List.length_cons]
  rw [Nat.add_assoc, Nat.add_comm 1]

theorem isDigit_toDigits {n : Nat} : ∀ c ∈ Nat.toDigits 10 n, c.isDigit = true :=
  fun _ hc => Nat.isDigit_of_mem_toDigits (by decide) (by decide) hc

theorem headIs_toDigits (n : Nat) : headIs Char.isDigit (Nat.toDigits 10 n) = true := by
  cases hds : Nat.toDigits 10 n with
  | nil => exact absurd hds Nat.toDigits_ne_nil
  | cons c cs => exact isDigit_toDigits c (hds ▸ List.mem_cons_self)

/-- The digits of a number have the value of the number. -/
theorem digitsValue_toDigits (n : Nat) : Decimal.digitsValue (Nat.toDigits 10 n) = n := by
  have h := Nat.ofDigitChars_toDigits (n := n) (show 1 < 10 by decide) (Nat.le_refl 10)
  simpa only [Nat.ofDigitChars, Decimal.digitsValue, Nat.mul_comm] using h

theorem leads_toDigits (n : Nat) {bs : List Char} (hbs : EndsNumber bs) :
    (readNumber.ofWhole (Nat.toDigits 10 n)).Leads (Nat.toDigits 10 n) bs :=
  leads_of_readNumber (headIs_toDigits n) (readNumber_digits isDigit_toDigits hbs)

theorem leads_fraction (m n : Nat) {bs : List Char} (hbs : headIs Char.isDigit bs = false) :
    ∃ x, (Token.float x).Leads (Nat.toDigits 10 m ++ '.' :: Nat.toDigits 10 n) bs := by
  refine ⟨_, leads_of_readNumber ?_
    (readNumber_fraction isDigit_toDigits isDigit_toDigits Nat.toDigits_ne_nil hbs)⟩
  have hhead := headIs_toDigits m
  cases hds : Nat.toDigits 10 m with
  | nil => exact absurd hds Nat.toDigits_ne_nil
  | cons c cs =>
    rw [hds] at hhead
    exact hhead

theorem int64?_toInt (n : Int64) : Decimal.int64? n.toInt = some n := by
  rw [Decimal.int64?, if_pos ⟨n.minValue_le_toInt, n.toInt_le⟩, Int64.ofInt_toInt]

theorem intText_of_nonneg {n : Int64} (h : 0 ≤ n) :
    (Value.intText n).toList = Nat.toDigits 10 n.toInt.toNat := by
  have hvalue : (n.toInt.toNat : Int) = n.toInt := Int.toNat_of_nonneg (Int64.le_iff_toInt_le.1 h)
  rw [Value.intText, ← hvalue]
  exact String.toList_ofList

/-- The digits of a whole number are read as the number. -/
theorem leads_int {n : Int64} (h : 0 ≤ n) {bs : List Char} (hbs : EndsNumber bs) :
    (Token.int n).Leads (Value.intText n).toList bs := by
  have hvalue : (n.toInt.toNat : Int) = n.toInt := Int.toNat_of_nonneg (Int64.le_iff_toInt_le.1 h)
  have hwhole : readNumber.ofWhole (Nat.toDigits 10 n.toInt.toNat) = .int n := by
    unfold readNumber.ofWhole
    rw [digitsValue_toDigits, hvalue, int64?_toInt]
  rw [intText_of_nonneg h, ← hwhole]
  exact leads_toDigits _ hbs

/-! ### Marks -/

theorem leads_minus (bs : List Char) : (Token.mark .minus).Leads ['-'] bs := ⟨_, _, rfl, rfl⟩

theorem leads_openBracket (bs : List Char) : (Token.mark .openBracket).Leads ['['] bs :=
  ⟨_, _, rfl, rfl⟩

theorem leads_closeBracket (bs : List Char) : (Token.mark .closeBracket).Leads [']'] bs :=
  ⟨_, _, rfl, rfl⟩

/-- Three points would be an ellipsis. -/
theorem leads_dot {bs : List Char} (h : headIs (· == '.') bs = false) :
    (Token.mark .dot).Leads ['.'] bs := by
  refine ⟨_, _, rfl, ?_⟩
  cases bs with
  | nil => rfl
  | cons c cs =>
    have hc : '.' ≠ c := fun hc => by
      rw [← hc] at h
      cases h
    have hstart : Mark.start? ('.' :: c :: cs) = some .dot := by
      simp [Mark.start?, Mark.all, Mark.text, startsWith, after?, hc]
    unfold readToken
    rw [List.nil_append, hstart]
    rfl

/-! ### What the grammar makes of a token -/

/-- The words that are no variables, where an operand can begin. -/
def takenWords : List String := ["true", "false", "null", "undefined", "not"]

theorem ofWord_of_not_mem {w : String} (h : w ∉ takenWords) :
    ofWord w = .variable w ∧ UnaryOp.ofToken? (.word w) = none := by
  simp only [takenWords, List.mem_cons, List.not_mem_nil, or_false, not_or] at h
  simp [ofWord, UnaryOp.ofToken?, h]

section
variable {t : Token} {target e : Expr} {ts : List Token}

/-- A token that is a target by itself, with accesses up to the end. -/
theorem derives_choice_of_access (hop : UnaryOp.ofToken? t = none) (hatom : t.atom? = some target)
    (h : Derives (.access target) ts e []) : Derives .choice (t :: ts) e [] := by
  have hunary : Derives .unary (t :: ts) e [] := by
    refine .simple (fun u hu => ?_) (.atom hatom) h
    cases hu
    exact hop
  exact .plain (.operators hunary (.noOperand nofun)) nofun

/-- The other way round, an expression that begins with such a token goes on with accesses. -/
theorem access_of_derives_choice (hop : UnaryOp.ofToken? t = none) (hatom : t.atom? = some target)
    (h : Derives .choice (t :: ts) e []) :
    ∃ e' rest, Derives (.access target) ts e' rest := by
  have hoperators : ∃ e' rest, Derives (.operators 0) (t :: ts) e' rest := by
    cases h with
    | plain operators _ => exact ⟨_, _, operators⟩
    | choose operators _ _ => exact ⟨_, _, operators⟩
  obtain ⟨e', rest, operators⟩ := hoperators
  cases operators with
  | operators first _ =>
    cases first with
    | unary operator _ =>
      rw [hop] at operator
      cases operator
    | simple _ primary others =>
      cases primary with
      | atom hatom' =>
        cases hatom.symm.trans hatom'
        exact ⟨_, _, others⟩
      | parentheses => cases hatom
      | list => cases hatom
      | map => cases hatom

/-- A text of one token. -/
theorem read_of_leads {cs : List Char} (hop : UnaryOp.ofToken? t = none)
    (hatom : t.atom? = some e) (h : t.Leads cs []) : read cs = .ok e :=
  read_eq_ok_iff_lexes.2
    ⟨[t], h.lexes_singleton, derives_choice_of_access hop hatom (.noAccess nofun)⟩

/-- A word that is not taken is read as a variable. -/
theorem read_variable {w : String} (h : isWord w = true) (hfree : w ∉ takenWords) :
    read w.toList = .ok (.variable w) := by
  obtain ⟨hvariable, hop⟩ := ofWord_of_not_mem hfree
  exact read_of_leads hop (congrArg some hvariable) (leads_word h rfl)

end

end Trellis.Expr
