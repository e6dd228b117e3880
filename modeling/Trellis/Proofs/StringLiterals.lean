import Trellis.Document.Statement
import Trellis.Proofs.Leading
import Trellis.Proofs.Steps

/-!
# `Trellis.Proofs.StringLiterals`: two readers of string literals

A text in quotes is read in two places. `quotedText?` decides whether the value of an attribute is
fixed text: it counts bytes, and wants the closing quote to be the last of them. The tokenizer of
expressions counts characters, hands out the text as a token, and goes on behind it.

* `closedText?_eq_some_iff`: behind the opening quote, the first reader succeeds exactly if the second one
  uses up everything, and both read the same text.
* `quotedText?_eq_some_iff`: so a text is one string literal for both or for none. Only blanks
  around it would make a difference, as the tokenizer passes over them.
* `read_eq_literal_iff`: a text that begins with a quote is the expression of a string literal only
  if that is all there is, as an expression grows with everything that follows an operand.
* `trim_of_attributeList`: the values in attribute lists are trimmed.

`attributeOf_literal` puts this together. An attribute has fixed text exactly if the tokenizer finds
one string literal and nothing else in its value, and then the value would have evaluated to the
same text.
-/

set_option autoImplicit false

namespace Trellis

open Source Text

/-! ### The text behind an opening quote -/

theorem closedText?_cons {q c : Char} (hc : c ≠ '\\') (size offset : Nat) (cs : List Char) :
    closedText? q size offset (c :: cs) =
      if c = q then if offset + 2 = size then some [] else none
      else (closedText? q size (offset + c.utf8Size) cs).map (c :: ·) := by
  rw [closedText?]
  · exact fun _ _ h => absurd h hc
  · exact fun h => absurd h hc

/-- Only the empty text has no bytes. -/
theorem byteLength_eq_zero_iff (cs : List Char) : byteLength cs = 0 ↔ cs = [] := by
  cases cs with
  | nil => exact ⟨fun _ => rfl, fun _ => rfl⟩
  | cons c cs =>
    have hc := c.utf8Size_pos
    simp only [byteLength, reduceCtorEq, iff_false]
    omega

/-- A quote is one byte. -/
theorem utf8Size_of_isQuote {q : Char} (h : isQuote q = true) : q.utf8Size = 1 := by
  rw [isQuote, Bool.or_eq_true, beq_iff_eq, beq_iff_eq] at h
  rcases h with rfl | rfl <;> rfl

/-- **The closing quote is the last byte of all if nothing is left behind it.** The opening quote and
the bytes that were read make up what the whole text has more than what is still to be read. -/
theorem closedText?_eq_some_iff {q : Char} (hq : isQuote q = true) {cs text : List Char}
    {size offset : Nat} (hsize : size = 1 + offset + byteLength cs) :
    closedText? q size offset cs = some text ↔ Expr.readString? q cs = some (text, cs.length) := by
  induction cs using Expr.readStringInduction generalizing offset text with
  | nil =>
    constructor <;>
    · intro h
      cases h
  | pair c cs ih =>
    have hslash : ('\\' : Char).utf8Size = 1 := rfl
    have hbytes : size = 1 + (offset + 1 + c.utf8Size) + byteLength cs := by
      simp only [byteLength, hslash] at hsize
      omega
    rw [closedText?, Expr.readString?, Option.map_eq_some_iff, Option.map_eq_some_iff]
    constructor
    · rintro ⟨inner, hinner, rfl⟩
      exact ⟨(inner, cs.length), (ih hbytes).mp hinner, rfl⟩
    · rintro ⟨⟨inner, n⟩, hinner, heq⟩
      obtain ⟨rfl, hn⟩ := Prod.mk.inj heq
      obtain rfl : n = cs.length := Nat.add_right_cancel hn
      exact ⟨inner, (ih hbytes).mpr hinner, rfl⟩
  | backslash =>
    constructor <;>
    · intro h
      cases h
  | plain c cs hc ih =>
    rw [closedText?_cons hc, Expr.readString?_cons hc]
    split
    · next hclose =>
      -- The quote is the last byte if no bytes are left, and then no characters are left.
      have hend : offset + 2 = size ↔ cs = [] := by
        rw [← byteLength_eq_zero_iff]
        simp only [byteLength, hclose, utf8Size_of_isQuote hq] at hsize
        omega
      cases cs with
      | nil => simp [hend]
      | cons d cs => simp [hend]
    · have hbytes : size = 1 + (offset + c.utf8Size) + byteLength cs := by
        simp only [byteLength] at hsize
        omega
      rw [Option.map_eq_some_iff, Option.map_eq_some_iff]
      constructor
      · rintro ⟨inner, hinner, rfl⟩
        exact ⟨(inner, cs.length), (ih hbytes).mp hinner, rfl⟩
      · rintro ⟨⟨inner, n⟩, hinner, heq⟩
        obtain ⟨rfl, hn⟩ := Prod.mk.inj heq
        obtain rfl : n = cs.length := Nat.add_right_cancel hn
        exact ⟨inner, (ih hbytes).mpr hinner, rfl⟩

/-- A text in quotes is what the reader of expressions reads behind the first quote, if it uses up
everything. -/
theorem quotedText?_cons_eq_some_iff {q : Char} (hq : isQuote q = true) {cs text : List Char} :
    quotedText? (q :: cs) = some text ↔ Expr.readString? q cs = some (text, cs.length) := by
  have hsize : byteLength (q :: cs) = 1 + 0 + byteLength cs := by
    rw [byteLength, utf8Size_of_isQuote hq]
  rw [quotedText?, if_pos hq]
  exact closedText?_eq_some_iff hq hsize

/-- What is no text in quotes does not begin with a quote, or a quote is missing. -/
theorem quotedText?_of_not {q : Char} (hq : isQuote q = false) (cs : List Char) :
    quotedText? (q :: cs) = none := by
  rw [quotedText?, if_neg (ne_true_of_eq_false hq)]

/-! ### One token -/

namespace Expr

/-- No tokens, only blanks. -/
theorem isSpace_of_lexes_nil {cs : List Char} (h : Lexes cs []) : ∀ c ∈ cs, isSpace c = true := by
  generalize hts : ([] : List Token) = ts at h
  induction h with
  | nil => nofun
  | space space _ ih => exact List.forall_mem_cons.2 ⟨space, ih hts⟩
  | token => cases hts

/-- A text without tokens that does not end with a blank is empty. -/
theorem eq_nil_of_lexes_nil {cs : List Char} (h : Lexes cs [])
    (hend : ∀ c ∈ cs.getLast?, isSpace c = false) : cs = [] := by
  by_contra hne
  have hlast := List.getLast?_eq_some_getLast hne
  have hspace := isSpace_of_lexes_nil h _ (List.getLast_mem hne)
  rw [hend _ hlast] at hspace
  cases hspace

/-- A string literal begins with a quote. -/
theorem isQuote_of_readToken {offset n : Nat} {c : Char} {cs : List Char} {s : String}
    (h : readToken offset c cs = .ok (some (.str s), n)) : isQuote c = true := by
  unfold readToken at h
  split at h
  · cases h
  · split at h
    · -- A number is a token of its own kind.
      exfalso
      simp only [readNumber, readNumber.ofWhole] at h
      grind
    · split at h
      · next hquote => exact hquote
      · split at h
        · cases h
        · split at h <;> cases h

/-- The first token of a text that begins with a quote is a string literal. -/
theorem exists_of_lexes_quote {q : Char} (hq : isQuote q = true) {cs : List Char}
    {ts : List Token} (h : Lexes (q :: cs) ts) :
    ∃ text n later, readString? q cs = some (text, n) ∧ ts = .str (String.ofList text) :: later ∧
      Lexes (cs.drop n) later := by
  cases h with
  | space hspace =>
    rw [isSpace_eq_false (isBlank_of_quote hq)] at hspace
    cases hspace
  | token first later =>
    rw [readToken_quote hq] at first
    split at first
    · next hstring =>
      cases first
      exact ⟨_, _, _, hstring, rfl, later⟩
    · cases first

/-- **A text in quotes is one token if the literal uses up everything behind the opening quote.** -/
theorem lexes_quote_iff {q : Char} (hq : isQuote q = true) {cs : List Char}
    (hend : ∀ c ∈ (q :: cs).getLast?, isSpace c = false) (s : String) :
    Lexes (q :: cs) [.str s] ↔ readString? q cs = some (s.toList, cs.length) := by
  constructor
  · intro h
    obtain ⟨text, n, later, hstring, heq, hlater⟩ := exists_of_lexes_quote hq h
    cases heq
    -- Nothing but blanks would be left behind the literal, and the text does not end with one.
    have hleft : cs.drop n = [] := by
      refine eq_nil_of_lexes_nil hlater fun c hc => hend c ?_
      have hshort : ¬ cs.length ≤ n := by
        intro hle
        rw [List.drop_eq_nil_of_le hle] at hc
        cases hc
      rw [List.getLast?_drop, if_neg hshort] at hc
      rw [List.getLast?_cons, Option.mem_def.mp hc]
      rfl
    have hlength : n = cs.length :=
      Nat.le_antisymm (length_of_readString? hstring) (List.drop_eq_nil_iff.mp hleft)
    rw [hstring, hlength, String.toList_ofList]
  · intro h
    refine .token (n := cs.length + 1) ?_ ?_
    · rw [readToken_quote hq, h]
      simp only [String.ofList_toList]
    · rw [Nat.add_sub_cancel, List.drop_length]
      exact .nil

/-- The same with the place of the token. -/
theorem lexemes_quote_iff {q : Char} (hq : isQuote q = true) {cs : List Char}
    (hend : ∀ c ∈ (q :: cs).getLast?, isSpace c = false) (s : String) :
    lexemes (q :: cs) = .ok [⟨.str s, 0⟩] ↔ Lexes (q :: cs) [.str s] := by
  constructor
  · exact fun h => lexes_of_scan h
  · intro h
    have hstring := (lexes_quote_iff hq hend s).mp h
    obtain ⟨offset, hdrop⟩ := scan_drop (0 + q.utf8Size) cs.length cs
    rw [lexemes, Lexeme.scan, readToken_quote hq, hstring]
    simp only [Nat.add_sub_cancel, hdrop, List.drop_length, Lexeme.scan, String.ofList_toList]

/-! ### The expression of a string literal -/

/-- Is the expression a literal? -/
def isLiteral : Expr → Bool
  | .literal _ => true
  | _ => false

/-- With what follows it, an operand or a target is part of a greater expression. -/
def Form.Extends : (form : Form) → form.Result → List Token → List Token → Prop
  | .operands _ left, e, ts, rest => (e = left ∧ ts = rest) ∨ e.isLiteral = false
  | .access target, e, ts, rest => (e = target ∧ ts = rest) ∨ e.isLiteral = false
  | _, _, _, _ => True

/-- Nothing turns a literal that comes with something behind it into a literal again. -/
theorem Derives.extends {form : Form} {ts rest : List Token} {result : form.Result}
    (h : Derives form ts result rest) : form.Extends result ts rest := by
  induction h with
  | noOperand _ => exact .inl ⟨rfl, rfl⟩
  | operand _ _ _ _ _ ihothers =>
    rcases ihothers with ⟨rfl, _⟩ | hgreater
    · exact .inr rfl
    · exact .inr hgreater
  | noAccess _ => exact .inl ⟨rfl, rfl⟩
  | member _ ih =>
    rcases ih with ⟨rfl, _⟩ | hgreater
    · exact .inr rfl
    · exact .inr hgreater
  | place _ ih =>
    rcases ih with ⟨rfl, _⟩ | hgreater
    · exact .inr rfl
    · exact .inr hgreater
  | item _ _ _ ihothers =>
    rcases ihothers with ⟨rfl, _⟩ | hgreater
    · exact .inr rfl
    · exact .inr hgreater
  | call _ _ _ ihothers =>
    rcases ihothers with ⟨rfl, _⟩ | hgreater
    · exact .inr rfl
    · exact .inr hgreater
  | _ => trivial

/-- A literal that begins with a string literal is that string literal, and nothing follows. -/
theorem Derives.eq_of_literal {s : String} {v : Value} {ts : List Token}
    (h : Derives .choice (.str s :: ts) (.literal v) []) : v = .str s ∧ ts = [] := by
  cases h with
  | plain operators _ =>
    cases operators with
    | operators first others =>
      rcases others.extends with ⟨rfl, rfl⟩ | hgreater
      · cases first with
        | simple _ primary access =>
          cases primary with
          | atom hatom =>
            cases hatom
            rcases access.extends with ⟨hsame, rfl⟩ | hgreater
            · cases hsame
              exact ⟨rfl, rfl⟩
            · cases hgreater
      · cases hgreater

/-- **A text that begins with a quote is the expression of a string literal if it is one token.** -/
theorem read_eq_literal_iff {q : Char} (hq : isQuote q = true) {cs : List Char} (s : String) :
    read (q :: cs) = .ok (.literal (.str s)) ↔ Lexes (q :: cs) [.str s] := by
  rw [read_eq_ok_iff_lexes]
  constructor
  · rintro ⟨ts, hlexes, hderives⟩
    obtain ⟨text, n, later, -, rfl, -⟩ := exists_of_lexes_quote hq hlexes
    obtain ⟨heq, rfl⟩ := hderives.eq_of_literal
    cases heq
    exact hlexes
  · intro h
    exact ⟨[.str s], h, derives_choice_of_access rfl rfl (.noAccess nofun)⟩

end Expr

/-- **A text is one string literal for both readers, or for none.** -/
theorem quotedText?_eq_some_iff {cs : List Char}
    (hstart : ∀ c ∈ cs.head?, Expr.isSpace c = false)
    (hend : ∀ c ∈ cs.getLast?, Expr.isSpace c = false) (s : String) :
    quotedText? cs = some s.toList ↔ Expr.lexemes cs = .ok [⟨.str s, 0⟩] := by
  cases cs with
  | nil => exact ⟨nofun, nofun⟩
  | cons q cs =>
    cases hq : isQuote q with
    | true =>
      rw [quotedText?_cons_eq_some_iff hq, Expr.lexemes_quote_iff hq hend,
        Expr.lexes_quote_iff hq hend]
    | false =>
      rw [quotedText?_of_not hq]
      refine ⟨nofun, fun h => ?_⟩
      -- The first token of the text is no string literal, as it does not begin with a quote.
      cases hread : Expr.readToken 0 q cs with
      | error e =>
        rw [Expr.lexemes, Expr.Lexeme.scan, hread] at h
        cases h
      | ok r =>
        obtain ⟨token?, n⟩ := r
        rw [Expr.lexemes, Expr.Lexeme.scan, hread] at h
        dsimp only at h
        cases hscan : Expr.Lexeme.scan (0 + q.utf8Size) (n - 1) cs with
        | error e =>
          rw [hscan] at h
          cases h
        | ok rest =>
          rw [hscan] at h
          cases token? with
          | some t =>
            cases h
            rw [Expr.isQuote_of_readToken hread] at hq
            cases hq
          | none =>
            have hspace : Expr.isSpace q = true := by
              have hspace' := hread
              grind [Expr.readToken]
            rw [hstart q rfl] at hspace
            cases hspace

/-! ### The values of attributes -/

namespace Source

theorem head?_trim (cs : List Char) : ∀ c ∈ (trim cs).head?, isBlank c = false := by
  intro c hc
  obtain ⟨rest, hrest⟩ := trimEnd_isPrefix (trimStart cs)
  have hstart : (trimStart cs).head? = some c := by
    rw [← hrest, List.head?_append, show (trimEnd (trimStart cs)).head? = some c from hc]
    rfl
  have hnot := List.head?_dropWhile_not isBlank cs
  rw [show (cs.dropWhile isBlank).head? = some c from hstart] at hnot
  simpa using hnot

theorem getLast?_trimEnd (cs : List Char) : ∀ c ∈ (trimEnd cs).getLast?, isBlank c = false := by
  induction cs with
  | nil => nofun
  | cons d cs ih =>
    intro c hc
    rw [trimEnd] at hc
    split at hc
    · split at hc
      · cases hc
      · next hd =>
        cases hc
        exact eq_false_of_ne_true hd
    · next hne =>
      refine ih c ?_
      cases hrest : trimEnd cs with
      | nil => exact absurd hrest hne
      | cons e rest =>
        rw [hrest, List.getLast?_cons_cons] at hc
        exact hc

/-- The value of an attribute is trimmed. -/
theorem trim_of_valuePart {cs rest value : List Char} {escaped : Bool}
    (h : valuePart cs = .ok (some value, escaped, rest)) : ∃ text, value = trim text := by
  have hvalue {start : List Char} {p : List Char × List Char} (hp : attributeValue start = .ok p) :
      ∃ text, p.1 = trim text := by
    unfold attributeValue at hp
    split at hp
    · cases hp
    · split at hp
      · cases hp
      · dsimp only at hp
        split at hp
        · cases hp
        · cases hp
          exact ⟨_, rfl⟩
  unfold valuePart at h
  split at h
  · obtain ⟨p, hp, heq⟩ := of_map_eq_ok h
    cases heq
    exact hvalue hp
  · obtain ⟨p, hp, heq⟩ := of_map_eq_ok h
    cases heq
    exact hvalue hp
  · cases h

/-- **The values in an attribute list are trimmed.** -/
theorem trim_of_attributeList {cs rest : List Char} {attributes : List RawAttribute}
    (h : attributeList cs = .ok (attributes, rest)) {raw : RawAttribute} (hraw : raw ∈ attributes)
    {src : String} (hsrc : raw.value = some src) : ∃ text, src.toList = trim text := by
  fun_induction attributeList cs generalizing attributes rest with
  | case1 => cases h
  | case2 =>
    cases h
    cases hraw
  | case3 => cases h
  | case4 => cases h
  | case5 => cases h
  | case6 _ _ _ _ _ _ hv _ _ hmore _ _ _ _ ih =>
    cases h
    rcases List.mem_cons.mp hraw with rfl | hlater
    · obtain ⟨v, rfl, rfl⟩ := Option.map_eq_some_iff.mp hsrc
      rw [String.toList_ofList]
      exact trim_of_valuePart hv
    · exact ih hmore hlater

end Source

/-- The expression of a string literal has its text as value. -/
theorem evaluate_of_lexes {src s : String} (h : Expr.Lexes src.toList [.str s]) :
    ∃ e, Expression.compile src = .ok e ∧ ∀ vars, e.evaluate vars = .ok (.str s) := by
  have hread : Expr.read src.toList = .ok (.literal (.str s)) :=
    Expr.read_eq_ok_iff_lexes.2 ⟨[.str s], h, Expr.derives_choice_of_access rfl rfl (.noAccess nofun)⟩
  refine ⟨⟨src, .literal (.str s), hread⟩, ?_, fun vars => rfl⟩
  unfold Expression.compile
  split
  · next tree htree =>
    rw [hread] at htree
    cases htree
    rfl
  · next fault hfault =>
    rw [hread] at hfault
    cases hfault

/-- **Fixed text is what the tokenizer takes for one string literal.** In a text that begins with a
quote and does not end with a blank, the two readers find the same string literal or none, and the
whole text is the expression of that literal. An attribute has fixed text exactly if its value is
one string literal as an expression, and evaluating this expression gives the same text. -/
theorem attributeOf_literal :
    (∀ src s : String, headIs isQuote src.toList = true →
      (∀ c ∈ src.toList.getLast?, Expr.isSpace c = false) →
      (quotedText? src.toList = some s.toList ↔ Expr.lexemes src.toList = .ok [⟨.str s, 0⟩]) ∧
      (quotedText? src.toList = some s.toList ↔
        Expr.read src.toList = .ok (.literal (.str s)))) ∧
    (∀ (cs rest : List Char) (attributes : List RawAttribute) (raw : RawAttribute) (src : String),
      attributeList cs = .ok (attributes, rest) → raw ∈ attributes → raw.value = some src →
      (∀ s, Expr.lexemes src.toList = .ok [⟨.str s, 0⟩] →
        attributeOf raw = (attributeOf.interpolateQuoted s.toList).map
          (fun spans => ⟨raw.name, .spans spans, raw.escaped⟩) ∧
        ∃ e, Expression.compile src = .ok e ∧ ∀ vars, e.evaluate vars = .ok (.str s)) ∧
      ((∀ s, Expr.lexemes src.toList ≠ .ok [⟨.str s, 0⟩]) →
        attributeOf raw =
          (compileText src).map fun e => ⟨raw.name, .expression e, raw.escaped⟩)) := by
  constructor
  · intro src s hquote hend
    cases hsrc : src.toList with
    | nil =>
      rw [hsrc] at hquote
      cases hquote
    | cons q cs =>
      rw [hsrc] at hquote hend
      have hq : isQuote q = true := hquote
      have hliteral : quotedText? (q :: cs) = some s.toList ↔
          Expr.readString? q cs = some (s.toList, cs.length) := quotedText?_cons_eq_some_iff hq
      have htokens := Expr.lexes_quote_iff hq hend s
      constructor
      · rw [hliteral, Expr.lexemes_quote_iff hq hend, htokens]
      · rw [hliteral, Expr.read_eq_literal_iff hq, htokens]
  · intro cs rest attributes raw src hlist hraw hsrc
    obtain ⟨text, htrim⟩ := trim_of_attributeList hlist hraw hsrc
    have hagree (s : String) :
        quotedText? src.toList = some s.toList ↔ Expr.lexemes src.toList = .ok [⟨.str s, 0⟩] := by
      refine quotedText?_eq_some_iff (fun c hc => ?_) (fun c hc => ?_) s
      · rw [htrim] at hc
        exact Expr.isSpace_eq_false (head?_trim text c hc)
      · rw [htrim] at hc
        exact Expr.isSpace_eq_false (getLast?_trimEnd (trimStart text) c hc)
    constructor
    · intro s hs
      refine ⟨?_, evaluate_of_lexes (Expr.lexes_of_scan hs)⟩
      simp only [attributeOf, hsrc, (hagree s).mpr hs]
    · intro hnone
      have hquoted : quotedText? src.toList = none := by
        refine Option.eq_none_iff_forall_ne_some.mpr fun text htext => hnone (String.ofList text) ?_
        rw [← hagree, String.toList_ofList]
        exact htext
      simp only [attributeOf, hsrc, hquoted]

/-- Two attributes: a literal with an escaped quote and a letter of two bytes, and a sum that begins
and ends like a literal. -/
def titleAndSum : String := "title='it\\'s é' sum='a'+'b')"

theorem attributeOf_literal_titleAndSum :
    Expr.lexemes "'it\\'s é'".toList = .ok [⟨.str "it's é", 0⟩] ∧
    Expr.read "'it\\'s é'".toList = .ok (.literal (.str "it's é")) ∧
    ∃ title sum, attributeList titleAndSum.toList = .ok ([title, sum], []) ∧
      attributeOf title = .ok ⟨"title", .spans [.literal "it's é"], true⟩ ∧
      (∃ e, Expression.compile "'it\\'s é'" = .ok e ∧ ∀ vars, e.evaluate vars = .ok (.str "it's é")) ∧
      attributeOf sum =
        (compileText "'a'+'b'").map fun e => ⟨"sum", .expression e, true⟩ := by
  have hquoted : quotedText? "'it\\'s é'".toList = some "it's é".toList := by decide
  have hend : ∀ c ∈ "'it\\'s é'".toList.getLast?, Expr.isSpace c = false := by
    have hlast : "'it\\'s é'".toList.getLast? = some '\'' := by decide
    intro c hc
    rw [hlast] at hc
    cases hc
    rfl
  obtain ⟨htokens, htree⟩ := attributeOf_literal.1 "'it\\'s é'" "it's é" rfl hend
  have hcount : (Expr.lexemes "'a'+'b'".toList).toOption.map List.length = some 3 := by
    decide +kernel
  have hlast : attributeList " sum='a'+'b')".toList = .ok ([⟨"sum", some "'a'+'b'", true⟩], []) := by
    have hname : attributeName "sum='a'+'b')".toList = .ok ("sum".toList, "='a'+'b')".toList) := rfl
    have hvalue : valuePart "='a'+'b')".toList = .ok (some "'a'+'b'".toList, true, [')']) := rfl
    exact attributeList_of_attribute (c := 's') rfl (by decide) hname hvalue
      (attributeList_of_closed rfl)
  have hlist : attributeList titleAndSum.toList =
      .ok ([⟨"title", some "'it\\'s é'", true⟩, ⟨"sum", some "'a'+'b'", true⟩], []) := by
    have hname : attributeName titleAndSum.toList =
        .ok ("title".toList, "='it\\'s é' sum='a'+'b')".toList) := rfl
    have hvalue : valuePart "='it\\'s é' sum='a'+'b')".toList =
        .ok (some "'it\\'s é'".toList, true, " sum='a'+'b')".toList) := rfl
    exact attributeList_of_attribute (c := 't') rfl (by decide) hname hvalue hlast
  obtain ⟨hfixed, -⟩ := attributeOf_literal.2 _ _ _ _ _ hlist List.mem_cons_self rfl
  obtain ⟨-, hcomputed⟩ :=
    attributeOf_literal.2 _ _ _ _ _ hlist (List.mem_cons_of_mem _ List.mem_cons_self) rfl
  obtain ⟨htitle, hvalue⟩ := hfixed "it's é" (htokens.mp hquoted)
  refine ⟨htokens.mp hquoted, htree.mp hquoted, _, _, hlist, htitle, hvalue, hcomputed fun s hs => ?_⟩
  -- The value has more than one token.
  rw [hs] at hcount
  cases hcount

end Trellis
