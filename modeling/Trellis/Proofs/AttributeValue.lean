import Mathlib
import Trellis.Proofs.LineEnds
import Trellis.Proofs.Nesting
import Trellis.Proofs.Reference
import Trellis.Source.Layout

/-!
# `Trellis.Proofs.AttributeValue`: expressions as values of attributes

The reader of an attribute value does not know where an expression ends. It goes on until
a comma or a bracket stops it, and ends at a blank that no operator sign stands beside.
`JoinedByOperators` says that an expression has no such blank outside quotes and brackets.

* `readValue_of_joined`: such an expression is read up to the parenthesis behind it. The
  induction is on what is still to be read; `Trellis.Proofs.Nesting` says that nothing
  inside the expression stops the reader, and leads it back to where it began.
* `attributeList_of_joined`: the list of one attribute with that value.
* `items_of_attribute`: the template that is one tag with this list has the four items
  that it should have, with the expression as it was written.

The last part follows a line through the readers around the value, with one lemma for
each: the list, the head of the tag, the statement, and the template.
-/

set_option autoImplicit false

namespace Trellis

open Text

namespace Source

/-! ### The end of a value -/

/-- The first character of a text that is not blank. -/
def firstInk (cs : List Char) : Option Char := (trimStart cs).head?

/-- The last character of a text that is not blank. -/
def lastInk (cs : List Char) : Option Char := firstInk cs.reverse

/-- Every blank outside quotes and brackets stands beside an operator sign: the last
character before it that is not blank is one, or the first behind it. -/
def JoinedByOperators (e : List Char) : Prop :=
  ∀ i (h : i < e.length), (Nesting.outside.after (e.take i)).isOutside = true →
    isBlank e[i] = true →
    (lastInk (e.take i)).any isOperator = true ∨
      (firstInk (e.drop (i + 1))).any isOperator = true

instance (e : List Char) : Decidable (JoinedByOperators e) :=
  inferInstanceAs (Decidable (∀ i (_ : i < e.length), _ → _ → _))

theorem lastInk_append_singleton (cs : List Char) (c : Char) :
    lastInk (cs ++ [c]) = if isBlank c then lastInk cs else some c := by
  rw [lastInk, firstInk, List.reverse_append, List.reverse_singleton, List.singleton_append,
    trimStart, List.dropWhile_cons]
  split <;> rfl

/-- What the reader of a value looks for behind a blank: an operator sign, which is not
the parenthesis behind the value. -/
theorem operatorFollows_of_line {c : Char} (hc : isBlank c = true) {v : List Char}
    (hline : '\n' ∉ c :: v) (tail : List Char) :
    operatorFollows (c :: (v ++ ')' :: tail)) = (firstInk v).any isOperator := by
  have hcurrent : currentLine (c :: (v ++ ')' :: tail)) =
      (c :: v) ++ currentLine (')' :: tail) := by
    rw [currentLine, ← List.cons_append, List.takeWhile_append_of_pos]
    · rfl
    · intro d hd
      simpa using fun heq : d = '\n' => hline (heq ▸ hd)
  rw [operatorFollows, hcurrent, List.cons_append, trimStart, List.dropWhile_cons_of_pos hc,
    List.dropWhile_append, firstInk, trimStart]
  cases v.dropWhile isBlank <;> rfl

/-- A character that does not end the value moves the reader on. -/
theorem readValue_cons {n : Nesting} {last : Option Char} {value : List Char} {c : Char}
    {cs : List Char} (hline : c ≠ '\n')
    (hpass : ¬(n.isOutside && (closesBracket c || c == ',')) = true)
    (hblank : n.isOutside = true → isBlank c = true →
      last.any isOperator = true ∨ operatorFollows (c :: cs) = true) :
    readValue n last value (c :: cs) =
      readValue (n.next c) (if isBlank c then last else some c) (c :: value) cs := by
  rw [readValue, Nesting.next]
  cases hquote : n.quote with
  | some q => simp [hline]
  | none =>
    simp only [Nesting.isOutside, hquote, Option.isNone_none, Bool.and_true] at hpass hblank
    dsimp only
    rw [if_neg (by simpa using hline)]
    split
    · rfl
    split
    · rfl
    split
    · next hclose => grind
    · grind

/-- A reader that has read `u` of an expression `u ++ v` reads the rest of it, up to the
closing parenthesis behind it. -/
theorem readValue_of_joined {e : List Char} (hline : '\n' ∉ e) (hjoined : JoinedByOperators e)
    (tail : List Char) {u v : List Char} (he : e = u ++ v)
    (hpass : (Nesting.outside.after u).pass? v = some .outside) :
    readValue (Nesting.outside.after u) (lastInk u) u.reverse (v ++ ')' :: tail) =
      .ok (e, ')' :: tail) := by
  induction v generalizing u with
  | nil =>
    rw [Nesting.pass?, Option.some.injEq] at hpass
    rw [hpass, he]
    simp [readValue, Nesting.outside, isQuote, opensBracket, closesBracket]
  | cons c v ih =>
    have hu : e = (u ++ [c]) ++ v := by simpa using he
    have hlineV : '\n' ∉ c :: v :=
      fun hmem => hline (by rw [he]; exact List.mem_append_right u hmem)
    have hc : c ≠ '\n' := fun heq => hlineV (heq ▸ List.mem_cons_self)
    have hnext : Nesting.outside.after (u ++ [c]) = (Nesting.outside.after u).next c := by
      simp [Nesting.after]
    -- A blank that could end the value is held by an operator, on one side or the other.
    have hblank : (Nesting.outside.after u).isOutside = true → isBlank c = true →
        (lastInk u).any isOperator = true ∨
          operatorFollows (c :: (v ++ ')' :: tail)) = true := by
      intro hout hb
      have := hjoined u.length (by simp [he]) (by simpa [he] using hout) (by simpa [he] using hb)
      rw [operatorFollows_of_line hb hlineV]
      simpa [he] using this
    rw [Nesting.pass?] at hpass
    split at hpass
    · cases hpass
    next hstep =>
    have ih := ih hu (by rw [hnext]; exact hpass)
    rw [hnext, lastInk_append_singleton, List.reverse_append, List.reverse_singleton,
      List.singleton_append] at ih
    rw [List.cons_append, readValue_cons hc hstep hblank]
    exact ih

/-- A text that trimming leaves alone does not begin with a blank. -/
theorem isBlank_head_of_trim_eq {c : Char} {cs : List Char} (h : trim (c :: cs) = c :: cs) :
    isBlank c = false := by
  by_contra hc
  have hstart : trimStart (c :: cs) = trimStart cs :=
    List.dropWhile_cons_of_pos (by simpa using hc)
  have hlength := congrArg List.length h
  have hend := length_trimEnd_le (trimStart cs)
  have := length_trimStart_le cs
  rw [trim, hstart, List.length_cons] at hlength
  omega

/-- **An expression in front of the closing parenthesis is read as a whole.** -/
theorem attributeValue_of_joined {e : List Char} {tree : Expr} (hread : Expr.read e = .ok tree)
    (hline : '\n' ∉ e) (htrim : trim e = e) (hjoined : JoinedByOperators e) (tail : List Char) :
    attributeValue (e ++ ')' :: tail) = .ok (e, ')' :: tail) := by
  have hvalue : readValue .outside none [] (e ++ ')' :: tail) = .ok (e, ')' :: tail) :=
    readValue_of_joined hline hjoined tail (List.nil_append e).symm (pass?_of_read hread)
  cases e with
  | nil => cases hread
  | cons c cs =>
    have hc := isBlank_head_of_trim_eq htrim
    have hstart : ((c :: cs) ++ ')' :: tail).dropWhile (fun c => isIndent c || c == '\n') =
        (c :: cs) ++ ')' :: tail := by
      rw [List.cons_append, List.dropWhile_cons_of_neg]
      intro hmem
      simp only [isIndent, Bool.or_eq_true, beq_iff_eq] at hmem
      rcases hmem with (rfl | rfl) | rfl <;> cases hc
    rw [attributeValue, hstart]
    simp only [List.cons_append] at hvalue ⊢
    rw [hvalue]
    simp only [htrim, List.isEmpty_cons, Bool.false_eq_true, if_false]

/-! ### The attribute -/

/-- A letter is no blank and none of the signs between attributes. -/
theorem isLetter_facts {c : Char} (h : isLetter c = true) :
    isBlank c = false ∧ c ∉ ['=', ',', '(', ')', '!', '"', '\''] := by
  have hrange : 65 ≤ c.toNat ∧ c.toNat ≤ 90 ∨ 97 ≤ c.toNat ∧ c.toNat ≤ 122 := by
    simpa [isLetter, Char.isAlpha, Char.isUpper, Char.isLower, UInt32.le_iff_toNat_le] using h
  refine ⟨by simp [isBlank]; omega, fun hmem => ?_⟩
  simp only [List.mem_cons, List.not_mem_nil, or_false] at hmem
  rcases hmem with rfl | rfl | rfl | rfl | rfl | rfl | rfl <;> revert hrange <;> decide

/-- A name of letters goes up to the equals sign. -/
theorem plainName_of_letters {name : List Char} (h : ∀ c ∈ name, isLetter c = true)
    (rest : List Char) : plainName (name ++ '=' :: rest) = (name, '=' :: rest) := by
  induction name with
  | nil => rfl
  | cons c name ih =>
    obtain ⟨hblank, hsigns⟩ := isLetter_facts (h c List.mem_cons_self)
    rw [List.cons_append, plainName, ih fun d hd => h d (List.mem_cons_of_mem _ hd)]
    simp_all

theorem attributeName_of_letters {name : List Char} (hne : name ≠ [])
    (h : ∀ c ∈ name, isLetter c = true) (rest : List Char) :
    attributeName (name ++ '=' :: rest) = .ok (name, '=' :: rest) := by
  have hplain := plainName_of_letters h rest
  cases name with
  | nil => contradiction
  | cons c name =>
    obtain ⟨hblank, hsigns⟩ := isLetter_facts (h c List.mem_cons_self)
    have hquote : isQuote c = false := by simp_all [isQuote]
    simp only [List.cons_append] at hplain ⊢
    rw [attributeName, if_neg (by simp [hquote]), hplain]

theorem attributeList_closed (rest : List Char) : attributeList (')' :: rest) = .ok ([], rest) :=
  attributeList_of_closed rfl

/-- The list of one attribute, a name of letters and a value that ends at the parenthesis. -/
theorem attributeList_of_value {name e : List Char} (hne : name ≠ [])
    (hname : ∀ c ∈ name, isLetter c = true) {tail : List Char}
    (h : attributeValue (e ++ ')' :: tail) = .ok (e, ')' :: tail)) :
    attributeList (name ++ '=' :: (e ++ ')' :: tail)) =
      .ok ([⟨String.ofList name, some (String.ofList e), true⟩], tail) := by
  have hvalue : valuePart ('=' :: (e ++ ')' :: tail)) = .ok (some e, true, ')' :: tail) := by
    have hstart : ('=' :: (e ++ ')' :: tail)).dropWhile isIndent = '=' :: (e ++ ')' :: tail) := rfl
    rw [valuePart, hstart]
    simp only [h]
    rfl
  have hlist := attributeName_of_letters hne hname (e ++ ')' :: tail)
  cases name with
  | nil => contradiction
  | cons c name =>
    obtain ⟨hblank, hsigns⟩ := isLetter_facts (hname c List.mem_cons_self)
    have hstart : (c :: name ++ '=' :: (e ++ ')' :: tail)).dropWhile isSeparator =
        c :: name ++ '=' :: (e ++ ')' :: tail) :=
      List.dropWhile_cons_of_neg (by simp_all [isSeparator])
    have hopen : c ≠ ')' := by simp_all
    exact attributeList_of_attribute hstart hopen hlist hvalue (attributeList_closed tail)

/-- **The list of one attribute, a name of letters and an expression.** -/
theorem attributeList_of_joined {name e : List Char} (hne : name ≠ [])
    (hname : ∀ c ∈ name, isLetter c = true) {tree : Expr} (hread : Expr.read e = .ok tree)
    (hline : '\n' ∉ e) (htrim : trim e = e) (hjoined : JoinedByOperators e) (tail : List Char) :
    attributeList (name ++ '=' :: (e ++ ')' :: tail)) =
      .ok ([⟨String.ofList name, some (String.ofList e), true⟩], tail) :=
  attributeList_of_value hne hname (attributeValue_of_joined hread hline htrim hjoined tail)

/-! ### The statement -/

theorem headParts_nil : headParts [] = .ok ([], []) := by
  rw [headParts]
  rfl

/-- A tag that ends with its head. -/
theorem readStatement_of_tag {cs text : List Char} {tokens : List Token}
    (hopening : opening cs = .ok (.tag text)) (hhead : tagHead text = .ok (tokens, [])) :
    readStatement cs = .ok ⟨tokens, .statements, []⟩ := by
  rw [readStatement_of_head hopening hhead]
  simp [behindHead, behindColon?, tagEnd, tagTail, currentLine, belowLine, Except.map]

/-- A tag with an attribute list that ends the line. -/
theorem readStatement_of_attributes {text : List Char} {list : List RawAttribute}
    (h : attributeList text = .ok (list, [])) :
    readStatement ('a' :: '(' :: text) =
      .ok ⟨[.tag "a", .attributes list], .statements, []⟩ := by
  have hparts : headParts ('(' :: text) = .ok ([.attributes list], []) := by
    refine headParts_of_part ?_ headParts_nil
    rw [headPart, h]
  have hname : nameOf ('a' :: '(' :: text) = ['a'] := rfl
  have htag : tagNameFrom ('a' :: '(' :: text) = ['a'] := by
    rw [tagNameFrom]
    split
    · next hcolon =>
      rw [hname] at hcolon
      cases hcolon
    · exact hname
  have hhead : tagHead ('a' :: '(' :: text) = .ok ([.tag "a", .attributes list], []) := by
    have hletter : headIs isLetter ('a' :: '(' :: text) = true := rfl
    rw [tagHead, if_pos hletter, htag]
    simp only [List.length_singleton, List.drop_one, List.tail_cons, hparts]
    rfl
  have hopening : opening ('a' :: '(' :: text) = .ok (.tag ('a' :: '(' :: text)) := rfl
  exact readStatement_of_tag hopening hhead

/-! ### The template -/

theorem trimEnd_append_singleton {c : Char} (h : isBlank c = false) (cs : List Char) :
    trimEnd (cs ++ [c]) = cs ++ [c] := by
  induction cs with
  | nil => simp [trimEnd, h]
  | cons d cs ih =>
    rw [List.cons_append, trimEnd, ih]
    cases cs <;> rfl

/-- A line that is not indented and has no blanks at its end, as the whole template. -/
theorem scan_of_trimmed {line : List Char} {tokens : List Token} (hline : '\n' ∉ line)
    (hindent : indentOf line = []) (htrim : trimEnd line = line) (hblank : isBlankText line = false)
    (hread : readStatement line = .ok ⟨tokens, .statements, []⟩) :
    Layout.scan (String.ofList line) = .ok ⟨[⟨⟨1, 1⟩, 0, tokens⟩], ⟨1, 1⟩⟩ := by
  have hlines : Text.lines line = [line] := by
    have hempty : line.isEmpty = false := by
      cases line with
      | nil => cases hblank
      | cons c cs => rfl
    rw [Text.lines, splitAll_of_notMem hline]
    simp [Text.lines.go, hempty]
  have hplace : placeStatement .start 1 line [] = .ok ⟨.start, ⟨⟨1, 1⟩, 0, tokens⟩, 0⟩ := by
    have hbelow : textBelow line [] = [] := by
      rw [textBelow]
      split <;> rfl
    rw [placeStatement, hindent]
    simp only [Margin.checkUnit, List.length_nil, List.drop_zero, htrim, hbelow, List.append_nil, hread]
    rfl
  rw [Layout.scan, String.toList_ofList, hlines, Layout.scanFrom, if_neg (by simp [hblank]), hplace]
  rfl

/-- Such a line that ends with a parenthesis. -/
theorem scan_of_line {line : List Char} {tokens : List Token}
    (hline : '\n' ∉ line) (hindent : indentOf (line ++ [')']) = [])
    (hread : readStatement (line ++ [')']) = .ok ⟨tokens, .statements, []⟩) :
    Layout.scan (String.ofList (line ++ [')'])) = .ok ⟨[⟨⟨1, 1⟩, 0, tokens⟩], ⟨1, 1⟩⟩ := by
  have hblank : isBlankText (line ++ [')']) = false := by
    rw [isBlankText, List.all_append]
    exact Bool.and_false _
  exact scan_of_trimmed (by simpa using hline) hindent (trimEnd_append_singleton rfl line) hblank hread

/-- **An expression that its operators hold together comes out as it was written**: the
whole of it is the value of the one attribute. -/
theorem items_of_attribute (name e : String) (hne : name ≠ "")
    (hname : ∀ c ∈ name.toList, isLetter c = true) {tree : Expr}
    (hread : Expr.read e.toList = .ok tree) (hline : '\n' ∉ e.toList)
    (htrim : trim e.toList = e.toList) (hjoined : JoinedByOperators e.toList) :
    ∃ layout, Layout.scan ("a(" ++ name ++ "=" ++ e ++ ")") = .ok layout ∧
      layout.items =
        [(⟨1, 1⟩, .token (.tag "a")), (⟨1, 1⟩, .token (.attributes [⟨name, some e, true⟩])),
          (⟨1, 1⟩, .newline), (⟨1, 1⟩, .finish)] := by
  let line := 'a' :: '(' :: (name.toList ++ '=' :: e.toList)
  have hsource : "a(" ++ name ++ "=" ++ e ++ ")" = String.ofList (line ++ [')']) := by
    apply String.toList_inj.mp
    simp [line]
  have hlines : '\n' ∉ line := by
    have : '\n' ∉ name.toList := fun hmem => absurd (hname _ hmem) (by decide)
    simp [line, this, hline]
  have hlist : attributeList (name.toList ++ '=' :: (e.toList ++ [')'])) =
      .ok ([⟨name, some e, true⟩], []) := by
    have hne : name.toList ≠ [] := by simpa using hne
    simpa using attributeList_of_joined hne hname hread hline htrim hjoined []
  have hstatement : readStatement (line ++ [')']) =
      .ok ⟨[.tag "a", .attributes [⟨name, some e, true⟩]], .statements, []⟩ := by
    simpa [line] using readStatement_of_attributes hlist
  have hscan := scan_of_line hlines rfl hstatement
  rw [← hsource] at hscan
  exact ⟨_, hscan, rfl⟩

/-- A sum written with blanks, and an index behind a list that holds blanks and a quoted
blank. -/
theorem items_of_attribute_sum :
    let e := "x + [y, \"a b\"][z]"
    Expr.read e.toList = .ok (.binary (.arithmetic .add) (.variable "x")
        (.item (.list [.variable "y", .literal (.str "a b")]) (.variable "z"))) ∧
      JoinedByOperators e.toList ∧
      ∃ layout, Layout.scan ("a(" ++ "title" ++ "=" ++ e ++ ")") = .ok layout ∧
        layout.items =
          [(⟨1, 1⟩, .token (.tag "a")), (⟨1, 1⟩, .token (.attributes [⟨"title", some e, true⟩])),
            (⟨1, 1⟩, .newline), (⟨1, 1⟩, .finish)] := by
  intro e
  have hread : Expr.read e.toList = .ok (.binary (.arithmetic .add) (.variable "x")
      (.item (.list [.variable "y", .literal (.str "a b")]) (.variable "z"))) := by cbv
  have hjoined : JoinedByOperators e.toList := by decide
  have hletters : ∀ c ∈ "title".toList, isLetter c = true := List.all_eq_true.mp rfl
  exact ⟨hread, hjoined, items_of_attribute "title" e (by decide) hletters hread (by decide)
    (by decide) hjoined⟩

/-- An expression with an index behind a blank comes out as two attributes, so that a text
being read as an expression is not enough. -/
theorem items_of_attribute_cut :
    ¬∀ name e : String, name ≠ "" → (∀ c ∈ name.toList, isLetter c = true) →
      ∀ tree : Expr, Expr.read e.toList = .ok tree → '\n' ∉ e.toList → trim e.toList = e.toList →
      ∃ layout, Layout.scan ("a(" ++ name ++ "=" ++ e ++ ")") = .ok layout ∧
        layout.items =
          [(⟨1, 1⟩, .token (.tag "a")), (⟨1, 1⟩, .token (.attributes [⟨name, some e, true⟩])),
            (⟨1, 1⟩, .newline), (⟨1, 1⟩, .finish)] := by
  intro h
  have hread : Expr.read "x [0]".toList = .ok (.item (.variable "x") (.literal (.int 0))) := by cbv
  have hletters : ∀ c ∈ "b".toList, isLetter c = true := List.all_eq_true.mp rfl
  obtain ⟨layout, hscan, hitems⟩ :=
    h "b" "x [0]" (by decide) hletters _ hread (by decide) (by decide)
  have hstart : " [0])".toList.dropWhile isSeparator = '[' :: "0])".toList := rfl
  have hsecond : attributeList " [0])".toList = .ok ([⟨"[0]", none, true⟩], []) :=
    attributeList_of_attribute hstart (by decide) rfl rfl (attributeList_closed [])
  have hfirst : "b=x [0])".toList.dropWhile isSeparator = 'b' :: "=x [0])".toList := rfl
  have hlist : attributeList "b=x [0])".toList =
      .ok ([⟨"b", some "x", true⟩, ⟨"[0]", none, true⟩], []) :=
    attributeList_of_attribute hfirst (by decide) rfl rfl hsecond
  have hline : '\n' ∉ "a(b=x [0]".toList := by decide
  have hcut := scan_of_line hline rfl (readStatement_of_attributes hlist)
  have hsource : "a(" ++ "b" ++ "=" ++ "x [0]" ++ ")" =
      String.ofList ("a(b=x [0]".toList ++ [')']) := by decide
  rw [hsource, hcut] at hscan
  cases hscan
  revert hitems
  decide

end Source

end Trellis
