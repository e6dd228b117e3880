import Trellis.Proofs.AttributeLoop
import Trellis.Proofs.TagWords

/-!
# `Trellis.Proofs.Passing`: the way through a statement

A statement is gone through from its first character to the end of its text. On the way, the text is
passed over; behind a colon, and behind the word `mixin`, a part of it is read as a text of its own;
and lists in brackets are left to their loops. `Cursor.Pass` is one stretch of the way and
`Cursor.Passes` the whole of it, so a line can only be taken in by one of the two loops. A text
without a parenthesis takes in no line (`Cursor.Passes.of_noBracket`).

`passes_readStatement` says that every statement that is read is gone through in this way: from a
cursor to the end of the text, where exactly what the reader has not used up is left.
-/

set_option autoImplicit false

namespace Trellis.Source

open Trellis.Text

namespace Cursor

/-! ### The way of a cursor -/

/-- One stretch of the way through a statement. -/
inductive Pass (lines : List (List Char)) : Cursor → Cursor → Prop
  /-- Over a piece of the text. -/
  | along {c : Cursor} {k : Nat} (h : c.place + k ≤ c.text.length) : Pass lines c (c.move k)
  /-- To the beginning of a part of the text, which is a text of its own from there on. -/
  | part {c : Cursor} {text : List Char} (h : text <:+: c.ahead) : Pass lines c ⟨text, 0, c.next⟩
  /-- Over a list that the loop of `balancedTurn` reads. -/
  | balanced {c c' : Cursor} {inner : List Char} (h : c.char? = some '(')
    (loop : Finishes (balancedTurn lines (c.place + 1)) (.outside, c) (.ok (inner, c'))) : Pass lines c c'
  /-- Over a list of attributes. -/
  | attributes {c c' : Cursor} {list : List RawAttribute} (h : c.char? = some '(')
    (loop : Finishes (attributeTurn lines) ⟨.between, [], c.move 1⟩ (.ok (list, c'))) : Pass lines c c'

/-- The way through a statement. -/
def Passes (lines : List (List Char)) : Cursor → Cursor → Prop := Relation.ReflTransGen (Pass lines)

variable {lines : List (List Char)} {c c' : Cursor}

theorem Pass.within_next (hlines : AreLines lines) (hc : c.Within lines) (h : c.Pass lines c') :
    c'.Within lines ∧ c.next ≤ c'.next := by
  cases h with
  | along h => exact ⟨⟨h, hc.next, hc.line⟩, le_refl _⟩
  | part h =>
    have hline : '\n' ∉ c.ahead := fun hmem => hc.line (List.mem_of_mem_drop hmem)
    exact ⟨⟨Nat.zero_le _, hc.next, fun hmem => hline (h.subset hmem)⟩, le_refl _⟩
  | balanced h loop =>
    have hreaches := BalancedStand.reaches hlines ⟨hc, .inr ⟨rfl, h⟩⟩ loop
    exact ⟨hreaches.within hlines hc, hreaches.next_le⟩
  | attributes h loop =>
    have hmove := hc.pass h
    have hreaches := reaches_of_finishes hlines hmove loop
    exact ⟨hreaches.within hlines hmove, hreaches.next_le⟩

/-- **On its way, a cursor stays within its text and its lines**, and no line is given back. -/
theorem Passes.within_next (hlines : AreLines lines) (hc : c.Within lines) (h : c.Passes lines c') :
    c'.Within lines ∧ c.next ≤ c'.next := by
  induction h with
  | refl => exact ⟨hc, le_refl _⟩
  | tail _ hlast ih =>
    obtain ⟨hwithin, hnext⟩ := hlast.within_next hlines ih.1
    exact ⟨hwithin, ih.2.trans hnext⟩

/-- Without a parenthesis, no list is read. -/
theorem Pass.of_noBracket (h : c.Pass lines c') (hopen : '(' ∉ c.text) (lines' : List (List Char)) :
    '(' ∉ c'.text ∧ c'.next = c.next ∧ c.Pass lines' c' := by
  have hnone : c.char? ≠ some '(' := fun hchar => hopen (List.mem_of_getElem? hchar)
  cases h with
  | along h => exact ⟨hopen, rfl, .along h⟩
  | part h =>
    exact ⟨fun hmem => hopen (List.mem_of_mem_drop (h.subset hmem)), rfl, .part h⟩
  | balanced h => exact absurd h hnone
  | attributes h => exact absurd h hnone

/-- **Without a parenthesis, no line is taken in**, whatever lines there are. -/
theorem Passes.of_noBracket (h : c.Passes lines c') (hopen : '(' ∉ c.text) (lines' : List (List Char)) :
    c'.next = c.next ∧ c.Passes lines' c' := by
  have hall : '(' ∉ c'.text ∧ c'.next = c.next ∧ c.Passes lines' c' := by
    induction h with
    | refl => exact ⟨hopen, rfl, .refl⟩
    | tail _ hlast ih =>
      obtain ⟨hopen', hnext, hpasses⟩ := ih
      obtain ⟨hopen'', hnext', hpass⟩ := hlast.of_noBracket hopen' lines'
      exact ⟨hopen'', hnext'.trans hnext, hpasses.tail hpass⟩
  exact hall.2

/-! ### To a text that is left -/

/-- The cursor may pass to a place where the text is what is left. -/
def PassesTo (lines : List (List Char)) (c : Cursor) (rest : List Char) : Prop :=
  ∃ c', c.Passes lines c' ∧ c'.left lines = rest

variable {cs rest rest' : List Char}

theorem PassesTo.refl (c : Cursor) : c.PassesTo lines (c.left lines) := ⟨c, .refl, rfl⟩

theorem PassesTo.trans (hlines : AreLines lines) (hc : c.Within lines) (h : c.PassesTo lines rest)
    (h' : ∀ c' : Cursor, c'.Within lines → c'.left lines = rest → c'.PassesTo lines rest') :
    c.PassesTo lines rest' := by
  obtain ⟨c₁, hpasses, hleft⟩ := h
  obtain ⟨c₂, hpasses', hleft'⟩ := h' c₁ (hpasses.within_next hlines hc).1 hleft
  exact ⟨c₂, hpasses.trans hpasses', hleft'⟩

/-- A piece of the line is passed over. -/
theorem passesTo_append (hc : c.Within lines) (piece : List Char) (h : c.left lines = piece ++ rest)
    (hline : '\n' ∉ piece) : c.PassesTo lines rest := by
  have hahead : piece <+: c.ahead := by
    rw [← currentLine_left hc, h, currentLine, List.takeWhile_append_of_pos]
    · exact List.prefix_append _ _
    · intro d hd
      have hne : d ≠ '\n' := fun heq => hline (heq ▸ hd)
      simpa using hne
  have hlength : piece.length ≤ c.text.length - c.place := by
    rw [← List.length_drop]
    exact hahead.length_le
  have hend : c.place + piece.length ≤ c.text.length := by
    have := hc.place
    omega
  refine ⟨c.move piece.length, .single (.along hend), ?_⟩
  rw [left_move hend, h, List.drop_left]

theorem passesTo_belowLine (hc : c.Within lines) : c.PassesTo lines (belowLine (c.left lines)) :=
  passesTo_append hc _ (currentLine_append_belowLine _).symm (newline_notMem_currentLine _)

/-- Behind the line, only lines that are not used up are left. -/
theorem belowLine_left (hc : c.Within lines) :
    belowLine (c.left lines) = trimmedLines (lines.drop c.next) := by
  have hsplit := currentLine_append_belowLine (c.left lines)
  rw [currentLine_left hc] at hsplit
  exact List.append_cancel_left hsplit

/-- A part of the line is read by itself, with the same lines below. -/
theorem passesTo_part (hc : c.Within lines) {text : List Char} (h : text <:+: currentLine (c.left lines)) :
    c.PassesTo lines (text ++ belowLine (c.left lines)) := by
  rw [currentLine_left hc] at h
  refine ⟨⟨text, 0, c.next⟩, .single (.part h), ?_⟩
  rw [belowLine_left hc]
  rfl

/-- A loop that reads a list has come to a place where the rest is left. -/
theorem of_readTo {α : Type} {r : Except ScanFault (α × Cursor)} {a : α}
    (h : .ok (a, rest) = readTo lines r) : ∃ c', r = .ok (a, c') ∧ c'.left lines = rest := by
  obtain ⟨⟨a', c'⟩, rfl, hpair⟩ := of_map_eq_ok h.symm
  cases hpair
  exact ⟨c', rfl, rfl⟩

theorem passesTo_balanced (hlines : AreLines lines) (hc : c.Within lines) (hleft : c.left lines = '(' :: cs)
    {inner : List Char} (h : Source.balanced cs = .ok (inner, rest)) : c.PassesTo lines rest := by
  obtain ⟨hchar, hbehind⟩ := char?_of_left hc (by decide) hleft
  obtain ⟨r, hfinishes, hread⟩ := finishes_balanced hlines hc hchar
  rw [hbehind, h] at hread
  obtain ⟨c', rfl, hrest⟩ := of_readTo hread
  exact ⟨c', .single (.balanced hchar hfinishes), hrest⟩

theorem passesTo_attributeList (hlines : AreLines lines) (hc : c.Within lines)
    (hleft : c.left lines = '(' :: cs) {list : List RawAttribute}
    (h : attributeList cs = .ok (list, rest)) : c.PassesTo lines rest := by
  obtain ⟨hchar, hbehind⟩ := char?_of_left hc (by decide) hleft
  obtain ⟨r, hfinishes, hread⟩ := finishes_attributeList hlines (hc.pass hchar)
  rw [hbehind, h] at hread
  obtain ⟨c', rfl, hrest⟩ := of_readTo hread
  exact ⟨c', .single (.attributes hchar hfinishes), hrest⟩

end Cursor

/-! ### Heads of statements -/

theorem newline_notMem_nameOf (cs : List Char) : '\n' ∉ nameOf cs := by
  intro hmem
  have hname := List.mem_takeWhile_imp hmem
  cases hname

section
variable {lines : List (List Char)} {c : Cursor} {rest : List Char} {token : Token} {tokens : List Token}

/-- A name is passed over. -/
theorem passesTo_nameOf (hc : c.Within lines) :
    c.PassesTo lines ((c.left lines).drop (nameOf (c.left lines)).length) :=
  Cursor.passesTo_append hc _ (nameOf_append_drop _).symm (newline_notMem_nameOf _)

theorem passesTo_headPart (hlines : AreLines lines) (hc : c.Within lines)
    (h : headPart (c.left lines) = .ok (.part token rest)) : c.PassesTo lines rest := by
  -- A sign with a name behind it.
  have named {sign : Char} {behind : List Char} (hsign : sign ≠ '\n') (hleft : c.left lines = sign :: behind) :
      c.PassesTo lines (behind.drop (nameOf behind).length) := by
    refine Cursor.passesTo_append hc (sign :: nameOf behind) ?_ ?_
    · rw [hleft, List.cons_append, nameOf_append_drop]
    · intro hmem
      rcases List.mem_cons.mp hmem with hmem | hmem
      · exact hsign hmem.symm
      · exact newline_notMem_nameOf behind hmem
  generalize hleft : c.left lines = cs at h
  unfold headPart at h
  split at h
  · dsimp only at h
    split at h
    · cases h
    · cases h
      exact named (by decide) hleft
  · split at h
    · cases h
      exact named (by decide) hleft
    · cases h
  · split at h
    · cases h
    · next hlist =>
      cases h
      exact Cursor.passesTo_attributeList hlines hc hleft hlist
  · cases h

theorem passesTo_headParts (hlines : AreLines lines) (hc : c.Within lines)
    (h : headParts (c.left lines) = .ok (tokens, rest)) : c.PassesTo lines rest := by
  generalize hleft : c.left lines = cs at h
  fun_induction headParts cs generalizing c tokens rest with
  | case1 => cases h
  | case2 cs hnone =>
    cases h
    exact hleft ▸ .refl c
  | case3 => cases h
  | case4 cs token between hpart _ others rest' hothers ih =>
    cases h
    subst hleft
    exact (passesTo_headPart hlines hc hpart).trans hlines hc fun c' hc' hleft' => ih hc' hleft' hothers

theorem passesTo_tagHead (hlines : AreLines lines) (hc : c.Within lines)
    (h : tagHead (c.left lines) = .ok (tokens, rest)) : c.PassesTo lines rest := by
  have hname : c.PassesTo lines ((c.left lines).drop
      (if headIs isLetter (c.left lines) then tagNameFrom (c.left lines) else []).length) := by
    split
    · have hline : '\n' ∉ tagNameFrom (c.left lines) := by
        intro hmem
        rcases chars_of_tagNameFrom _ hmem with hname | heq
        · cases hname
        · cases heq
      exact Cursor.passesTo_append hc _ (List.prefix_iff_eq_append.mp (tagNameFrom_isPrefix _)).symm hline
    · exact .refl c
  unfold tagHead at h
  dsimp only at h
  split at h
  · cases h
  next parts between hparts =>
  cases h
  exact hname.trans hlines hc fun c' hc' hleft' => passesTo_headParts hlines hc' (hleft' ▸ hparts)

theorem passesTo_callHead (hlines : AreLines lines) (hc : c.Within lines)
    (h : callHead (c.left lines) = .ok (token, rest)) : c.PassesTo lines rest := by
  have hname := passesTo_nameOf hc
  unfold callHead at h
  dsimp only at h
  split at h
  · cases h
  generalize (c.left lines).drop (nameOf (c.left lines)).length = behind at hname h
  split at h
  · next list =>
    split at h
    · cases h
    next hbalanced =>
    cases h
    exact hname.trans hlines hc fun c' hc' hleft => Cursor.passesTo_balanced hlines hc' hleft hbalanced
  · cases h
    exact hname

/-! ### Statements that are read to their end -/

theorem passesTo_filterStatement {s : Statement} (hlines : AreLines lines) (hc : c.Within lines)
    (h : filterStatement (c.left lines) = .ok s) : c.PassesTo lines s.rest := by
  have hname := passesTo_nameOf hc
  -- Behind the name and the options, the line ends.
  have ends {behind : List Char} {options : List RawAttribute} (hpasses : c.PassesTo lines behind)
      (h : (if isBlankText (currentLine behind) then
          .ok ⟨[.filter (String.ofList (nameOf (c.left lines))) options], .text, belowLine behind⟩
        else .error .behindFilter : Except ScanFault Statement) = .ok s) : c.PassesTo lines s.rest := by
    split at h
    · cases h
      exact hpasses.trans hlines hc fun c' hc' hleft => hleft ▸ Cursor.passesTo_belowLine hc'
    · cases h
  unfold filterStatement at h
  dsimp only at h
  split at h
  · cases h
  generalize (c.left lines).drop (nameOf (c.left lines)).length = behind at hname h
  split at h
  · next list =>
    split at h
    · cases h
    next hlist =>
    refine ends (hname.trans hlines hc fun c' hc' hleft => ?_) h
    exact Cursor.passesTo_attributeList hlines hc' hleft hlist
  · exact ends hname h

/-- The declaration of a mixin is a part of its line, with the lines below. -/
theorem passesTo_mixinToken {argument : List Char} (hlines : AreLines lines) (hc : c.Within lines)
    (hargument : argument <:+: currentLine (c.left lines))
    (h : mixinToken argument (belowLine (c.left lines)) = .ok (token, rest)) : c.PassesTo lines rest := by
  have hbehind : argument.drop (nameOf argument).length <:+: currentLine (c.left lines) :=
    (List.drop_suffix _ _).isInfix.trans hargument
  have hpart := Cursor.passesTo_part hc hbehind
  unfold mixinToken at h
  dsimp only at h
  split at h
  · cases h
  generalize argument.drop (nameOf argument).length = behind at hpart h
  split at h
  · next list =>
    split at h
    · cases h
    next parameters between hbalanced =>
    split at h
    · cases h
      have hlist : c.PassesTo lines between :=
        hpart.trans hlines hc fun c' hc' hleft => Cursor.passesTo_balanced hlines hc' hleft hbalanced
      exact hlist.trans hlines hc fun c' hc' hleft => hleft ▸ Cursor.passesTo_belowLine hc'
    · cases h
  · split at h
    · cases h
      exact Cursor.passesTo_belowLine hc
    · cases h

end

section
variable {cs below word argument rest : List Char} {token : Token}

/-- All keywords but `mixin` leave the lines below alone. -/
theorem rest_of_keywordToken? (h : keywordToken? word argument below = .ok (some (token, rest))) :
    rest = below ∨ mixinToken argument below = .ok (token, rest) := by
  have hchecked {x : Except ScanFault Token}
      (h : x.map (fun t => some (t, below)) = .ok (some (token, rest))) : rest = below := by
    obtain ⟨t, -, hpair⟩ := of_map_eq_ok h
    cases hpair
    rfl
  unfold keywordToken? at h
  dsimp only at h
  split at h
  case h_1 =>
    cases h
    exact .inl rfl
  case h_5 | h_6 | h_15 =>
    split at h <;> cases h
    exact .inl rfl
  case h_7 =>
    obtain ⟨r, hmixin, hpair⟩ := of_map_eq_ok h
    cases hpair
    exact .inr hmixin
  case h_16 => cases h
  all_goals exact .inl (hchecked h)

/-- A statement that is read to its end ends with its line, unless it is a filter or declares a
mixin. -/
theorem rest_of_opening {s : Statement} (h : opening cs = .ok (.whole s)) :
    s.rest = belowLine cs ∨ (∃ text, cs = ':' :: text ∧ filterStatement text = .ok s) ∨
      ∃ token, mixinToken (trim ((currentLine cs).drop (nameOf (currentLine cs)).length)) (belowLine cs) =
        .ok (token, s.rest) := by
  have hchecked {x : Except ScanFault Token}
      (h : x.map (fun t => Opening.whole ⟨[t], .statements, belowLine cs⟩) = .ok (.whole s)) :
      s.rest = belowLine cs := by
    obtain ⟨t, -, hwhole⟩ := of_map_eq_ok h
    cases hwhole
    rfl
  unfold opening at h
  dsimp only at h
  split at h
  case h_10 hcolon =>
    obtain ⟨f, hfilter, hwhole⟩ := of_map_eq_ok h
    cases hwhole
    have hprefix : currentLine cs <+: cs := List.takeWhile_prefix _
    rw [hcolon] at hprefix
    obtain ⟨more, rfl⟩ := hprefix
    exact .inr (.inl ⟨_, rfl, hfilter⟩)
  case h_14 =>
    unfold openingWord at h
    dsimp only at h
    split at h
    · cases h
    split at h
    · split at h
      · cases h
      · next hkeyword =>
        cases h
        rcases rest_of_keywordToken? hkeyword with hrest | hmixin
        · exact .inl hrest
        · exact .inr (.inr ⟨_, hmixin⟩)
      · cases h
    · cases h
  case h_7 | h_8 | h_9 => exact .inl (hchecked h)
  all_goals
    cases h
    try exact .inl rfl

end

/-! ### Statements -/

section
variable {lines : List (List Char)}

theorem passesTo_opening {c : Cursor} {s : Statement} (hlines : AreLines lines) (hc : c.Within lines)
    (h : opening (c.left lines) = .ok (.whole s)) : c.PassesTo lines s.rest := by
  rcases rest_of_opening h with hrest | ⟨text, hleft, hfilter⟩ | ⟨token, hmixin⟩
  · rw [hrest]
    exact Cursor.passesTo_belowLine hc
  · have hcolon : c.PassesTo lines text :=
      Cursor.passesTo_append hc [':'] hleft (by decide)
    exact hcolon.trans hlines hc fun c' hc' hleft' => passesTo_filterStatement hlines hc' (hleft' ▸ hfilter)
  · refine passesTo_mixinToken hlines hc ?_ hmixin
    exact ((trimEnd_isPrefix _).isInfix.trans (List.dropWhile_suffix _).isInfix).trans
      (List.drop_suffix _ _).isInfix

/-- Behind a colon, a part of the line is a statement of its own. -/
theorem passesTo_behindColon? {c : Cursor} {child : List Char} (hlines : AreLines lines)
    (hc : c.Within lines) (h : behindColon? (c.left lines) = some child) : c.PassesTo lines child := by
  generalize hleft : c.left lines = cs at h
  unfold behindColon? at h
  split at h
  · next text =>
    split at h
    · cases h
      have hcolon : c.PassesTo lines text :=
        Cursor.passesTo_append hc [':'] hleft (by decide)
      refine hcolon.trans hlines hc fun c' hc' hleft' => ?_
      subst hleft'
      exact Cursor.passesTo_part hc'
        ((trimEnd_isPrefix _).isInfix.trans (List.dropWhile_suffix _).isInfix)
    · cases h
  · cases h

/-- **A statement that is read is gone through**, to where its text ends. -/
theorem passesTo_readStatement {c : Cursor} {s : Statement} (hlines : AreLines lines) (hc : c.Within lines)
    (h : readStatement (c.left lines) = .ok s) : c.PassesTo lines s.rest := by
  -- Behind the head of a call or a tag.
  have behind {rest : List Char} {wrap : List Token → List Token}
      {line : List Char → Except ScanFault (List Token × Below)} (hhead : c.PassesTo lines rest)
      (hlength : rest.length ≤ (c.left lines).length) (h : behindHead wrap line rest = .ok s) :
      c.PassesTo lines s.rest := by
    refine hhead.trans hlines hc fun c' hc' hleft' => ?_
    subst hleft'
    unfold behindHead at h
    split at h
    · next child hcolon =>
      obtain ⟨inner, hinner, rfl⟩ := of_map_eq_ok h
      refine (passesTo_behindColon? hlines hc' hcolon).trans hlines hc' fun c'' hc'' hleft'' => ?_
      subst hleft''
      have hshorter := length_of_behindColon? hcolon
      have hchild := passesTo_readStatement hlines hc'' hinner
      exact hchild
    · obtain ⟨r, -, rfl⟩ := of_map_eq_ok h
      exact Cursor.passesTo_belowLine hc'
  rw [readStatement_eq] at h
  obtain ⟨opened, hopening, hopened⟩ := of_bind_eq_ok h
  cases opened with
  | whole s' =>
    cases hopened
    exact passesTo_opening hlines hc hopening
  | call text =>
    obtain ⟨⟨token, rest⟩, hcall, hbehind⟩ := of_bind_eq_ok hopened
    obtain ⟨hleft, -⟩ := opening_call hopening
    have hsign : c.PassesTo lines text := Cursor.passesTo_append hc ['+'] hleft (by decide)
    refine behind (hsign.trans hlines hc fun c' hc' hleft' => ?_) ?_ hbehind
    · subst hleft'
      exact passesTo_callHead hlines hc' hcall
    · show rest.length ≤ (c.left lines).length
      have := length_of_callHead hcall
      rw [hleft, List.length_cons]
      omega
  | tag text =>
    obtain ⟨⟨tokens, rest⟩, htag, hbehind⟩ := of_bind_eq_ok hopened
    obtain ⟨rfl, -⟩ := opening_tag hopening
    exact behind (passesTo_tagHead hlines hc htag) (length_of_tagHead htag) hbehind
termination_by (c.left lines).length
decreasing_by omega

/-- The way ends where the text ends, in front of the lines that are not used up. -/
theorem passes_readStatement {c : Cursor} {s : Statement} (hlines : AreLines lines) (hc : c.Within lines)
    (h : readStatement (c.left lines) = .ok s) :
    ∃ c', c.Passes lines c' ∧ c'.place = c'.text.length ∧ s.rest = trimmedLines (lines.drop c'.next) := by
  obtain ⟨c', hpasses, hleft⟩ := passesTo_readStatement hlines hc h
  have hc' := (hpasses.within_next hlines hc).1
  obtain ⟨-, -, hends, -⟩ := local_readStatement _ _ h
  rw [← hleft, currentLine_left hc'] at hends
  refine ⟨c', hpasses, hc'.place.antisymm (List.drop_eq_nil_iff.mp hends), ?_⟩
  rw [← hleft, Cursor.left, hends, List.nil_append]

end

end Trellis.Source
