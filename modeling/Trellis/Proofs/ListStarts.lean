import Mathlib
import Trellis.Proofs.Pairing
import Trellis.Proofs.Written

/-!
# `Trellis.Proofs.ListStarts`: the lists of calls and mixins in a statement

A call has a list of arguments and a mixin has one of parameters. `ListStart` says where lists begin
in the text of a statement, without saying that they end. A statement that can be read ends each of
them (`ListStart.ends`), and each list among its tokens begins in it (`found_of_readStatement`). Both
follow the reader of statements behind its colons, and use one inversion for each reader that may
take a list (`callHead_cases`, `mixinToken_cases`).
-/

set_option autoImplicit false

namespace Trellis

open Source Text

namespace Source

/-! ### Where a list begins -/

/-- The lists that the bracket counter reads: the arguments of a call, and the parameters of a
mixin. -/
inductive ListKind where
  | arguments
  | parameters

/-- The token of a call or a mixin with its list. -/
def ListKind.token : ListKind → String → String → Token
  | .arguments => .call
  | .parameters => .mixin

/-- In a statement, a list begins in front of a text. The statement may stand behind colons. -/
inductive ListStart : ListKind → List Char → List Char → Prop
  | arguments {cs text list : List Char} (opens : opening cs = .ok (.call text))
    (behind : text.drop (nameOf text).length = '(' :: list) : ListStart .arguments cs list
  | parameters {cs argument list : List Char}
    (word : nameOf (currentLine cs) = ['m', 'i', 'x', 'i', 'n'])
    (blank : headIs isBlank ((currentLine cs).drop 5) = true)
    (hargument : argument = trim ((currentLine cs).drop 5))
    (behind : argument.drop (nameOf argument).length = '(' :: list) :
    ListStart .parameters cs (list ++ belowLine cs)
  | behindCall {kind : ListKind} {cs text rest child list : List Char} {token : Token}
    (opens : opening cs = .ok (.call text)) (head : callHead text = .ok (token, rest))
    (colon : behindColon? rest = some child) (inside : ListStart kind child list) :
    ListStart kind cs list
  | behindTag {kind : ListKind} {cs text rest child list : List Char} {tokens : List Token}
    (opens : opening cs = .ok (.tag text)) (head : tagHead text = .ok (tokens, rest))
    (colon : behindColon? rest = some child) (inside : ListStart kind child list) :
    ListStart kind cs list

/-! ### Tokens that hold lists -/

theorem writtenExpressions_subset_append (ts more : List Token) :
    writtenExpressions ts ⊆ writtenExpressions (ts ++ more) := by
  induction ts with
  | nil => exact List.nil_subset _
  | cons t ts ih =>
    rw [List.cons_append]
    cases t with
    | comment text => exact List.nil_subset _
    | filter name options => exact List.nil_subset _
    | _ =>
      exact List.append_subset.mpr
        ⟨List.subset_append_left _ _, List.subset_append_of_subset_right _ ih⟩

/-- The tokens of the head of a tag hide nothing behind them. -/
theorem writtenExpressions_behind_headParts {cs rest : List Char} {tokens : List Token}
    (h : headParts cs = .ok (tokens, rest)) (more : List Token) :
    writtenExpressions more ⊆ writtenExpressions (tokens ++ more) := by
  fun_induction headParts cs generalizing tokens rest with
  | case1 => cases h
  | case2 =>
    cases h
    exact List.Subset.refl _
  | case3 => cases h
  | case4 cs token between hpart _ others rest' hothers ih =>
    cases h
    have hshown : token.expressions ++ writtenExpressions (others ++ more) =
        writtenExpressions (token :: (others ++ more)) := by
      unfold headPart at hpart
      split at hpart
      · dsimp only at hpart
        split at hpart <;> cases hpart
        rfl
      · split at hpart <;> cases hpart
        rfl
      · split at hpart <;> cases hpart
        rfl
      · cases hpart
    rw [List.cons_append, ← hshown]
    exact List.subset_append_of_subset_right _ (ih hothers)

/-- Behind the head of a statement there is another statement, or the line ends. -/
theorem of_behindHead {wrap : List Token → List Token}
    {line : List Char → Except ScanFault (List Token × Below)} {rest : List Char} {s : Statement}
    (h : behindHead wrap line rest = .ok s) :
    (∃ child s', behindColon? rest = some child ∧ readStatement child = .ok s' ∧
      s.tokens = wrap s'.tokens) ∨
    ∃ r, behindColon? rest = none ∧ line (currentLine rest) = .ok r ∧ s.tokens = r.1 := by
  unfold behindHead at h
  split at h
  · next child hcolon =>
    obtain ⟨s', hs', rfl⟩ := of_map_eq_ok h
    exact .inl ⟨child, s', hcolon, hs', rfl⟩
  · next hcolon =>
    obtain ⟨r, hr, rfl⟩ := of_map_eq_ok h
    exact .inr ⟨r, hcolon, hr, rfl⟩

/-- What a list comes to in the tokens of a statement. -/
def ListKind.IsIn (kind : ListKind) (inner : List Char) (tokens : List Token) : Prop :=
  ∃ name, kind.token name (String.ofList (trim (oneLine inner))) ∈ tokens ∧
    (kind.token name (String.ofList (trim (oneLine inner)))).expressions ⊆ writtenExpressions tokens

theorem ListKind.isIn_cons (kind : ListKind) (inner : List Char) (name : String) (more : List Token) :
    kind.IsIn inner (kind.token name (String.ofList (trim (oneLine inner))) :: more) := by
  refine ⟨name, List.mem_cons_self, ?_⟩
  cases kind <;> exact List.subset_append_left _ _

/-- What a statement behind a colon says is among the tokens of the whole. -/
theorem ListKind.IsIn.mono {kind : ListKind} {inner : List Char} {tokens more : List Token}
    (h : kind.IsIn inner tokens) (htokens : tokens ⊆ more)
    (hwritten : writtenExpressions tokens ⊆ writtenExpressions more) : kind.IsIn inner more := by
  obtain ⟨name, hmem, hexpressions⟩ := h
  exact ⟨name, htokens hmem, List.Subset.trans hexpressions hwritten⟩

/-! ### Readers that take a list -/

section
variable {text argument below rest : List Char} {token : Token} {s : Statement}

/-- A call with a parenthesis behind its name takes a list, and no other does. -/
theorem callHead_cases (h : callHead text = .ok (token, rest)) :
    ∃ name arguments, token = .call name (String.ofList arguments) ∧
      ((∃ list, text.drop (nameOf text).length = '(' :: list ∧ balanced list = .ok (arguments, rest)) ∨
        (∀ list, text.drop (nameOf text).length ≠ '(' :: list) ∧ arguments = []) := by
  unfold callHead at h
  dsimp only at h
  split at h
  · cases h
  split at h
  · next list hbehind =>
    split at h
    · cases h
    · next arguments rest hbalanced =>
      cases h
      exact ⟨_, arguments, rfl, .inl ⟨list, hbehind, hbalanced⟩⟩
  · next hnot =>
    cases h
    exact ⟨_, [], rfl, .inr ⟨fun list heq => hnot list heq, rfl⟩⟩

/-- A mixin has a name, and takes a list as a call does. -/
theorem mixinToken_cases (h : mixinToken argument below = .ok (token, rest)) :
    nameOf argument ≠ [] ∧ ∃ name parameters, token = .mixin name (String.ofList parameters) ∧
      ((∃ list between, argument.drop (nameOf argument).length = '(' :: list ∧
        balanced (list ++ below) = .ok (parameters, between)) ∨
        (∀ list, argument.drop (nameOf argument).length ≠ '(' :: list) ∧ parameters = []) := by
  unfold mixinToken at h
  dsimp only at h
  split at h
  · cases h
  next hname =>
  refine ⟨fun hempty => hname (List.isEmpty_iff.mpr hempty), ?_⟩
  split at h
  · next list hbehind =>
    split at h
    · cases h
    next parameters between hbalanced =>
    split at h <;> cases h
    exact ⟨_, parameters, rfl, .inl ⟨list, between, hbehind, hbalanced⟩⟩
  · next hnot =>
    split at h <;> cases h
    exact ⟨_, [], rfl, .inr ⟨fun list heq => hnot list heq, rfl⟩⟩

/-- What the word `mixin` makes of its line. -/
theorem opening_of_mixin {cs : List Char} (word : nameOf (currentLine cs) = ['m', 'i', 'x', 'i', 'n'])
    (hbehind : (((currentLine cs).drop 5).isEmpty || headIs isBlank ((currentLine cs).drop 5)) = true) :
    opening cs = (mixinToken (trim ((currentLine cs).drop 5)) (belowLine cs)).map fun r =>
      .whole ⟨[r.1], .statements, r.2⟩ := by
  have hsplit := nameOf_append_drop (currentLine cs)
  rw [word] at hsplit
  -- The text begins with a letter, so it is no sign that tells what kind of statement it is.
  have hopening : opening cs = openingWord cs := by
    unfold opening
    dsimp only
    rw [← hsplit]
    rfl
  have hkeyword : keywordToken? ['m', 'i', 'x', 'i', 'n'] (trim ((currentLine cs).drop 5))
      (belowLine cs) = (mixinToken (trim ((currentLine cs).drop 5)) (belowLine cs)).map some := rfl
  rw [hopening, openingWord]
  simp only [word, List.isEmpty_cons, Bool.false_eq_true, if_false, List.length_cons, List.length_nil]
  rw [if_pos hbehind, hkeyword]
  cases mixinToken (trim ((currentLine cs).drop 5)) (belowLine cs) <;> rfl

/-- A call begins with its token. -/
theorem tokens_of_call (h : behindHead (fun ts => token :: .colon :: ts) (callEnd token) rest = .ok s) :
    ∃ more, s.tokens = token :: more := by
  rcases of_behindHead h with ⟨child, s', -, -, htokens⟩ | ⟨r, -, hend, htokens⟩
  · exact ⟨_, htokens⟩
  · unfold callEnd at hend
    split at hend <;> cases hend
    exact ⟨[], htokens⟩

end

/-- The head of a tag is the tag, by the name that the text begins with or as a division, and
its parts. -/
theorem tagHead_cases {text rest : List Char} {tokens : List Token}
    (h : tagHead text = .ok (tokens, rest)) :
    ∃ name parts behind, tokens = .tag name :: parts ∧ headParts behind = .ok (parts, rest) ∧
      (name = "div" ∨ headIs isLetter text = true ∧ name = String.ofList (tagNameFrom text)) := by
  unfold tagHead at h
  dsimp only at h
  split at h
  · cases h
  · next parts between hparts =>
    cases h
    refine ⟨_, parts, _, rfl, hparts, ?_⟩
    by_cases hletter : headIs isLetter text = true
    · rw [if_pos hletter]
      by_cases hempty : (tagNameFrom text).isEmpty = true
      · exact .inl (if_pos hempty)
      · exact .inr ⟨hletter, if_neg hempty⟩
    · rw [if_neg hletter]
      exact .inl rfl

/-- The head of a tag hides nothing behind it. -/
theorem writtenExpressions_behind_tagHead {text rest : List Char} {tokens : List Token}
    (h : tagHead text = .ok (tokens, rest)) (more : List Token) :
    writtenExpressions more ⊆ writtenExpressions (tokens ++ .colon :: more) := by
  obtain ⟨name, parts, behind, rfl, hparts, -⟩ := tagHead_cases h
  exact writtenExpressions_behind_headParts hparts (.colon :: more)

/-- **Every list that begins in a statement ends in it**, and its text is in one of the tokens. The
induction is on where the list begins, and each case follows one reader. -/
theorem ListStart.ends {kind : ListKind} {cs list : List Char} (h : ListStart kind cs list)
    {s : Statement} (hs : readStatement cs = .ok s) :
    ∃ inner d rest, list = inner ++ d :: rest ∧ closesBracket d = true ∧ Nested AnyKind inner ∧
      kind.IsIn inner s.tokens := by
  rw [readStatement_eq] at hs
  induction h generalizing s with
  | @arguments cs text list opens behind =>
    rw [bind_eq_of_ok opens] at hs
    obtain ⟨⟨token, between⟩, hhead, hs⟩ := of_bind_eq_ok hs
    obtain ⟨name, arguments, rfl, ⟨_, hbehind, hbalanced⟩ | ⟨hnone, -⟩⟩ := callHead_cases hhead
    case inr => exact absurd behind (hnone list)
    cases behind.symm.trans hbehind
    obtain ⟨inner, d, rfl, hd, hinner, rfl⟩ := balanced_splits hbalanced
    obtain ⟨more, htokens⟩ := tokens_of_call hs
    refine ⟨inner, d, between, rfl, hd, hinner, ?_⟩
    rw [htokens]
    exact ListKind.isIn_cons .arguments inner name more
  | @parameters cs argument list word blank hargument behind =>
    subst hargument
    rw [opening_of_mixin word (by rw [blank, Bool.or_true])] at hs
    obtain ⟨head, hhead, hs⟩ := of_bind_eq_ok hs
    obtain ⟨⟨token, between⟩, hmixin, rfl⟩ := of_map_eq_ok hhead
    cases hs
    obtain ⟨-, name, parameters, rfl, ⟨_, rest, hbehind, hbalanced⟩ | ⟨hnone, -⟩⟩ :=
      mixinToken_cases hmixin
    case inr => exact absurd behind (hnone list)
    cases behind.symm.trans hbehind
    obtain ⟨inner, d, hlist, hd, hinner, rfl⟩ := balanced_splits hbalanced
    exact ⟨inner, d, rest, hlist, hd, hinner, ListKind.isIn_cons .parameters inner name []⟩
  | behindCall opens head colon _ ih =>
    rw [bind_eq_of_ok opens, Opening.statement, bind_eq_of_ok head] at hs
    rcases of_behindHead hs with ⟨child, s', hchild, hs', htokens⟩ | ⟨r, hnone, -⟩
    · cases colon.symm.trans hchild
      rw [readStatement_eq] at hs'
      obtain ⟨inner, d, rest, hlist, hd, hinner, hin⟩ := ih hs'
      refine ⟨inner, d, rest, hlist, hd, hinner, ?_⟩
      obtain ⟨name, arguments, rfl, -⟩ := callHead_cases head
      rw [htokens]
      exact hin.mono (List.subset_append_right [_, _] _)
        (List.subset_append_right ((splitTopLevel _).map String.ofList) _)
    · cases colon.symm.trans hnone
  | behindTag opens head colon _ ih =>
    rw [bind_eq_of_ok opens, Opening.statement, bind_eq_of_ok head] at hs
    rcases of_behindHead hs with ⟨child, s', hchild, hs', htokens⟩ | ⟨r, hnone, -⟩
    · cases colon.symm.trans hchild
      rw [readStatement_eq] at hs'
      obtain ⟨inner, d, rest, hlist, hd, hinner, hin⟩ := ih hs'
      refine ⟨inner, d, rest, hlist, hd, hinner, ?_⟩
      rw [htokens]
      exact hin.mono
        (List.subset_append_of_subset_right _ (List.subset_cons_self _ _))
        (writtenExpressions_behind_tagHead head _)
    · cases colon.symm.trans hnone

/-! ### Every list begins somewhere -/

/-- A token with which a tag, a call or a mixin begins. -/
def Token.heads : Token → Bool
  | .tag _ => true
  | .call _ _ => true
  | .mixin _ _ => true
  | _ => false

theorem ListKind.heads (kind : ListKind) (name text : String) :
    (kind.token name text).heads = true := by cases kind <;> rfl

/-- Nothing in the head of a tag begins another one. -/
theorem not_heads_of_headParts {cs rest : List Char} {tokens : List Token}
    (h : headParts cs = .ok (tokens, rest)) : ∀ t ∈ tokens, t.heads = false := by
  fun_induction headParts cs generalizing tokens rest with
  | case1 => cases h
  | case2 =>
    cases h
    exact List.forall_mem_nil _
  | case3 => cases h
  | case4 cs token between hpart _ others rest' hothers ih =>
    cases h
    refine List.forall_mem_cons.mpr ⟨?_, ih hothers⟩
    unfold headPart at hpart
    split at hpart
    · -- An identifier.
      dsimp only at hpart
      split at hpart <;> cases hpart
      rfl
    · -- A class.
      dsimp only at hpart
      split at hpart <;> cases hpart
      rfl
    · -- A list of attributes.
      split at hpart <;> cases hpart
      rfl
    · cases hpart

theorem not_heads_of_tagTail {cs : List Char} {r : List Token × Below} (h : tagTail cs = .ok r) :
    ∀ t ∈ r.1, t.heads = false := by
  unfold tagTail codeToken at h
  grind [Token.heads, Except.map]

theorem not_heads_of_keyword {word argument below rest : List Char} {t : Token}
    (hword : word ≠ ['m', 'i', 'x', 'i', 'n'])
    (h : keywordToken? word argument below = .ok (some (t, rest))) : t.heads = false := by
  -- Every other keyword makes a token of its own kind, if any.
  have hchecked {x : Except ScanFault Token} (hx : ∀ t, x = .ok t → t.heads = false)
      (h : (x.map fun t => some (t, below)) = .ok (some (t, rest))) : t.heads = false := by
    obtain ⟨a, ha, hpair⟩ := of_map_eq_ok h
    cases hpair
    exact hx _ ha
  have hrequired {keyword : String} {token : String → Token} (htoken : ∀ a, (token a).heads = false)
      (t : Token) (h : (requireArgument keyword argument).map token = .ok t) : t.heads = false := by
    obtain ⟨a, -, rfl⟩ := of_map_eq_ok h
    exact htoken a
  have hblock (t : Token) (h : blockToken argument = .ok t) : t.heads = false := by
    unfold blockToken at h
    grind [Token.heads]
  have hloop (t : Token) (h : loopToken argument = .ok t) : t.heads = false := by
    unfold loopToken at h
    grind [Token.heads]
  have helse (t : Token) (h : elseToken argument = .ok t) : t.heads = false := by
    unfold elseToken at h
    grind [Token.heads]
  unfold keywordToken? at h
  dsimp only at h
  split at h
  case h_7 hmixin =>
    refine absurd ?_ hword
    have hmixin := congrArg String.toList hmixin
    rwa [String.toList_ofList] at hmixin
  case h_4 => exact hchecked hblock h
  case h_8 | h_9 => exact hchecked hloop h
  case h_12 => exact hchecked helse h
  case h_1 =>
    cases h
    rfl
  case h_5 | h_6 | h_15 =>
    split at h <;> cases h
    rfl
  case h_16 => cases h
  all_goals exact hchecked (hrequired fun _ => rfl) h

/-- In a statement that is read to its end, only the word `mixin` begins anything else. -/
theorem mixinToken_of_opening {cs : List Char} {s : Statement} {t : Token}
    (h : opening cs = .ok (.whole s)) (hmem : t ∈ s.tokens) (ht : t.heads = true) :
    nameOf (currentLine cs) = ['m', 'i', 'x', 'i', 'n'] ∧
      (((currentLine cs).drop 5).isEmpty || headIs isBlank ((currentLine cs).drop 5)) = true ∧
      ∃ rest, mixinToken (trim ((currentLine cs).drop 5)) (belowLine cs) = .ok (t, rest) := by
  have hcode {token : String → Token} {code : List Char} (htoken : ∀ a, (token a).heads = false)
      (h : ((codeToken token code).map fun t => Opening.whole ⟨[t], .statements, belowLine cs⟩) =
        .ok (.whole s)) : False := by
    obtain ⟨t', hcode, hwhole⟩ := of_map_eq_ok h
    cases hwhole
    unfold codeToken at hcode
    dsimp only at hcode
    split at hcode <;> cases hcode
    rw [List.mem_singleton.mp hmem, htoken] at ht
    cases ht
  unfold opening at h
  dsimp only at h
  split at h
  case h_14 =>
    unfold openingWord at h
    dsimp only at h
    split at h
    · cases h
    split at h
    · next hbehind =>
      split at h
      · cases h
      · next hkeyword =>
        cases h
        rw [List.mem_singleton] at hmem
        subst hmem
        by_cases hword : nameOf (currentLine cs) = ['m', 'i', 'x', 'i', 'n']
        · rw [hword] at hbehind hkeyword
          have hmixin : (mixinToken (trim ((currentLine cs).drop 5)) (belowLine cs)).map some = _ :=
            hkeyword
          obtain ⟨pair, hmixin, hpair⟩ := of_map_eq_ok hmixin
          cases hpair
          exact ⟨hword, hbehind, _, hmixin⟩
        · rw [not_heads_of_keyword hword hkeyword] at ht
          cases ht
      · cases h
    · cases h
  case h_7 | h_8 | h_9 => exact (hcode (fun _ => rfl) h).elim
  case h_10 =>
    obtain ⟨f, hfilter, hwhole⟩ := of_map_eq_ok h
    cases hwhole
    unfold filterStatement at hfilter
    grind [Token.heads]
  case h_1 =>
    cases h
    cases hmem
  all_goals cases h
  all_goals
    rw [List.mem_singleton.mp hmem] at ht
    cases ht

/-- A list of some text begins in a statement. -/
def ListKind.Found (kind : ListKind) (cs : List Char) (text : String) : Prop :=
  ∃ list parts rest, ListStart kind cs list ∧ balanced list = .ok (parts, rest) ∧
    text = String.ofList parts

section
variable {kind : ListKind} {name text : String} {cs rest : List Char}

/-- The parameters of a mixin begin behind its name. -/
theorem found_of_mixinToken (word : nameOf (currentLine cs) = ['m', 'i', 'x', 'i', 'n'])
    (hbehind : (((currentLine cs).drop 5).isEmpty || headIs isBlank ((currentLine cs).drop 5)) = true)
    (h : mixinToken (trim ((currentLine cs).drop 5)) (belowLine cs) = .ok (kind.token name text, rest))
    (htext : text ≠ "") : kind.Found cs text := by
  obtain ⟨hname, _, parameters, htoken, hlist⟩ := mixinToken_cases h
  -- There is a name, so something stands behind the word.
  have hblank : headIs isBlank ((currentLine cs).drop 5) = true := by
    refine (Bool.or_eq_true _ _ |>.mp hbehind).resolve_left fun hempty => hname ?_
    rw [List.isEmpty_iff.mp hempty]
    rfl
  cases kind <;> cases htoken
  rcases hlist with ⟨list, between, hbehind, hbalanced⟩ | ⟨-, rfl⟩
  · exact ⟨_, parameters, between, .parameters word hblank rfl hbehind, hbalanced, rfl⟩
  · exact absurd rfl htext

end

theorem ListKind.Found.mono {kind : ListKind} {child cs : List Char} {text : String}
    (h : kind.Found child text) (hstart : ∀ list, ListStart kind child list → ListStart kind cs list) :
    kind.Found cs text := by
  obtain ⟨list, parts, rest, hlist, h⟩ := h
  exact ⟨list, parts, rest, hstart list hlist, h⟩

/-- The arguments of a call begin behind its name. -/
theorem found_of_callHead {kind : ListKind} {name text : String} {cs call rest : List Char}
    (hopening : opening cs = .ok (.call call))
    (hhead : callHead call = .ok (kind.token name text, rest)) (htext : text ≠ "") :
    kind.Found cs text := by
  obtain ⟨_, arguments, htoken, hlist⟩ := callHead_cases hhead
  cases kind <;> cases htoken
  rcases hlist with ⟨list, hbehind, hbalanced⟩ | ⟨-, rfl⟩
  · exact ⟨list, arguments, _, .arguments hopening hbehind, hbalanced, rfl⟩
  · exact absurd rfl htext

/-- **Every list among the tokens of a statement begins in it.** -/
theorem found_of_readStatement {cs : List Char} {s : Statement} (h : readStatement cs = .ok s)
    {kind : ListKind} {name text : String} (hmem : kind.token name text ∈ s.tokens) (htext : text ≠ "") :
    kind.Found cs text := by
  have hheads := kind.heads name text
  have hcolon : kind.token name text ≠ .colon := by
    intro heq
    rw [heq] at hheads
    cases hheads
  rw [readStatement_eq] at h
  obtain ⟨head, hopening, h⟩ := of_bind_eq_ok h
  cases head with
  | whole whole =>
    cases h
    obtain ⟨hword, hbehind, rest, hmixin⟩ := mixinToken_of_opening hopening hmem hheads
    exact found_of_mixinToken hword hbehind hmixin htext
  | call call =>
    obtain ⟨⟨token, behind⟩, hhead, h⟩ := of_bind_eq_ok h
    rcases of_behindHead h with ⟨child, s', hchild, hs', htokens⟩ | ⟨r, -, hend, htokens⟩
    · rw [htokens] at hmem
      rcases List.mem_cons.mp hmem with rfl | hmem
      · exact found_of_callHead hopening hhead htext
      have hshort : child.length < cs.length := by
        have hcall := length_of_opening (.inl hopening)
        have hrest := length_of_callHead hhead
        have hbehind : child.length < behind.length := length_of_behindColon? hchild
        omega
      have hfound := found_of_readStatement hs' (List.mem_of_ne_of_mem hcolon hmem) htext
      exact hfound.mono fun list => .behindCall hopening hhead hchild
    · unfold callEnd at hend
      split at hend <;> cases hend
      rw [htokens] at hmem
      obtain rfl := List.mem_singleton.mp hmem
      exact found_of_callHead hopening hhead htext
  | tag tag =>
    obtain ⟨⟨tokens, behind⟩, hhead, h⟩ := of_bind_eq_ok h
    have hnot : kind.token name text ∉ tokens := by
      obtain ⟨tag, parts, _, rfl, hparts, -⟩ := tagHead_cases hhead
      intro hmem
      rcases List.mem_cons.mp hmem with htag | hmem
      · cases kind <;> cases htag
      · rw [not_heads_of_headParts hparts _ hmem] at hheads
        cases hheads
    rcases of_behindHead h with ⟨child, s', hchild, hs', htokens⟩ | ⟨r, -, hend, htokens⟩
    · rw [htokens] at hmem
      have hinside := (List.mem_append.mp hmem).resolve_left hnot
      have hshort : child.length < cs.length := by
        have htag := length_of_opening (.inr hopening)
        have hrest := length_of_tagHead hhead
        have hbehind : child.length < behind.length := length_of_behindColon? hchild
        omega
      have hfound := found_of_readStatement hs' (List.mem_of_ne_of_mem hcolon hinside) htext
      exact hfound.mono fun list => .behindTag hopening hhead hchild
    · obtain ⟨tail, htail, rfl⟩ := of_map_eq_ok hend
      rw [htokens] at hmem
      have hbehind := (List.mem_append.mp hmem).resolve_left hnot
      rw [not_heads_of_tagTail htail _ hbehind] at hheads
      cases hheads
termination_by cs.length

end Source

end Trellis
