import Trellis.Proofs.LineEnds

/-!
# `Trellis.Proofs.Locality`: a statement is read from its own lines

The readers of tags, calls, filters and mixins stop on some line and look at nothing below it, and
so does the reader of statements, which they are a part of (`local_readStatement`). A statement
ends with a line. So whatever lines stand below is the same to it.
-/

set_option autoImplicit false

namespace Trellis.Source

open Trellis.Text

/-! ### The head of a statement -/

theorem currentLine_drop {cs cs' : List Char} (h : currentLine cs' = currentLine cs) {n : Nat}
    (hn : n ≤ (currentLine cs).length) : currentLine (cs'.drop n) = currentLine (cs.drop n) := by
  induction n generalizing cs cs' with
  | zero => exact h
  | succ n ih =>
    cases cs with
    | nil => cases hn
    | cons c cs =>
      by_cases hc : c = '\n'
      · subst hc
        cases hn
      · obtain ⟨cs', rfl, hline⟩ := eq_cons_of_currentLine hc h
        have hlength : (currentLine (c :: cs)).length = (currentLine cs).length + 1 := by
          simp [currentLine, hc]
        rw [List.drop_succ_cons, List.drop_succ_cons]
        exact ih hline (by omega)

theorem length_nameOf_le (cs : List Char) : (nameOf cs).length ≤ (currentLine cs).length := by
  induction cs with
  | nil => exact Nat.le_refl 0
  | cons c cs ih =>
    unfold nameOf currentLine at ih ⊢
    by_cases hc : c = '\n'
    · subst hc
      exact Nat.zero_le _
    · rw [List.takeWhile_cons_of_pos (p := (· != '\n')) (by simpa using hc), List.takeWhile_cons]
      split
      · exact Nat.succ_le_succ ih
      · exact Nat.zero_le _

theorem nameOf_of_currentLine {cs cs' : List Char} (h : currentLine cs' = currentLine cs) :
    nameOf cs' = nameOf cs := by
  have hname (cs : List Char) : nameOf cs = nameOf (currentLine cs) := by
    induction cs with
    | nil => rfl
    | cons c cs ih =>
      unfold nameOf currentLine at ih ⊢
      by_cases hc : c = '\n'
      · subst hc
        rfl
      · rw [List.takeWhile_cons_of_pos (p := (· != '\n')) (by simpa using hc),
          List.takeWhile_cons, List.takeWhile_cons, ih]
  rw [hname, h, ← hname]

/-- A name and what stands behind it. -/
theorem nameOf_append_drop (cs : List Char) : nameOf cs ++ cs.drop (nameOf cs).length = cs := by
  rw [nameOf, drop_takeWhile]
  exact List.takeWhile_append_dropWhile

/-- A name is read with whatever stands below its line. -/
theorem nameOf_append {cs rest' : List Char}
    (h : currentLine rest' = currentLine (cs.drop (nameOf cs).length)) :
    nameOf (nameOf cs ++ rest') = nameOf cs := by
  have hline := currentLine_append h (nameOf cs)
  rw [nameOf_append_drop] at hline
  exact nameOf_of_currentLine hline

theorem tagNameFrom_of_colon {cs rest : List Char} (h : cs.drop (nameOf cs).length = ':' :: rest)
    (hletter : headIs isLetter rest = true) :
    tagNameFrom cs = nameOf cs ++ ':' :: tagNameFrom rest := by
  rw [tagNameFrom]
  split
  · next rest' heq =>
    rw [h] at heq
    cases heq
    rw [if_pos hletter]
  · next hnone => exact (hnone rest h).elim

theorem tagNameFrom_of_not {cs : List Char}
    (h : ∀ rest, cs.drop (nameOf cs).length = ':' :: rest → headIs isLetter rest = false) :
    tagNameFrom cs = nameOf cs := by
  rw [tagNameFrom]
  split
  · next rest heq => rw [if_neg (by simp [h rest heq])]
  · rfl

/-- The name of a tag stands on its line. -/
theorem tagNameFrom_of_currentLine {cs cs' : List Char} (h : currentLine cs' = currentLine cs) :
    tagNameFrom cs' = tagNameFrom cs := by
  have hname := nameOf_of_currentLine h
  have hbehind := currentLine_drop h (length_nameOf_le cs)
  by_cases hcolon : ∃ rest, cs.drop (nameOf cs).length = ':' :: rest ∧ headIs isLetter rest = true
  · obtain ⟨rest, hdrop, hletter⟩ := hcolon
    rw [hdrop] at hbehind
    obtain ⟨rest', hdrop', hline⟩ := eq_cons_of_currentLine (by decide) hbehind
    have hshorter : rest.length < cs.length := by
      have := congrArg List.length hdrop
      simp only [List.length_drop, List.length_cons] at this
      omega
    rw [← hname] at hdrop'
    rw [tagNameFrom_of_colon hdrop hletter, tagNameFrom_of_colon hdrop'
      ((headIs_of_currentLine hline rfl).trans hletter), hname, tagNameFrom_of_currentLine hline]
  · rw [tagNameFrom_of_not, tagNameFrom_of_not, hname]
    · intro rest hdrop
      exact eq_false_of_ne_true fun hletter => hcolon ⟨rest, hdrop, hletter⟩
    · intro rest hdrop
      rw [hname] at hdrop
      obtain ⟨rest', hdrop', hline⟩ := eq_cons_of_currentLine (by decide) (hdrop ▸ hbehind).symm
      rw [← headIs_of_currentLine hline rfl]
      exact eq_false_of_ne_true fun hletter => hcolon ⟨rest', hdrop', hletter⟩
termination_by cs.length

theorem tagNameFrom_isPrefix (cs : List Char) : tagNameFrom cs <+: cs := by
  fun_induction tagNameFrom cs with
  | case1 cs _ rest hdrop _ _ ih =>
    obtain ⟨behind, hrest⟩ := ih
    have hcs := nameOf_append_drop cs
    rw [show cs.drop (nameOf cs).length = ':' :: rest from hdrop, ← hrest] at hcs
    exact ⟨behind, by simpa using hcs⟩
  | case2 cs => exact ⟨_, nameOf_append_drop cs⟩
  | case3 cs => exact ⟨_, nameOf_append_drop cs⟩

/-- What a part of a tag's head is read from. -/
theorem headPart_local {cs rest : List Char} {token : Token}
    (h : headPart cs = .ok (.part token rest)) :
    ∃ front, cs = front ++ rest ∧ ∀ rest', currentLine rest' = currentLine rest →
      headPart (front ++ rest') = .ok (.part token rest') := by
  unfold headPart at h
  split at h
  · next behind =>
    dsimp only at h
    split at h
    · cases h
    next hname =>
    cases h
    refine ⟨'#' :: nameOf behind, by rw [List.cons_append, nameOf_append_drop], fun rest' hrest => ?_⟩
    simp only [List.cons_append, headPart, nameOf_append hrest, List.drop_left]
    rw [if_neg hname]
  · next behind =>
    split at h
    · next hhead =>
      cases h
      have hcs := nameOf_append_drop behind
      refine ⟨'.' :: nameOf behind, by rw [List.cons_append, hcs], fun rest' hrest => ?_⟩
      have hline := currentLine_append hrest (nameOf behind)
      rw [hcs] at hline
      simp only [List.cons_append, headPart, nameOf_append hrest, List.drop_left]
      rw [headIs_of_currentLine hline (by decide), if_pos hhead]
    · cases h
  · next behind =>
    cases hlist : attributeList behind with
    | error e =>
      rw [hlist] at h
      cases h
    | ok r =>
      obtain ⟨list, left⟩ := r
      rw [hlist] at h
      cases h
      obtain ⟨front, rfl, hlocal⟩ := local_attributeList _ _ _ hlist
      refine ⟨'(' :: front, rfl, fun rest' hrest => ?_⟩
      simp only [List.cons_append, headPart, hlocal rest' hrest]
  · cases h

/-- Whether a part of a tag's head follows at all is told by its line. -/
theorem headPart_of_currentLine {cs cs' : List Char} (h : currentLine cs' = currentLine cs)
    (hnone : headPart cs = .ok .none) : headPart cs' = .ok .none := by
  unfold headPart
  split
  · obtain ⟨rest, rfl, -⟩ := eq_cons_of_currentLine (by decide) h.symm
    simp only [headPart] at hnone
    split at hnone <;> cases hnone
  · obtain ⟨rest, rfl, hline⟩ := eq_cons_of_currentLine (by decide) h.symm
    simp only [headPart] at hnone
    split at hnone
    · cases hnone
    · next hhead => rw [← headIs_of_currentLine hline (by decide), if_neg hhead]
  · obtain ⟨rest, rfl, -⟩ := eq_cons_of_currentLine (by decide) h.symm
    simp only [headPart] at hnone
    split at hnone <;> cases hnone
  · rfl

theorem headParts_of_none {cs : List Char} (h : headPart cs = .ok .none) :
    headParts cs = .ok ([], cs) := by
  rw [headParts]
  split <;> simp_all

theorem local_headParts : Local headParts := by
  intro cs tokens rest h
  fun_induction headParts cs generalizing tokens rest with
  | case1 => cases h
  | case2 cs hpart =>
    cases h
    exact ⟨[], rfl, fun rest' hrest => headParts_of_none (headPart_of_currentLine hrest hpart)⟩
  | case3 => cases h
  | case4 cs token behind hpart _ more left hmore ih =>
    cases h
    obtain ⟨front₁, rfl, hlocal₁⟩ := headPart_local hpart
    obtain ⟨front₂, rfl, hlocal₂⟩ := ih _ _ hmore
    refine ⟨front₁ ++ front₂, (List.append_assoc _ _ _).symm, fun rest' hrest => ?_⟩
    rw [List.append_assoc]
    exact headParts_of_part (hlocal₁ _ (currentLine_append hrest front₂)) (hlocal₂ _ hrest)

theorem local_tagHead : Local tagHead := by
  intro cs tokens rest h
  -- The name, if there is one, is the same on the same line.
  have hname {cs cs' : List Char} (h : currentLine cs' = currentLine cs) :
      (if headIs isLetter cs' then tagNameFrom cs' else []) =
        if headIs isLetter cs then tagNameFrom cs else [] := by
    rw [headIs_of_currentLine h rfl, tagNameFrom_of_currentLine h]
  have hprefix : (if headIs isLetter cs then tagNameFrom cs else []) <+: cs := by
    split
    · exact tagNameFrom_isPrefix cs
    · exact List.nil_prefix
  obtain ⟨behind, hcs⟩ := hprefix
  have hdrop : ((if headIs isLetter cs then tagNameFrom cs else []) ++ behind).drop
      (if headIs isLetter cs then tagNameFrom cs else []).length = behind := List.drop_left
  rw [hcs] at hdrop
  unfold tagHead at h
  dsimp only at h
  rw [hdrop] at h
  cases hparts : headParts behind with
  | error e =>
    rw [hparts] at h
    cases h
  | ok r =>
    obtain ⟨parts, left⟩ := r
    rw [hparts] at h
    cases h
    obtain ⟨front, rfl, hlocal⟩ := local_headParts _ _ _ hparts
    refine ⟨(if headIs isLetter cs then tagNameFrom cs else []) ++ front, ?_, fun rest' hrest => ?_⟩
    · rw [List.append_assoc, hcs]
    · have hline := currentLine_append hrest
        ((if headIs isLetter cs then tagNameFrom cs else []) ++ front)
      rw [List.append_assoc, List.append_assoc, hcs] at hline
      unfold tagHead
      dsimp only
      rw [List.append_assoc, hname hline, List.drop_left, hlocal rest' hrest]

theorem local_callHead : Local callHead := by
  intro cs token rest h
  have hcs := nameOf_append_drop cs
  unfold callHead at h
  dsimp only at h
  split at h
  · cases h
  next hname =>
  split at h
  · next behind hbehind =>
    cases hread : balanced behind with
    | error e =>
      rw [hread] at h
      cases h
    | ok r =>
      obtain ⟨arguments, left⟩ := r
      rw [hread] at h
      cases h
      obtain ⟨front, rfl, hlocal⟩ := local_readBalanced _ _ _ _ _ hread
      rw [hbehind] at hcs
      refine ⟨nameOf cs ++ '(' :: front, by simpa using hcs.symm, fun rest' hrest => ?_⟩
      have hline := currentLine_append hrest ('(' :: front)
      have hname' : nameOf (nameOf cs ++ ('(' :: front ++ rest')) = nameOf cs :=
        nameOf_append (by rw [hline, hbehind]; rfl)
      unfold callHead
      dsimp only
      rw [List.append_assoc, hname', if_neg hname, List.drop_left, List.cons_append]
      have hread' : balanced (front ++ rest') = .ok (arguments, rest') := hlocal rest' hrest
      simp only [hread']
  · next hopen =>
    cases h
    refine ⟨nameOf cs, hcs.symm, fun rest' hrest => ?_⟩
    unfold callHead
    dsimp only
    rw [nameOf_append hrest, if_neg hname, List.drop_left]
    split
    · next behind =>
      obtain ⟨behind', hbehind, -⟩ := eq_cons_of_currentLine (by decide) hrest.symm
      exact (hopen behind' hbehind).elim
    · rfl

/-! ### Statements -/

/-- Whatever statement is read ends with a line, and would be read as well if other lines stood
below. -/
def LocalStatement (read : List Char → Except ScanFault Statement) : Prop :=
  ∀ cs s, read cs = .ok s →
    ∃ front, cs = front ++ s.rest ∧ currentLine s.rest = [] ∧
      ∀ rest', currentLine rest' = [] → read (front ++ rest') = .ok { s with rest := rest' }

/-- What is left behind a line and lines below is a part of those lines. -/
theorem of_append_eq_append {line below front rest : List Char} (h : line ++ below = front ++ rest)
    (hline : '\n' ∉ line) (hrest : currentLine rest = []) :
    ∃ more, below = more ++ rest ∧ front = line ++ more := by
  rcases List.append_eq_append_iff.mp h with ⟨more, hfront, hbelow⟩ | ⟨more, hmore, hbelow⟩
  · exact ⟨more, hbelow, hfront⟩
  · cases more with
    | nil => exact ⟨[], by simpa using hbelow.symm, by simpa using hmore.symm⟩
    | cons c more =>
      -- What is left would begin inside the line.
      rw [hbelow] at hrest
      rcases eq_nil_or_of_currentLine hrest with h | ⟨cs, h⟩
      · cases h
      · cases h
        exact absurd (by rw [hmore]; simp) hline

/-- A line and the lines below it, which end it. -/
theorem currentLine_replace (cs : List Char) {rest' : List Char} (h : currentLine rest' = []) :
    currentLine (currentLine cs ++ rest') = currentLine cs ∧
      belowLine (currentLine cs ++ rest') = rest' :=
  ⟨currentLine_append_of_ends (newline_notMem_currentLine cs) h,
    belowLine_append_of_ends (newline_notMem_currentLine cs) h⟩

theorem local_filterStatement : LocalStatement filterStatement := by
  intro cs s h
  have hcs := nameOf_append_drop cs
  unfold filterStatement at h
  dsimp only at h
  split at h
  · cases h
  next hname =>
  -- The name, maybe with options, and the line that ends behind them.
  have hfinish (front : List Char) {behind : List Char} {options : List RawAttribute}
      (hfront : cs = front ++ behind)
      (hread : ∀ behind', currentLine behind' = currentLine behind → filterStatement (front ++ behind') =
        if isBlankText (currentLine behind') then
          .ok ⟨[.filter (String.ofList (nameOf cs)) options], .text, belowLine behind'⟩
        else .error .behindFilter)
      (h : (if isBlankText (currentLine behind) then
          .ok ⟨[.filter (String.ofList (nameOf cs)) options], .text, belowLine behind⟩
        else .error .behindFilter : Except ScanFault Statement) = .ok s) :
      ∃ front, cs = front ++ s.rest ∧ currentLine s.rest = [] ∧
        ∀ rest', currentLine rest' = [] → filterStatement (front ++ rest') = .ok { s with rest := rest' } := by
    split at h
    · next hblank =>
      cases h
      refine ⟨front ++ currentLine behind, ?_, currentLine_belowLine _, fun rest' hrest => ?_⟩
      · rw [List.append_assoc, currentLine_append_belowLine, hfront]
      · obtain ⟨hline, hbelow⟩ := currentLine_replace behind hrest
        rw [List.append_assoc, hread _ hline, hline, if_pos hblank, hbelow]
    · cases h
  split at h
  · next behind hbehind =>
    cases hlist : attributeList behind with
    | error e =>
      rw [hlist] at h
      cases h
    | ok r =>
      obtain ⟨options, left⟩ := r
      rw [hlist] at h
      obtain ⟨front, rfl, hlocal⟩ := local_attributeList _ _ _ hlist
      rw [hbehind] at hcs
      refine hfinish (nameOf cs ++ '(' :: front) (by simpa using hcs.symm) ?_ h
      intro behind' hline
      have hline' := currentLine_append hline ('(' :: front)
      have hname' : nameOf (nameOf cs ++ ('(' :: front ++ behind')) = nameOf cs :=
        nameOf_append (by rw [hline', hbehind]; rfl)
      have hlist' := hlocal behind' hline
      unfold filterStatement
      dsimp only
      rw [List.append_assoc, hname', if_neg hname, List.drop_left, List.cons_append]
      simp only [hlist']
  · next hopen =>
    refine hfinish (nameOf cs) hcs.symm ?_ h
    intro behind' hline
    unfold filterStatement
    dsimp only
    rw [nameOf_append hline, if_neg hname, List.drop_left]
    split
    · next behind =>
      obtain ⟨rest, hrest, -⟩ := eq_cons_of_currentLine (by decide) hline.symm
      exact (hopen rest hrest).elim
    · rfl

/-- A mixin's line, the lines below it that its parameters take in, and those that are left. -/
theorem mixinToken_local {argument below rest : List Char} {token : Token}
    (hargument : '\n' ∉ argument) (hbelow : currentLine below = [])
    (h : mixinToken argument below = .ok (token, rest)) :
    ∃ front, below = front ++ rest ∧ currentLine rest = [] ∧
      ∀ rest', currentLine rest' = [] → mixinToken argument (front ++ rest') = .ok (token, rest') := by
  unfold mixinToken at h
  dsimp only at h
  split at h
  · cases h
  next hname =>
  split at h
  · next cs hcs =>
    have hline : '\n' ∉ cs := by
      intro hmem
      refine hargument (List.mem_of_mem_drop (i := (nameOf argument).length) ?_)
      rw [hcs]
      exact List.mem_cons_of_mem _ hmem
    cases hread : balanced (cs ++ below) with
    | error e =>
      rw [hread] at h
      cases h
    | ok r =>
      obtain ⟨parameters, left⟩ := r
      rw [hread] at h
      dsimp only at h
      split at h
      · next hblank =>
        cases h
        obtain ⟨front, hfront, hlocal⟩ := local_readBalanced _ _ _ _ _ hread
        have hsplit : cs ++ below = (front ++ currentLine left) ++ belowLine left := by
          rw [List.append_assoc, currentLine_append_belowLine, hfront]
        obtain ⟨more, hmore, heq⟩ :=
          of_append_eq_append hsplit hline (currentLine_belowLine left)
        refine ⟨more, hmore, currentLine_belowLine left, fun rest' hrest => ?_⟩
        obtain ⟨hline', hbelow'⟩ := currentLine_replace left hrest
        have hread' : balanced (cs ++ (more ++ rest')) = .ok (parameters, currentLine left ++ rest') := by
          rw [← List.append_assoc, ← heq, List.append_assoc]
          exact hlocal _ hline'
        unfold mixinToken
        dsimp only
        rw [if_neg hname, hcs]
        simp only [hread', hline', hbelow', hblank]
        rfl
      · cases h
  · next hopen =>
    split at h
    · next hblank =>
      cases h
      refine ⟨[], rfl, hbelow, fun rest' _ => ?_⟩
      unfold mixinToken
      dsimp only
      rw [if_neg hname]
      split
      · next cs hcs => exact (hopen cs hcs).elim
      · rw [if_pos hblank]
        rfl
    · cases h

/-- What a keyword makes of its line and the lines below. -/
theorem keywordToken?_local {word argument below rest : List Char} {token : Token}
    (hargument : '\n' ∉ argument) (hbelow : currentLine below = [])
    (h : keywordToken? word argument below = .ok (some (token, rest))) :
    ∃ front, below = front ++ rest ∧ currentLine rest = [] ∧
      ∀ rest', currentLine rest' = [] →
        keywordToken? word argument (front ++ rest') = .ok (some (token, rest')) := by
  -- All keywords but one leave the lines below alone.
  have hchecked {x : Except ScanFault Token}
      (h : x.map (fun t => some (t, below)) = .ok (some (token, rest)))
      (heq : ∀ below, keywordToken? word argument below = x.map fun t => some (t, below)) :
      ∃ front, below = front ++ rest ∧ currentLine rest = [] ∧
        ∀ rest', currentLine rest' = [] →
          keywordToken? word argument (front ++ rest') = .ok (some (token, rest')) := by
    cases x with
    | error e => cases h
    | ok t =>
      cases h
      exact ⟨[], rfl, hbelow, fun rest' _ => heq rest'⟩
  unfold keywordToken? at h
  dsimp only at h
  split at h
  case h_1 heq =>
    exact hchecked (x := .ok _) h fun below => by simp only [keywordToken?, heq]; rfl
  case h_5 heq | h_6 heq =>
    split at h
    · cases h
    next hsome =>
    refine hchecked (x := .ok _) h fun below => ?_
    simp only [keywordToken?, heq]
    rw [if_neg hsome]
    rfl
  case h_7 heq =>
    obtain ⟨r, hmixin, hpair⟩ := of_map_eq_ok h
    cases hpair
    obtain ⟨front, hfront, hrest, hlocal⟩ := mixinToken_local hargument hbelow hmixin
    refine ⟨front, hfront, hrest, fun rest' hrest' => ?_⟩
    simp only [keywordToken?, heq, hlocal rest' hrest']
    rfl
  case h_15 heq =>
    split at h
    · next hnone =>
      refine hchecked (x := .ok _) h fun below => ?_
      simp only [keywordToken?, heq]
      rw [if_pos hnone]
      rfl
    · cases h
  case h_16 => cases h
  all_goals
    next heq => exact hchecked h fun below => by simp only [keywordToken?, heq]

/-- Whether a word is a keyword is not told by the lines below. -/
theorem keywordToken?_none {word argument below : List Char}
    (h : keywordToken? word argument below = .ok none) (below' : List Char) :
    keywordToken? word argument below' = .ok none := by
  have hsome {x : Except ScanFault Token} (h : x.map (fun t => some (t, below)) = .ok none) :
      keywordToken? word argument below' = .ok none := by
    cases x <;> cases h
  unfold keywordToken? at h
  dsimp only at h
  split at h
  case h_1 => exact hsome (x := .ok _) h
  case h_5 heq | h_6 heq =>
    split at h
    · next hnone =>
      simp only [keywordToken?, heq]
      rw [if_pos hnone]
    · exact hsome (x := .ok _) h
  case h_7 => cases hmixin : mixinToken argument below <;> rw [hmixin] at h <;> cases h
  case h_15 heq =>
    split at h
    · exact hsome (x := .ok _) h
    · next hnone =>
      simp only [keywordToken?, heq]
      rw [if_neg hnone]
  case h_16 hother =>
    unfold keywordToken?
    dsimp only
    split <;> first | rfl | (exfalso; simp_all)
  all_goals exact hsome h

theorem trimEnd_isPrefix (cs : List Char) : trimEnd cs <+: cs := by
  induction cs with
  | nil => exact List.prefix_refl _
  | cons c cs ih =>
    rw [trimEnd]
    split
    · split
      · exact List.nil_prefix
      · exact List.prefix_append [c] cs
    · exact List.cons_prefix_cons.mpr ⟨rfl, ih⟩

/-- To trim a text adds nothing to it. -/
theorem trim_subset (cs : List Char) : trim cs ⊆ cs :=
  List.Subset.trans (trimEnd_isPrefix _).subset (List.dropWhile_suffix _).subset

theorem openingWord_local {cs : List Char} {s : Statement}
    (h : openingWord cs = .ok (.whole s)) :
    ∃ front, cs = front ++ s.rest ∧ currentLine s.rest = [] ∧
      ∀ rest', currentLine rest' = [] →
        openingWord (front ++ rest') = .ok (.whole { s with rest := rest' }) := by
  have hargument : '\n' ∉ trim ((currentLine cs).drop (nameOf (currentLine cs)).length) := fun hmem =>
    newline_notMem_currentLine cs (List.mem_of_mem_drop (trim_subset _ hmem))
  unfold openingWord at h
  dsimp only at h
  split at h
  · cases h
  next hword =>
  split at h
  · next hbehind =>
    split at h
    · cases h
    · next token rest hkeyword =>
      cases h
      obtain ⟨front, hfront, hrest, hlocal⟩ :=
        keywordToken?_local hargument (currentLine_belowLine cs) hkeyword
      refine ⟨currentLine cs ++ front, ?_, hrest, fun rest' hrest' => ?_⟩
      · rw [List.append_assoc, ← hfront, currentLine_append_belowLine]
      · have hline : currentLine (front ++ rest') = [] := by
          rw [currentLine_append (hrest'.trans hrest.symm), ← hfront, currentLine_belowLine]
        obtain ⟨hcurrent, hbelow⟩ := currentLine_replace cs hline
        unfold openingWord
        dsimp only
        rw [List.append_assoc, hcurrent, hbelow, if_neg hword, if_pos hbehind, hlocal rest' hrest']
    · cases h
  · cases h

theorem openingWord_tag {cs text : List Char} (h : openingWord cs = .ok (.tag text)) :
    text = cs ∧ ∀ cs', currentLine cs' = currentLine cs → openingWord cs' = .ok (.tag cs') := by
  unfold openingWord at h
  dsimp only at h
  split at h
  · cases h
  next hword =>
  split at h
  · next hbehind =>
    split at h
    · cases h
    · cases h
    · next hnone =>
      cases h
      refine ⟨rfl, fun cs' hline => ?_⟩
      unfold openingWord
      dsimp only
      rw [hline, if_neg hword, if_pos hbehind, keywordToken?_none hnone]
  · next hbehind =>
    cases h
    refine ⟨rfl, fun cs' hline => ?_⟩
    unfold openingWord
    dsimp only
    rw [hline, if_neg hword, if_neg hbehind]

/-- What a text is opened with ends with a line, and is the same if other lines stand below. -/
theorem opening_local {cs : List Char} {s : Statement} (h : opening cs = .ok (.whole s)) :
    ∃ front, cs = front ++ s.rest ∧ currentLine s.rest = [] ∧
      ∀ rest', currentLine rest' = [] →
        opening (front ++ rest') = .ok (.whole { s with rest := rest' }) := by
  -- Most signs make something of their line only.
  have hline (x : Except ScanFault Token) (tokens : Token → List Token) {below : Below}
      (h : x.map (fun t => Opening.whole ⟨tokens t, below, belowLine cs⟩) = .ok (.whole s))
      (heq : ∀ cs', currentLine cs' = currentLine cs →
        opening cs' = x.map fun t => .whole ⟨tokens t, below, belowLine cs'⟩) :
      ∃ front, cs = front ++ s.rest ∧ currentLine s.rest = [] ∧
        ∀ rest', currentLine rest' = [] →
          opening (front ++ rest') = .ok (.whole { s with rest := rest' }) := by
    cases x with
    | error e => cases h
    | ok t =>
      cases h
      refine ⟨currentLine cs, (currentLine_append_belowLine cs).symm, currentLine_belowLine cs,
        fun rest' hrest => ?_⟩
      obtain ⟨hline, hbelow⟩ := currentLine_replace cs hrest
      have hopening := heq _ hline
      rw [hbelow] at hopening
      exact hopening
  unfold opening at h
  dsimp only at h
  split at h
  case h_1 heq =>
    refine hline (.ok .colon) (fun _ => []) h fun cs' hcs' => ?_
    simp only [opening, hcs', heq]
    rfl
  case h_10 colon heq =>
    obtain ⟨f, hfilter, hwhole⟩ := of_map_eq_ok h
    cases hwhole
    have hcs : cs = ':' :: cs.drop 1 := by
      have hprefix : currentLine cs <+: cs := List.takeWhile_prefix _
      rw [heq] at hprefix
      obtain ⟨more, rfl⟩ := hprefix
      rfl
    obtain ⟨front, hfront, hrest, hlocal⟩ := local_filterStatement _ _ hfilter
    refine ⟨':' :: front, by rw [List.cons_append, ← hfront, ← hcs], hrest, fun rest' hrest' => ?_⟩
    simp only [opening, List.cons_append, List.drop_succ_cons, List.drop_zero,
      hlocal rest' hrest']
    rfl
  case h_11 => cases h
  case h_12 => cases h
  case h_13 => cases h
  case h_14 =>
    obtain ⟨front, hfront, hrest, hlocal⟩ := openingWord_local h
    refine ⟨front, hfront, hrest, fun rest' hrest' => ?_⟩
    have hcs' : currentLine (front ++ rest') = currentLine cs := by
      conv => rhs; rw [hfront]
      exact currentLine_append (hrest'.trans hrest.symm) front
    rw [← hlocal rest' hrest']
    simp only [opening, hcs']
  case h_2 | h_3 | h_4 | h_5 | h_6 =>
    next heq =>
    refine hline (.ok _) (fun t => [t]) h fun cs' hcs' => ?_
    simp only [opening, hcs', heq]
    rfl
  all_goals
    next heq =>
    refine hline _ (fun t => [t]) h fun cs' hcs' => ?_
    simp only [opening, hcs', heq]

theorem opening_call {cs text : List Char} (h : opening cs = .ok (.call text)) :
    cs = '+' :: text ∧ ∀ text', opening ('+' :: text') = .ok (.call text') := by
  have hwhole {α : Type} {x : Except ScanFault α} {f : α → Statement}
      (h : x.map (fun t => Opening.whole (f t)) = .ok (.call text)) : False := by
    cases x <;> cases h
  unfold opening at h
  dsimp only at h
  split at h
  case h_11 heq =>
    cases h
    have hprefix : currentLine cs <+: cs := List.takeWhile_prefix _
    rw [heq] at hprefix
    obtain ⟨more, rfl⟩ := hprefix
    exact ⟨rfl, fun text' => rfl⟩
  case h_14 =>
    unfold openingWord at h
    dsimp only at h
    split at h
    · cases h
    · split at h
      · split at h <;> cases h
      · cases h
  all_goals first | cases h | exact (hwhole h).elim

theorem opening_tag {cs text : List Char} (h : opening cs = .ok (.tag text)) :
    text = cs ∧ ∀ cs', currentLine cs' = currentLine cs → opening cs' = .ok (.tag cs') := by
  have hwhole {α : Type} {x : Except ScanFault α} {f : α → Statement}
      (h : x.map (fun t => Opening.whole (f t)) = .ok (.tag text)) : False := by
    cases x <;> cases h
  unfold opening at h
  dsimp only at h
  split at h
  case h_12 heq | h_13 heq =>
    cases h
    refine ⟨rfl, fun cs' hcs' => ?_⟩
    simp only [opening, hcs', heq]
  case h_14 =>
    obtain ⟨rfl, hword⟩ := openingWord_tag h
    refine ⟨rfl, fun cs' hcs' => ?_⟩
    rw [← hword cs' hcs']
    simp only [opening, hcs']
  all_goals first | cases h | exact (hwhole h).elim

/-- The statement behind a colon is what is left of the line, with the lines below. -/
theorem behindColon?_local {cs child : List Char} (h : behindColon? cs = some child) :
    ∃ front line below, cs = front ++ below ∧ child = line ++ below ∧ '\n' ∉ line ∧
      currentLine below = [] ∧
      ∀ below', currentLine below' = [] → behindColon? (front ++ below') = some (line ++ below') := by
  unfold behindColon? at h
  split at h
  · next text =>
    split at h
    · next hblank =>
      cases h
      have hline : '\n' ∉ trim (currentLine text) := fun hmem =>
        newline_notMem_currentLine text (trim_subset _ hmem)
      refine ⟨':' :: currentLine text, trim (currentLine text), belowLine text, ?_, rfl, hline,
        currentLine_belowLine text, fun below' hbelow' => ?_⟩
      · rw [List.cons_append, currentLine_append_belowLine]
      · obtain ⟨hcurrent, hbelow⟩ := currentLine_replace text hbelow'
        simp only [behindColon?, List.cons_append, hcurrent, hbelow, hblank, if_true]
    · cases h
  · cases h

/-- Whether a statement follows behind a colon is told by the line. -/
theorem behindColon?_none {cs cs' : List Char} (h : behindColon? cs = none)
    (hline : currentLine cs' = currentLine cs) : behindColon? cs' = none := by
  unfold behindColon?
  split
  · next text =>
    obtain ⟨text', rfl, htext⟩ := eq_cons_of_currentLine (by decide) hline.symm
    simp only [behindColon?] at h
    split at h
    · cases h
    · next hblank => rw [← htext, if_neg hblank]
  · rfl

/-! ### Statements that hold another one -/

/-- Behind a head it is the same, if it is the same of the statement behind a colon. -/
theorem behindHead_local {wrap : List Token → List Token}
    {line : List Char → Except ScanFault (List Token × Below)} {rest : List Char} {s : Statement}
    (hchild : ∀ child, behindColon? rest = some child → ∀ s, readStatement child = .ok s →
      ∃ front, child = front ++ s.rest ∧ currentLine s.rest = [] ∧
        ∀ rest', currentLine rest' = [] → readStatement (front ++ rest') = .ok { s with rest := rest' })
    (h : behindHead wrap line rest = .ok s) :
    ∃ front, rest = front ++ s.rest ∧ currentLine s.rest = [] ∧
      ∀ rest', currentLine rest' = [] →
        behindHead wrap line (front ++ rest') = .ok { s with rest := rest' } := by
  unfold behindHead at h
  split at h
  · next child hcolon =>
    obtain ⟨inner, hinner, rfl⟩ := of_map_eq_ok h
    obtain ⟨front, first, below, hrest, hsplit, hfirst, hbelow, hcolon'⟩ := behindColon?_local hcolon
    obtain ⟨front', hfront', hends, hlocal⟩ := hchild child hcolon inner hinner
    rw [hsplit] at hfront'
    obtain ⟨more, hmore, rfl⟩ := of_append_eq_append hfront' hfirst hends
    refine ⟨front ++ more, by rw [List.append_assoc, ← hmore, hrest], hends, fun rest' hrest' => ?_⟩
    have hline : currentLine (more ++ rest') = [] := by
      rw [currentLine_append (hrest'.trans hends.symm), ← hmore, hbelow]
    have hinner' := hlocal rest' hrest'
    rw [List.append_assoc] at hinner'
    simp only [behindHead, List.append_assoc, hcolon' _ hline, hinner']
    rfl
  · next hcolon =>
    obtain ⟨r, hline, rfl⟩ := of_map_eq_ok h
    refine ⟨currentLine rest, (currentLine_append_belowLine rest).symm, currentLine_belowLine rest,
      fun rest' hrest => ?_⟩
    obtain ⟨hcurrent, hbelow⟩ := currentLine_replace rest hrest
    have hcolon' := behindColon?_none hcolon hcurrent
    simp only [behindHead, hcolon', hcurrent, hbelow, hline]
    rfl

/-- **A statement is read from its own lines.** The induction follows the statements behind
colons. -/
theorem local_readStatement : LocalStatement readStatement := by
  intro cs s h
  -- A head, and what stands behind it.
  have hhead (front : List Char) {rest : List Char} {wrap : List Token → List Token}
      {line : List Char → Except ScanFault (List Token × Below)} (hfront : cs = front ++ rest)
      (hread : ∀ rest', currentLine rest' = currentLine rest →
        readStatement (front ++ rest') = behindHead wrap line rest')
      (hshorter : rest.length ≤ cs.length) (h : behindHead wrap line rest = .ok s) :
      ∃ front, cs = front ++ s.rest ∧ currentLine s.rest = [] ∧
        ∀ rest', currentLine rest' = [] → readStatement (front ++ rest') = .ok { s with rest := rest' } := by
    obtain ⟨front', hfront', hends, hlocal⟩ := behindHead_local (fun child hcolon s hs =>
      have : child.length < cs.length := by
        have := length_of_behindColon? hcolon
        omega
      local_readStatement child s hs) h
    refine ⟨front ++ front', by rw [List.append_assoc, ← hfront', hfront], hends, fun rest' hrest' => ?_⟩
    have hline : currentLine (front' ++ rest') = currentLine rest := by
      rw [currentLine_append (hrest'.trans hends.symm), ← hfront']
    rw [List.append_assoc, hread _ hline, hlocal rest' hrest']
  rw [readStatement_eq] at h
  obtain ⟨opened, hopening, hopened⟩ := of_bind_eq_ok h
  cases opened with
  | whole s' =>
    cases hopened
    obtain ⟨front, hfront, hends, hlocal⟩ := opening_local hopening
    exact ⟨front, hfront, hends, fun rest' hrest' => readStatement_of_whole (hlocal rest' hrest')⟩
  | call text =>
    obtain ⟨⟨token, rest⟩, hcall, hbehind⟩ := of_bind_eq_ok hopened
    have hlength := length_of_callHead hcall
    obtain ⟨rfl, hopening'⟩ := opening_call hopening
    obtain ⟨front, rfl, hlocal⟩ := local_callHead _ _ _ hcall
    refine hhead ('+' :: front) rfl (fun rest' hrest' => ?_) ?_ hbehind
    · exact readStatement_of_call (hopening' _) (hlocal rest' hrest')
    · rw [List.length_cons]
      omega
  | tag text =>
    obtain ⟨⟨tokens, rest⟩, htag, hbehind⟩ := of_bind_eq_ok hopened
    have hlength := length_of_tagHead htag
    obtain ⟨rfl, hopening'⟩ := opening_tag hopening
    obtain ⟨front, rfl, hlocal⟩ := local_tagHead _ _ _ htag
    refine hhead front rfl (fun rest' hrest' => ?_) hlength hbehind
    exact readStatement_of_head (hopening' _ (currentLine_append hrest' front)) (hlocal rest' hrest')
termination_by cs _ _ => cs.length

end Trellis.Source
