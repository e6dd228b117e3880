import Trellis.Proofs.ListStarts
import Trellis.Proofs.Locality
import Trellis.Proofs.RawBlocks

/-!
# `Trellis.Proofs.TagHeads`: the head of a tag, and a statement behind it

A head that is alone on its line is read to the end of the line. With a colon, a blank and a statement
behind it, it is read just as far (`tagHead_append`), and then the statement is read as if it stood
alone (`IsTagHead.readStatement_append`). So a head in front of the statement of a tag gives the
statement of a tag again (`IsTagHead.behind`).

What stands behind a text can matter to the readers of names and values, since a blank ends a value only
if no operator follows. But inside brackets it cannot: until the bracket is closed there is always
something left of the text (`KeepsBehind`).
-/

set_option autoImplicit false

namespace Trellis.Source

open Trellis.Text

/-! ### Texts with another one behind them -/

theorem headIs_append {p : Char → Bool} {cs : List Char} (h : cs ≠ []) (more : List Char) :
    headIs p (cs ++ more) = headIs p cs := by
  cases cs with
  | nil => exact absurd rfl h
  | cons c cs => rfl

theorem dropWhile_append_of_ne_nil {p : Char → Bool} {cs : List Char} (h : cs.dropWhile p ≠ [])
    (more : List Char) : (cs ++ more).dropWhile p = cs.dropWhile p ++ more := by
  rw [List.dropWhile_append, if_neg (by simpa using h)]

/-- A character that is not passed over is left. -/
theorem mem_dropWhile {p : Char → Bool} {c : Char} (hc : p c = false) {cs : List Char} (h : c ∈ cs) :
    c ∈ cs.dropWhile p := by
  rw [← List.takeWhile_append_dropWhile (p := p) (l := cs)] at h
  rcases List.mem_append.mp h with h | h
  · have := List.mem_takeWhile_imp h
    rw [hc] at this
    cases this
  · exact h

theorem currentLine_append_of_notMem {cs : List Char} (h : '\n' ∉ cs) (more : List Char) :
    currentLine (cs ++ more) = cs ++ currentLine more := by
  refine List.takeWhile_append_of_pos fun c hc => ?_
  have hne : c ≠ '\n' := fun heq => h (heq ▸ hc)
  simpa using hne

/-- Whether an operator follows is told by what stands in front of a closing bracket. -/
theorem operatorFollows_append {cs : List Char} (hline : '\n' ∉ cs) (h : ')' ∈ cs) (more : List Char) :
    operatorFollows (cs ++ more) = operatorFollows cs := by
  have hne : cs.dropWhile isBlank ≠ [] := List.ne_nil_of_mem (mem_dropWhile rfl h)
  unfold operatorFollows trimStart
  rw [currentLine_append_of_notMem hline, currentLine_of_notMem hline, dropWhile_append_of_ne_nil hne,
    headIs_append hne]

/-! ### Readers inside brackets -/

/-- A reader that stops in front of a closing bracket, on the same line, also leaves what stands behind
the text. -/
def KeepsBehind {α : Type} (read : List Char → Except ScanFault (α × List Char)) : Prop :=
  ∀ cs x rest, read cs = .ok (x, rest) → '\n' ∉ cs → ')' ∈ rest →
    ∀ more, read (cs ++ more) = .ok (x, rest ++ more)

theorem Local.subset {α : Type} {read : List Char → Except ScanFault (α × List Char)} (h : Local read)
    {cs rest : List Char} {x : α} (hread : read cs = .ok (x, rest)) : rest ⊆ cs := by
  obtain ⟨front, rfl, -⟩ := h _ _ _ hread
  exact List.subset_append_right _ _

theorem keepsBehind_readValue (n : Nesting) (last : Option Char) (value : List Char) :
    KeepsBehind (readValue n last value) := by
  intro cs text rest h hline hclosed more
  induction cs generalizing n last value with
  | nil =>
    rw [readValue] at h
    grind
  | cons c cs ih =>
    obtain ⟨-, hlines⟩ := not_or.mp (List.mem_cons.not.mp hline)
    have hmem : ')' ∈ c :: cs := (local_readValue n last value).subset h hclosed
    have hfollows : operatorFollows (c :: (cs ++ more)) = operatorFollows (c :: cs) :=
      operatorFollows_append hline hmem more
    cases valueStep_readValue n last value c (operatorFollows (c :: cs)) with
    | goesOn n' last' value' hstep =>
      rw [hstep cs rfl] at h
      exact (hstep _ hfollows).trans (ih n' last' value' h hlines)
    | ends hstep =>
      rw [hstep cs rfl] at h
      cases h
      exact hstep _ hfollows
    | fails e hstep =>
      rw [hstep] at h
      cases h

theorem keepsBehind_attributeValue : KeepsBehind attributeValue := by
  intro cs text rest h hline hclosed more
  have hmem : ')' ∈ cs := local_attributeValue.subset h hclosed
  have hne : cs.dropWhile (fun c => isIndent c || c == '\n') ≠ [] :=
    List.ne_nil_of_mem (mem_dropWhile rfl hmem)
  have hstart := List.dropWhile_suffix (l := cs) fun c => isIndent c || c == '\n'
  unfold attributeValue at h ⊢
  rw [dropWhile_append_of_ne_nil hne]
  generalize cs.dropWhile (fun c => isIndent c || c == '\n') = start at h hne hstart ⊢
  cases start with
  | nil => exact absurd rfl hne
  | cons c start =>
    dsimp only [List.cons_append] at h ⊢
    cases hread : readValue .outside none [] (c :: start) with
    | error e =>
      rw [hread] at h
      cases h
    | ok r =>
      obtain ⟨value, behind⟩ := r
      rw [hread] at h
      dsimp only at h
      split at h
      · cases h
      next hvalue =>
      cases h
      have hread' := keepsBehind_readValue _ _ _ _ _ _ hread (fun hmem => hline (hstart.subset hmem))
        hclosed more
      rw [List.cons_append] at hread'
      rw [hread']
      dsimp only
      rw [if_neg hvalue]

theorem plainName_keepsBehind {cs name rest : List Char} (h : plainName cs = (name, rest)) (hne : rest ≠ [])
    (more : List Char) : plainName (cs ++ more) = (name, rest ++ more) := by
  induction cs generalizing name with
  | nil =>
    cases h
    exact absurd rfl hne
  | cons c cs ih =>
    rw [plainName] at h
    rw [List.cons_append, plainName]
    by_cases hnil : cs = []
    · -- The last character is left, since something is.
      subst hnil
      split at h
      · next hend =>
        cases h
        rw [if_pos (by simp [headIs] at hend; simp [hend])]
        rfl
      · cases h
        exact absurd rfl hne
    · rw [headIs_append hnil]
      split at h
      · next hend =>
        cases h
        rw [if_pos hend]
        rfl
      · next hgo =>
        cases h
        rw [if_neg hgo, ih rfl]

theorem splitAtFirst?_append {p : Char → Bool} {cs before behind : List Char}
    (h : splitAtFirst? p cs = some (before, behind)) (more : List Char) :
    splitAtFirst? p (cs ++ more) = some (before, behind ++ more) := by
  induction cs generalizing before with
  | nil => cases h
  | cons c cs ih =>
    rw [splitAtFirst?] at h
    rw [List.cons_append, splitAtFirst?]
    split at h
    · next hc =>
      cases h
      rw [if_pos hc]
    · next hc =>
      obtain ⟨⟨before', behind'⟩, hsplit, heq⟩ := Option.map_eq_some_iff.mp h
      cases heq
      rw [if_neg hc, ih hsplit]
      rfl

theorem keepsBehind_attributeName : KeepsBehind attributeName := by
  intro cs name rest h hline hclosed more
  cases cs with
  | nil => cases h
  | cons c cs =>
    obtain ⟨-, hlines⟩ := not_or.mp (List.mem_cons.not.mp hline)
    rw [attributeName] at h
    rw [List.cons_append, attributeName]
    split at h
    · next hquote =>
      rw [if_pos hquote, currentLine_append_of_notMem hlines]
      rw [currentLine_of_notMem hlines] at h
      split at h
      · next name' behind hsplit =>
        cases h
        rw [splitAtFirst?_append hsplit]
        dsimp only
        have hlength := length_of_splitAtFirst? hsplit
        rw [List.drop_append_of_le_length (by omega)]
      · cases h
    · next hquote =>
      rw [if_neg hquote]
      cases hplain : plainName (c :: cs) with
      | mk name' rest' =>
        rw [hplain] at h
        cases name' with
        | nil => cases h
        | cons d name' =>
          cases h
          have hplain' := plainName_keepsBehind hplain (List.ne_nil_of_mem hclosed) more
          rw [List.cons_append] at hplain'
          rw [hplain']

theorem valuePart_keepsBehind {cs rest : List Char} {value : Option (List Char)} {escaped : Bool}
    (h : valuePart cs = .ok (value, escaped, rest)) (hline : '\n' ∉ cs) (hclosed : ')' ∈ rest)
    (more : List Char) : valuePart (cs ++ more) = .ok (value, escaped, rest ++ more) := by
  obtain ⟨front, hcs, -⟩ := valuePart_local h
  have hmem : ')' ∈ cs := by
    rw [hcs]
    exact List.mem_append_right _ hclosed
  have hstart := List.dropWhile_suffix (l := cs) isIndent
  unfold valuePart at h ⊢
  rw [dropWhile_append_of_ne_nil (List.ne_nil_of_mem (mem_dropWhile rfl hmem))]
  generalize cs.dropWhile isIndent = start at h hstart ⊢
  have hstartLine : '\n' ∉ start := fun hmem => hline (hstart.subset hmem)
  split at h
  · next behind =>
    obtain ⟨⟨v, left⟩, hread, heq⟩ := of_map_eq_ok h
    cases heq
    have hbehind : '\n' ∉ behind := fun hmem =>
      hstartLine (List.mem_cons_of_mem _ (List.mem_cons_of_mem _ hmem))
    show (attributeValue (behind ++ more)).map _ = _
    rw [keepsBehind_attributeValue _ _ _ hread hbehind hclosed]
    rfl
  · next behind =>
    obtain ⟨⟨v, left⟩, hread, heq⟩ := of_map_eq_ok h
    cases heq
    have hbehind : '\n' ∉ behind := fun hmem => hstartLine (List.mem_cons_of_mem _ hmem)
    show (attributeValue (behind ++ more)).map _ = _
    rw [keepsBehind_attributeValue _ _ _ hread hbehind hclosed]
    rfl
  · next hunescaped hescaped =>
    cases h
    -- There is no sign, and what is left does not end with half of one.
    split
    · next behind heq =>
      rcases rest with _ | ⟨c, _ | ⟨d, rest⟩⟩
      · cases hclosed
      · cases heq
        simp at hclosed
      · cases heq
        exact (hunescaped _ rfl).elim
    · next behind heq =>
      rcases rest with _ | ⟨c, rest⟩
      · cases hclosed
      · cases heq
        exact (hescaped _ rfl).elim
    · rfl

/-- **A list of attributes ends at its bracket**, whatever stands behind it. -/
theorem attributeList_append {cs rest : List Char} {list : List RawAttribute}
    (h : attributeList cs = .ok (list, rest)) (hline : '\n' ∉ cs) (more : List Char) :
    ')' ∈ cs ∧ attributeList (cs ++ more) = .ok (list, rest ++ more) := by
  fun_induction attributeList cs generalizing list rest with
  | case1 => cases h
  | case2 cs behind hs =>
    cases h
    have hmem : ')' ∈ cs := (List.dropWhile_suffix isSeparator).subset (hs ▸ List.mem_cons_self)
    refine ⟨hmem, attributeList_of_closed ?_⟩
    rw [dropWhile_append_of_ne_nil (by simp [hs]), hs]
    rfl
  | case3 => cases h
  | case4 => cases h
  | case5 => cases h
  | case6 cs name behind value escaped last hv list' left hmore hnil hclosed hn _ ih =>
    cases h
    have hsuffix := List.dropWhile_suffix (l := cs) isSeparator
    cases hstart : cs.dropWhile isSeparator with
    | nil => exact (hnil hstart).elim
    | cons c start =>
      rw [hstart] at hn hsuffix
      have hopen : c ≠ ')' := by
        rintro rfl
        exact hclosed start hstart
      have hstartLine : '\n' ∉ c :: start := fun hmem => hline (hsuffix.subset hmem)
      have hbehind : behind ⊆ c :: start := local_attributeName.subset hn
      have hlast : last ⊆ behind := by
        obtain ⟨front, rfl, -⟩ := valuePart_local hv
        exact List.subset_append_right _ _
      have hbehindLine : '\n' ∉ behind := fun hmem => hstartLine (hbehind hmem)
      -- The list goes on behind the value, so a bracket is left of it.
      obtain ⟨hmem, hmore'⟩ := ih hmore fun hmem => hbehindLine (hlast hmem)
      refine ⟨hsuffix.subset (hbehind (hlast hmem)), ?_⟩
      refine attributeList_of_attribute (c := c) ?_ hopen
        (keepsBehind_attributeName _ _ _ hn hstartLine (hlast hmem) more)
        (valuePart_keepsBehind hv hbehindLine hmem more) hmore'
      rw [dropWhile_append_of_ne_nil (by simp [hstart]), hstart]
      rfl

/-! ### The head of a tag -/

theorem nameOf_append_of_not {cs more : List Char} (h : headIs isNameChar more = false) :
    nameOf (cs ++ more) = nameOf cs := by
  unfold nameOf
  rw [List.takeWhile_append]
  split
  · next hall =>
    rw [(List.takeWhile_prefix isNameChar).eq_of_length hall]
    cases more with
    | nil => exact List.append_nil _
    | cons c more => rw [List.takeWhile_cons_of_neg (by simpa [headIs] using h), List.append_nil]
  · rfl

theorem drop_nameOf_append (cs more : List Char) :
    (cs ++ more).drop (nameOf cs).length = cs.drop (nameOf cs).length ++ more :=
  List.drop_append_of_le_length (List.takeWhile_prefix isNameChar).length_le

/-- The name of a tag ends in front of a colon without a letter behind it. -/
theorem tagNameFrom_append (cs : List Char) {more : List Char} (h : headIs isLetter more = false) :
    tagNameFrom (cs ++ ':' :: more) = tagNameFrom cs := by
  have hname (cs : List Char) : nameOf (cs ++ ':' :: more) = nameOf cs := nameOf_append_of_not rfl
  fun_induction tagNameFrom cs with
  | case1 cs name rest hrest hletter _ ih =>
    have hfirst : headIs isLetter (rest ++ ':' :: more) = true := by
      rw [headIs_append, hletter]
      rintro rfl
      cases hletter
    rw [tagNameFrom_of_colon ?_ hfirst, hname, ih]
    rw [hname, drop_nameOf_append, hrest]
    rfl
  | case2 cs name rest hrest hletter =>
    rw [tagNameFrom_of_not, hname]
    intro rest' hrest'
    rw [hname, drop_nameOf_append, hrest] at hrest'
    cases hrest'
    cases rest with
    | nil => rfl
    | cons c rest => exact eq_false_of_ne_true hletter
  | case3 cs name hnone =>
    rw [tagNameFrom_of_not, hname]
    intro rest' hrest'
    rw [hname, drop_nameOf_append] at hrest'
    cases hbehind : cs.drop (nameOf cs).length with
    | nil =>
      rw [hbehind] at hrest'
      cases hrest'
      exact h
    | cons c rest =>
      rw [hbehind] at hrest'
      cases hrest'
      exact (hnone rest hbehind).elim

theorem headPart_append {cs rest more : List Char} {token : Token} (hline : '\n' ∉ cs)
    (h : headPart cs = .ok (.part token rest)) :
    headPart (cs ++ ':' :: more) = .ok (.part token (rest ++ ':' :: more)) := by
  unfold headPart at h
  split at h
  · next behind =>
    dsimp only at h
    split at h
    · cases h
    next hname =>
    cases h
    have hword : nameOf (behind ++ ':' :: more) = nameOf behind := nameOf_append_of_not rfl
    simp only [List.cons_append, headPart, hword, drop_nameOf_append]
    rw [if_neg hname]
  · next behind =>
    split at h
    · next hhead =>
      cases h
      have hne : behind ≠ [] := by
        rintro rfl
        cases hhead
      have hword : nameOf (behind ++ ':' :: more) = nameOf behind := nameOf_append_of_not rfl
      simp only [List.cons_append, headPart, hword, drop_nameOf_append, headIs_append hne]
      rw [if_pos hhead]
    · cases h
  · next behind =>
    cases hlist : attributeList behind with
    | error e =>
      rw [hlist] at h
      cases h
    | ok r =>
      obtain ⟨list, left⟩ := r
      rw [hlist] at h
      cases h
      have hbehind : '\n' ∉ behind := fun hmem => hline (List.mem_cons_of_mem _ hmem)
      simp only [List.cons_append, headPart, (attributeList_append hlist hbehind _).2]
  · cases h

/-- The parts of a head that is alone on its line. -/
theorem headParts_append {cs more : List Char} {tokens : List Token} (hline : '\n' ∉ cs)
    (h : headParts cs = .ok (tokens, [])) : headParts (cs ++ ':' :: more) = .ok (tokens, ':' :: more) := by
  generalize hrest : ([] : List Char) = rest at h
  fun_induction headParts cs generalizing tokens rest with
  | case1 => cases h
  | case2 cs hpart =>
    cases h
    subst hrest
    exact headParts_of_none rfl
  | case3 => cases h
  | case4 cs token behind hpart _ more' left hmore ih =>
    cases h
    have hbehind : '\n' ∉ behind := by
      obtain ⟨front, rfl, -⟩ := headPart_local hpart
      exact fun hmem => hline (List.mem_append_right _ hmem)
    exact headParts_of_part (headPart_append hline hpart) (ih hbehind _ hrest hmore)

/-- **A head that is alone on its line** is read just as far with a colon behind it. -/
theorem tagHead_append {cs more : List Char} {tokens : List Token} (hline : '\n' ∉ cs)
    (hmore : headIs isLetter more = false) (h : tagHead cs = .ok (tokens, [])) :
    tagHead (cs ++ ':' :: more) = .ok (tokens, ':' :: more) := by
  have hletter : headIs isLetter (cs ++ ':' :: more) = headIs isLetter cs := by
    cases cs <;> rfl
  have hprefix : (if headIs isLetter cs then tagNameFrom cs else []) <+: cs := by
    split
    · exact tagNameFrom_isPrefix cs
    · exact List.nil_prefix
  unfold tagHead at h ⊢
  rw [hletter, tagNameFrom_append cs hmore]
  dsimp only at h ⊢
  rw [List.drop_append_of_le_length hprefix.length_le]
  generalize (if headIs isLetter cs then tagNameFrom cs else []) = name at h ⊢
  cases hparts : headParts (cs.drop name.length) with
  | error e =>
    rw [hparts] at h
    cases h
  | ok r =>
    obtain ⟨parts, rest⟩ := r
    rw [hparts] at h
    cases h
    rw [headParts_append (fun hmem => hline (List.mem_of_mem_drop hmem)) hparts]

/-- A head that begins with a name. -/
theorem tagHead_of_name {cs name rest : List Char} {parts : List Token} (hletter : headIs isLetter cs = true)
    (hname : tagNameFrom cs = name) (hne : name ≠ [])
    (hparts : headParts (cs.drop name.length) = .ok (parts, rest)) :
    tagHead cs = .ok (.tag (String.ofList name) :: parts, rest) := by
  unfold tagHead
  simp only [hletter, if_true, hname, hparts, List.isEmpty_eq_false_iff.mpr hne, Bool.false_eq_true, if_false]

/-! ### The tokens of a head -/

/-- A token of a tag's head behind its name. -/
inductive Token.IsPart : Token → Prop
  | idName (name : String) : Token.IsPart (.idName name)
  | className (name : String) : Token.IsPart (.className name)
  | attributes (list : List RawAttribute) : Token.IsPart (.attributes list)

theorem isPart_of_headParts {cs rest : List Char} {parts : List Token}
    (h : headParts cs = .ok (parts, rest)) : ∀ t ∈ parts, t.IsPart := by
  fun_induction headParts cs generalizing parts rest with
  | case1 => cases h
  | case2 =>
    cases h
    exact List.forall_mem_nil _
  | case3 => cases h
  | case4 cs token behind hpart _ more left hmore ih =>
    cases h
    refine List.forall_mem_cons.mpr ⟨?_, ih hmore⟩
    unfold headPart at hpart
    split at hpart
    · dsimp only at hpart
      split at hpart
      · cases hpart
      cases hpart
      exact .idName _
    · split at hpart
      · cases hpart
        exact .className _
      · cases hpart
    · split at hpart
      · cases hpart
      cases hpart
      exact .attributes _
    · cases hpart

/-- **The tokens of a head**: the name of the tag and parts. -/
theorem exists_parts_of_tagHead {cs rest : List Char} {tokens : List Token}
    (h : tagHead cs = .ok (tokens, rest)) :
    ∃ name parts, tokens = .tag name :: parts ∧ ∀ t ∈ parts, t.IsPart := by
  obtain ⟨name, parts, behind, htokens, hparts, -⟩ := tagHead_cases h
  exact ⟨name, parts, htokens, isPart_of_headParts hparts⟩

/-! ### Where a head ends -/

theorem endsWithInk_append {cs : List Char} (front : List Char) (hne : cs ≠ []) (h : EndsWithInk cs) :
    EndsWithInk (front ++ cs) := by
  intro last hlast
  rw [List.getLast?_append_of_ne_nil _ hne] at hlast
  exact h last hlast

/-- A text that is one name ends with a character of that. -/
theorem endsWithInk_of_drop_nameOf {cs : List Char} (h : cs.drop (nameOf cs).length = []) :
    EndsWithInk cs := by
  have hwhole := nameOf_append_drop cs
  rw [h, List.append_nil] at hwhole
  exact fun last hlast =>
    isBlank_of_isNameChar (List.takeWhile_eq_self_iff.mp hwhole last (List.mem_of_getLast? hlast))

theorem endsWithInk_of_attributeList {cs rest : List Char} {list : List RawAttribute}
    (h : attributeList cs = .ok (list, rest)) (hrest : rest = []) : cs ≠ [] ∧ EndsWithInk cs := by
  fun_induction attributeList cs generalizing list rest with
  | case1 => cases h
  | case2 cs behind hs =>
    cases h
    subst hrest
    have hink : EndsWithInk [')'] := by simp [EndsWithInk, isBlank]
    rw [← List.takeWhile_append_dropWhile (p := isSeparator) (l := cs), hs]
    exact ⟨by simp, endsWithInk_append _ (List.cons_ne_nil _ _) hink⟩
  | case3 => cases h
  | case4 => cases h
  | case5 => cases h
  | case6 cs name behind value escaped last hv list' left hmore hnil hclosed hn _ ih =>
    cases h
    obtain ⟨hne, hink⟩ := ih hmore hrest
    obtain ⟨front, hstart, -⟩ := local_attributeName _ _ _ hn
    obtain ⟨front', rfl, -⟩ := valuePart_local hv
    rw [← List.takeWhile_append_dropWhile (p := isSeparator) (l := cs), hstart, ← List.append_assoc,
      ← List.append_assoc]
    exact ⟨by simp [hne], endsWithInk_append _ hne hink⟩

theorem endsWithInk_of_headPart {cs : List Char} {token : Token} (h : headPart cs = .ok (.part token [])) :
    EndsWithInk cs := by
  unfold headPart at h
  split at h
  · next rest =>
    dsimp only at h
    split at h
    · cases h
    next hname =>
    have hdrop : rest.drop (nameOf rest).length = [] := (HeadPart.part.inj (Except.ok.inj h)).2
    have hne : rest ≠ [] := by
      rintro rfl
      exact hname rfl
    exact endsWithInk_append ['#'] hne (endsWithInk_of_drop_nameOf hdrop)
  · next rest =>
    split at h
    · next hhead =>
      have hdrop : rest.drop (nameOf rest).length = [] := (HeadPart.part.inj (Except.ok.inj h)).2
      have hne : rest ≠ [] := by
        rintro rfl
        cases hhead
      exact endsWithInk_append ['.'] hne (endsWithInk_of_drop_nameOf hdrop)
    · cases h
  · next rest =>
    cases hlist : attributeList rest with
    | error e =>
      rw [hlist] at h
      cases h
    | ok r =>
      obtain ⟨list, left⟩ := r
      rw [hlist] at h
      cases h
      obtain ⟨hne, hink⟩ := endsWithInk_of_attributeList hlist rfl
      exact endsWithInk_append ['('] hne hink
  · cases h

theorem endsWithInk_of_headParts {cs rest : List Char} {tokens : List Token}
    (h : headParts cs = .ok (tokens, rest)) (hrest : rest = []) : EndsWithInk cs := by
  fun_induction headParts cs generalizing tokens rest with
  | case1 => cases h
  | case2 cs =>
    cases h
    subst hrest
    intro last hlast
    cases hlast
  | case3 => cases h
  | case4 cs token behind hpart _ more left hmore ih =>
    cases h
    by_cases hnil : behind = []
    · subst hnil
      exact endsWithInk_of_headPart hpart
    · obtain ⟨front, rfl, -⟩ := headPart_local hpart
      exact endsWithInk_append front hnil (ih hmore hrest)

/-- **A head that is read to the end** of the line does not end with a blank. -/
theorem endsWithInk_of_tagHead {cs : List Char} {tokens : List Token} (h : tagHead cs = .ok (tokens, [])) :
    EndsWithInk cs := by
  have hchars : ∀ c ∈ (if headIs isLetter cs then tagNameFrom cs else []), isBlank c = false := by
    split
    · intro c hc
      rcases chars_of_tagNameFrom c hc with hname | rfl
      · exact isBlank_of_isNameChar hname
      · rfl
    · nofun
  have hprefix : (if headIs isLetter cs then tagNameFrom cs else []) <+: cs := by
    split
    · exact tagNameFrom_isPrefix cs
    · exact List.nil_prefix
  unfold tagHead at h
  dsimp only at h
  generalize (if headIs isLetter cs then tagNameFrom cs else []) = name at h hchars hprefix
  obtain ⟨behind, rfl⟩ := hprefix
  rw [List.drop_left] at h
  split at h
  · cases h
  next parts rest hparts =>
  cases h
  by_cases hnil : behind = []
  · -- There is nothing but the name.
    rw [hnil, List.append_nil]
    exact fun last hlast => hchars last (List.mem_of_getLast? hlast)
  · exact endsWithInk_append name hnil (endsWithInk_of_headParts hparts rfl)

/-! ### Heads alone on their line -/

/-- A tag's head that can stand alone on its line, with its tokens. -/
structure IsTagHead (head : List Char) (tokens : List Token) : Prop where
  line : '\n' ∉ head
  opens : opening head = .ok (.tag head)
  reads : tagHead head = .ok (tokens, [])

/-- Parts that are read to the end begin with a sign. -/
theorem sign_of_headParts {c : Char} {cs : List Char} {tokens : List Token}
    (h : headParts (c :: cs) = .ok (tokens, [])) : c = '#' ∨ c = '.' ∨ c = '(' := by
  rw [headParts] at h
  split at h
  · cases h
  · cases h
  · next hpart =>
    unfold headPart at hpart
    split at hpart
    · next heq => simp_all
    · next heq => simp_all
    · next heq => simp_all
    · cases hpart

namespace IsTagHead

variable {head : List Char} {tokens : List Token} (h : IsTagHead head tokens)
include h

/-- A head begins with a letter, or with the sign of a shorthand. -/
theorem first : headIs (fun c => isLetter c || c == '#' || c == '.') head = true := by
  have hopens := h.opens
  have hreads := h.reads
  cases head with
  | nil => cases hopens
  | cons c cs =>
    by_cases hletter : headIs isLetter (c :: cs) = true
    · simp [headIs] at hletter ⊢
      simp [hletter]
    · unfold tagHead at hreads
      rw [if_neg hletter] at hreads
      dsimp only [List.length_nil, List.drop_zero] at hreads
      split at hreads
      · cases hreads
      next parts rest hparts =>
      cases hreads
      rcases sign_of_headParts hparts with rfl | rfl | rfl
      · rfl
      · rfl
      · -- A list of attributes does not begin a statement.
        cases hopens

/-- Behind the name of a tag there is no blank. -/
theorem behindName (hletter : headIs isLetter head = true) :
    headIs isBlank (head.drop (nameOf head).length) = false := by
  have hreads := h.reads
  unfold tagHead at hreads
  rw [if_pos hletter] at hreads
  cases hbehind : head.drop (nameOf head).length with
  | nil => rfl
  | cons c rest =>
    by_cases hcolon : c = ':'
    · subst hcolon
      rfl
    · -- The name is no longer than the word, so a part of the head follows.
      have hname : tagNameFrom head = nameOf head := by
        refine tagNameFrom_of_not fun rest' hrest' => ?_
        rw [hbehind] at hrest'
        cases hrest'
        exact (hcolon rfl).elim
      rw [hname] at hreads
      dsimp only at hreads
      rw [hbehind] at hreads
      split at hreads
      · cases hreads
      next parts left hparts =>
      cases hreads
      rcases sign_of_headParts hparts with rfl | rfl | rfl <;> rfl

/-- With a colon behind it, the head still begins a tag. -/
theorem opening_append (more : List Char) :
    opening (head ++ ':' :: more) = .ok (.tag (head ++ ':' :: more)) := by
  have hfirst := h.first
  have hbehind := h.behindName
  have hcurrent : currentLine (head ++ ':' :: more) = head ++ ':' :: currentLine more := by
    rw [currentLine_append_of_notMem h.line]
    rfl
  cases head with
  | nil => cases hfirst
  | cons c cs =>
    by_cases hletter : isLetter c = true
    · have hword : nameOf (c :: cs ++ ':' :: currentLine more) = nameOf (c :: cs) := nameOf_append_of_not rfl
      have hname : nameOf (c :: cs) ≠ [] := by
        have hchar : isNameChar c = true := by
          have halpha : c.isAlpha = true := hletter
          simp [isNameChar, isAlphanumeric, Char.isAlphanum, halpha]
        rw [nameOf, List.takeWhile_cons_of_pos hchar]
        exact List.cons_ne_nil _ _
      -- Keywords are told from tags by what stands behind them: nothing, or a blank.
      have hblank : headIs isBlank ((c :: cs).drop (nameOf (c :: cs)).length ++ ':' :: currentLine more) =
          false := by
        by_cases hnil : (c :: cs).drop (nameOf (c :: cs)).length = []
        · rw [hnil]
          rfl
        · rw [headIs_append hnil, hbehind hletter]
      rw [opening_of_letter (by rw [hcurrent]; exact hletter)]
      unfold openingWord
      dsimp only
      rw [hcurrent, hword, drop_nameOf_append, if_neg (by simpa using hname), hblank, Bool.or_false,
        if_neg (by simp)]
    · have hc : c = '#' ∨ c = '.' := by simpa [headIs, hletter] using hfirst
      unfold opening
      rw [hcurrent]
      rcases hc with rfl | rfl <;> rfl

/-- **A statement behind the head**, a colon and a blank is read as if it stood alone. -/
theorem readStatement_append {child below : List Char} (hchild : '\n' ∉ child) (htrim : trim child = child)
    (hbelow : currentLine below = []) :
    readStatement (head ++ ':' :: ' ' :: child ++ below) =
      (readStatement (child ++ below)).map fun s => { s with tokens := tokens ++ .colon :: s.tokens } := by
  have hline : '\n' ∉ ' ' :: child := by simp [hchild]
  have hcolon : behindColon? (':' :: (' ' :: child ++ below)) = some (child ++ below) := by
    have hblank : trim (' ' :: child) = trim child := rfl
    rw [behindColon?, currentLine_append_of_ends hline hbelow, belowLine_append_of_ends hline hbelow,
      hblank, htrim]
    rfl
  rw [List.append_assoc, List.cons_append]
  rw [readStatement_of_head (h.opening_append _) (tagHead_append h.line rfl h.reads), behindHead, hcolon]

end IsTagHead

/-! ### Statements of tags -/

theorem openingWord_blank {c : Char} {cs text : List Char} (hc : isBlank c = true) :
    openingWord (c :: cs) ≠ .ok (.tag text) := by
  have hname : nameOf (currentLine (c :: cs)) = [] := by
    have hnot : ¬isNameChar c = true := fun hname => by
      rw [isBlank_of_isNameChar hname] at hc
      cases hc
    unfold currentLine nameOf
    rw [List.takeWhile_cons]
    split
    · exact List.takeWhile_cons_of_neg hnot
    · rfl
  unfold openingWord
  dsimp only
  rw [hname]
  nofun

/-- A tag does not begin with a blank. -/
theorem exists_cons_of_opening_tag {cs text : List Char} (h : opening cs = .ok (.tag text)) :
    ∃ c rest, cs = c :: rest ∧ isBlank c = false := by
  cases cs with
  | nil => cases h
  | cons c rest =>
    refine ⟨c, rest, rfl, eq_false_of_ne_true fun hc => ?_⟩
    unfold opening at h
    dsimp only at h
    by_cases hline : currentLine (c :: rest) = []
    · rw [hline] at h
      exact openingWord_blank hc h
    · have hcons : currentLine (c :: rest) = c :: currentLine rest := by
        unfold currentLine at hline ⊢
        rw [List.takeWhile_cons] at hline ⊢
        split at hline
        · next hne => rw [if_pos hne]
        · exact absurd rfl hline
      rw [hcons] at h
      split at h
      case h_14 => exact openingWord_blank hc h
      all_goals
        next heq =>
        obtain ⟨rfl, -⟩ := List.cons.inj heq
        simp [isBlank] at hc

/-- The lines that belong to a statement whose line is indented by a width. -/
def Statement.takenFrom (s : Statement) (width : Nat) (below : List (List Char)) : List (List Char) :=
  if s.below = .statements then [] else deeperLines width below

/-- What a statement takes that is read to the end of its line. -/
theorem takes_of_line {raw : List Char} {s : Statement} (below : List (List Char)) (hline : '\n' ∉ raw)
    (hread : readStatement (trimEnd (raw.drop (indentOf raw).length)) = .ok s) :
    Takes raw below (s.withBlock (s.takenFrom (indentOf raw).length below))
      (s.takenFrom (indentOf raw).length below).length := by
  unfold Takes
  generalize htext : trimEnd (raw.drop (indentOf raw).length) = text at hread ⊢
  have htextLine : '\n' ∉ text := fun hmem =>
    hline (List.mem_of_mem_drop ((trimEnd_isPrefix _).subset (htext ▸ hmem)))
  obtain ⟨front, hfront, hends, hlocal⟩ := local_readStatement _ _ hread
  have hrest : s.rest = [] := by
    rwa [currentLine_of_notMem fun hmem => htextLine (hfront ▸ List.mem_append_right _ hmem)] at hends
  rw [hrest, List.append_nil] at hfront
  have hlater := hlocal _ (currentLine_textBelow text below)
  rw [← hfront] at hlater
  exact ⟨_, hlater, 0, s.takenFrom (indentOf raw).length below, (Nat.sub_self _).symm, rfl, rfl,
    (Nat.zero_add _).symm⟩

/-- A line that is the statement of a tag. Blanks at its end do not belong to that. -/
structure IsTagStatement (line : List Char) (s : Statement) : Prop where
  oneLine : '\n' ∉ line
  opens : opening (trimEnd line) = .ok (.tag (trimEnd line))
  reads : readStatement (trimEnd line) = .ok s

namespace IsTagStatement

variable {line : List Char} {s : Statement} (h : IsTagStatement line s)
include h

theorem first : ∃ c rest, line = c :: rest ∧ isBlank c = false := by
  obtain ⟨c, rest, hcons, hc⟩ := exists_cons_of_opening_tag h.opens
  obtain ⟨more, hmore⟩ := trimEnd_isPrefix line
  rw [hcons] at hmore
  exact ⟨c, rest ++ more, hmore.symm, hc⟩

theorem trim_trimEnd : trim (trimEnd line) = trimEnd line := by
  -- There is nothing to trim in front.
  have htrim {cs : List Char} (hcs : ∃ c rest, cs = c :: rest ∧ isBlank c = false) :
      trim cs = trimEnd cs := by
    obtain ⟨c, rest, rfl, hc⟩ := hcs
    unfold trim trimStart
    rw [List.dropWhile_cons_of_neg (ne_true_of_eq_false hc)]
  rw [htrim (exists_cons_of_opening_tag h.opens), ← htrim h.first, trimEnd_trim]

theorem isBlankText_append (w : List Char) : isBlankText (w ++ line) = false := by
  obtain ⟨c, rest, rfl, hc⟩ := h.first
  simp [isBlankText, hc]

/-- The tokens begin with the name of the tag. -/
theorem exists_tag (block : List (List Char)) : ∃ name rest, s.withBlock block = .tag name :: rest := by
  have htokens : ∃ name rest, s.tokens = .tag name :: rest := by
    have hreads := h.reads
    rw [readStatement_eq, bind_eq_of_ok h.opens, Opening.statement] at hreads
    obtain ⟨⟨tokens, rest⟩, htag, hbehind⟩ := of_bind_eq_ok hreads
    obtain ⟨name, parts, rfl, -⟩ := exists_parts_of_tagHead htag
    dsimp only at hbehind
    unfold behindHead at hbehind
    split at hbehind
    · obtain ⟨inner, -, rfl⟩ := of_map_eq_ok hbehind
      exact ⟨_, _, rfl⟩
    · obtain ⟨tail, htail, rfl⟩ := of_map_eq_ok hbehind
      obtain ⟨ends, -, rfl⟩ := of_map_eq_ok htail
      exact ⟨_, _, rfl⟩
  obtain ⟨name, rest, htokens⟩ := htokens
  unfold Statement.withBlock
  rw [htokens]
  split
  · exact ⟨_, _, rfl⟩
  · exact ⟨_, _, rfl⟩

variable {w : List Char} (hw : ∀ c ∈ w, isIndent c = true)
include hw

theorem indentOf_append : indentOf (w ++ line) = w := by
  obtain ⟨c, rest, rfl, hc⟩ := h.first
  have hnot : ¬isIndent c = true := fun hindent => by
    rw [isBlank_of_isIndent hindent] at hc
    cases hc
  rw [indentOf, List.takeWhile_append_of_pos hw, List.takeWhile_cons_of_neg hnot, List.append_nil]

/-- What the line takes where it is indented. -/
theorem takes (below : List (List Char)) : Takes (w ++ line) below
    (s.withBlock (s.takenFrom w.length below)) (s.takenFrom w.length below).length := by
  have hline : '\n' ∉ w ++ line := fun hmem => (List.mem_append.mp hmem).elim
    (fun hmem => by cases hw _ hmem) h.oneLine
  have htakes := takes_of_line (s := s) below hline
  rw [h.indentOf_append hw, List.drop_left] at htakes
  exact htakes h.reads

end IsTagStatement

/-- The head of a tag, alone on its line, is a statement, too. -/
theorem IsTagHead.isTagStatement {head : List Char} {tokens : List Token} (h : IsTagHead head tokens) :
    IsTagStatement head ⟨tokens, .statements, []⟩ := by
  have htrim : trimEnd head = head := trimEnd_of_endsWithInk (endsWithInk_of_tagHead h.reads)
  refine ⟨h.line, ?_, ?_⟩
  · rw [htrim]
    exact h.opens
  · rw [htrim]
    exact readStatement_of_tag h.opens h.reads

/-- **A tag behind the head of another one**, a colon and a blank, is the statement of a tag. -/
theorem IsTagHead.behind {head line : List Char} {tokens : List Token} {s : Statement}
    (h : IsTagHead head tokens) (hline : IsTagStatement line s) :
    IsTagStatement (head ++ ':' :: ' ' :: line) { s with tokens := tokens ++ .colon :: s.tokens } := by
  obtain ⟨c, rest, rfl, hc⟩ := hline.first
  have htrim : trimEnd (head ++ ':' :: ' ' :: c :: rest) = head ++ ':' :: ' ' :: trimEnd (c :: rest) := by
    have hfront := trimEnd_append_cons hc (head ++ [':', ' ']) rest
    have halone := trimEnd_append_cons hc [] rest
    rw [List.nil_append, List.nil_append] at halone
    rw [halone]
    simpa using hfront
  have hchild : '\n' ∉ trimEnd (c :: rest) := fun hmem => hline.oneLine ((trimEnd_isPrefix _).subset hmem)
  refine ⟨?_, ?_, ?_⟩
  · have hrest := hline.oneLine
    simp_all [h.line]
  · rw [htrim]
    exact h.opening_append _
  · have hread := h.readStatement_append hchild hline.trim_trimEnd (List.takeWhile_nil : currentLine [] = [])
    rw [List.append_nil, List.append_nil, hline.reads] at hread
    rw [htrim]
    exact hread

end Trellis.Source
