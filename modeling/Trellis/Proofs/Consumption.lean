import Trellis.Document.Resolution
import Trellis.Proofs.Cursor
import Trellis.Proofs.Indentation
import Trellis.Proofs.Outline
import Trellis.Proofs.Reading

/-!
# `Trellis.Proofs.Consumption`: reading a template drops nothing

A reader that works on the stream of tokens could end too early. If a statement took one
outdent too many, its level would be over before all of its lines were read, and nothing
would tell. The reader of `Trellis.Document.Reader` works on entries instead, where the
lines of a level are a list. This module compares the two.

* `statement_of_readEntry` and the theorems beside it: what the reader makes of some entries,
  a reader of the stream can make of their items. The induction is over the outline, with
  one statement for each function of the reader. A reader of the stream has to see where
  things end, so each statement says what stands behind (`Behind`).
* `readsDocument_of_readDocument`: the same for a whole template, and the reader of the stream
  is at the end of the stream then.
* `readDocument_drops_nothing` adds what `Trellis.Proofs.Cursor` knows: whatever a reader of
  the stream makes of a template, it is at the end then, and it has met all names of tags.
-/

set_option autoImplicit false

namespace Trellis

open Source

/-! ### What computations that succeed have gone through -/

section
variable {p p' : Progress}

theorem of_check_eq_result {α : Type} {s : Surroundings} {line : Nat} {r : Except ParseFault α} {x : α}
    (h : s.check line r p = .ok x p') : r = .ok x := by
  cases r with
  | ok y =>
    cases h
    rfl
  | error fault => cases h

theorem of_refuseChildren {s : Surroundings} {children : List Entry} {u : Unit}
    (h : refuseChildren s children p = .ok u p') : children = [] := by
  cases children with
  | nil => rfl
  | cons e rest => cases h

theorem of_refuseElse {s : Surroundings} {alternative : Option Entry} {u : Unit}
    (h : refuseElse s alternative p = .ok u p') : alternative = none := by
  cases alternative with
  | none => rfl
  | some e => cases h

/-- An `else` line has tokens, so a case does not allow it, either. -/
theorem of_refuseElseInCase {s : Surroundings} {alternative : Option Entry} {u : Unit}
    (helse : ∀ e ∈ alternative, e.isElse = true)
    (h : refuseElseInCase s alternative p = .ok u p') : alternative = none := by
  cases alternative with
  | none => rfl
  | some e =>
    have he := helse e rfl
    unfold refuseElseInCase at h
    unfold Entry.isElse at he
    dsimp only at h
    cases htokens : e.tokens with
    | nil =>
      rw [htokens] at he
      cases he
    | cons t rest =>
      rw [htokens] at h
      cases h

end

/-! ### What stands behind a statement -/

/-- Nothing that would belong to a statement in front: no indent, and no token that begins a
further branch. -/
structure Behind (tail : List Item) : Prop where
  flat : tail.head? ≠ some .indent
  noElse : ¬StartsWith IsElseToken tail

theorem behind_outdent (rest : List Item) : Behind (.outdent :: rest) :=
  ⟨by simp, fun ⟨_, _, h, _⟩ => by cases h⟩

theorem behind_finish : Behind [.finish] := ⟨by simp, fun ⟨_, _, h, _⟩ => by cases h⟩

theorem behind_newline (rest : List Item) : Behind (.newline :: rest) :=
  ⟨by simp, fun ⟨_, _, h, _⟩ => by cases h⟩

/-- An entry begins with a token or with the end of its line. -/
theorem head?_items (e : Entry) (tail : List Item) : (e.items ++ tail).head? ≠ some .indent := by
  obtain ⟨line, next, tokens, children, alternative⟩ := e
  cases tokens <;> simp [Entry.items]

theorem head?_entryItems (es : List Entry) {tail : List Item} (h : tail.head? ≠ some .indent) :
    (entryItems es ++ tail).head? ≠ some .indent := by
  cases es with
  | nil => exact h
  | cons e rest =>
    rw [entryItems, List.append_assoc]
    exact head?_items e _

theorem head?_alternativeItems (alternative : Option Entry) {tail : List Item}
    (h : tail.head? ≠ some .indent) :
    (alternativeItems alternative ++ tail).head? ≠ some .indent := by
  cases alternative with
  | none => exact h
  | some e => exact head?_items e tail

/-- A line with one token, and what belongs to it. -/
theorem items_of_token (line next : Nat) (t : Token) (children : List Entry)
    (alternative : Option Entry) (tail : List Item) :
    (Entry.mk line next [t] children alternative).items ++ tail =
      .token t :: .newline ::
        (childItems children ++ (alternativeItems alternative ++ tail)) := by
  simp [Entry.items]

/-- What can be read as a statement does not begin with `else`. -/
theorem not_isElseToken_of_read {t : Token} {ts : List Token} {h : Head}
    (hread : Head.read (t :: ts) = .ok h) : ¬IsElseToken t := by
  rintro (rfl | ⟨test, rfl⟩)
  · rw [Head.read] at hread
    cases hread
  · rw [Head.read] at hread
    cases hread

section
variable {s : Surroundings} {p p' : Progress}

/-- What belongs to a line with these children and this `else` line. -/
def partsOf (s : Surroundings) (children : List Entry) (alternative : Option Entry) : Parts where
  noChildren := refuseChildren s children
  children := readEntries s children
  alternatives := readAlternatives s none children
  branches := readBranches s alternative
  fallback := readFallback s alternative
  noElse := refuseElse s alternative

/-- What the line of an entry says was read, and then what belongs to it. -/
theorem of_readEntry {line next : Nat} {t : Token} {ts : List Token} {children : List Entry}
    {alternative : Option Entry} {ns : List Node}
    (h : readEntry s (.mk line next (t :: ts) children alternative) p = .ok ns p') :
    ∃ head, Head.read (t :: ts) = .ok head ∧
      head.nodes s line (partsOf s children alternative) p = .ok ns p' := by
  rw [readEntry] at h
  cases hread : Head.read (t :: ts) with
  | ok head =>
    rw [hread] at h
    exact ⟨head, rfl, h⟩
  | error fault =>
    rw [hread] at h
    cases fault <;> cases h
  · simp

/-- Entries that could be read begin with nothing that would belong to a statement in front. -/
theorem behind_of_readEntries {es : List Entry} {ns : List Node}
    (h : readEntries s es p = .ok ns p') {tail : List Item} (htail : Behind tail) :
    Behind (entryItems es ++ tail) := by
  cases es with
  | nil => exact htail
  | cons e rest =>
    obtain ⟨line, next, tokens, children, alternative⟩ := e
    cases tokens with
    | nil => exact behind_newline _
    | cons t ts =>
      rw [readEntries] at h
      obtain ⟨first, between, hfirst, -⟩ := of_bind_eq_result h
      obtain ⟨head, hread, -⟩ := of_readEntry hfirst
      refine ⟨by simp [entryItems, Entry.items], ?_⟩
      rintro ⟨t', rest', heq, ht'⟩
      cases heq
      exact not_isElseToken_of_read hread ht'

/-! ### Reading forwards -/

/-- What an include statement can stand for. -/
def Surroundings.Includes (s : Surroundings) (target : String) (ns : List Node) : Prop :=
  ∃ line p p', s.includeNodes line target p = .ok ns p'

/-- What belongs to a statement can be read from the stream as it can be read from the
entries. -/
structure Forwards (s : Surroundings) (entries : List Entry) (other : Option Entry) : Prop where
  body {p p' : Progress} {ns : List Node} (h : readEntries s entries p = .ok ns p')
    {tail rest : List Item} (htail : Behind tail) (hend : Reads s.Includes .body tail [] rest) :
    Reads s.Includes .body (entryItems entries ++ tail) ns rest
  alternatives {p p' : Progress} {whens : List When} {default : Option (List Node)}
    (h : readAlternatives s none entries p = .ok (whens, default) p') (tail : List Item) :
    Reads s.Includes (.alternatives none) (entryItems entries ++ .outdent :: tail)
      (whens, default) tail
  branches {p p' : Progress} {more : List Branch} {otherwise : Option (List Node)}
    (h : readBranches s other p = .ok (more, otherwise) p') {tail : List Item}
    (htail : Behind tail) :
    Reads s.Includes .branches (alternativeItems other ++ tail) (more, otherwise) tail
  fallback {p p' : Progress} {instead : Option (List Node)}
    (h : readFallback s other p = .ok instead p') {tail : List Item} (htail : Behind tail) :
    Reads s.Includes .fallback (alternativeItems other ++ tail) instead tail

/-- Children are read from their level, if they have one. -/
theorem children_of_body {children : List Entry} {ns : List Node} {p p' : Progress}
    (hread : readEntries s children p = .ok ns p')
    (hbody : ∀ {tail rest : List Item}, Behind tail → Reads s.Includes .body tail [] rest →
      Reads s.Includes .body (entryItems children ++ tail) ns rest)
    {tail : List Item} (htail : tail.head? ≠ some .indent) :
    Reads s.Includes .children (.newline :: (childItems children ++ tail)) ns tail := by
  by_cases hempty : children = []
  · subst hempty
    cases hread
    exact .flat .newline htail
  · rw [childItems_of_ne_nil hempty, List.cons_append, List.append_assoc]
    exact .deeper .newline (hbody (behind_outdent tail) .outdent)

theorem Forwards.children {entries : List Entry} {other : Option Entry}
    (h : Forwards s entries other) {ns : List Node} {p p' : Progress}
    (hread : readEntries s entries p = .ok ns p') {tail : List Item}
    (htail : tail.head? ≠ some .indent) :
    Reads s.Includes .children (.newline :: (childItems entries ++ tail)) ns tail :=
  children_of_body hread (h.body hread) htail

/-- Behind the tokens of a statement, what belongs to it is read up to the next statement. -/
theorem behind_of_nodes {children : List Entry} {alternative : Option Entry}
    (hparts : Forwards s children alternative) {line : Nat} {h : Head} {ns : List Node}
    {p p' : Progress}
    (hread : h.nodes s line (partsOf s children alternative) p = .ok ns p')
    {tail : List Item} (htail : Behind tail) :
    Reads s.Includes (.behind h)
      (.newline :: (childItems children ++ (alternativeItems alternative ++ tail))) ns tail := by
  have hflat := head?_alternativeItems alternative htail.flat
  induction h generalizing ns p p' with
  | leaf n =>
    obtain ⟨_, _, hchildren, hread⟩ := of_bind_eq_result hread
    obtain ⟨_, _, helse, hread⟩ := of_bind_eq_result hread
    rw [of_refuseChildren hchildren, of_refuseElse helse]
    cases hread
    exact .leaf .newline htail.flat
  | including target =>
    obtain ⟨_, _, hchildren, hread⟩ := of_bind_eq_result hread
    obtain ⟨included, _, hnodes, hread⟩ := of_bind_eq_result hread
    obtain ⟨_, _, helse, hread⟩ := of_bind_eq_result hread
    rw [of_refuseChildren hchildren, of_refuseElse helse]
    cases hread
    exact .including .newline htail.flat ⟨_, _, _, hnodes⟩
  | tag name attributes content =>
    obtain ⟨_, _, hchildren, hread⟩ := of_bind_eq_result hread
    obtain ⟨_, _, helse, hread⟩ := of_bind_eq_result hread
    cases hread
    rw [of_refuseElse helse] at hflat ⊢
    exact .tag (hparts.children hchildren hflat)
  | call name arguments =>
    obtain ⟨_, _, hchildren, hread⟩ := of_bind_eq_result hread
    obtain ⟨_, _, helse, hread⟩ := of_bind_eq_result hread
    cases hread
    rw [of_refuseElse helse] at hflat ⊢
    exact .call (hparts.children hchildren hflat)
  | tagAround name attributes inner ih =>
    obtain ⟨_, _, hinner, hread⟩ := of_bind_eq_result hread
    cases hread
    exact .tagAround (ih hinner)
  | callAround name arguments inner ih =>
    obtain ⟨_, _, hinner, hread⟩ := of_bind_eq_result hread
    cases hread
    exact .callAround (ih hinner)
  | cond test negated =>
    obtain ⟨_, _, hchildren, hread⟩ := of_bind_eq_result hread
    obtain ⟨⟨more, otherwise⟩, _, hbranches, hread⟩ := of_bind_eq_result hread
    cases hread
    exact .cond (hparts.children hchildren hflat) (hparts.branches hbranches htail)
  | each item key collection =>
    obtain ⟨_, _, hchildren, hread⟩ := of_bind_eq_result hread
    obtain ⟨_, _, hfallback, hread⟩ := of_bind_eq_result hread
    cases hread
    exact .each (hparts.children hchildren hflat) (hparts.fallback hfallback htail)
  | caseOf subject =>
    obtain ⟨⟨whens, default⟩, _, halternatives, hread⟩ := of_bind_eq_result hread
    obtain ⟨_, _, helse, hread⟩ := of_bind_eq_result hread
    cases hread
    rw [of_refuseElse helse] at hflat ⊢
    by_cases hempty : children = []
    · subst hempty
      cases halternatives
      exact .emptyCase .newline hflat
    · rw [childItems_of_ne_nil hempty, List.cons_append, List.append_assoc]
      exact .caseOf .newline (hparts.alternatives halternatives _)
  | mixin name parameters rest =>
    obtain ⟨_, _, hchildren, hread⟩ := of_bind_eq_result hread
    obtain ⟨_, _, -, hread⟩ := of_bind_eq_result hread
    obtain ⟨_, _, helse, hread⟩ := of_bind_eq_result hread
    cases hread
    rw [of_refuseElse helse] at hflat ⊢
    exact .mixin (hparts.children hchildren hflat)
  | block name mode =>
    obtain ⟨_, _, hchildren, hread⟩ := of_bind_eq_result hread
    obtain ⟨_, _, helse, hread⟩ := of_bind_eq_result hread
    cases hread
    rw [of_refuseElse helse] at hflat ⊢
    exact .block (hparts.children hchildren hflat)

set_option linter.unusedSectionVars false in
mutual

/-- **What is read from entries is read from their items in the stream, too**, one statement
for each function of the reader. A silent line is no statement, only the end of a line. -/
theorem statement_of_readEntry : ∀ e : Entry, e.Sound → ∀ {p p' : Progress} {ns : List Node},
    readEntry s e p = .ok ns p' → ∀ {tail : List Item}, Behind tail →
      (e.items = [.newline] ∧ ns = []) ∨ Reads s.Includes .statement (e.items ++ tail) ns tail
  | .mk line next tokens children alternative => by
    intro hsound p p' ns hread tail htail
    cases hsound with | mk silent inside otherwise behind =>
    cases tokens with
    | nil =>
      rw [readEntry] at hread
      obtain ⟨_, _, helse, hread⟩ := of_bind_eq_result hread
      rw [silent rfl, of_refuseElse helse]
      cases hread
      exact .inl ⟨rfl, rfl⟩
    | cons t ts =>
      obtain ⟨head, hhead, hnodes⟩ := of_readEntry hread
      have hparts : Forwards s children alternative :=
        { body := body_of_readEntries children inside
          alternatives := alternatives_of_readAlternatives none children inside
          branches := branches_of_readBranches alternative behind
          fallback := fallback_of_readFallback alternative behind }
      have hbehind := behind_of_nodes hparts hnodes htail
      refine .inr ?_
      rw [Entry.items, List.append_assoc, List.cons_append, List.append_assoc]
      refine .statement ?_ (Head.readFront_of_read hhead) hbehind
      rintro ⟨t', rest, heq, -⟩
      cases heq

theorem body_of_readEntries : ∀ es : List Entry, (∀ e ∈ es, e.Sound) →
    ∀ {p p' : Progress} {ns : List Node}, readEntries s es p = .ok ns p' →
    ∀ {tail rest : List Item}, Behind tail → Reads s.Includes .body tail [] rest →
      Reads s.Includes .body (entryItems es ++ tail) ns rest
  | [] => by
    intro _ p p' ns hread tail rest htail hend
    cases hread
    exact hend
  | e :: others => by
    intro hsound p p' ns hread tail rest htail hend
    rw [readEntries] at hread
    obtain ⟨first, between, hfirst, hread⟩ := of_bind_eq_result hread
    obtain ⟨more, last, hmore, hread⟩ := of_bind_eq_result hread
    cases hread
    have hlater := body_of_readEntries others
      (fun e he => hsound e (List.mem_cons_of_mem _ he)) hmore htail hend
    rw [entryItems, List.append_assoc]
    rcases statement_of_readEntry e (hsound e List.mem_cons_self) hfirst
      (behind_of_readEntries hmore htail) with ⟨hitems, rfl⟩ | hstatement
    · rw [hitems]
      exact .blank hlater
    · exact .next hstatement hlater

theorem alternatives_of_readAlternatives (default : Option (List Node)) : ∀ es : List Entry,
    (∀ e ∈ es, e.Sound) → ∀ {p p' : Progress} {whens : List When} {result : Option (List Node)},
    readAlternatives s default es p = .ok (whens, result) p' → ∀ tail : List Item,
      Reads s.Includes (.alternatives default) (entryItems es ++ .outdent :: tail)
        (whens, result) tail
  | [] => by
    intro _ p p' whens result hread tail
    cases hread
    exact .outdentCase
  | .mk line next tokens children alternative :: others => by
    intro hsound p p' whens result hread tail
    have hothers : ∀ e ∈ others, e.Sound := fun e he => hsound e (List.mem_cons_of_mem _ he)
    have hflat := head?_entryItems others (behind_outdent tail).flat
    have hfirst := hsound _ List.mem_cons_self
    cases hfirst with | mk silent inside otherwise behind =>
    rw [readAlternatives.eq_def] at hread
    dsimp only at hread
    split at hread
    · obtain ⟨_, _, helse, hread⟩ := of_bind_eq_result hread
      have hlater := alternatives_of_readAlternatives default others hothers hread tail
      rw [entryItems, Entry.items, silent rfl, of_refuseElseInCase otherwise helse]
      exact .blankAlternative hlater
    · next value more =>
      obtain ⟨e, _, hcompiled, hread⟩ := of_bind_eq_result hread
      obtain ⟨_, _, hend, hread⟩ := of_bind_eq_result hread
      obtain ⟨body, _, hbody, hread⟩ := of_bind_eq_result hread
      obtain ⟨_, _, helse, hread⟩ := of_bind_eq_result hread
      obtain ⟨⟨whens, result⟩, _, hrest, hread⟩ := of_bind_eq_result hread
      cases hread
      have hinside := children_of_body hbody (body_of_readEntries children inside hbody) hflat
      have hlater := alternatives_of_readAlternatives default others hothers hrest tail
      rw [endOfLine_eq_ok_iff.mp (of_check_eq_result hend), of_refuseElseInCase otherwise helse,
        entryItems, List.append_assoc, items_of_token]
      exact .when (of_check_eq_result hcompiled) hinside hlater
    · next more =>
      -- A default was not met before, or this one would be refused.
      cases default with
      | some nodes =>
        obtain ⟨_, _, hrefused, -⟩ := of_bind_eq_result hread
        cases hrefused
      | none =>
        obtain ⟨_, _, hend, hread⟩ := of_bind_eq_result hread
        obtain ⟨body, _, hbody, hread⟩ := of_bind_eq_result hread
        obtain ⟨_, _, helse, hread⟩ := of_bind_eq_result hread
        have hinside := children_of_body hbody (body_of_readEntries children inside hbody) hflat
        have hlater := alternatives_of_readAlternatives (some body) others hothers hread tail
        rw [endOfLine_eq_ok_iff.mp (of_check_eq_result hend), of_refuseElseInCase otherwise helse,
          entryItems, List.append_assoc, items_of_token]
        exact .default hinside hlater
    · cases hread

theorem branches_of_readBranches : ∀ alternative : Option Entry,
    (∀ e ∈ alternative, e.Sound) → ∀ {p p' : Progress} {more : List Branch}
    {otherwise : Option (List Node)},
    readBranches s alternative p = .ok (more, otherwise) p' → ∀ {tail : List Item},
    Behind tail →
      Reads s.Includes .branches (alternativeItems alternative ++ tail) (more, otherwise) tail
  | none => by
    intro _ p p' more otherwise hread tail htail
    cases hread
    exact .noBranch htail.noElse
  | some (.mk line next tokens children alternative) => by
    intro hsound p p' more otherwise hread tail htail
    have hfirst := hsound _ rfl
    cases hfirst with | mk silent inside _ behind =>
    have hflat := head?_alternativeItems alternative htail.flat
    rw [readBranches.eq_def] at hread
    dsimp only at hread
    split at hread
    · next test _ =>
      obtain ⟨e, _, hcompiled, hread⟩ := of_bind_eq_result hread
      obtain ⟨_, _, hend, hread⟩ := of_bind_eq_result hread
      obtain ⟨body, _, hbody, hread⟩ := of_bind_eq_result hread
      obtain ⟨⟨more, otherwise⟩, _, hothers, hread⟩ := of_bind_eq_result hread
      cases hread
      have hinside := children_of_body hbody (body_of_readEntries children inside hbody) hflat
      have hlater := branches_of_readBranches alternative behind hothers htail
      rw [endOfLine_eq_ok_iff.mp (of_check_eq_result hend), alternativeItems, items_of_token]
      exact .elseCond (of_check_eq_result hcompiled) hinside hlater
    · obtain ⟨_, _, hend, hread⟩ := of_bind_eq_result hread
      obtain ⟨body, _, hbody, hread⟩ := of_bind_eq_result hread
      obtain ⟨_, _, helse, hread⟩ := of_bind_eq_result hread
      cases hread
      have hinside := children_of_body hbody (body_of_readEntries children inside hbody) hflat
      rw [of_refuseElse helse] at hinside ⊢
      rw [endOfLine_eq_ok_iff.mp (of_check_eq_result hend), alternativeItems, items_of_token]
      exact .otherwise hinside
    · cases hread

theorem fallback_of_readFallback : ∀ alternative : Option Entry,
    (∀ e ∈ alternative, e.Sound) → ∀ {p p' : Progress} {instead : Option (List Node)},
    readFallback s alternative p = .ok instead p' → ∀ {tail : List Item}, Behind tail →
      Reads s.Includes .fallback (alternativeItems alternative ++ tail) instead tail
  | none => by
    intro _ p p' instead hread tail htail
    cases hread
    refine .noFallback fun h => htail.noElse (h.mono fun t ht => .inl ht)
  | some (.mk line next tokens children alternative) => by
    intro hsound p p' instead hread tail htail
    have hfirst := hsound _ rfl
    cases hfirst with | mk silent inside _ behind =>
    have hflat := head?_alternativeItems alternative htail.flat
    rw [readFallback.eq_def] at hread
    dsimp only at hread
    split at hread
    · obtain ⟨_, _, hend, hread⟩ := of_bind_eq_result hread
      obtain ⟨body, _, hbody, hread⟩ := of_bind_eq_result hread
      obtain ⟨_, _, helse, hread⟩ := of_bind_eq_result hread
      cases hread
      have hinside := children_of_body hbody (body_of_readEntries children inside hbody) hflat
      rw [of_refuseElse helse] at hinside ⊢
      rw [endOfLine_eq_ok_iff.mp (of_check_eq_result hend), alternativeItems, items_of_token]
      exact .fallback hinside
    · cases hread

end

end

/-! ### Whole templates -/

/-- What a template is whose own statements are `own`: they are its nodes, or they override
the blocks of the template that it extends. -/
def Surroundings.Makes (s : Surroundings) (d : Document) (own : List Node) :
    Option String → Prop
  | none => d.nodes = own
  | some target => ∃ parent mixins asked asked',
      s.load (Reference.resolve s.template target) asked = .ok parent asked' ∧
        d = parent.extend own mixins

/-- Entries that say nothing are blank lines of the stream. -/
theorem readsDocument_of_dropWhile {included : String → List Node → Prop} {es : List Entry}
    {tail rest : List Item} {base : Option String} {own : List Node}
    (h : ReadsDocument included (entryItems (es.dropWhile Entry.isVacant) ++ tail) base own rest) :
    ReadsDocument included (entryItems es ++ tail) base own rest := by
  induction es with
  | nil => exact h
  | cons e others ih =>
    by_cases hvacant : e.isVacant = true
    · rw [List.dropWhile_cons_of_pos hvacant] at h
      have hitems : e.items = [.newline] := by
        obtain ⟨line, next, tokens, children, alternative⟩ := e
        unfold Entry.isVacant at hvacant
        split at hvacant
        · next heq => cases heq; rfl
        · cases hvacant
      rw [entryItems, hitems]
      exact .blank (ih h)
    · rwa [List.dropWhile_cons_of_neg hvacant] at h

theorem of_collecting_eq_result {b : Building (List Node)} {asked asked' : List String}
    {d : Document} (h : collecting b asked = .ok d asked') :
    ∃ p', b ⟨[], asked⟩ = .ok d.nodes p' := by
  unfold collecting at h
  cases hb : b ⟨[], asked⟩ with
  | ok nodes p' =>
    rw [hb] at h
    cases h
    exact ⟨p', rfl⟩
  | error e p' =>
    rw [hb] at h
    cases h

/-- **A template that can be read is read from its stream to the end.** -/
theorem readsDocument_of_readDocument {source : String} {l : Layout}
    (hscan : Layout.scan source = .ok l) {s : Surroundings} {d : Document}
    {asked asked' : List String} (hread : readDocument s l asked = .ok d asked') :
    ∃ base own, s.Makes d own base ∧
      ReadsDocument s.Includes (l.items.map Prod.snd) base own [.finish] := by
  have hsound := sound_of_mem_forest hscan
  -- The statements of the outermost level end where the stream does.
  have hbody (es : List Entry) (hes : ∀ e ∈ es, e.Sound) {own : List Node} {p p' : Progress}
      (hown : readEntries s es p = .ok own p') :
      Reads s.Includes .body (entryItems es ++ [.finish]) own [.finish] :=
    body_of_readEntries es hes hown behind_finish .finish
  unfold readDocument at hread
  cases hlines : l.lines with
  | nil =>
    rw [hlines] at hread
    cases hread
    have hitems := items_eq_entryItems hscan (by simp [hlines])
    have hforest : Entry.forest l = [] := by rw [Entry.forest, hlines]; rfl
    rw [hforest] at hitems
    rw [hitems]
    exact ⟨none, [], rfl, .plain .finish⟩
  | cons first others =>
    rw [hlines] at hread
    dsimp only [List.head?_cons] at hread
    split at hread
    · cases hread
    next hdepth =>
    have hitems := items_eq_entryItems hscan (by
      intro line hline
      rw [hlines] at hline
      cases hline
      omega)
    have hkept : ∀ e ∈ (Entry.forest l).dropWhile Entry.isVacant, e.Sound :=
      fun e he => hsound e ((List.dropWhile_sublist _).subset he)
    rw [hitems]
    generalize hforest : (Entry.forest l).dropWhile Entry.isVacant = kept at hread hkept
    split at hread
    · next _ line next target rest children alternative entries =>
      rw [readDerived] at hread
      obtain ⟨own, asked₁, hown, hread⟩ := of_bind_eq_result hread
      obtain ⟨parent, asked₂, hload, hread⟩ := of_bind_eq_result hread
      cases hread
      obtain ⟨p, hown⟩ := of_collecting_eq_result hown
      obtain ⟨_, _, hend, hown⟩ := of_bind_eq_result hown
      obtain ⟨_, _, hchildren, hown⟩ := of_bind_eq_result hown
      obtain ⟨_, _, helse, hown⟩ := of_bind_eq_result hown
      have hload' : s.load (Reference.resolve s.template target) asked₁ = .ok parent asked' := by
        split at hload
        · cases hload
        · exact hload
      refine ⟨some target, own.nodes, ⟨parent, own.mixins, _, _, hload', rfl⟩, ?_⟩
      refine readsDocument_of_dropWhile ?_
      rw [hforest, endOfLine_eq_ok_iff.mp (of_check_eq_result hend), of_refuseChildren hchildren,
        of_refuseElse helse, entryItems, List.append_assoc, items_of_token]
      exact .extending .newline (head?_entryItems entries behind_finish.flat)
        (hbody entries (fun e he => hkept e (List.mem_cons_of_mem _ he)) hown)
    · obtain ⟨p, hown⟩ := of_collecting_eq_result hread
      refine ⟨none, d.nodes, rfl, readsDocument_of_dropWhile ?_⟩
      rw [hforest]
      exact .plain (hbody kept hkept hown)

/-- A template that extends another one names it in its stream. -/
theorem ReadsDocument.mem_extending {included : String → List Node → Prop}
    {is rest : List Item} {base : Option String} {own : List Node}
    (h : ReadsDocument included is base own rest) :
    ∀ target ∈ base, .token (.extending target) ∈ is := by
  intro target htarget
  induction h with
  | blank later ih => exact List.mem_cons_of_mem _ (ih htarget)
  | extending line flat body =>
    cases htarget
    exact List.mem_cons_self
  | plain body => cases htarget

/-- **Reading a template drops nothing.** Whatever a reader of the stream makes of a template,
it has gone through to the end. What the reader of entries makes of it is made by a reader of
the stream, too. And if the template includes and extends no other, its tags are those that
the stream names. -/
theorem readDocument_drops_nothing {source : String} {l : Layout}
    (hscan : Layout.scan source = .ok l) (s : Surroundings) :
    (∀ base own rest, ReadsDocument s.Includes (l.items.map Prod.snd) base own rest →
      rest = [.finish]) ∧
    ∀ asked d asked', readDocument s l asked = .ok d asked' →
      (∃ base own, s.Makes d own base ∧
        ReadsDocument s.Includes (l.items.map Prod.snd) base own [.finish]) ∧
      ((∀ target, .token (.including target) ∉ l.items.map Prod.snd ∧
          .token (.extending target) ∉ l.items.map Prod.snd) →
        tagNamesOf d.nodes = itemTagNames (l.items.map Prod.snd)) := by
  refine ⟨fun base own rest h => h.rest_eq (closes_items hscan), fun asked d asked' hread => ?_⟩
  obtain ⟨base, own, hmakes, hreads⟩ := readsDocument_of_readDocument hscan hread
  refine ⟨⟨base, own, hmakes, hreads⟩, fun hno => ?_⟩
  cases base with
  | none =>
    rw [show d.nodes = own from hmakes]
    exact hreads.tagNames_eq fun target => (hno target).1
  | some target => exact absurd (hreads.mem_extending target rfl) (hno target).2

/-- A division with a paragraph, and a span. -/
theorem readDocument_drops_nothing_division :
    ∃ (l : Layout) (s : Surroundings) (d : Document),
      Layout.scan "div\n    p\nspan" = .ok l ∧ readDocument s l [] = .ok d [] ∧
        (∃ own, ReadsDocument s.Includes (l.items.map Prod.snd) none own [.finish]) ∧
        tagNamesOf d.nodes = {"div", "p", "span"} := by
  let s : Surroundings :=
    ⟨"page", fun name => throw (.notFound name), fun name => throw (.notFound name)⟩
  have hread : readDocument s
      ⟨[⟨⟨1, 1⟩, 0, [.tag "div"]⟩, ⟨⟨2, 5⟩, 1, [.tag "p"]⟩, ⟨⟨3, 1⟩, 0, [.tag "span"]⟩], ⟨3, 1⟩⟩ [] =
        .ok ⟨[.tag "div" [] false [.tag "p" [] false []], .tag "span" [] false []], []⟩ [] := rfl
  obtain ⟨⟨base, own, hmakes, hreads⟩, htags⟩ :=
    (readDocument_drops_nothing scan_division s).2 _ _ _ hread
  refine ⟨_, s, _, scan_division, hread, ?_, ?_⟩
  · cases base with
    | none => exact ⟨own, hreads⟩
    | some target =>
      -- Nothing can be loaded here, so nothing was extended.
      obtain ⟨parent, mixins, asked, asked', hload, -⟩ := hmakes
      cases hload
  · refine (htags fun target => ⟨?_, ?_⟩).trans rfl
    · simp [Layout.items, itemsFrom, Line.items, levelItems]
    · simp [Layout.items, itemsFrom, Line.items, levelItems]

end Trellis
