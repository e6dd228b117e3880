import Trellis.Proofs.Building
import Trellis.Proofs.Consumption
import Trellis.Proofs.ListStarts
import Trellis.Proofs.Merging
import Trellis.Proofs.Misreading
import Trellis.Proofs.Reading
import Trellis.Proofs.Transclusion

/-!
# `Trellis.Proofs.TagWords`: what the tags of a compiled template are called

The renderer writes the name of a tag as it is. So what a name may consist of decides what a tag
may look like in the output, and nothing in `Node.tag` says so. It is the reader of lines that does:
a tag is a division, or it begins with a letter and goes on as a name does (`IsTagWord`).

This module follows the names from there into compiled templates. A line has the names that
`tagHead` reads (`isTagWord_of_readStatement`), and a source has those of its lines. The nodes of
a template have the names of its lines and of the templates that it includes, and so do the
mixins that it collects (`yields_readEntry`, an induction over the outline with one case for each
function of the reader). A template that extends another one brings its blocks into the other's
nodes and its mixins into the other's table (`AllNamed.overrideAll`). The induction over templates
under way is the one by which resolution ends (`Library.named_of_load`).
-/

set_option autoImplicit false

namespace Trellis

open Source Text

/-! ### Names of tags in a source -/

/-- What the reader of lines takes for the name of a tag: letters, digits, hyphens, underscores
and colons, and at least one of them. -/
structure IsTagWord (name : String) : Prop where
  nonempty : name.toList ≠ []
  chars : ∀ c ∈ name.toList, isNameChar c = true ∨ c = ':'

theorem isTagWord_div : IsTagWord "div" := ⟨by simp, by simp; decide⟩

namespace Source

theorem chars_of_tagNameFrom {cs : List Char} :
    ∀ c ∈ tagNameFrom cs, isNameChar c = true ∨ c = ':' := by
  fun_induction tagNameFrom cs with
  | case1 cs name rest _ _ _ ih =>
    intro c hc
    rcases List.mem_append.mp hc with hc | hc
    · exact .inl (List.mem_takeWhile_imp hc)
    · exact (List.mem_cons.mp hc).elim .inr (ih c)
  | case2 => exact fun c hc => .inl (List.mem_takeWhile_imp hc)
  | case3 => exact fun c hc => .inl (List.mem_takeWhile_imp hc)

theorem tagNameFrom_ne_nil {cs : List Char} (h : headIs isLetter cs = true) :
    tagNameFrom cs ≠ [] := by
  cases cs with
  | nil => cases h
  | cons c rest =>
    have hname : isNameChar c = true := by
      have hletter : c.isAlpha = true := h
      simp [isNameChar, isAlphanumeric, Char.isAlphanum, hletter]
    have hfirst : nameOf (c :: rest) ≠ [] := by simp [nameOf, hname]
    rw [tagNameFrom]
    split
    · split
      · simp
      · exact hfirst
    · exact hfirst

/-- In the head of a tag there is one tag. -/
theorem isTagWord_of_tagHead {cs rest : List Char} {tokens : List Token} {name : String}
    (h : tagHead cs = .ok (tokens, rest)) (hmem : .tag name ∈ tokens) : IsTagWord name := by
  obtain ⟨_, parts, behind, rfl, hparts, hname⟩ := tagHead_cases h
  rcases List.mem_cons.mp hmem with htag | hmem
  · cases htag
    rcases hname with rfl | ⟨hletter, rfl⟩
    · exact isTagWord_div
    · refine ⟨?_, ?_⟩ <;> rw [String.toList_ofList]
      · exact tagNameFrom_ne_nil hletter
      · exact chars_of_tagNameFrom
  · cases not_heads_of_headParts hparts _ hmem

/-- **All tags of a statement have such names**, also those behind colons. -/
theorem isTagWord_of_readStatement {cs : List Char} {s : Statement} {name : String}
    (h : readStatement cs = .ok s) (hmem : .tag name ∈ s.tokens) : IsTagWord name := by
  rw [readStatement_eq] at h
  obtain ⟨head, hopening, h⟩ := of_bind_eq_ok h
  cases head with
  | whole whole =>
    cases h
    -- The word `mixin` does not begin a tag.
    obtain ⟨-, -, rest, hmixin⟩ := mixinToken_of_opening hopening hmem rfl
    obtain ⟨-, _, _, htoken, -⟩ := mixinToken_cases hmixin
    cases htoken
  | call call =>
    obtain ⟨⟨token, behind⟩, hhead, h⟩ := of_bind_eq_ok h
    obtain ⟨_, arguments, rfl, -⟩ := callHead_cases hhead
    rcases of_behindHead h with ⟨child, s', hchild, hs', htokens⟩ | ⟨r, -, hend, htokens⟩
    · rw [htokens] at hmem
      have hshort : child.length < cs.length := by
        have hcall := length_of_opening (.inl hopening)
        have hrest := length_of_callHead hhead
        have hbehind : child.length < behind.length := length_of_behindColon? hchild
        omega
      have hinside : .tag name ∈ s'.tokens := by simpa using hmem
      exact isTagWord_of_readStatement hs' hinside
    · unfold callEnd at hend
      split at hend <;> cases hend
      rw [htokens] at hmem
      cases List.mem_singleton.mp hmem
  | tag tag =>
    obtain ⟨⟨tokens, behind⟩, hhead, h⟩ := of_bind_eq_ok h
    rcases of_behindHead h with ⟨child, s', hchild, hs', htokens⟩ | ⟨r, -, hend, htokens⟩
    · rw [htokens] at hmem
      have hshort : child.length < cs.length := by
        have htag := length_of_opening (.inr hopening)
        have hrest := length_of_tagHead hhead
        have hbehind : child.length < behind.length := length_of_behindColon? hchild
        omega
      rcases List.mem_append.mp hmem with hmem | hmem
      · exact isTagWord_of_tagHead hhead hmem
      · have hinside : .tag name ∈ s'.tokens := by simpa using hmem
        exact isTagWord_of_readStatement hs' hinside
    · obtain ⟨tail, htail, rfl⟩ := of_map_eq_ok hend
      rw [htokens] at hmem
      rcases List.mem_append.mp hmem with hmem | hmem
      · exact isTagWord_of_tagHead hhead hmem
      · cases not_heads_of_tagTail htail _ hmem
termination_by cs.length

/-- All tags of a source have such names. -/
theorem isTagWord_of_scan {source : String} {layout : Layout} (h : Layout.scan source = .ok layout)
    {line : Line} (hline : line ∈ layout.lines) {name : String} (hmem : .tag name ∈ line.tokens) :
    IsTagWord name := by
  obtain ⟨_, _, _, _, _, _, _, s, hs, _, block, _, _, htokens, _⟩ := Line.beginsIn_of_scan h hline
  rw [htokens] at hmem
  refine isTagWord_of_readStatement hs ?_
  -- The text of a block is no tag.
  unfold Statement.withBlock at hmem
  split at hmem
  · simpa using hmem
  · exact hmem

end Source

/-! ### Names of a kind -/

/-- All of some names are of a kind. -/
def AllNamed (Q : String → Prop) (names : Multiset String) : Prop := ∀ name ∈ names, Q name

section
variable {Q : String → Prop}

@[simp] theorem allNamed_zero : AllNamed Q 0 := by
  intro name hname
  cases Multiset.notMem_zero name hname

@[simp] theorem allNamed_add {names more : Multiset String} :
    AllNamed Q (names + more) ↔ AllNamed Q names ∧ AllNamed Q more := by
  unfold AllNamed
  simp only [Multiset.mem_add, or_imp, forall_and]

theorem mem_tokenTagNames {name : String} {ts : List Token} :
    name ∈ tokenTagNames ts ↔ .tag name ∈ ts := by
  have htoken (t : Token) : tokenTagName? t = some name ↔ t = .tag name := by
    cases t <;> simp [tokenTagName?]
  simp [tokenTagNames, htoken]

/-- The tags in a statement have names that stand in its tokens. -/
theorem AllNamed.of_read {ts : List Token} {h : Head} (hread : Head.read ts = .ok h)
    (hts : AllNamed Q (tokenTagNames ts)) : AllNamed Q h.tagNames := by
  obtain ⟨front, rfl, hnames, -⟩ := Head.readOf_of_readFront (Head.readFront_of_read hread)
  rw [hnames, zero_add]
  rwa [List.append_nil] at hts

/-! ### Tags that stand in nodes -/

theorem mem_tagNamesOf_iff {name : String} {ns : List Node} :
    name ∈ tagNamesOf ns ↔ ∃ n ∈ ns, name ∈ n.tagNames := by
  induction ns with
  | nil => simp [tagNamesOf]
  | cons n ns ih => simp [tagNamesOf, ih]

theorem mem_optionTagNames_iff {name : String} {body : Option (List Node)} :
    name ∈ optionTagNames body ↔ ∃ ns ∈ body.toList, name ∈ tagNamesOf ns := by
  cases body <;> simp [optionTagNames]

theorem mem_branchTagNames_iff {name : String} {branches : List Branch} :
    name ∈ branchTagNames branches ↔ ∃ ns ∈ branches.map (·.body), name ∈ tagNamesOf ns := by
  induction branches with
  | nil => simp [branchTagNames]
  | cons branch rest ih =>
    obtain ⟨test, negated, body⟩ := branch
    simp [branchTagNames, ih]

theorem mem_whenTagNames_iff {name : String} {whens : List When} :
    name ∈ whenTagNames whens ↔ ∃ ns ∈ whens.map (·.body), name ∈ tagNamesOf ns := by
  induction whens with
  | nil => simp [whenTagNames]
  | cons w rest ih =>
    obtain ⟨value, body⟩ := w
    simp [whenTagNames, ih]

/-- The names in a node are its own, if it is a tag, and those inside it. -/
theorem mem_tagNames_iff {name : String} {n : Node} :
    name ∈ n.tagNames ↔ (∃ attributes selfClosing children,
      n = .tag name attributes selfClosing children) ∨
      ∃ children ∈ n.childLists, name ∈ tagNamesOf children := by
  cases n with
  | tag name' attributes selfClosing children =>
    simp [Node.tagNames, Node.childLists, eq_comm]
  | mixin m =>
    obtain ⟨name', parameters, rest, body⟩ := m
    simp [Node.tagNames, Node.childLists]
  | cond branches otherwise =>
    simp only [Node.tagNames, Node.childLists, Multiset.mem_add, List.mem_append,
      mem_branchTagNames_iff, mem_optionTagNames_iff, or_and_right, exists_or, reduceCtorEq,
      exists_false, false_or]
  | each item key collection body fallback =>
    simp [Node.tagNames, Node.childLists, mem_optionTagNames_iff]
  | caseOf subject whens default =>
    simp only [Node.tagNames, Node.childLists, Multiset.mem_add, List.mem_append,
      mem_whenTagNames_iff, mem_optionTagNames_iff, or_and_right, exists_or, reduceCtorEq,
      exists_false, false_or]
  | call name' arguments body => simp [Node.tagNames, Node.childLists, mem_optionTagNames_iff]
  | _ => simp [Node.tagNames, Node.childLists]

/-- The names in some nodes are those of the tags that stand in them. -/
theorem mem_tagNamesOf_iff_stands {name : String} {ns : List Node} :
    name ∈ tagNamesOf ns ↔
      ∃ attributes selfClosing children, Stands (.tag name attributes selfClosing children) ns := by
  induction ns using nodes_induction with
  | h ns ih =>
    rw [mem_tagNamesOf_iff]
    constructor
    · rintro ⟨n, hn, hname⟩
      rcases mem_tagNames_iff.mp hname with ⟨_, _, _, rfl⟩ | ⟨children, hchildren, hname⟩
      · exact ⟨_, _, _, .here hn⟩
      · obtain ⟨_, _, _, h⟩ := (ih n hn children hchildren).mp hname
        exact ⟨_, _, _, .inside hn hchildren h⟩
    · rintro ⟨_, _, _, h⟩
      cases h with
      | here hn => exact ⟨_, hn, mem_tagNames_iff.mpr (.inl ⟨_, _, _, rfl⟩)⟩
      | inside hn hchildren later =>
        have hinside := (ih _ hn _ hchildren).mpr ⟨_, _, _, later⟩
        exact ⟨_, hn, mem_tagNames_iff.mpr (.inr ⟨_, hchildren, hinside⟩)⟩

/-- What stands in nodes has no other names than they have. -/
theorem AllNamed.stands {n : Node} {ns children : List Node} (h : AllNamed Q (tagNamesOf ns))
    (hn : Stands n ns) (hchildren : children ∈ n.childLists) : AllNamed Q (tagNamesOf children) := by
  intro name hname
  obtain ⟨_, _, _, hstands⟩ := mem_tagNamesOf_iff_stands.mp hname
  exact h name (mem_tagNamesOf_iff_stands.mpr ⟨_, _, _, hn.trans hchildren hstands⟩)

/-- Overridden nodes have their own names and those of what overrides them. -/
theorem AllNamed.overrideAll {ns own : List Node} (h : AllNamed Q (tagNamesOf ns))
    (hown : AllNamed Q (tagNamesOf own)) : AllNamed Q (tagNamesOf (overrideAll (blocksOf own) ns)) := by
  intro name hname
  obtain ⟨attributes, selfClosing, children, hstands⟩ := mem_tagNamesOf_iff_stands.mp hname
  rcases stands_overrideAll hstands with ⟨old, hold, heq⟩ | ⟨b, hb, hinside⟩
  · refine h name (mem_tagNamesOf_iff_stands.mpr ?_)
    cases old with
    | tag name' attributes' selfClosing' inside =>
      cases heq
      exact ⟨_, _, _, hold⟩
    | block name' mode content =>
      rw [override_block] at heq
      cases heq
    | mixin m =>
      obtain ⟨name', parameters, rest, body⟩ := m
      cases heq
    | _ => cases heq
  · have hblock := hown.stands (mem_blocksOf_iff_stands.mp hb) (List.mem_singleton_self _)
    exact hblock name (mem_tagNamesOf_iff_stands.mpr ⟨_, _, _, hinside⟩)

end

/-! ### Reading -/

/-- The tags in the bodies of some mixins have names of a kind. -/
def MixinsNamed (Q : String → Prop) (mixins : Table Mixin) : Prop :=
  ∀ m ∈ mixins, AllNamed Q (tagNamesOf m.2.body)

theorem MixinsNamed.insertAll {Q : String → Prop} {mixins more : Table Mixin}
    (h : MixinsNamed Q mixins) (hmore : MixinsNamed Q more) :
    MixinsNamed Q (Table.insertAll more mixins) :=
  fun m hm => (Table.mem_insertAll hm).elim (hmore m) (h m)

/-- The tags of a document have names of a kind, in its nodes and in its mixins. -/
structure Document.Named (Q : String → Prop) (d : Document) : Prop where
  nodes : AllNamed Q (tagNamesOf d.nodes)
  mixins : MixinsNamed Q d.mixins

/-- A reading gives something whose names are of a kind, and leaves such mixins where it found
such mixins. -/
structure Yields (Q : String → Prop) {α : Type} (names : α → Multiset String) (a : Building α) :
    Prop where
  yields {p p' : Progress} {x : α} (h : a p = .ok x p') (hp : MixinsNamed Q p.mixins) :
    AllNamed Q (names x) ∧ MixinsNamed Q p'.mixins

namespace Yields

variable {Q : String → Prop} {α β : Type}

theorem result {names : α → Multiset String} {x : α} (h : AllNamed Q (names x)) :
    Yields Q names (pure x) where
  yields hx hp := by
    cases hx
    exact ⟨h, hp⟩

theorem bind {names : α → Multiset String} {names' : β → Multiset String} {a : Building α}
    {k : α → Building β} (ha : Yields Q names a)
    (hk : ∀ x, AllNamed Q (names x) → Yields Q names' (k x)) : Yields Q names' (a >>= k) where
  yields hx hp := by
    obtain ⟨y, between, hy, hx⟩ := of_bind_eq_result hx
    obtain ⟨hnames, hmixins⟩ := ha.yields hy hp
    exact (hk y hnames).yields hx hmixins

theorem check (s : Surroundings) (line : Nat) (r : Except ParseFault α) :
    Yields Q (fun _ => 0) (s.check line r) := by
  cases r with
  | ok x => exact result allNamed_zero
  | error fault => exact ⟨fun h => by cases h⟩

theorem fail {names : α → Multiset String} (s : Surroundings) (line : Nat) (fault : ParseFault) :
    Yields Q names (s.fail line fault) := ⟨fun h => by cases h⟩

theorem refuseChildren (s : Surroundings) (children : List Entry) :
    Yields Q (fun _ => 0) (Trellis.refuseChildren s children) := by
  cases children with
  | nil => exact result allNamed_zero
  | cons e rest => exact fail s _ _

theorem refuseElse (s : Surroundings) (alternative : Option Entry) :
    Yields Q (fun _ => 0) (Trellis.refuseElse s alternative) := by
  cases alternative with
  | none => exact result allNamed_zero
  | some e => exact fail s _ _

theorem refuseElseInCase (s : Surroundings) (alternative : Option Entry) :
    Yields Q (fun _ => 0) (Trellis.refuseElseInCase s alternative) := by
  cases alternative with
  | none => exact result allNamed_zero
  | some e =>
    unfold Trellis.refuseElseInCase
    dsimp only
    split
    · exact result allNamed_zero
    · exact fail s _ _

theorem addMixins {mixins : Table Mixin} (h : MixinsNamed Q mixins) :
    Yields Q (fun _ => 0) (Trellis.addMixins mixins) where
  yields hx hp := by
    cases hx
    exact ⟨allNamed_zero, hp.insertAll h⟩

end Yields

/-- The names in the alternatives of a case. -/
def alternativeNames (r : List When × Option (List Node)) : Multiset String :=
  whenTagNames r.1 + optionTagNames r.2

/-- The names in branches. -/
def branchNames (r : List Branch × Option (List Node)) : Multiset String :=
  branchTagNames r.1 + optionTagNames r.2

/-- The parts of a line that may be asked for give names of a kind. -/
structure Parts.Yield (Q : String → Prop) (p : Parts) : Prop where
  noChildren : Yields Q (fun _ => 0) p.noChildren
  children : Yields Q tagNamesOf p.children
  alternatives : Yields Q alternativeNames p.alternatives
  branches : Yields Q branchNames p.branches
  fallback : Yields Q optionTagNames p.fallback
  noElse : Yields Q (fun _ => 0) p.noElse

section
variable {Q : String → Prop} {s : Surroundings}
  (hload : ∀ {name : String} {asked asked' : List String} {d : Document},
    s.load name asked = .ok d asked' → d.Named Q)
include hload

/-- An included template has names of that kind, and another file has none. -/
theorem yields_includeNodes (line : Nat) (target : String) :
    Yields Q tagNamesOf (s.includeNodes line target) where
  yields {p p' ns} h hp := by
    cases hraw : Reference.isRaw (Reference.resolve s.template target) with
    | true =>
      unfold Surroundings.includeNodes at h
      rw [hraw, if_pos rfl] at h
      obtain ⟨text, between, htext, h⟩ := of_bind_eq_result h
      cases h
      obtain ⟨-, hmixins⟩ := of_orMissing_eq_ok htext
      rw [hmixins]
      exact ⟨by simp [Node.tagNames], hp⟩
    | false =>
      obtain ⟨d, hd, rfl, hmixins⟩ := of_includeNodes_eq_ok h hraw
      rw [hmixins]
      exact ⟨(hload hd).nodes, hp.insertAll (hload hd).mixins⟩

/-- The nodes of a statement have its names and those of its parts. -/
theorem yields_headNodes {h : Head} (hh : AllNamed Q h.tagNames) (line : Nat) {p : Parts}
    (hp : p.Yield Q) : Yields Q tagNamesOf (h.nodes s line p) := by
  induction h with
  | leaf n =>
    refine hp.noChildren.bind fun _ _ => hp.noElse.bind fun _ _ => .result ?_
    rwa [tagNamesOf_singleton]
  | including target =>
    refine hp.noChildren.bind fun _ _ => (yields_includeNodes hload line target).bind fun ns hns => ?_
    exact hp.noElse.bind fun _ _ => .result hns
  | tag name attributes content =>
    refine hp.children.bind fun children hchildren => hp.noElse.bind fun _ _ => .result ?_
    simp only [Head.tagNames, tagNamesOf_singleton, Node.tagNames, tagNamesOf_join, allNamed_add]
      at hh ⊢
    exact ⟨hh.1, hh.2, hchildren⟩
  | call name arguments =>
    refine hp.children.bind fun body hbody => hp.noElse.bind fun _ _ => .result ?_
    rwa [tagNamesOf_singleton, Node.tagNames, optionTagNames_of_body]
  | tagAround name attributes inner ih =>
    simp only [Head.tagNames, allNamed_add] at hh
    refine (ih hh.2).bind fun children hchildren => .result ?_
    simp only [tagNamesOf_singleton, Node.tagNames, allNamed_add]
    exact ⟨hh.1, hchildren⟩
  | callAround name arguments inner ih =>
    refine (ih hh).bind fun body hbody => .result ?_
    rwa [tagNamesOf_singleton, Node.tagNames, optionTagNames_of_body]
  | cond test negated =>
    refine hp.children.bind fun body hbody => hp.branches.bind fun more hmore => .result ?_
    simp only [branchNames, tagNamesOf_singleton, Node.tagNames, branchTagNames, allNamed_add]
      at hmore ⊢
    exact ⟨⟨hbody, hmore.1⟩, hmore.2⟩
  | each item key collection =>
    refine hp.children.bind fun body hbody => hp.fallback.bind fun fallback hfallback => .result ?_
    simp only [tagNamesOf_singleton, Node.tagNames, allNamed_add]
    exact ⟨hbody, hfallback⟩
  | caseOf subject =>
    refine hp.alternatives.bind fun r hr => hp.noElse.bind fun _ _ => .result ?_
    rwa [tagNamesOf_singleton]
  | mixin name parameters rest =>
    refine hp.children.bind fun body hbody => ?_
    refine (Yields.addMixins ?_).bind fun _ _ => hp.noElse.bind fun _ _ => .result ?_
    · intro m hm
      cases List.mem_singleton.mp hm
      exact hbody
    · rwa [tagNamesOf_singleton]
  | block name mode =>
    refine hp.children.bind fun children hchildren => hp.noElse.bind fun _ _ => .result ?_
    rwa [tagNamesOf_singleton]

/-- The tags in some lines have names of a kind. -/
def LinesNamed (Q : String → Prop) (lines : List (List Token)) : Prop :=
  ∀ ts ∈ lines, AllNamed Q (tokenTagNames ts)

set_option linter.unusedSectionVars false in
mutual

/-- **The nodes of an entry have names of a kind if its lines do.** -/
theorem yields_readEntry : ∀ e : Entry, LinesNamed Q e.statements →
    Yields Q tagNamesOf (readEntry s e)
  | .mk line next tokens children alternative, h => by
    obtain ⟨htokens, hinside⟩ := List.forall_mem_cons.mp h
    obtain ⟨hchildren, halternative⟩ := List.forall_mem_append.mp hinside
    rw [readEntry.eq_def]
    cases tokens with
    | nil => exact (Yields.refuseElse s alternative).bind fun _ _ => .result allNamed_zero
    | cons t rest =>
      dsimp only
      split
      · exact .fail s _ _
      · exact .fail s _ _
      next head hread =>
      refine yields_headNodes hload (.of_read hread htokens) line ?_
      exact {
        noChildren := .refuseChildren s children
        children := yields_readEntries children hchildren
        alternatives := yields_readAlternatives none allNamed_zero children hchildren
        branches := yields_readBranches alternative halternative
        fallback := yields_readFallback alternative halternative
        noElse := .refuseElse s alternative }

theorem yields_readEntries : ∀ es : List Entry, LinesNamed Q (entryStatements es) →
    Yields Q tagNamesOf (readEntries s es)
  | [], _ => by
    rw [readEntries]
    exact .result allNamed_zero
  | e :: rest, h => by
    obtain ⟨hfirst, hrest⟩ := List.forall_mem_append.mp h
    rw [readEntries]
    refine (yields_readEntry e hfirst).bind fun ns hns => ?_
    refine (yields_readEntries rest hrest).bind fun more hmore => .result ?_
    rw [tagNamesOf_join, allNamed_add]
    exact ⟨hns, hmore⟩

theorem yields_readAlternatives (default : Option (List Node))
    (hdefault : AllNamed Q (optionTagNames default)) : ∀ es : List Entry,
    LinesNamed Q (entryStatements es) → Yields Q alternativeNames (readAlternatives s default es)
  | [], _ => by
    rw [readAlternatives]
    refine .result ?_
    rwa [alternativeNames, whenTagNames, zero_add]
  | .mk line next tokens children alternative :: rest, h => by
    obtain ⟨hfirst, hrest⟩ := List.forall_mem_append.mp h
    obtain ⟨-, hinside⟩ := List.forall_mem_cons.mp hfirst
    obtain ⟨hchildren, -⟩ := List.forall_mem_append.mp hinside
    rw [readAlternatives.eq_def]
    dsimp only
    split
    · refine (Yields.refuseElseInCase s alternative).bind fun _ _ => ?_
      exact yields_readAlternatives default hdefault rest hrest
    · refine (Yields.check s line _).bind fun e _ => (Yields.check s line _).bind fun _ _ => ?_
      refine (yields_readEntries children hchildren).bind fun body hbody => ?_
      refine (Yields.refuseElseInCase s alternative).bind fun _ _ => ?_
      refine (yields_readAlternatives default hdefault rest hrest).bind fun r hr => .result ?_
      simp only [alternativeNames, whenTagNames, allNamed_add] at hr ⊢
      exact ⟨⟨hbody, hr.1⟩, hr.2⟩
    · next more =>
      have hbehind : Yields Q alternativeNames (do
          s.check line (endOfLine more)
          let body ← readEntries s children
          refuseElseInCase s alternative
          readAlternatives s (some body) rest) := by
        refine (Yields.check s line _).bind fun _ _ => ?_
        refine (yields_readEntries children hchildren).bind fun body hbody => ?_
        refine (Yields.refuseElseInCase s alternative).bind fun _ _ => ?_
        exact yields_readAlternatives (some body) hbody rest hrest
      split
      · exact ⟨fun h _ => by cases h⟩
      · exact hbehind
    · exact .fail s _ _

theorem yields_readBranches : ∀ alternative : Option Entry,
    LinesNamed Q (alternativeStatements alternative) →
    Yields Q branchNames (readBranches s alternative)
  | none, _ => by
    rw [readBranches]
    refine .result ?_
    simp [branchNames, branchTagNames, optionTagNames]
  | some (.mk line next tokens children alternative), h => by
    obtain ⟨-, hinside⟩ := List.forall_mem_cons.mp h
    obtain ⟨hchildren, halternative⟩ := List.forall_mem_append.mp hinside
    rw [readBranches.eq_def]
    dsimp only
    split
    · refine (Yields.check s line _).bind fun e _ => (Yields.check s line _).bind fun _ _ => ?_
      refine (yields_readEntries children hchildren).bind fun body hbody => ?_
      refine (yields_readBranches alternative halternative).bind fun r hr => .result ?_
      simp only [branchNames, branchTagNames, allNamed_add] at hr ⊢
      exact ⟨⟨hbody, hr.1⟩, hr.2⟩
    · refine (Yields.check s line _).bind fun _ _ => ?_
      refine (yields_readEntries children hchildren).bind fun body hbody => ?_
      refine (Yields.refuseElse s alternative).bind fun _ _ => .result ?_
      rwa [branchNames, branchTagNames, zero_add]
    · exact .fail s _ _

theorem yields_readFallback : ∀ alternative : Option Entry,
    LinesNamed Q (alternativeStatements alternative) →
    Yields Q optionTagNames (readFallback s alternative)
  | none, _ => by
    rw [readFallback]
    exact .result allNamed_zero
  | some (.mk line next tokens children alternative), h => by
    obtain ⟨-, hinside⟩ := List.forall_mem_cons.mp h
    obtain ⟨hchildren, -⟩ := List.forall_mem_append.mp hinside
    rw [readFallback.eq_def]
    dsimp only
    split
    · refine (Yields.check s line _).bind fun _ _ => ?_
      refine (yields_readEntries children hchildren).bind fun body hbody => ?_
      exact (Yields.refuseElse s alternative).bind fun _ _ => .result hbody
    · exact .fail s _ _

end

/-- A document has the names that its lines have, those of what it includes and those of what it
extends. -/
theorem named_of_readDocument {layout : Layout} (hlines : ∀ l ∈ layout.lines,
      AllNamed Q (tokenTagNames l.tokens)) {d : Document} {asked asked' : List String}
    (h : readDocument s layout asked = .ok d asked') : d.Named Q := by
  -- Whatever entries of the template are read, they stand on its lines.
  have hentries {es : List Entry} (hsub : ∀ ts ∈ entryStatements es, ∃ l ∈ layout.lines, l.tokens = ts) :
      LinesNamed Q (entryStatements es) := by
    intro ts hts
    obtain ⟨l, hl, rfl⟩ := hsub ts hts
    exact hlines l hl
  have hcollected {b : Building (List Node)} (hb : Yields Q tagNamesOf b) {own : Document}
      {start last : List String} (hown : collecting b start = .ok own last) : own.Named Q := by
    obtain ⟨p, hread, hmixins⟩ := of_collecting_eq_ok hown
    obtain ⟨hnodes, hp⟩ := hb.yields hread nofun
    exact ⟨hnodes, hmixins ▸ hp⟩
  rcases of_readDocument_eq_ok h with
    ⟨line, next, base, rest, children, alternative, entries, hforest, hread⟩ | ⟨-, hread⟩
  · rw [readDerived] at hread
    obtain ⟨own, between, hown, hread⟩ := of_bind_eq_result hread
    obtain ⟨parent, asked₂, hparent, hread⟩ := of_bind_eq_result hread
    cases hread
    have hown := hcollected ((Yields.check s line _).bind fun _ _ =>
      (Yields.refuseChildren s children).bind fun _ _ =>
      (Yields.refuseElse s alternative).bind fun _ _ =>
      yields_readEntries hload entries (hentries fun ts hts => exists_line_of_forest
        (by rw [hforest]; exact List.subset_cons_self _ _) hts)) hown
    have hparent : parent.Named Q := by
      split at hparent
      · cases hparent
      · exact hload hparent
    exact ⟨hparent.nodes.overrideAll hown.nodes, hparent.mixins.insertAll hown.mixins⟩
  · refine hcollected (yields_readEntries hload _ (hentries fun ts hts => ?_)) hread
    obtain ⟨e, he, hts⟩ := mem_entryStatements.mp hts
    obtain ⟨a, ha, rfl⟩ := List.mem_map.mp he
    exact statements_arrange ha hts

end

/-! ### Compiled templates -/

/-- What is loaded has such names, and so do the templates that it names. -/
theorem Library.named_of_load {l : Library} {unused under : List String} {name : String}
    {asked asked' : List String} {d : Document} (h : l.load unused under name asked = .ok d asked') :
    d.Named IsTagWord := by
  induction hn : unused.length using Nat.strongRecOn
    generalizing unused under name asked asked' d with
  | ind n ih =>
  obtain ⟨-, hmem, hresolve⟩ := of_load_eq_result h
  obtain ⟨source, layout, -, hscan, hread⟩ := resolve_eq_ok_iff.mp hresolve
  have hshorter : (unused.erase name).length < n := hn ▸ length_erase_lt hmem
  refine named_of_readDocument (fun hload => ih _ hshorter hload rfl) (fun l hl name hname => ?_) hread
  exact isTagWord_of_scan hscan hl (mem_tokenTagNames.mp hname)

theorem Library.named_of_document {l : Library} {name : String} {d : Document}
    (h : (l.document name).1 = .ok d) : d.Named IsTagWord := by
  obtain ⟨source, layout, asked, -, hscan, hread⟩ := document_eq_ok_iff.mp h
  refine named_of_readDocument (fun hload => named_of_load hload) (fun l hl name hname => ?_) hread
  exact isTagWord_of_scan hscan hl (mem_tokenTagNames.mp hname)

/-- **Every tag of a compiled template is called by such a name**, wherever in its nodes or mixins
it stands, and whatever templates it comes from. -/
theorem Template.isTagWord_of_compile {loader : Loader} {options : Options} {name version : String}
    {log : Log} {t : Template} (h : (Template.compile loader options name version log).1 = .ok t)
    {tag : String} {attributes : List Attribute} {selfClosing : Bool} {children : List Node}
    (htag : t.document.Holds (.tag tag attributes selfClosing children)) : IsTagWord tag := by
  have hnamed := Library.named_of_document (Template.of_compile h).2.2.2.2
  rcases htag with htag | ⟨m, hm, htag⟩
  · exact hnamed.nodes tag (mem_tagNamesOf_iff_stands.mpr ⟨_, _, _, htag⟩)
  · refine hnamed.mixins m hm tag (mem_tagNamesOf_iff_stands.mpr ⟨attributes, selfClosing, children, ?_⟩)
    -- What stands in a mixin and is none stands in its body.
    rcases stands_cons_iff.mp htag with heq | ⟨body, hbody, hinside⟩ | hnone
    · cases heq
    · cases List.mem_singleton.mp hbody
      exact hinside
    · exact absurd hnone (not_stands_nil _)

end Trellis
