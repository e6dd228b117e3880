import Trellis.Proofs.Chain
import Trellis.Proofs.Inclusion
import Trellis.Proofs.Places

/-!
# `Trellis.Proofs.Leaves`: statements that become nodes by themselves

Many statements are read as one node that holds no others: an assignment, an output, a comment, a
filter. Such a statement may stand anywhere in a template, in the branches of a conditional, among the
alternatives of a case, in the body of a mixin. When the template is read, its node stands in the nodes
(`stands_of_readOwn`). Text is left out, since it may be joined to the text beside it.

`stands_of_readEntry` is the induction over the outline, with one case for each function of the reader.
What a line does with the parts that belong to it is the same for all lines (`stands_headNodes`): the
node stands in what was read of a part, and all parts go into the nodes of the line.
-/

set_option autoImplicit false

namespace Trellis

open Source

/-! ### Joined nodes -/

section
variable {n : Node} (hn : ∀ spans, n ≠ .text spans)
include hn

theorem stands_cons (first : Node) {ns : List Node} :
    Stands n (Node.cons first ns) ↔ Stands n (first :: ns) := by
  unfold Node.cons
  split
  · next spans second rest =>
    -- Neither of the two texts is the node, nor the text that they become.
    simp only [stands_cons_iff, Node.childLists, List.not_mem_nil, false_and, exists_false, false_or,
      hn]
  · rfl

/-- Joining texts moves no other node. -/
theorem stands_join (ns more : List Node) :
    Stands n (Node.join ns more) ↔ Stands n ns ∨ Stands n more := by
  induction ns with
  | nil =>
    have hnil : ¬Stands n [] := not_stands_nil n
    simp only [Node.join, List.foldr_nil, hnil, false_or]
  | cons first ns ih =>
    have hjoin : Node.join (first :: ns) more = Node.cons first (Node.join ns more) := rfl
    rw [hjoin, stands_cons hn, stands_cons_iff, stands_cons_iff, ih, or_assoc, or_assoc]

end

/-! ### The parts of a line -/

/-- What belongs to a line holds a node, if the statement of that node is inside the line or behind
it. -/
structure Parts.Puts (p : Parts) (n : Node) (inside behind : Prop) : Prop where
  noChildren : Succeeds p.noChildren → ¬inside
  children {q r : Progress} {ns : List Node} : p.children q = .ok ns r → inside → Stands n ns
  alternatives {q r : Progress} {x : List When × Option (List Node)} :
    p.alternatives q = .ok x r → inside → ∃ body ∈ x.1.map (·.body) ++ x.2.toList, Stands n body
  branches {q r : Progress} {x : List Branch × Option (List Node)} :
    p.branches q = .ok x r → behind → ∃ body ∈ x.1.map (·.body) ++ x.2.toList, Stands n body
  fallback {q r : Progress} {x : Option (List Node)} :
    p.fallback q = .ok x r → behind → ∃ body ∈ x.toList, Stands n body
  noElse : Succeeds p.noElse → ¬behind

/-- A node that holds one list. -/
theorem stands_singleton {n outer : Node} {children : List Node}
    (hchildren : children ∈ outer.childLists) (h : Stands n children) : Stands n [outer] :=
  .inside List.mem_cons_self hchildren h

/-- A call keeps a body in which something stands. -/
theorem mem_childLists_call {n : Node} {name : String} {arguments : List Expression} {body : List Node}
    (h : Stands n body) :
    body ∈ (Node.call name arguments (if body.isEmpty then none else some body)).childLists := by
  cases body with
  | nil => exact absurd h (not_stands_nil n)
  | cons first rest => exact List.mem_cons_self

/-- **All that belongs to a line goes into its nodes.** -/
theorem stands_headNodes {s : Surroundings} {line : Nat} {p : Parts} {n : Node} {inside behind : Prop}
    (hn : ∀ spans, n ≠ .text spans) (hp : p.Puts n inside behind) (hstatement : inside ∨ behind)
    {h : Head} {q r : Progress} {ns : List Node} (hread : h.nodes s line p q = .ok ns r) :
    Stands n ns := by
  induction h generalizing q r ns with
  | leaf m =>
    obtain ⟨_, _, hchildren, hread⟩ := of_bind_eq_result hread
    obtain ⟨_, _, helse, hread⟩ := of_bind_eq_result hread
    exact (hstatement.elim (hp.noChildren ⟨_, _, _, hchildren⟩) (hp.noElse ⟨_, _, _, helse⟩)).elim
  | including target =>
    obtain ⟨_, _, hchildren, hread⟩ := of_bind_eq_result hread
    obtain ⟨_, _, -, hread⟩ := of_bind_eq_result hread
    obtain ⟨_, _, helse, hread⟩ := of_bind_eq_result hread
    exact (hstatement.elim (hp.noChildren ⟨_, _, _, hchildren⟩) (hp.noElse ⟨_, _, _, helse⟩)).elim
  | tag name attributes content =>
    obtain ⟨children, _, hchildren, hread⟩ := of_bind_eq_result hread
    obtain ⟨_, _, helse, hread⟩ := of_bind_eq_result hread
    cases hread
    have hinside := hp.children hchildren (hstatement.resolve_right (hp.noElse ⟨_, _, _, helse⟩))
    exact stands_singleton List.mem_cons_self ((stands_join hn content children).mpr (.inr hinside))
  | call name arguments =>
    obtain ⟨body, _, hbody, hread⟩ := of_bind_eq_result hread
    obtain ⟨_, _, helse, hread⟩ := of_bind_eq_result hread
    cases hread
    have hinside := hp.children hbody (hstatement.resolve_right (hp.noElse ⟨_, _, _, helse⟩))
    exact stands_singleton (mem_childLists_call hinside) hinside
  | tagAround name attributes inner ih =>
    obtain ⟨children, _, hchildren, hread⟩ := of_bind_eq_result hread
    cases hread
    exact stands_singleton List.mem_cons_self (ih hchildren)
  | callAround name arguments inner ih =>
    obtain ⟨body, _, hbody, hread⟩ := of_bind_eq_result hread
    cases hread
    exact stands_singleton (mem_childLists_call (ih hbody)) (ih hbody)
  | cond test negated =>
    obtain ⟨body, _, hbody, hread⟩ := of_bind_eq_result hread
    obtain ⟨⟨branches, otherwise⟩, _, hbranches, hread⟩ := of_bind_eq_result hread
    cases hread
    rcases hstatement with hinside | hbehind
    · exact stands_singleton List.mem_cons_self (hp.children hbody hinside)
    · obtain ⟨branch, hbranch, hstands⟩ := hp.branches hbranches hbehind
      exact stands_singleton (List.mem_cons_of_mem _ hbranch) hstands
  | each item key collection =>
    obtain ⟨body, _, hbody, hread⟩ := of_bind_eq_result hread
    obtain ⟨fallback, _, hfallback, hread⟩ := of_bind_eq_result hread
    cases hread
    rcases hstatement with hinside | hbehind
    · exact stands_singleton List.mem_cons_self (hp.children hbody hinside)
    · obtain ⟨other, hother, hstands⟩ := hp.fallback hfallback hbehind
      exact stands_singleton (List.mem_cons_of_mem _ hother) hstands
  | caseOf subject =>
    obtain ⟨⟨whens, default⟩, _, halternatives, hread⟩ := of_bind_eq_result hread
    obtain ⟨_, _, helse, hread⟩ := of_bind_eq_result hread
    cases hread
    obtain ⟨body, hbody, hstands⟩ :=
      hp.alternatives halternatives (hstatement.resolve_right (hp.noElse ⟨_, _, _, helse⟩))
    exact stands_singleton hbody hstands
  | mixin name parameters rest =>
    obtain ⟨body, _, hbody, hread⟩ := of_bind_eq_result hread
    obtain ⟨_, _, -, hread⟩ := of_bind_eq_result hread
    obtain ⟨_, _, helse, hread⟩ := of_bind_eq_result hread
    cases hread
    have hinside := hp.children hbody (hstatement.resolve_right (hp.noElse ⟨_, _, _, helse⟩))
    exact stands_singleton List.mem_cons_self hinside
  | block name mode =>
    obtain ⟨children, _, hchildren, hread⟩ := of_bind_eq_result hread
    obtain ⟨_, _, helse, hread⟩ := of_bind_eq_result hread
    cases hread
    have hinside := hp.children hchildren (hstatement.resolve_right (hp.noElse ⟨_, _, _, helse⟩))
    exact stands_singleton List.mem_cons_self hinside

/-! ### Entries -/

/-- A default that was met stays the default. -/
theorem default_of_readAlternatives {s : Surroundings} {default : List Node} {es : List Entry}
    {p q : Progress} {x : List When × Option (List Node)}
    (h : readAlternatives s (some default) es p = .ok x q) : x.2 = some default := by
  induction es generalizing p q x with
  | nil =>
    cases h
    rfl
  | cons e rest ih =>
    obtain ⟨line, next, tokens, children, alternative⟩ := e
    rw [readAlternatives.eq_def] at h
    dsimp only at h
    split at h
    · obtain ⟨_, _, -, h⟩ := of_bind_eq_result h
      exact ih h
    · obtain ⟨_, _, -, h⟩ := of_bind_eq_result h
      obtain ⟨_, _, -, h⟩ := of_bind_eq_result h
      obtain ⟨_, _, -, h⟩ := of_bind_eq_result h
      obtain ⟨_, _, -, h⟩ := of_bind_eq_result h
      obtain ⟨_, _, hlater, h⟩ := of_bind_eq_result h
      cases h
      have hkept := ih hlater
      exact hkept
    · obtain ⟨_, _, hsecond, -⟩ := of_bind_eq_result h
      cases hsecond
    · cases h

section
variable {s : Surroundings} {n : Node} (hn : ∀ spans, n ≠ .text spans) {ts : List Token}
  (hleaf : Head.read ts = .ok (.leaf n))
include hn hleaf

set_option linter.unusedSectionVars false in
mutual

/-- **A statement that is a leaf, inside an entry or behind it, stands in the nodes of the entry.** -/
theorem stands_of_readEntry : ∀ e : Entry, e.Sound → ts ∈ e.statements →
    ∀ {p q : Progress} {ns : List Node}, readEntry s e p = .ok ns q → Stands n ns
  | .mk line next tokens children alternative, .mk silent inside otherwise behind, hts, p, q, ns, h => by
    rw [readEntry.eq_def] at h
    rcases List.mem_cons.mp hts with rfl | hts
    · -- The line itself.
      cases ts with
      | nil => cases hleaf
      | cons t rest =>
        dsimp only at h
        rw [hleaf] at h
        obtain ⟨_, _, -, h⟩ := of_bind_eq_result h
        obtain ⟨_, _, -, h⟩ := of_bind_eq_result h
        cases h
        exact .here List.mem_cons_self
    · -- A statement that belongs to the line.
      have hstatement := List.mem_append.mp hts
      cases tokens with
      | nil =>
        obtain ⟨_, _, helse, -⟩ := of_bind_eq_result h
        rw [silent rfl, eq_none_of_refuseElse ⟨_, _, _, helse⟩] at hstatement
        rcases hstatement with hts | hts <;> cases hts
      | cons t rest =>
        dsimp only at h
        cases hread : Head.read (t :: rest) with
        | error fault =>
          rw [hread] at h
          cases fault <;> cases h
        | ok head =>
        rw [hread] at h
        refine stands_headNodes hn ⟨?_, ?_, ?_, ?_, ?_, ?_⟩ hstatement h
        · intro hnone hinside
          rw [eq_nil_of_refuseChildren hnone] at hinside
          cases hinside
        · exact fun hread hinside => stands_of_readEntries children inside hinside hread
        · exact fun hread hinside => stands_of_readAlternatives none children inside hinside hread
        · exact fun hread hbehind => stands_of_readBranches alternative behind hbehind hread
        · exact fun hread hbehind => stands_of_readFallback alternative behind hbehind hread
        · intro hnone hbehind
          rw [eq_none_of_refuseElse hnone] at hbehind
          cases hbehind

theorem stands_of_readEntries : ∀ es : List Entry, (∀ e ∈ es, e.Sound) → ts ∈ entryStatements es →
    ∀ {p q : Progress} {ns : List Node}, readEntries s es p = .ok ns q → Stands n ns
  | [], _, hts, _, _, _, _ => by cases hts
  | e :: rest, hsound, hts, p, q, ns, h => by
    obtain ⟨hfirst, hrest⟩ := List.forall_mem_cons.mp hsound
    rw [readEntries] at h
    obtain ⟨first, _, hread, h⟩ := of_bind_eq_result h
    obtain ⟨later, _, hlater, h⟩ := of_bind_eq_result h
    cases h
    rw [stands_join hn]
    rcases List.mem_append.mp hts with hts | hts
    · exact .inl (stands_of_readEntry e hfirst hts hread)
    · exact .inr (stands_of_readEntries rest hrest hts hlater)

theorem stands_of_readAlternatives (default : Option (List Node)) : ∀ es : List Entry,
    (∀ e ∈ es, e.Sound) → ts ∈ entryStatements es →
    ∀ {p q : Progress} {x : List When × Option (List Node)}, readAlternatives s default es p = .ok x q →
      ∃ body ∈ x.1.map (·.body) ++ x.2.toList, Stands n body
  | [], _, hts, _, _, _, _ => by cases hts
  | .mk line next tokens children alternative :: rest, hsound, hts, p, q, x, h => by
    obtain ⟨hfirst, hrest⟩ := List.forall_mem_cons.mp hsound
    cases hfirst with
    | mk silent inside otherwise behind =>
    have hstatement : ts = tokens ∨ ts ∈ entryStatements children ∨
        ts ∈ alternativeStatements alternative ∨ ts ∈ entryStatements rest := by
      rcases List.mem_append.mp hts with hts | hts
      · exact (List.mem_cons.mp hts).imp id fun hts => (List.mem_append.mp hts).imp id .inl
      · exact .inr (.inr (.inr hts))
    rw [readAlternatives.eq_def] at h
    dsimp only at h
    split at h
    · -- A line without a statement.
      obtain ⟨_, _, helse, h⟩ := of_bind_eq_result h
      rw [silent rfl, eq_none_of_refuseElseInCase otherwise ⟨_, _, _, helse⟩] at hstatement
      rcases hstatement with rfl | hts | hts | hts
      · cases hleaf
      · cases hts
      · cases hts
      · exact stands_of_readAlternatives default rest hrest hts h
    · obtain ⟨_, _, -, h⟩ := of_bind_eq_result h
      obtain ⟨_, _, -, h⟩ := of_bind_eq_result h
      obtain ⟨body, _, hbody, h⟩ := of_bind_eq_result h
      obtain ⟨_, _, helse, h⟩ := of_bind_eq_result h
      obtain ⟨later, _, hlater, h⟩ := of_bind_eq_result h
      cases h
      rw [eq_none_of_refuseElseInCase otherwise ⟨_, _, _, helse⟩] at hstatement
      rcases hstatement with rfl | hts | hts | hts
      · cases hleaf
      · exact ⟨body, List.mem_cons_self, stands_of_readEntries children inside hts hbody⟩
      · cases hts
      · obtain ⟨other, hother, hstands⟩ := stands_of_readAlternatives default rest hrest hts hlater
        exact ⟨other, List.mem_cons_of_mem _ hother, hstands⟩
    · cases default with
      | some nodes =>
        obtain ⟨_, _, hsecond, -⟩ := of_bind_eq_result h
        cases hsecond
      | none =>
        obtain ⟨_, _, -, h⟩ := of_bind_eq_result h
        obtain ⟨body, _, hbody, h⟩ := of_bind_eq_result h
        obtain ⟨_, _, helse, h⟩ := of_bind_eq_result h
        rw [eq_none_of_refuseElseInCase otherwise ⟨_, _, _, helse⟩] at hstatement
        rcases hstatement with rfl | hts | hts | hts
        · cases hleaf
        · -- What is read behind a default does not replace it.
          refine ⟨body, List.mem_append_right _ ?_, stands_of_readEntries children inside hts hbody⟩
          rw [default_of_readAlternatives h]
          exact List.mem_cons_self
        · cases hts
        · exact stands_of_readAlternatives (some body) rest hrest hts h
    · cases h

theorem stands_of_readBranches : ∀ alternative : Option Entry, (∀ e ∈ alternative, e.Sound) →
    ts ∈ alternativeStatements alternative →
    ∀ {p q : Progress} {x : List Branch × Option (List Node)}, readBranches s alternative p = .ok x q →
      ∃ body ∈ x.1.map (·.body) ++ x.2.toList, Stands n body
  | none, _, hts, _, _, _, _ => by cases hts
  | some (.mk line next tokens children alternative), hsound, hts, p, q, x, h => by
    cases hsound _ rfl with
    | mk silent inside otherwise behind =>
    have hstatement := (List.mem_cons.mp hts).imp id List.mem_append.mp
    rw [readBranches.eq_def] at h
    dsimp only at h
    split at h
    · obtain ⟨_, _, -, h⟩ := of_bind_eq_result h
      obtain ⟨_, _, -, h⟩ := of_bind_eq_result h
      obtain ⟨body, _, hbody, h⟩ := of_bind_eq_result h
      obtain ⟨later, _, hlater, h⟩ := of_bind_eq_result h
      cases h
      rcases hstatement with rfl | hts | hts
      · cases hleaf
      · exact ⟨body, List.mem_cons_self, stands_of_readEntries children inside hts hbody⟩
      · obtain ⟨other, hother, hstands⟩ := stands_of_readBranches alternative behind hts hlater
        exact ⟨other, List.mem_cons_of_mem _ hother, hstands⟩
    · obtain ⟨_, _, -, h⟩ := of_bind_eq_result h
      obtain ⟨body, _, hbody, h⟩ := of_bind_eq_result h
      obtain ⟨_, _, helse, h⟩ := of_bind_eq_result h
      cases h
      rw [eq_none_of_refuseElse ⟨_, _, _, helse⟩] at hstatement
      rcases hstatement with rfl | hts | hts
      · cases hleaf
      · exact ⟨body, List.mem_cons_self, stands_of_readEntries children inside hts hbody⟩
      · cases hts
    · cases h

theorem stands_of_readFallback : ∀ alternative : Option Entry, (∀ e ∈ alternative, e.Sound) →
    ts ∈ alternativeStatements alternative →
    ∀ {p q : Progress} {x : Option (List Node)}, readFallback s alternative p = .ok x q →
      ∃ body ∈ x.toList, Stands n body
  | none, _, hts, _, _, _, _ => by cases hts
  | some (.mk line next tokens children alternative), hsound, hts, p, q, x, h => by
    cases hsound _ rfl with
    | mk silent inside otherwise behind =>
    have hstatement := (List.mem_cons.mp hts).imp id List.mem_append.mp
    rw [readFallback.eq_def] at h
    dsimp only at h
    split at h
    · obtain ⟨_, _, -, h⟩ := of_bind_eq_result h
      obtain ⟨body, _, hbody, h⟩ := of_bind_eq_result h
      obtain ⟨_, _, helse, h⟩ := of_bind_eq_result h
      cases h
      rw [eq_none_of_refuseElse ⟨_, _, _, helse⟩] at hstatement
      rcases hstatement with rfl | hts | hts
      · cases hleaf
      · exact ⟨body, List.mem_cons_self, stands_of_readEntries children inside hts hbody⟩
      · cases hts
    · cases h

end

end

/-! ### Templates -/

/-- Every line of a template is the line of an entry. -/
theorem exists_entry_of_line (finish : Nat) {lines : List Line} {l : Line} (hl : l ∈ lines) :
    ∃ a ∈ Entry.arrange finish lines, l.tokens ∈ a.2.statements := by
  induction lines with
  | nil => cases hl
  | cons first rest ih =>
    obtain ⟨next, alternative, siblings, heq, -, hsplit⟩ := arrange_cons finish first rest
    rw [heq]
    rcases List.mem_cons.mp hl with rfl | hl
    · exact ⟨_, List.mem_cons_self, List.mem_cons_self⟩
    obtain ⟨a, ha, hts⟩ := ih hl
    rw [← List.takeWhile_append_dropWhile (p := fun e : Nat × Entry => decide (first.depth < e.1))
      (l := Entry.arrange finish rest), hsplit] at ha
    rcases List.mem_append.mp ha with ha | ha
    · refine ⟨_, List.mem_cons_self, List.mem_cons_of_mem _ (List.mem_append_left _ ?_)⟩
      exact mem_entryStatements.mpr ⟨a.2, List.mem_map_of_mem ha, hts⟩
    · rcases List.mem_append.mp ha with ha | ha
      · -- The `else` line behind the first one.
        obtain ⟨e, he, rfl⟩ := List.mem_map.mp ha
        refine ⟨_, List.mem_cons_self, List.mem_cons_of_mem _ (List.mem_append_right _ ?_)⟩
        rw [Option.mem_toList.mp he]
        exact hts
      · exact ⟨a, List.mem_cons_of_mem _ ha, hts⟩

/-- A line that says something is not passed over where the entries of a template begin. -/
theorem mem_entryStatements_of_line {layout : Layout} {l : Line} (hl : l ∈ layout.lines)
    (hne : l.tokens ≠ []) :
    l.tokens ∈ entryStatements ((Entry.forest layout).dropWhile Entry.isVacant) := by
  -- The entries at the front that are passed over have no statement but an empty one.
  obtain ⟨a, ha, hts⟩ := exists_entry_of_line layout.finish.line hl
  have hforest : a.2 ∈ Entry.forest layout := List.mem_map_of_mem ha
  rw [← List.takeWhile_append_dropWhile (p := Entry.isVacant) (l := Entry.forest layout)] at hforest
  refine mem_entryStatements.mpr ⟨a.2, (List.mem_append.mp hforest).resolve_left fun hvacant => ?_, hts⟩
  obtain ⟨line, next, heq⟩ := eq_of_isVacant (List.mem_takeWhile_imp hvacant)
  rw [heq] at hts
  exact hne (List.mem_singleton.mp hts)

/-- **A leaf among the statements of a template stands in what the template says itself.** -/
theorem stands_of_readOwn {source : String} {layout : Layout} (hscan : Layout.scan source = .ok layout)
    {l : Line} (hl : l ∈ layout.lines) {n : Node} (hn : ∀ spans, n ≠ .text spans)
    (hleaf : Head.read l.tokens = .ok (.leaf n)) {s : Surroundings} {own : Document}
    {asked asked' : List String} (h : readOwn s layout asked = .ok own asked') : Stands n own.nodes := by
  have hne : l.tokens ≠ [] := by
    intro hnil
    rw [hnil] at hleaf
    cases hleaf
  have hstatement := mem_entryStatements_of_line hl hne
  have hsub : ∀ e ∈ (Entry.forest layout).dropWhile Entry.isVacant, e.Sound :=
    fun e he => sound_of_mem_forest hscan e ((List.dropWhile_sublist _).subset he)
  have hplain {es : List Entry} (hes : ∀ e ∈ es, e.Sound) (hts : l.tokens ∈ entryStatements es)
      (hown : collecting (readEntries s es) asked = .ok own asked') : Stands n own.nodes := by
    obtain ⟨q, hread, -⟩ := of_collecting_eq_ok hown
    exact stands_of_readEntries hn hleaf es hes hts hread
  unfold readOwn at h
  cases hlines : layout.lines with
  | nil =>
    rw [hlines] at hl
    cases hl
  | cons first others =>
    rw [hlines, List.head?_cons] at h
    dsimp only at h
    by_cases hdepth : first.depth > 0
    · rw [if_pos hdepth] at h
      cases h
    rw [if_neg hdepth] at h
    generalize (Entry.forest layout).dropWhile Entry.isVacant = entries at h hstatement hsub
    rcases entries with - | ⟨⟨line, next, tokens, children, alternative⟩, entries⟩
    · cases hstatement
    cases tokens with
    | nil => exact hplain hsub hstatement h
    | cons t rest =>
      cases t with
      | extending base =>
        -- The statement is not this one, and there is nothing inside this one.
        obtain ⟨q, hread, -⟩ := of_collecting_eq_ok h
        obtain ⟨_, _, -, hread⟩ := of_bind_eq_result hread
        obtain ⟨_, _, hchildren, hread⟩ := of_bind_eq_result hread
        obtain ⟨_, _, helse, hread⟩ := of_bind_eq_result hread
        rw [eq_nil_of_refuseChildren ⟨_, _, _, hchildren⟩,
          eq_none_of_refuseElse ⟨_, _, _, helse⟩] at hstatement
        rcases List.mem_cons.mp hstatement with heq | hstatement
        · rw [heq] at hleaf
          cases hleaf
        · exact stands_of_readEntries hn hleaf entries (List.forall_mem_cons.mp hsub).2 hstatement hread
      | _ => exact hplain hsub hstatement h

end Trellis
