import Trellis.Proofs.Coinciding
import Trellis.Proofs.Splicing

/-!
# `Trellis.Proofs.Inclusion`: reading entries in place of an include statement

* `bare_of_readEntries`: where reading succeeds, an include statement has neither children nor an
  `else` line.
* `readEntries_coincide`: entries in which an include statement is replaced (`PastedEntries`) are read
  as those with it, if what stands in its place is read as what is included. This is an induction
  over the outline with one case for each function of the reader.
* `includeNodes_coincide_readEntries`: the entries of the included template, read in place of the
  include statement, are read so.
-/

set_option autoImplicit false

namespace Trellis

open Source

/-! ### What reading has seen -/

/-- The reading succeeds somewhere. -/
def Succeeds {α : Type} (a : Building α) : Prop := ∃ p x q, a p = .ok x q

theorem Succeeds.of_bind {α β : Type} {a : Building α} {k : α → Building β} (h : Succeeds (a >>= k)) :
    Succeeds a ∧ ∃ x, Succeeds (k x) := by
  obtain ⟨p, y, q, h⟩ := h
  obtain ⟨x, between, hx, hy⟩ := of_bind_eq_result h
  exact ⟨⟨p, x, between, hx⟩, x, between, y, q, hy⟩

section
variable {s : Surroundings}

theorem not_succeeds_fail {α : Type} (line : Nat) (fault : ParseFault) :
    ¬Succeeds (s.fail line fault : Building α) := by
  rintro ⟨p, x, q, h⟩
  cases h

theorem eq_nil_of_refuseChildren {children : List Entry} (h : Succeeds (refuseChildren s children)) :
    children = [] := by
  cases children with
  | nil => rfl
  | cons e rest => exact (not_succeeds_fail _ _ h).elim

theorem eq_none_of_refuseElse {alternative : Option Entry} (h : Succeeds (refuseElse s alternative)) :
    alternative = none := by
  cases alternative with
  | none => rfl
  | some e => exact (not_succeeds_fail _ _ h).elim

/-- An `else` line is not silent, so it is refused among alternatives, too. -/
theorem eq_none_of_refuseElseInCase {alternative : Option Entry}
    (helse : ∀ e ∈ alternative, e.isElse = true) (h : Succeeds (refuseElseInCase s alternative)) :
    alternative = none := by
  cases alternative with
  | none => rfl
  | some e =>
    have he := helse e rfl
    unfold refuseElseInCase at h
    unfold Entry.isElse at he
    dsimp only at h
    cases ht : e.tokens with
    | nil =>
      rw [ht] at he
      cases he
    | cons t rest =>
      rw [ht] at h
      exact (not_succeeds_fail _ _ h).elim

/-- A statement goes through what is inside it, and through the `else` line behind it. -/
theorem Head.succeeds_nodes {line : Nat} {p : Parts} {h : Head} (hh : Succeeds (h.nodes s line p)) :
    (Succeeds p.noChildren ∨ Succeeds p.children ∨ Succeeds p.alternatives) ∧
      (Succeeds p.noElse ∨ Succeeds p.branches ∨ Succeeds p.fallback) := by
  induction h with
  | leaf n =>
    obtain ⟨hinside, _, hh⟩ := hh.of_bind
    exact ⟨.inl hinside, .inl hh.of_bind.1⟩
  | including target =>
    obtain ⟨hinside, _, hh⟩ := hh.of_bind
    obtain ⟨-, _, hh⟩ := hh.of_bind
    exact ⟨.inl hinside, .inl hh.of_bind.1⟩
  | tagAround name attributes inner ih => exact ih hh.of_bind.1
  | callAround name arguments inner ih => exact ih hh.of_bind.1
  | cond test negated =>
    obtain ⟨hinside, _, hh⟩ := hh.of_bind
    exact ⟨.inr (.inl hinside), .inr (.inl hh.of_bind.1)⟩
  | each item key collection =>
    obtain ⟨hinside, _, hh⟩ := hh.of_bind
    exact ⟨.inr (.inl hinside), .inr (.inr hh.of_bind.1)⟩
  | caseOf subject =>
    obtain ⟨hinside, _, hh⟩ := hh.of_bind
    exact ⟨.inr (.inr hinside), .inl hh.of_bind.1⟩
  | mixin name parameters rest =>
    obtain ⟨hinside, _, hh⟩ := hh.of_bind
    obtain ⟨-, _, hh⟩ := hh.of_bind
    exact ⟨.inr (.inl hinside), .inl hh.of_bind.1⟩
  | _ =>
    obtain ⟨hinside, _, hh⟩ := hh.of_bind
    exact ⟨.inr (.inl hinside), .inl hh.of_bind.1⟩

/-- What a target names can be included. -/
def Surroundings.CanInclude (s : Surroundings) (target : String) : Prop :=
  ∃ line, Succeeds (s.includeNodes line target)

mutual

/-- **An include statement that was read** has neither children nor an `else` line, and what it names
was included. -/
theorem bare_of_readEntry : ∀ e : Entry, e.Sound → Succeeds (readEntry s e) → e.Bare s.CanInclude
  | .mk line next tokens children alternative, .mk silent inside otherwise behind, h => by
    rw [readEntry.eq_def] at h
    cases tokens with
    | nil =>
      have hchildren := silent rfl
      have hnone := eq_none_of_refuseElse h.of_bind.1
      subst hchildren hnone
      exact .mk nofun nofun nofun
    | cons t rest =>
      dsimp only at h
      split at h
      · exact (not_succeeds_fail _ _ h).elim
      · exact (not_succeeds_fail _ _ h).elim
      next head hread =>
      have hparts := Head.succeeds_nodes h
      refine .mk ?_ ?_ ?_
      · intro target htokens
        rw [htokens] at hread
        cases hread
        obtain ⟨hnoChildren, _, h⟩ := h.of_bind
        obtain ⟨hincludes, _, h⟩ := h.of_bind
        exact ⟨eq_nil_of_refuseChildren hnoChildren, eq_none_of_refuseElse h.of_bind.1, line, hincludes⟩
      · rcases hparts.1 with hinside | hinside | hinside
        · rw [eq_nil_of_refuseChildren hinside]
          nofun
        · exact bare_of_readEntries children inside hinside
        · exact bare_of_readAlternatives none children inside hinside
      · rcases hparts.2 with hbehind | hbehind | hbehind
        · rw [eq_none_of_refuseElse hbehind]
          nofun
        · exact bare_of_readBranches alternative behind hbehind
        · exact bare_of_readFallback alternative behind hbehind

theorem bare_of_readEntries : ∀ es : List Entry, (∀ e ∈ es, e.Sound) → Succeeds (readEntries s es) →
    ∀ e ∈ es, e.Bare s.CanInclude
  | [], _, _ => nofun
  | e :: rest, hsound, h => by
    rw [readEntries] at h
    obtain ⟨hfirst, _, h⟩ := h.of_bind
    obtain ⟨hsoundFirst, hsoundRest⟩ := List.forall_mem_cons.mp hsound
    exact List.forall_mem_cons.mpr
      ⟨bare_of_readEntry e hsoundFirst hfirst, bare_of_readEntries rest hsoundRest h.of_bind.1⟩

theorem bare_of_readAlternatives (default : Option (List Node)) : ∀ es : List Entry,
    (∀ e ∈ es, e.Sound) → Succeeds (readAlternatives s default es) → ∀ e ∈ es, e.Bare s.CanInclude
  | [], _, _ => nofun
  | .mk line next tokens children alternative :: rest, hsound, h => by
    obtain ⟨hsoundFirst, hsoundRest⟩ := List.forall_mem_cons.mp hsound
    cases hsoundFirst with
    | mk silent inside otherwise behind =>
    rw [readAlternatives.eq_def] at h
    dsimp only at h
    split at h
    · obtain ⟨hnone, _, hlater⟩ := h.of_bind
      have hchildren := silent rfl
      have hnone := eq_none_of_refuseElseInCase otherwise hnone
      subst hchildren hnone
      refine List.forall_mem_cons.mpr ⟨.mk nofun nofun nofun, ?_⟩
      exact bare_of_readAlternatives default rest hsoundRest hlater
    · obtain ⟨-, _, h⟩ := h.of_bind
      obtain ⟨-, _, h⟩ := h.of_bind
      obtain ⟨hinside, _, h⟩ := h.of_bind
      obtain ⟨hnone, _, hlater⟩ := h.of_bind
      have hnone := eq_none_of_refuseElseInCase otherwise hnone
      subst hnone
      refine List.forall_mem_cons.mpr ⟨.mk nofun (bare_of_readEntries children inside hinside) nofun, ?_⟩
      exact bare_of_readAlternatives default rest hsoundRest hlater.of_bind.1
    · cases default with
      | some nodes => exact (not_succeeds_fail _ _ h.of_bind.1).elim
      | none =>
        obtain ⟨-, _, h⟩ := h.of_bind
        obtain ⟨hinside, body, h⟩ := h.of_bind
        obtain ⟨hnone, _, hlater⟩ := h.of_bind
        have hnone := eq_none_of_refuseElseInCase otherwise hnone
        subst hnone
        refine List.forall_mem_cons.mpr ⟨.mk nofun (bare_of_readEntries children inside hinside) nofun, ?_⟩
        exact bare_of_readAlternatives (some body) rest hsoundRest hlater
    · exact (not_succeeds_fail _ _ h).elim

theorem bare_of_readBranches : ∀ alternative : Option Entry, (∀ e ∈ alternative, e.Sound) →
    Succeeds (readBranches s alternative) → ∀ e ∈ alternative, e.Bare s.CanInclude
  | none, _, _ => nofun
  | some (.mk line next tokens children alternative), hsound, h => by
    intro e he
    cases he
    cases hsound _ rfl with
    | mk silent inside otherwise behind =>
    rw [readBranches.eq_def] at h
    dsimp only at h
    split at h
    · obtain ⟨-, _, h⟩ := h.of_bind
      obtain ⟨-, _, h⟩ := h.of_bind
      obtain ⟨hinside, _, h⟩ := h.of_bind
      exact .mk nofun (bare_of_readEntries children inside hinside)
        (bare_of_readBranches alternative behind h.of_bind.1)
    · obtain ⟨-, _, h⟩ := h.of_bind
      obtain ⟨hinside, _, h⟩ := h.of_bind
      have hnone := eq_none_of_refuseElse h.of_bind.1
      subst hnone
      exact .mk nofun (bare_of_readEntries children inside hinside) nofun
    · exact (not_succeeds_fail _ _ h).elim

theorem bare_of_readFallback : ∀ alternative : Option Entry, (∀ e ∈ alternative, e.Sound) →
    Succeeds (readFallback s alternative) → ∀ e ∈ alternative, e.Bare s.CanInclude
  | none, _, _ => nofun
  | some (.mk line next tokens children alternative), hsound, h => by
    intro e he
    cases he
    cases hsound _ rfl with
    | mk silent inside otherwise behind =>
    rw [readFallback.eq_def] at h
    dsimp only at h
    split at h
    · obtain ⟨-, _, h⟩ := h.of_bind
      obtain ⟨hinside, _, h⟩ := h.of_bind
      have hnone := eq_none_of_refuseElse h.of_bind.1
      subst hnone
      exact .mk nofun (bare_of_readEntries children inside hinside) nofun
    · exact (not_succeeds_fail _ _ h).elim

end

end

/-! ### Nodes side by side -/

theorem join_cons (n : Node) (ns rest : List Node) :
    Node.join (Node.cons n ns) rest = Node.cons n (Node.join ns rest) := by
  cases n with
  | text first =>
    cases ns with
    | nil => rfl
    | cons m ns =>
      cases m with
      | text second =>
        show Node.cons (.text (first ++ .literal "\n" :: second)) (Node.join ns rest) =
          Node.cons (.text first) (Node.cons (.text second) (Node.join ns rest))
        cases Node.join ns rest with
        | nil => rfl
        | cons third rest => cases third <;> simp [Node.cons]
      | _ => rfl
  | _ => rfl

theorem join_assoc (ns more rest : List Node) :
    Node.join (Node.join ns more) rest = Node.join ns (Node.join more rest) := by
  induction ns with
  | nil => rfl
  | cons n ns ih =>
    show Node.join (Node.cons n (Node.join ns more)) rest = Node.cons n (Node.join ns (Node.join more rest))
    rw [join_cons, ih]

/-- What entries in front of others are read as. -/
theorem of_readEntries_append {s : Surroundings} {es more : List Entry} {ns : List Node} {p q : Progress}
    (h : readEntries s (es ++ more) p = .ok ns q) :
    ∃ first between later, readEntries s es p = .ok first between ∧
      readEntries s more between = .ok later q ∧ ns = Node.join first later := by
  induction es generalizing p ns with
  | nil => exact ⟨[], p, ns, rfl, h, rfl⟩
  | cons e es ih =>
    rw [List.cons_append, readEntries] at h
    obtain ⟨ns₁, p₁, he, h⟩ := of_bind_eq_result h
    obtain ⟨ns₂, p₂, hes, h⟩ := of_bind_eq_result h
    cases h
    obtain ⟨first, between, later, hfirst, hlater, rfl⟩ := ih hes
    refine ⟨Node.join ns₁ first, between, later, ?_, hlater, (join_assoc ns₁ first later).symm⟩
    rw [readEntries]
    exact bind_eq_result he (bind_eq_result hfirst rfl)

/-- An include statement that was read is what it includes. -/
theorem of_readEntry_include {s : Surroundings} {line next : Nat} {target : String} {ns : List Node}
    {p q : Progress} (h : readEntry s (.mk line next [.including target] [] none) p = .ok ns q) :
    s.includeNodes line target p = .ok ns q := by
  rw [readEntry.eq_def] at h
  obtain ⟨_, _, hchildren, h⟩ := of_bind_eq_result h
  cases hchildren
  obtain ⟨nodes, between, hnodes, h⟩ := of_bind_eq_result h
  obtain ⟨_, _, helse, h⟩ := of_bind_eq_result h
  cases helse
  cases h
  exact hnodes

/-! ### Entries in which an include statement is replaced -/

theorem refuseElseInCase_coincide {under : Table Mixin} {target : String} {paste : List Entry → Prop}
    {s s' : Surroundings} {alternative alternative' : Option Entry}
    (h : PastedElse target paste alternative alternative') :
    Coincide under (refuseElseInCase s alternative) (refuseElseInCase s' alternative') := by
  cases h with
  | none => exact .result ()
  | some pasted =>
    cases pasted with
    | @mk _ _ _ _ tokens =>
    cases tokens with
    | nil => exact .result ()
    | cons t rest => exact fail_coincide _ _ _

section
variable {under : Table Mixin} {target : String} {paste : List Entry → Prop} {s s' : Surroundings}
  (hs : s.Coincide s')
  (hpaste : ∀ line pasted, paste pasted →
    Coincide under (s.includeNodes line target) (readEntries s' pasted))
include hs hpaste

set_option linter.unusedSectionVars false in
mutual

/-- **Reading does not tell the entries from those they are pasted from**, one statement for each
function of the reader. -/
theorem readEntry_coincide : ∀ e e' : Entry, e.Pasted target paste e' →
    Coincide under (readEntry s e) (readEntry s' e')
  | .mk line next tokens children alternative, .mk line' _ _ children' alternative', h => by
    cases h with
    | mk inside behind =>
    have hp : Parts.Related (fun a a' => Coincide under a a')
        { noChildren := refuseChildren s children
          children := readEntries s children
          alternatives := readAlternatives s none children
          branches := readBranches s alternative
          fallback := readFallback s alternative
          noElse := refuseElse s alternative }
        { noChildren := refuseChildren s' children'
          children := readEntries s' children'
          alternatives := readAlternatives s' none children'
          branches := readBranches s' alternative'
          fallback := readFallback s' alternative'
          noElse := refuseElse s' alternative' } :=
      { noChildren := refuseChildren_coincide children children'
        children := readEntries_coincide children children' inside
        alternatives := readAlternatives_coincide none children children' inside
        branches := readBranches_coincide alternative alternative' behind
        fallback := readFallback_coincide alternative alternative' behind
        noElse := refuseElse_coincide alternative alternative' }
    rw [readEntry.eq_def, readEntry.eq_def]
    dsimp only
    split
    · exact (refuseElse_coincide alternative alternative').bind fun _ => .result _
    · split
      · exact fail_coincide _ _ _
      · exact fail_coincide _ _ _
      · next head hhead =>
        have htargets := (Head.readsLocally_read tokens).targets head hhead
        exact headNodes_related (respects_coincide under)
          (fun target _ => includeNodes_coincide hs line line' target) hp (htargets.mono fun _ _ => trivial)
termination_by structural e => e

theorem readEntries_coincide : ∀ es es' : List Entry, PastedEntries target paste es es' →
    Coincide under (readEntries s es) (readEntries s' es')
  | [], es', h => by
    cases h
    exact .result _
  | e :: rest, es', h => by
    cases h with
    | @cons _ e' _ rest' first later =>
      rw [readEntries, readEntries]
      exact (readEntry_coincide e e' first).bind fun _ =>
        (readEntries_coincide rest rest' later).bind fun _ => .result _
    | @paste line next pasted _ rest' pastes later =>
      have hfirst := hpaste line pasted pastes
      have hrest := readEntries_coincide rest rest' later
      refine ⟨fun p p' ns ns' q q' hover h h' => ?_⟩
      rw [readEntries] at h
      obtain ⟨ns₁, p₁, hinclude, h⟩ := of_bind_eq_result h
      obtain ⟨ns₂, p₂, hbehind, h⟩ := of_bind_eq_result h
      cases h
      obtain ⟨ns₁', p₁', ns₂', hpasted, hbehind', rfl⟩ := of_readEntries_append h'
      obtain ⟨rfl, hover⟩ := hfirst.coincide _ _ _ _ _ _ hover (of_readEntry_include hinclude) hpasted
      obtain ⟨rfl, hover⟩ := hrest.coincide _ _ _ _ _ _ hover hbehind hbehind'
      exact ⟨rfl, hover⟩
termination_by structural e => e

theorem readAlternatives_coincide (default : Option (List Node)) : ∀ es es' : List Entry,
    PastedEntries target paste es es' →
      Coincide under (readAlternatives s default es) (readAlternatives s' default es')
  | [], es', h => by
    cases h
    exact .result _
  | .mk line next tokens children alternative :: rest, es', h => by
    cases h with
    | paste =>
      -- An include statement is no alternative.
      rw [readAlternatives.eq_def]
      exact fail_coincide _ _ _
    | @cons _ e' _ rest' first later =>
    cases first with
    | @mk _ _ line' _ _ _ children' _ alternative' inside behind =>
    rw [readAlternatives.eq_def, readAlternatives.eq_def]
    dsimp only
    split
    · exact (refuseElseInCase_coincide behind).bind fun _ =>
        readAlternatives_coincide default rest rest' later
    · exact (check_coincide line line' _).bind fun _ => (check_coincide line line' _).bind fun _ =>
        (readEntries_coincide children children' inside).bind fun _ =>
        (refuseElseInCase_coincide behind).bind fun _ =>
        (readAlternatives_coincide default rest rest' later).bind fun _ => .result _
    · cases default with
      | none =>
        exact (check_coincide line line' _).bind fun _ =>
          (readEntries_coincide children children' inside).bind fun body =>
          (refuseElseInCase_coincide behind).bind fun _ =>
          readAlternatives_coincide (some body) rest rest' later
      | some nodes =>
        refine .of_error fun p x q h => ?_
        obtain ⟨_, _, h, -⟩ := of_bind_eq_result h
        cases h
    · exact fail_coincide _ _ _
termination_by structural e => e

theorem readBranches_coincide : ∀ alternative alternative' : Option Entry,
    PastedElse target paste alternative alternative' →
      Coincide under (readBranches s alternative) (readBranches s' alternative')
  | none, _, h => by
    cases h
    exact .result _
  | some (.mk line next tokens children alternative), _, h => by
    cases h with
    | some pasted =>
    cases pasted with
    | @mk _ _ line' _ _ _ children' _ alternative' inside behind =>
    rw [readBranches.eq_def, readBranches.eq_def]
    dsimp only
    split
    · exact (check_coincide line line' _).bind fun _ => (check_coincide line line' _).bind fun _ =>
        (readEntries_coincide children children' inside).bind fun _ =>
        (readBranches_coincide alternative alternative' behind).bind fun _ => .result _
    · exact (check_coincide line line' _).bind fun _ =>
        (readEntries_coincide children children' inside).bind fun _ =>
        (refuseElse_coincide alternative alternative').bind fun _ => .result _
    · exact fail_coincide _ _ _
termination_by structural e => e

theorem readFallback_coincide : ∀ alternative alternative' : Option Entry,
    PastedElse target paste alternative alternative' →
      Coincide under (readFallback s alternative) (readFallback s' alternative')
  | none, _, h => by
    cases h
    exact .result _
  | some (.mk line next tokens children alternative), _, h => by
    cases h with
    | some pasted =>
    cases pasted with
    | @mk _ _ line' _ _ _ children' _ alternative' inside behind =>
    rw [readFallback.eq_def, readFallback.eq_def]
    dsimp only
    split
    · exact (check_coincide line line' _).bind fun _ =>
        (readEntries_coincide children children' inside).bind fun _ =>
        (refuseElse_coincide alternative alternative').bind fun _ => .result _
    · exact fail_coincide _ _ _
termination_by structural e => e

end

end

/-- What including a template gives. -/
theorem of_includeNodes_eq_ok {s : Surroundings} {line : Nat} {target : String} {ns : List Node}
    {p q : Progress} (h : s.includeNodes line target p = .ok ns q)
    (hraw : Reference.isRaw (Reference.resolve s.template target) = false) :
    ∃ d, s.load (Reference.resolve s.template target) p.asked = .ok d q.asked ∧ ns = d.nodes ∧
      q.mixins = Table.insertAll d.mixins p.mixins := by
  unfold Surroundings.includeNodes at h
  rw [hraw, if_neg Bool.false_ne_true] at h
  obtain ⟨d, between, hd, h⟩ := of_bind_eq_result h
  cases h
  obtain ⟨hd, hmixins⟩ := of_orMissing_eq_ok hd
  refine ⟨d, hd, rfl, ?_⟩
  show Table.insertAll d.mixins between.mixins = _
  rw [hmixins]

/-- The entries of a template, read in place of a statement that includes it. -/
theorem includeNodes_coincide_readEntries {under : Table Mixin} {s s' t : Surroundings}
    (ht : t.Coincide s') {line : Nat} {target : String} {entries pasted : List Entry}
    (hraw : Reference.isRaw (Reference.resolve s.template target) = false)
    (hload : ∀ asked d asked', s.load (Reference.resolve s.template target) asked = .ok d asked' →
      ∃ start, collecting (readEntries t entries) start = .ok d asked')
    (hpasted : SameEntries entries pasted) :
    Coincide under (s.includeNodes line target) (readEntries s' pasted) where
  coincide p p' x x' q q' hover hx hx' := by
    obtain ⟨d, hd, rfl, hmixins⟩ := of_includeNodes_eq_ok hx hraw
    obtain ⟨start, hstart⟩ := hload _ _ _ hd
    obtain ⟨r, hread, hcollected⟩ := of_collecting_eq_ok hstart
    -- What the template collects by itself goes over all mixins that were met before.
    have hcopy : Coincide p'.mixins (readEntries t entries) (readEntries s' pasted) :=
      readEntries_coincide ht (fun _ _ h => h.elim) entries pasted hpasted
    obtain ⟨hnodes, hover'⟩ := hcopy.coincide _ _ _ _ _ _ (.empty hover.ordered') hread hx'
    rw [hmixins, ← hcollected]
    exact ⟨hnodes, hover.trans_insertAll hover'⟩

/-! ### Statements that cannot stand alone -/

/-- A line that names a template to extend. -/
def Entry.Extends (e : Entry) : Prop := ∃ base rest, e.tokens = .extending base :: rest

section
variable {s : Surroundings}

theorem succeeds_of_mem {es : List Entry} (h : Succeeds (readEntries s es)) :
    ∀ e ∈ es, Succeeds (readEntry s e) := by
  induction es with
  | nil => nofun
  | cons e es ih =>
    rw [readEntries] at h
    obtain ⟨hfirst, _, h⟩ := h.of_bind
    exact List.forall_mem_cons.mpr ⟨hfirst, ih h.of_bind.1⟩

/-- The tokens of an entry that was read make a statement. -/
theorem exists_head_of_succeeds {e : Entry} (h : Succeeds (readEntry s e)) :
    e.tokens = [] ∨ ∃ head, Head.read e.tokens = .ok head := by
  obtain ⟨line, next, tokens, children, alternative⟩ := e
  rw [readEntry.eq_def] at h
  cases tokens with
  | nil => exact .inl rfl
  | cons t rest =>
    dsimp only at h
    split at h
    · exact (not_succeeds_fail _ _ h).elim
    · exact (not_succeeds_fail _ _ h).elim
    · next head hread => exact .inr ⟨head, hread⟩

theorem not_extends_of_succeeds {e : Entry} (h : Succeeds (readEntry s e)) : ¬e.Extends := by
  rintro ⟨base, rest, htokens⟩
  rcases exists_head_of_succeeds h with hnil | ⟨head, hread⟩
  · rw [htokens] at hnil
    cases hnil
  · rw [htokens] at hread
    cases hread

theorem isElse_of_succeeds {e : Entry} (h : Succeeds (readEntry s e)) : e.isElse = false := by
  rcases exists_head_of_succeeds h with hnil | ⟨head, hread⟩
  · rw [Entry.isElse, hnil]
  · unfold Entry.isElse
    split
    · next htokens =>
      rw [htokens] at hread
      cases hread
    · next htokens =>
      rw [htokens] at hread
      cases hread
    · rfl

/-! ### Whole templates -/

theorem eq_of_isVacant {e : Entry} (h : e.isVacant = true) :
    ∃ line next, e = .mk line next [] [] none := by
  unfold Entry.isVacant at h
  split at h
  · exact ⟨_, _, rfl⟩
  · cases h

/-- Entries that say nothing are read as nothing. -/
theorem readEntries_dropWhile (es : List Entry) :
    readEntries s (es.dropWhile Entry.isVacant) = readEntries s es := by
  induction es with
  | nil => rfl
  | cons e es ih =>
    cases he : e.isVacant with
    | false => rw [List.dropWhile_cons_of_neg (by simp [he])]
    | true =>
      obtain ⟨line, next, rfl⟩ := eq_of_isVacant he
      rw [List.dropWhile_cons_of_pos he, ih, readEntries, readEntry]
      funext p
      show readEntries s es p = EStateM.bind (readEntries s es) (fun ns => pure (Node.join [] ns)) p
      unfold EStateM.bind
      cases readEntries s es p <;> rfl

theorem mem_of_dropWhile {p : Entry → Bool} {es behind : List Entry} {e : Entry}
    (h : es.dropWhile p = e :: behind) : e ∈ es := by
  refine (List.dropWhile_sublist p).subset ?_
  rw [h]
  exact List.mem_cons_self

/-- How a template was read: with a first statement that extends another one, or without any. -/
theorem of_readDocument_eq_ok {layout : Layout} {d : Document} {asked asked' : List String}
    (h : readDocument s layout asked = .ok d asked') :
    (∃ line next base rest children alternative entries,
      (Entry.forest layout).dropWhile Entry.isVacant =
        .mk line next (.extending base :: rest) children alternative :: entries ∧
      readDerived s line base rest children alternative entries asked = .ok d asked') ∨
    (∀ e ∈ Entry.forest layout, ¬e.Extends) ∧
      collecting (readEntries s (Entry.forest layout)) asked = .ok d asked' := by
  have hplain {start last : List String}
      (hread : collecting (readEntries s (Entry.forest layout)) start = .ok d last) :
      ∀ e ∈ Entry.forest layout, ¬e.Extends := by
    obtain ⟨q, hread, -⟩ := of_collecting_eq_ok hread
    exact fun e he => not_extends_of_succeeds (succeeds_of_mem ⟨_, _, _, hread⟩ e he)
  unfold readDocument at h
  cases hlines : layout.lines.head? with
  | none =>
    rw [hlines] at h
    have hforest : Entry.forest layout = [] := by
      rw [Entry.forest, List.head?_eq_none_iff.mp hlines]
      rfl
    rw [hforest]
    exact .inr ⟨List.forall_mem_nil _, h⟩
  | some first =>
    rw [hlines] at h
    dsimp only at h
    split at h
    · cases h
    have hdrop := readEntries_dropWhile (s := s) (Entry.forest layout)
    generalize (Entry.forest layout).dropWhile Entry.isVacant = opening at h hdrop ⊢
    split at h
    · exact .inl ⟨_, _, _, _, _, _, _, rfl, h⟩
    · rw [hdrop] at h
      exact .inr ⟨hplain h, h⟩

/-- A template that extends nothing was read entry by entry. -/
theorem collecting_of_readDocument {layout : Layout} {d : Document} {asked asked' : List String}
    (hplain : ∀ e ∈ Entry.forest layout, ¬e.Extends) (h : readDocument s layout asked = .ok d asked') :
    collecting (readEntries s (Entry.forest layout)) asked = .ok d asked' := by
  rcases of_readDocument_eq_ok h with ⟨_, _, base, rest, _, _, _, hdrop, -⟩ | ⟨-, h⟩
  · exact (hplain _ (mem_of_dropWhile hdrop) ⟨base, rest, rfl⟩).elim
  · exact h

/-- A template that was read does not begin with an indented line. -/
theorem depth_of_readDocument {layout : Layout} {d : Document} {asked asked' : List String}
    (h : readDocument s layout asked = .ok d asked') : ∀ first ∈ layout.lines.head?, first.depth = 0 := by
  intro first hfirst
  unfold readDocument at h
  rw [hfirst] at h
  dsimp only at h
  split at h
  · cases h
  · omega

/-- Every entry of a template that was read was read, or it has nothing inside it and behind it. Such
are the ones that say nothing, and the one that names a template to extend. -/
theorem succeeds_of_readDocument {layout : Layout} {d : Document} {asked asked' : List String}
    (h : readDocument s layout asked = .ok d asked') :
    ∀ e ∈ Entry.forest layout,
      (∃ line next tokens, e = .mk line next tokens [] none ∧ ∀ target, tokens ≠ [.including target]) ∨
        Succeeds (readEntry s e) := by
  intro e he
  rcases of_readDocument_eq_ok h with
    ⟨line, next, base, rest, children, alternative, entries, hdrop, h⟩ | ⟨-, h⟩
  · rw [readDerived_eq] at h
    obtain ⟨own, between, hown, -⟩ := of_bind_eq_result h
    obtain ⟨q, hown, -⟩ := of_collecting_eq_ok hown
    have hown : Succeeds (do
        s.check line (endOfLine rest)
        refuseChildren s children
        refuseElse s alternative
        readEntries s entries) := ⟨_, _, _, hown⟩
    obtain ⟨-, _, hown⟩ := hown.of_bind
    obtain ⟨hchildren, _, hown⟩ := hown.of_bind
    obtain ⟨hnone, _, hown⟩ := hown.of_bind
    -- In front of the statement that extends there is nothing, and behind it all was read.
    rw [← List.takeWhile_append_dropWhile (p := Entry.isVacant) (l := Entry.forest layout), hdrop] at he
    rcases List.mem_append.mp he with he | he
    · obtain ⟨line, next, rfl⟩ := eq_of_isVacant (List.mem_takeWhile_imp he)
      exact .inl ⟨_, _, _, rfl, nofun⟩
    · rcases List.mem_cons.mp he with rfl | he
      · rw [eq_nil_of_refuseChildren hchildren, eq_none_of_refuseElse hnone]
        exact .inl ⟨_, _, _, rfl, nofun⟩
      · exact .inr (succeeds_of_mem hown e he)
  · obtain ⟨q, hread, -⟩ := of_collecting_eq_ok h
    exact .inr (succeeds_of_mem ⟨_, _, _, hread⟩ e he)

/-- All include statements of a template that was read are bare. -/
theorem bare_of_readDocument {layout : Layout} (hsound : ∀ e ∈ Entry.forest layout, e.Sound)
    {d : Document} {asked asked' : List String} (h : readDocument s layout asked = .ok d asked') :
    ∀ e ∈ Entry.forest layout, e.Bare s.CanInclude := by
  intro e he
  rcases succeeds_of_readDocument h e he with ⟨_, _, tokens, rfl, hnot⟩ | hread
  · exact .mk (fun target htokens => (hnot target htokens).elim) nofun nofun
  · exact bare_of_readEntry e (hsound e he) hread

end

/-- Every pasted entry has the tokens of another one, or stands in place of an include statement. -/
theorem PastedEntries.of_mem {target : String} {paste : List Entry → Prop} {es : List Entry} :
    ∀ {es' : List Entry}, PastedEntries target paste es es' → ∀ e' ∈ es',
      (∃ e ∈ es, e'.tokens = e.tokens) ∨ ∃ pasted, paste pasted ∧ e' ∈ pasted := by
  induction es with
  | nil =>
    intro es' h
    cases h
    nofun
  | cons e es ih =>
    intro es' h e' he'
    have hlater {es' : List Entry} (h : PastedEntries target paste es es') (he' : e' ∈ es') :
        (∃ a ∈ e :: es, e'.tokens = a.tokens) ∨ ∃ pasted, paste pasted ∧ e' ∈ pasted :=
      (ih h e' he').imp_left fun ⟨a, ha, htokens⟩ => ⟨a, List.mem_cons_of_mem _ ha, htokens⟩
    cases h with
    | cons first later =>
      rcases List.mem_cons.mp he' with rfl | he'
      · cases first
        exact .inl ⟨_, List.mem_cons_self, rfl⟩
      · exact hlater later he'
    | paste pastes later =>
      rcases List.mem_append.mp he' with he' | he'
      · exact .inr ⟨_, pastes, he'⟩
      · exact hlater later he'

/-- A template that extends another one still does when something is pasted into it. -/
theorem PastedEntries.dropWhile_isVacant {target : String} {paste : List Entry → Prop} {es : List Entry}
    {line next : Nat} {base : String} {rest : List Token} {children : List Entry}
    {alternative : Option Entry} {entries : List Entry}
    (hes : es.dropWhile Entry.isVacant =
      .mk line next (.extending base :: rest) children alternative :: entries) :
    ∀ {es' : List Entry}, PastedEntries target paste es es' →
      ∃ line' next' children' alternative' entries',
        es'.dropWhile Entry.isVacant =
          .mk line' next' (.extending base :: rest) children' alternative' :: entries' ∧
        PastedEntries target paste entries entries' := by
  induction es with
  | nil => cases hes
  | cons e es ih =>
    intro es' h
    cases h with
    | paste => cases hes
    | @cons _ e' _ es' first later =>
      cases he : e.isVacant with
      | true =>
        rw [List.dropWhile_cons_of_pos he] at hes
        obtain ⟨_, _, rfl⟩ := eq_of_isVacant he
        cases first with
        | mk inside behind =>
          cases inside
          cases behind
          rw [List.dropWhile_cons_of_pos rfl]
          exact ih hes later
      | false =>
        rw [List.dropWhile_cons_of_neg (by simp [he])] at hes
        cases hes
        cases first with
        | mk inside behind => exact ⟨_, _, _, _, _, rfl, later⟩

section
variable {target : String} {paste : List Entry → Prop} {s s' : Surroundings}
  (hs : s.Coincide s')
  (hpaste : ∀ line pasted, paste pasted →
    Coincide [] (s.includeNodes line target) (readEntries s' pasted))
include hs hpaste

/-- A template that extends another one, with something pasted into it. -/
theorem readDerived_coincide (line line' : Nat) (base : String) (rest : List Token)
    (children children' : List Entry) (alternative alternative' : Option Entry)
    {entries entries' : List Entry} (h : PastedEntries target paste entries entries') :
    AskCoincide (readDerived s line base rest children alternative entries)
      (readDerived s' line' base rest children' alternative' entries') := by
  rw [readDerived_eq, readDerived_eq, hs.resolve]
  have hA := respectsAsking_coincide
  refine hA.bind (collecting_coincide ?_) fun own => hA.bind ?_ fun base => hA.pure _
  · exact (check_coincide line line' _).bind fun _ =>
      (refuseChildren_coincide children children').bind fun _ =>
      (refuseElse_coincide alternative alternative').bind fun _ =>
      readEntries_coincide hs hpaste entries entries' h
  · exact ⟨fun p p' x x' q q' hx hx' =>
      (hs.load _).coincide _ _ _ _ _ _ (of_blaming_eq_result hx) (of_blaming_eq_result hx')⟩

/-- **A template into which entries are pasted** is read as the template that includes them. -/
theorem readDocument_coincide_of_pasted {layout layout' : Layout}
    (hplain : ∀ pasted, paste pasted → ∀ e ∈ pasted, ¬e.Extends)
    (h : PastedEntries target paste (Entry.forest layout) (Entry.forest layout')) :
    AskCoincide (readDocument s layout) (readDocument s' layout') where
  coincide p p' d d' q q' hd hd' := by
    rcases of_readDocument_eq_ok hd with
      ⟨line, next, base, rest, children, alternative, entries, hdrop, hd⟩ | ⟨hforest, hd⟩
    · obtain ⟨line', next', children', alternative', entries', hdrop', hentries⟩ :=
        PastedEntries.dropWhile_isVacant hdrop h
      rcases of_readDocument_eq_ok hd' with ⟨_, _, _, _, _, _, _, hdrop'', hd'⟩ | ⟨hforest', -⟩
      · cases hdrop'.symm.trans hdrop''
        exact (readDerived_coincide hs hpaste line line' base rest children children' alternative
          alternative' hentries).coincide _ _ _ _ _ _ hd hd'
      · exact (hforest' _ (mem_of_dropWhile hdrop') ⟨base, rest, rfl⟩).elim
    · rcases of_readDocument_eq_ok hd' with
        ⟨line', next', base, rest, children', alternative', entries', hdrop', -⟩ | ⟨-, hd'⟩
      · rcases h.of_mem _ (mem_of_dropWhile hdrop') with ⟨e, he, htokens⟩ | ⟨pasted, hpasted, hmem⟩
        · exact (hforest e he ⟨base, rest, htokens.symm⟩).elim
        · exact (hplain pasted hpasted _ hmem ⟨base, rest, rfl⟩).elim
      · exact (collecting_coincide (readEntries_coincide hs hpaste _ _ h)).coincide _ _ _ _ _ _ hd hd'

end

end Trellis
