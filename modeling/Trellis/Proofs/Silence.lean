import Trellis.Proofs.Inclusion

/-!
# `Trellis.Proofs.Silence`: entries that say nothing

A silent comment is an entry without tokens, children and `else` line. Such entries can stand in front
of others (`PaddedEntries`) and change nothing. Entries with silent ones among them are read as the same
nodes as those without, or neither can be read (`readEntries_matches`). This is an induction over the
outline with one case for each function of the reader, and `readDocument_matches` goes on to whole
templates.

There is one place where a line without tokens is noticed. An `else` line belongs to the line in front
of it, whatever that is, and a line that says nothing can have none. `Entry.Stray` tells that somewhere
in an entry this is so, and then the entry is not read, wherever it stands (`Entry.refused_of_stray`).

Which of both happens is told by the lines: `paddedLevels_arrange` and `exists_stray_of_run` go from a
silent line in front of a line at its depth to the entries.
-/

set_option autoImplicit false

namespace Trellis

open Source

/-! ### Computations that succeed alike -/

/-- What one of two computations gives, the other one gives, too. They may fail in different ways. -/
structure Matches {σ α : Type} (a a' : EStateM Error σ α) : Prop where
  iff (s : σ) (x : α) (t : σ) : a s = .ok x t ↔ a' s = .ok x t

namespace Matches

variable {σ α β : Type}

theorem refl (a : EStateM Error σ α) : Matches a a := ⟨fun _ _ _ => Iff.rfl⟩

/-- Computations that never succeed. -/
theorem of_error {a a' : EStateM Error σ α} (h : ∀ s x t, a s ≠ .ok x t) (h' : ∀ s x t, a' s ≠ .ok x t) :
    Matches a a' :=
  ⟨fun s x t => ⟨fun hx => (h s x t hx).elim, fun hx => (h' s x t hx).elim⟩⟩

theorem bind {a a' : EStateM Error σ α} {k k' : α → EStateM Error σ β} (ha : Matches a a')
    (hk : ∀ x, Matches (k x) (k' x)) : Matches (a >>= k) (a' >>= k') where
  iff s y t := by
    constructor
    · intro h
      obtain ⟨x, between, hx, hy⟩ := of_bind_eq_result h
      exact bind_eq_result ((ha.iff _ _ _).mp hx) (((hk x).iff _ _ _).mp hy)
    · intro h
      obtain ⟨x, between, hx, hy⟩ := of_bind_eq_result h
      exact bind_eq_result ((ha.iff _ _ _).mpr hx) (((hk x).iff _ _ _).mpr hy)

end Matches

/-- The steps of the reader respect the relation. -/
theorem respects_matches : Respects (fun a a' => Matches a a') where
  pure _ := .refl _
  fail _ _ _ _ := .refl _
  addMixins _ := .refl _
  bind := .bind

section
variable {α : Type} {s s' : Surroundings}

theorem fail_matches (line line' : Nat) (fault fault' : ParseFault) :
    Matches (s.fail line fault : Building α) (s'.fail line' fault') :=
  .of_error (fun _ _ _ h => by cases h) fun _ _ _ h => by cases h

theorem check_matches (line line' : Nat) (r : Except ParseFault α) :
    Matches (s.check line r) (s'.check line' r) := by
  cases r with
  | ok x => exact .refl _
  | error fault => exact fail_matches line line' fault fault

theorem orMissing_eq_ok_iff {line : Nat} {fault : ParseFault} {a : Asking α} {p q : Progress} {x : α} :
    s.orMissing line fault a p = .ok x q ↔ a p.asked = .ok x q.asked ∧ q.mixins = p.mixins := by
  refine ⟨of_orMissing_eq_ok, fun ⟨ha, hmixins⟩ => ?_⟩
  rw [orMissing_eq, asking_eq]
  dsimp only
  rw [ha]
  show EStateM.Result.ok x _ = _
  rw [← hmixins]

theorem orMissing_matches (line line' : Nat) (fault fault' : ParseFault) {a a' : Asking α}
    (h : Matches a a') :
    Matches (s.orMissing line fault a) (s'.orMissing line' fault' a') where
  iff p x q := by rw [orMissing_eq_ok_iff, orMissing_eq_ok_iff, h.iff]

/-- Two surroundings of one template in which the same can be had. -/
structure Surroundings.Matches (s s' : Surroundings) : Prop where
  template : s'.template = s.template
  fetch (name : String) (h : Reference.isRaw name = true) : Trellis.Matches (s.fetch name) (s'.fetch name)
  load (name : String) : Trellis.Matches (s.load name) (s'.load name)

theorem includeNodes_matches (h : s.Matches s') (line line' : Nat) (target : String) :
    Matches (s.includeNodes line target) (s'.includeNodes line' target) := by
  unfold Surroundings.includeNodes
  rw [h.template]
  dsimp only
  split
  · next hraw => exact (orMissing_matches line line' _ _ (h.fetch _ hraw)).bind fun _ => .refl _
  · exact (orMissing_matches line line' _ _ (h.load _)).bind fun _ => .refl _

end

theorem collecting_matches {b b' : Building (List Node)} (h : Matches b b') :
    Matches (collecting b) (collecting b') where
  iff asked d asked' := by
    have hgives {b b' : Building (List Node)} (h : ∀ p ns q, b p = .ok ns q → b' p = .ok ns q)
        (hd : collecting b asked = .ok d asked') : collecting b' asked = .ok d asked' := by
      rw [collecting_eq] at hd ⊢
      dsimp only at hd ⊢
      cases hb : b ⟨[], asked⟩ with
      | error e q =>
        rw [hb] at hd
        cases hd
      | ok ns q =>
        rw [hb] at hd
        rwa [h _ _ _ hb]
    exact ⟨hgives fun p ns q => (h.iff p ns q).mp, hgives fun p ns q => (h.iff p ns q).mpr⟩

/-! ### Entries with silent ones among them -/

mutual

/-- An entry and the same one with silent entries somewhere inside it or inside its `else` line. -/
inductive Entry.Padded : Entry → Entry → Prop
  | mk {line next line' next' : Nat} {tokens : List Token} {children children' : List Entry}
    {alternative alternative' : Option Entry} (inside : PaddedEntries children children')
    (behind : PaddedElse alternative alternative') :
    Entry.Padded (.mk line next tokens children alternative)
      (.mk line' next' tokens children' alternative')

/-- Entries side by side. A silent entry stands in front of another one. -/
inductive PaddedEntries : List Entry → List Entry → Prop
  | nil : PaddedEntries [] []
  | cons {e e' : Entry} {es es' : List Entry} (first : e.Padded e') (later : PaddedEntries es es') :
    PaddedEntries (e :: es) (e' :: es')
  | pad {line next : Nat} {e : Entry} {es es' : List Entry} (later : PaddedEntries (e :: es) es') :
    PaddedEntries (e :: es) (.mk line next [] [] none :: es')

/-- An `else` line, if there is one. -/
inductive PaddedElse : Option Entry → Option Entry → Prop
  | none : PaddedElse none none
  | some {e e' : Entry} (padded : e.Padded e') : PaddedElse (some e) (some e')

end

theorem Entry.Padded.tokens_eq {e e' : Entry} (h : e.Padded e') : e'.tokens = e.tokens := by
  cases h
  rfl

theorem Entry.Padded.isElse_eq {e e' : Entry} (h : e.Padded e') : e'.isElse = e.isElse := by
  unfold Entry.isElse
  rw [h.tokens_eq]

section
variable {s s' : Surroundings}

/-- A silent entry is read as nothing. -/
theorem readEntries_silent (line next : Nat) (es : List Entry) :
    readEntries s (.mk line next [] [] none :: es) = readEntries s es := by
  have h := readEntries_dropWhile (s := s) (.mk line next [] [] none :: es)
  rwa [List.dropWhile_cons_of_pos rfl, readEntries_dropWhile, eq_comm] at h

/-- It is no alternative of a case, either. -/
theorem readAlternatives_silent (default : Option (List Node)) (line next : Nat) (es : List Entry) :
    readAlternatives s default (.mk line next [] [] none :: es) = readAlternatives s default es := by
  rw [readAlternatives.eq_def]
  rfl

theorem refuseChildren_matches {children children' : List Entry} (h : PaddedEntries children children') :
    Matches (refuseChildren s children) (refuseChildren s' children') := by
  cases h with
  | nil => exact .refl _
  | cons => exact fail_matches _ _ _ _
  | pad => exact fail_matches _ _ _ _

theorem refuseElse_matches {alternative alternative' : Option Entry}
    (h : PaddedElse alternative alternative') :
    Matches (refuseElse s alternative) (refuseElse s' alternative') := by
  cases h with
  | none => exact .refl _
  | some => exact fail_matches _ _ _ _

theorem refuseElseInCase_matches {alternative alternative' : Option Entry}
    (h : PaddedElse alternative alternative') :
    Matches (refuseElseInCase s alternative) (refuseElseInCase s' alternative') := by
  cases h with
  | none => exact .refl _
  | some padded =>
    unfold refuseElseInCase
    dsimp only
    rw [padded.tokens_eq]
    split
    · exact .refl _
    · exact fail_matches _ _ _ _

variable (hs : s.Matches s')
include hs

set_option linter.unusedSectionVars false in
mutual

/-- **Reading does not tell entries from those with silent ones among them**, one statement for each
function of the reader. -/
theorem readEntry_matches : ∀ e e' : Entry, e.Padded e' → Matches (readEntry s e) (readEntry s' e')
  | .mk line next tokens children alternative, .mk line' _ _ children' alternative', h => by
    cases h with
    | mk inside behind =>
    have hp : Parts.Related (fun a a' => Matches a a')
        { noChildren := refuseChildren s children
          children := readEntries s children
          alternatives := readAlternatives s none children
          branches := readBranches s alternative
          fallback := readFallback s alternative
          noElse := refuseElse s alternative }
        { noChildren := refuseChildren s' children'
          children := readEntries s' children'
          alternatives := readAlternatives s' none children'
          branches := readBranches s' alternative'
          fallback := readFallback s' alternative'
          noElse := refuseElse s' alternative' } :=
      { noChildren := refuseChildren_matches inside
        children := readEntries_matches children children' inside
        alternatives := readAlternatives_matches none children children' inside
        branches := readBranches_matches alternative alternative' behind
        fallback := readFallback_matches alternative alternative' behind
        noElse := refuseElse_matches behind }
    rw [readEntry.eq_def, readEntry.eq_def]
    dsimp only
    split
    · exact (refuseElse_matches behind).bind fun _ => .refl _
    · split
      · exact fail_matches _ _ _ _
      · exact fail_matches _ _ _ _
      · next head hhead =>
        have htargets := (Head.readsLocally_read tokens).targets head hhead
        exact headNodes_related respects_matches
          (fun target _ => includeNodes_matches hs line line' target) hp (htargets.mono fun _ _ => trivial)
termination_by structural _ e' => e'

theorem readEntries_matches : ∀ es es' : List Entry, PaddedEntries es es' →
    Matches (readEntries s es) (readEntries s' es')
  | es, [], h => by
    cases h
    exact .refl _
  | es, e' :: rest', h => by
    -- The longer list is taken apart. A silent entry in it leaves the other list as it is.
    cases h with
    | @cons e _ rest _ first later =>
      rw [readEntries, readEntries]
      exact (readEntry_matches e e' first).bind fun _ =>
        (readEntries_matches rest rest' later).bind fun _ => .refl _
    | @pad line next e rest _ later =>
      rw [readEntries_silent]
      exact readEntries_matches (e :: rest) rest' later
termination_by structural _ es' => es'

theorem readAlternatives_matches (default : Option (List Node)) : ∀ es es' : List Entry,
    PaddedEntries es es' → Matches (readAlternatives s default es) (readAlternatives s' default es')
  | es, [], h => by
    cases h
    exact .refl _
  | es, .mk line' next' tokens children' alternative' :: rest', h => by
    cases h with
    | @pad _ _ e rest _ later =>
      rw [readAlternatives_silent]
      exact readAlternatives_matches default (e :: rest) rest' later
    | @cons _ _ rest _ first later =>
    cases first with
    | @mk line _ _ _ _ children _ alternative _ inside behind =>
    rw [readAlternatives.eq_def, readAlternatives.eq_def]
    dsimp only
    split
    · exact (refuseElseInCase_matches behind).bind fun _ =>
        readAlternatives_matches default rest rest' later
    · exact (check_matches line line' _).bind fun _ => (check_matches line line' _).bind fun _ =>
        (readEntries_matches children children' inside).bind fun _ =>
        (refuseElseInCase_matches behind).bind fun _ =>
        (readAlternatives_matches default rest rest' later).bind fun _ => .refl _
    · -- A second default is an error on both sides, whatever else is wrong with it.
      cases default with
      | none =>
        exact (check_matches line line' _).bind fun _ =>
          (readEntries_matches children children' inside).bind fun body =>
          (refuseElseInCase_matches behind).bind fun _ =>
          readAlternatives_matches (some body) rest rest' later
      | some nodes =>
        refine .of_error (fun p x q h => ?_) fun p x q h => ?_
        · obtain ⟨_, _, h, -⟩ := of_bind_eq_result h
          cases h
        · obtain ⟨_, _, h, -⟩ := of_bind_eq_result h
          cases h
    · exact fail_matches _ _ _ _
termination_by structural _ es' => es'

theorem readBranches_matches : ∀ alternative alternative' : Option Entry,
    PaddedElse alternative alternative' →
      Matches (readBranches s alternative) (readBranches s' alternative')
  | _, none, h => by
    cases h
    exact .refl _
  | _, some (.mk line' next' tokens children' alternative'), h => by
    cases h with
    | some padded =>
    cases padded with
    | @mk line _ _ _ _ children _ alternative _ inside behind =>
    rw [readBranches.eq_def, readBranches.eq_def]
    dsimp only
    split
    · exact (check_matches line line' _).bind fun _ => (check_matches line line' _).bind fun _ =>
        (readEntries_matches children children' inside).bind fun _ =>
        (readBranches_matches alternative alternative' behind).bind fun _ => .refl _
    · exact (check_matches line line' _).bind fun _ =>
        (readEntries_matches children children' inside).bind fun _ =>
        (refuseElse_matches behind).bind fun _ => .refl _
    · exact fail_matches _ _ _ _
termination_by structural _ alternative' => alternative'

theorem readFallback_matches : ∀ alternative alternative' : Option Entry,
    PaddedElse alternative alternative' →
      Matches (readFallback s alternative) (readFallback s' alternative')
  | _, none, h => by
    cases h
    exact .refl _
  | _, some (.mk line' next' tokens children' alternative'), h => by
    cases h with
    | some padded =>
    cases padded with
    | @mk line _ _ _ _ children _ alternative _ inside behind =>
    rw [readFallback.eq_def, readFallback.eq_def]
    dsimp only
    split
    · exact (check_matches line line' _).bind fun _ =>
        (readEntries_matches children children' inside).bind fun _ =>
        (refuseElse_matches behind).bind fun _ => .refl _
    · exact fail_matches _ _ _ _
termination_by structural _ alternative' => alternative'

end

end

/-! ### An `else` line behind a line that says nothing -/

/-- Somewhere in an entry, an `else` line stands behind a line without tokens. -/
inductive Entry.Stray : Entry → Prop
  | here {line next : Nat} {children : List Entry} {e : Entry} (otherwise : e.isElse = true) :
    Entry.Stray (.mk line next [] children (some e))
  | inside {line next : Nat} {tokens : List Token} {children : List Entry} {alternative : Option Entry}
    {e : Entry} (speaks : tokens ≠ []) (mem : e ∈ children) (stray : e.Stray) :
    Entry.Stray (.mk line next tokens children alternative)
  | behind {line next : Nat} {tokens : List Token} {children : List Entry} {e : Entry}
    (otherwise : e.isElse = true) (stray : e.Stray) :
    Entry.Stray (.mk line next tokens children (some e))

/-- An entry is not read, wherever it stands. -/
structure Entry.Refused (s : Surroundings) (e : Entry) : Prop where
  entry : ¬Succeeds (readEntry s e)
  alternatives (default : Option (List Node)) (rest : List Entry) :
    ¬Succeeds (readAlternatives s default (e :: rest))
  branches : ¬Succeeds (readBranches s (some e))
  fallback : ¬Succeeds (readFallback s (some e))

section
variable {s : Surroundings}

/-- Alternatives that were read were read one by one. -/
theorem succeeds_readAlternatives_tail {default : Option (List Node)} {e : Entry} {rest : List Entry}
    (h : Succeeds (readAlternatives s default (e :: rest))) :
    ∃ default', Succeeds (readAlternatives s default' rest) := by
  obtain ⟨line, next, tokens, children, alternative⟩ := e
  rw [readAlternatives.eq_def] at h
  dsimp only at h
  split at h
  · exact ⟨_, h.of_bind.2.choose_spec⟩
  · obtain ⟨-, _, h⟩ := h.of_bind
    obtain ⟨-, _, h⟩ := h.of_bind
    obtain ⟨-, _, h⟩ := h.of_bind
    obtain ⟨-, _, h⟩ := h.of_bind
    exact ⟨_, h.of_bind.1⟩
  · cases default with
    | some nodes => exact (not_succeeds_fail _ _ h.of_bind.1).elim
    | none =>
      obtain ⟨-, _, h⟩ := h.of_bind
      obtain ⟨-, _, h⟩ := h.of_bind
      exact ⟨_, h.of_bind.2.choose_spec⟩
  · exact (not_succeeds_fail _ _ h).elim

/-- Entries of which one is refused are not read, neither as they are nor as alternatives. -/
theorem Entry.Refused.of_mem {e : Entry} (h : e.Refused s) {es : List Entry} (hmem : e ∈ es) :
    ¬Succeeds (readEntries s es) ∧ ∀ default, ¬Succeeds (readAlternatives s default es) := by
  refine ⟨fun hread => h.entry (succeeds_of_mem hread e hmem), ?_⟩
  induction es with
  | nil => cases hmem
  | cons first rest ih =>
    intro default hread
    rcases List.mem_cons.mp hmem with rfl | hmem
    · exact h.alternatives _ _ hread
    · obtain ⟨default', hrest⟩ := succeeds_readAlternatives_tail hread
      exact ih hmem default' hrest

/-- What an entry has gone through when it was read, wherever it stands: its children, and what stands
behind it. -/
structure Entry.Passed (s : Surroundings) (tokens : List Token) (children : List Entry)
    (alternative : Option Entry) : Prop where
  inside : tokens = [] ∨ children = [] ∨ Succeeds (readEntries s children) ∨
    ∃ default, Succeeds (readAlternatives s default children)
  behind : (∀ e ∈ alternative, e.isElse = false) ∨
    tokens ≠ [] ∧ (Succeeds (readBranches s alternative) ∨ Succeeds (readFallback s alternative))

theorem isElse_of_refuseElse {alternative : Option Entry} (h : Succeeds (refuseElse s alternative)) :
    ∀ e ∈ alternative, e.isElse = false := by
  intro e he
  rw [eq_none_of_refuseElse h] at he
  cases he

theorem isElse_of_refuseElseInCase {alternative : Option Entry}
    (h : Succeeds (refuseElseInCase s alternative)) : ∀ e ∈ alternative, e.isElse = false := by
  intro e he
  rw [Option.mem_def.mp he] at h
  refine Bool.eq_false_iff.mpr fun helse => ?_
  cases eq_none_of_refuseElseInCase (fun _ he => Option.some.inj he ▸ helse) h

section
variable {line next : Nat} {tokens : List Token} {children : List Entry} {alternative : Option Entry}

theorem passed_of_readEntry (h : Succeeds (readEntry s (.mk line next tokens children alternative))) :
    Entry.Passed s tokens children alternative := by
  rw [readEntry.eq_def] at h
  dsimp only at h
  split at h
  · exact ⟨.inl rfl, .inl (isElse_of_refuseElse h.of_bind.1)⟩
  · next hspeaks =>
    split at h
    · exact (not_succeeds_fail _ _ h).elim
    · exact (not_succeeds_fail _ _ h).elim
    · obtain ⟨hinside, hbehind⟩ := Head.succeeds_nodes h
      refine ⟨?_, ?_⟩
      · rcases hinside with hinside | hinside | hinside
        · exact .inr (.inl (eq_nil_of_refuseChildren hinside))
        · exact .inr (.inr (.inl hinside))
        · exact .inr (.inr (.inr ⟨none, hinside⟩))
      · rcases hbehind with hbehind | hbehind
        · exact .inl (isElse_of_refuseElse hbehind)
        · exact .inr ⟨hspeaks, hbehind⟩

theorem passed_of_readAlternatives {default : Option (List Node)} {rest : List Entry}
    (h : Succeeds (readAlternatives s default (.mk line next tokens children alternative :: rest))) :
    Entry.Passed s tokens children alternative := by
  rw [readAlternatives.eq_def] at h
  dsimp only at h
  split at h
  · exact ⟨.inl rfl, .inl (isElse_of_refuseElseInCase h.of_bind.1)⟩
  · obtain ⟨-, _, h⟩ := h.of_bind
    obtain ⟨-, _, h⟩ := h.of_bind
    obtain ⟨hinside, _, h⟩ := h.of_bind
    exact ⟨.inr (.inr (.inl hinside)), .inl (isElse_of_refuseElseInCase h.of_bind.1)⟩
  · cases default with
    | some nodes => exact (not_succeeds_fail _ _ h.of_bind.1).elim
    | none =>
      obtain ⟨-, _, h⟩ := h.of_bind
      obtain ⟨hinside, _, h⟩ := h.of_bind
      exact ⟨.inr (.inr (.inl hinside)), .inl (isElse_of_refuseElseInCase h.of_bind.1)⟩
  · exact (not_succeeds_fail _ _ h).elim

theorem passed_of_readBranches
    (h : Succeeds (readBranches s (some (.mk line next tokens children alternative)))) :
    Entry.Passed s tokens children alternative := by
  rw [readBranches.eq_def] at h
  dsimp only at h
  split at h
  · obtain ⟨-, _, h⟩ := h.of_bind
    obtain ⟨-, _, h⟩ := h.of_bind
    obtain ⟨hinside, _, h⟩ := h.of_bind
    exact ⟨.inr (.inr (.inl hinside)), .inr ⟨List.cons_ne_nil _ _, .inl h.of_bind.1⟩⟩
  · obtain ⟨-, _, h⟩ := h.of_bind
    obtain ⟨hinside, _, h⟩ := h.of_bind
    exact ⟨.inr (.inr (.inl hinside)), .inl (isElse_of_refuseElse h.of_bind.1)⟩
  · exact (not_succeeds_fail _ _ h).elim

theorem passed_of_readFallback
    (h : Succeeds (readFallback s (some (.mk line next tokens children alternative)))) :
    Entry.Passed s tokens children alternative := by
  rw [readFallback.eq_def] at h
  dsimp only at h
  split at h
  · obtain ⟨-, _, h⟩ := h.of_bind
    obtain ⟨hinside, _, h⟩ := h.of_bind
    exact ⟨.inr (.inr (.inl hinside)), .inl (isElse_of_refuseElse h.of_bind.1)⟩
  · exact (not_succeeds_fail _ _ h).elim

theorem Entry.Refused.of_not_passed (h : ¬Entry.Passed s tokens children alternative) :
    Entry.Refused s (.mk line next tokens children alternative) where
  entry hread := h (passed_of_readEntry hread)
  alternatives _ _ hread := h (passed_of_readAlternatives hread)
  branches hread := h (passed_of_readBranches hread)
  fallback hread := h (passed_of_readFallback hread)

end

/-- **An entry is not read if an `else` line stands behind a line that says nothing in it.** -/
theorem Entry.refused_of_stray {e : Entry} (h : e.Stray) : e.Refused s := by
  -- The way from the entry to the line that says nothing goes through children and `else` lines, and
  -- whoever reads the entry goes that way.
  induction h with
  | here otherwise =>
    refine .of_not_passed fun hpassed => ?_
    rcases hpassed.behind with hbehind | ⟨hspeaks, -⟩
    · rw [hbehind _ rfl] at otherwise
      cases otherwise
    · exact hspeaks rfl
  | inside speaks mem _ refused =>
    refine .of_not_passed fun hpassed => ?_
    obtain ⟨hentries, halternatives⟩ := refused.of_mem mem
    rcases hpassed.inside with hnil | hnil | hinside | ⟨default, hinside⟩
    · exact speaks hnil
    · rw [hnil] at mem
      cases mem
    · exact hentries hinside
    · exact halternatives default hinside
  | behind otherwise _ refused =>
    refine .of_not_passed fun hpassed => ?_
    rcases hpassed.behind with hbehind | ⟨-, hbehind | hbehind⟩
    · rw [hbehind _ rfl] at otherwise
      cases otherwise
    · exact refused.branches hbehind
    · exact refused.fallback hbehind

end

/-! ### From lines to entries -/

/-- Entries with their depths and the same ones with silent entries among them. A silent entry stands at
the depth of the next one, and that is no `else` line. -/
inductive PaddedLevels : List (Nat × Entry) → List (Nat × Entry) → Prop
  | nil : PaddedLevels [] []
  | cons {d : Nat} {e e' : Entry} {es es' : List (Nat × Entry)} (first : e.Padded e')
    (later : PaddedLevels es es') : PaddedLevels ((d, e) :: es) ((d, e') :: es')
  | pad {d line next : Nat} {e : Entry} {es es' : List (Nat × Entry)} (noElse : e.isElse = false)
    (later : PaddedLevels ((d, e) :: es) es') :
    PaddedLevels ((d, e) :: es) ((d, .mk line next [] [] none) :: es')

namespace PaddedLevels

variable {es es' : List (Nat × Entry)}

theorem entries (h : PaddedLevels es es') : PaddedEntries (es.map (·.2)) (es'.map (·.2)) := by
  induction h with
  | nil => exact .nil
  | cons first _ ih => exact .cons first ih
  | pad _ _ ih => exact .pad ih

/-- What is deeper than some depth, and what begins with the first that is not. -/
theorem takeWhile_dropWhile (h : PaddedLevels es es') (depth : Nat) :
    PaddedLevels (es.takeWhile fun a => depth < a.1) (es'.takeWhile fun a => depth < a.1) ∧
      PaddedLevels (es.dropWhile fun a => depth < a.1) (es'.dropWhile fun a => depth < a.1) := by
  induction h with
  | nil => exact ⟨.nil, .nil⟩
  | @cons d _ _ _ _ first later ih =>
    by_cases hd : depth < d
    · simp only [List.takeWhile_cons, List.dropWhile_cons, hd, decide_true, if_true]
      exact ⟨.cons first ih.1, ih.2⟩
    · simp only [List.takeWhile_cons, List.dropWhile_cons, hd, decide_false, Bool.false_eq_true, if_false]
      exact ⟨.nil, .cons first later⟩
  | @pad d _ _ _ _ _ noElse later ih =>
    by_cases hd : depth < d
    · simp only [List.takeWhile_cons, List.dropWhile_cons, hd, decide_true, if_true] at ih ⊢
      exact ⟨.pad noElse ih.1, ih.2⟩
    · simp only [List.takeWhile_cons, List.dropWhile_cons, hd, decide_false, Bool.false_eq_true, if_false]
      exact ⟨.nil, .pad noElse later⟩

theorem takeElse (h : PaddedLevels es es') (depth : Nat) :
    PaddedElse (Entry.takeElse depth es).1 (Entry.takeElse depth es').1 ∧
      PaddedLevels (Entry.takeElse depth es).2 (Entry.takeElse depth es').2 := by
  cases h with
  | nil => exact ⟨.none, .nil⟩
  | @cons d e e' _ _ first later =>
    rw [Entry.takeElse, Entry.takeElse, first.isElse_eq]
    by_cases helse : d = depth ∧ e.isElse = true
    · rw [if_pos helse, if_pos helse]
      exact ⟨.some first, later⟩
    · rw [if_neg helse, if_neg helse]
      exact ⟨.none, .cons first later⟩
  | @pad d line next e _ _ noElse later =>
    have hnot : ¬(d = depth ∧ e.isElse = true) := fun helse => by simp [helse.2] at noElse
    have hsilent : ¬(d = depth ∧ (Entry.mk line next [] [] none).isElse = true) := fun helse => by
      cases helse.2
    rw [Entry.takeElse, Entry.takeElse, if_neg hnot, if_neg hsilent]
    exact ⟨.none, .pad noElse later⟩

/-- A line keeps the relation, whatever it takes in. -/
theorem enclose (h : PaddedLevels es es') {l l' : Line} (hshape : l'.shape = l.shape) (next next' : Nat) :
    PaddedLevels (Entry.enclose l next es) (Entry.enclose l' next' es') := by
  have hdepth : l'.depth = l.depth := congrArg Prod.fst hshape
  have htokens : l'.tokens = l.tokens := congrArg Prod.snd hshape
  obtain ⟨hinside, hbehind⟩ := h.takeWhile_dropWhile l.depth
  obtain ⟨helse, hsiblings⟩ := hbehind.takeElse l.depth
  unfold Entry.enclose
  rw [hdepth, htokens]
  exact .cons (.mk hinside.entries helse) hsiblings

/-- Lines of the same shapes. -/
theorem of_shape_eq (finish finish' : Nat) {lines lines' : List Line}
    (h : lines'.map Line.shape = lines.map Line.shape) :
    PaddedLevels (Entry.arrange finish lines) (Entry.arrange finish' lines') := by
  induction lines generalizing lines' with
  | nil =>
    rw [List.map_eq_nil_iff.mp h]
    exact .nil
  | cons l rest ih =>
    obtain ⟨l', rest', rfl, hl, hrest⟩ := List.map_eq_cons_iff.mp h
    obtain ⟨next, hnext⟩ := Entry.arrange_cons_eq finish l rest
    obtain ⟨next', hnext'⟩ := Entry.arrange_cons_eq finish' l' rest'
    rw [hnext, hnext']
    exact (ih hrest).enclose hl next next'

end PaddedLevels

/-- Whether a line begins with `else`, where its tokens are so. -/
def beginsWithElse : List Token → Bool
  | .otherwise :: _ => true
  | .elseCond _ :: _ => true
  | _ => false

theorem isElse_mk (line next : Nat) (tokens : List Token) (children : List Entry)
    (alternative : Option Entry) :
    (Entry.mk line next tokens children alternative).isElse = beginsWithElse tokens := by
  unfold Entry.isElse beginsWithElse
  rcases tokens with _ | ⟨t, tokens⟩
  · rfl
  · cases t <;> rfl

/-- A line takes in nothing of what begins at its own depth, except an `else` line. -/
theorem enclose_beside (l : Line) (next : Nat) (e : Entry) (es : List (Nat × Entry)) :
    Entry.enclose l next ((l.depth, e) :: es) =
      if e.isElse then (l.depth, .mk l.position.line next l.tokens [] (some e)) :: es
      else (l.depth, .mk l.position.line next l.tokens [] none) :: (l.depth, e) :: es := by
  cases helse : e.isElse <;> simp [Entry.enclose, Entry.takeElse, helse]

/-- The entries of lines begin with the one of the first line. -/
theorem exists_arrange_cons (finish : Nat) (l : Line) (rest : List Line) :
    ∃ e siblings, Entry.arrange finish (l :: rest) = (l.depth, e) :: siblings ∧
      e.isElse = beginsWithElse l.tokens := by
  obtain ⟨next, alternative, siblings, heq, -, -⟩ := arrange_cons finish l rest
  exact ⟨_, siblings, heq, isElse_mk _ _ _ _ _⟩

section
variable {depth : Nat} {tokens : List Token} {front back : List (Nat × List Token)}
  {lines lines' : List Line}

/-- **A silent line in front of a line at its depth** is an entry of its own, if that is no `else`
line. -/
theorem paddedLevels_arrange (finish finish' : Nat) (hspeaks : beginsWithElse tokens = false)
    (hlines : lines.map Line.shape = front ++ (depth, tokens) :: back)
    (hlines' : lines'.map Line.shape = front ++ (depth, []) :: (depth, tokens) :: back) :
    PaddedLevels (Entry.arrange finish lines) (Entry.arrange finish' lines') := by
  induction front generalizing lines lines' with
  | cons a front ih =>
    obtain ⟨l, rest, rfl, hl, hrest⟩ := List.map_eq_cons_iff.mp hlines
    obtain ⟨l', rest', rfl, hl', hrest'⟩ := List.map_eq_cons_iff.mp hlines'
    obtain ⟨next, hnext⟩ := Entry.arrange_cons_eq finish l rest
    obtain ⟨next', hnext'⟩ := Entry.arrange_cons_eq finish' l' rest'
    rw [hnext, hnext']
    exact (ih hrest hrest').enclose (hl'.trans hl.symm) next next'
  | nil =>
    obtain ⟨l, rest, rfl, hl, hrest⟩ := List.map_eq_cons_iff.mp hlines
    obtain ⟨silent, others, rfl, hsilent, hothers⟩ := List.map_eq_cons_iff.mp hlines'
    obtain ⟨l', rest', rfl, hl', hrest'⟩ := List.map_eq_cons_iff.mp hothers
    have hsame := PaddedLevels.of_shape_eq finish finish' (hothers.trans hlines.symm)
    obtain ⟨next, hnext⟩ := Entry.arrange_cons_eq finish' silent (l' :: rest')
    obtain ⟨e, siblings, he, hisElse⟩ := exists_arrange_cons finish l rest
    obtain ⟨e', siblings', he', hisElse'⟩ := exists_arrange_cons finish' l' rest'
    cases hl
    obtain ⟨hdepth, htokens⟩ := Prod.mk.inj hsilent
    obtain ⟨hdepth', htokens'⟩ := Prod.mk.inj hl'
    rw [htokens', hspeaks] at hisElse'
    rw [he, he', hdepth', ← hdepth] at hsame
    rw [hnext, he, he', hdepth', ← hdepth, enclose_beside, hisElse', if_neg Bool.false_ne_true, htokens]
    exact .pad (hisElse.trans hspeaks) hsame

/-- **A silent line in front of an `else` line** takes that away from where it belongs. -/
theorem exists_stray_of_run (finish : Nat) {widths : List Nat} (hrun : Run widths lines)
    (helse : beginsWithElse tokens = true)
    (hlines : lines.map Line.shape = front ++ (depth, []) :: (depth, tokens) :: back) :
    ∃ a ∈ Entry.arrange finish lines, a.2.Stray := by
  induction front generalizing lines widths with
  | nil =>
    obtain ⟨silent, others, rfl, hsilent, hothers⟩ := List.map_eq_cons_iff.mp hlines
    obtain ⟨l, rest, rfl, hl, -⟩ := List.map_eq_cons_iff.mp hothers
    obtain ⟨next, hnext⟩ := Entry.arrange_cons_eq finish silent (l :: rest)
    obtain ⟨e, siblings, he, hisElse⟩ := exists_arrange_cons finish l rest
    cases hl
    obtain ⟨hdepth, htokens⟩ := Prod.mk.inj hsilent
    rw [helse] at hisElse
    rw [hnext, he, ← hdepth, enclose_beside, if_pos hisElse, htokens]
    exact ⟨_, List.mem_cons_self, .here hisElse⟩
  | cons a front ih =>
    obtain ⟨l, rest, rfl, -, hrest⟩ := List.map_eq_cons_iff.mp hlines
    have hsound := sound_of_run hrun finish
    cases hrun with
    | line moves hdepth column silent later =>
    obtain ⟨⟨d, e⟩, he, hstray⟩ := ih later hrest
    obtain ⟨next, alternative, siblings, heq, hotherwise, hsplit⟩ := arrange_cons finish l rest
    rw [heq] at hsound ⊢
    rw [← List.takeWhile_append_dropWhile (p := fun a : Nat × Entry => decide (l.depth < a.1))
      (l := Entry.arrange finish rest), hsplit] at he
    rcases List.mem_append.mp he with he | he
    · -- The entry is a child, so the line in front of it says something.
      cases hsound _ List.mem_cons_self with
      | mk silent inside _ _ =>
      have hmem : e ∈ ((Entry.arrange finish rest).takeWhile fun a => l.depth < a.1).map (·.2) :=
        List.mem_map_of_mem he
      refine ⟨_, List.mem_cons_self, .inside (fun hnil => ?_) hmem hstray⟩
      rw [silent hnil] at hmem
      cases hmem
    · rcases List.mem_append.mp he with he | he
      · cases alternative with
        | none => cases he
        | some otherwise =>
          cases List.mem_singleton.mp he
          exact ⟨_, List.mem_cons_self, .behind (hotherwise _ rfl) hstray⟩
      · exact ⟨_, List.mem_cons_of_mem _ he, hstray⟩

end

/-! ### Whole templates -/

theorem Entry.Padded.isVacant_eq {e e' : Entry} (h : e.Padded e') : e'.isVacant = e.isVacant := by
  cases h with
  | @mk _ _ _ _ tokens _ _ _ _ inside behind =>
    cases tokens <;> cases inside <;> cases behind <;> rfl

/-- What begins with the first entry that says something. -/
theorem PaddedEntries.dropWhile_isVacant_cases {es es' : List Entry} (h : PaddedEntries es es') :
    es.dropWhile Entry.isVacant = [] ∧ es'.dropWhile Entry.isVacant = [] ∨
      ∃ e e' rest rest', es.dropWhile Entry.isVacant = e :: rest ∧
        es'.dropWhile Entry.isVacant = e' :: rest' ∧ e.Padded e' ∧ PaddedEntries rest rest' := by
  induction es' generalizing es with
  | nil =>
    cases h
    exact .inl ⟨rfl, rfl⟩
  | cons e' es' ih =>
    cases h with
    | @pad line next e es _ later =>
      have hdrop : (Entry.mk line next [] [] none :: es').dropWhile Entry.isVacant =
          es'.dropWhile Entry.isVacant := List.dropWhile_cons_of_pos rfl
      rw [hdrop]
      exact ih later
    | @cons e _ es _ first later =>
      cases he : e.isVacant with
      | true =>
        rw [List.dropWhile_cons_of_pos he, List.dropWhile_cons_of_pos (first.isVacant_eq.trans he)]
        exact ih later
      | false =>
        have hnot : ¬e.isVacant = true := ne_true_of_eq_false he
        have hnot' : ¬e'.isVacant = true := ne_true_of_eq_false (first.isVacant_eq.trans he)
        rw [List.dropWhile_cons_of_neg hnot, List.dropWhile_cons_of_neg hnot']
        exact .inr ⟨_, _, _, _, rfl, rfl, first, later⟩

section
variable {s s' : Surroundings}

theorem blaming_matches {α : Type} (template template' : String) (line line' : Nat)
    (fault fault' : ParseFault) {a a' : Asking α} (h : Matches a a') :
    Matches (fun asked => blaming template line fault (a asked))
      (fun asked => blaming template' line' fault' (a' asked)) where
  iff asked x asked' := by
    constructor
    · intro hx
      show blaming template' line' fault' (a' asked) = _
      rw [(h.iff _ _ _).mp (of_blaming_eq_result hx)]
      rfl
    · intro hx
      show blaming template line fault (a asked) = _
      rw [(h.iff _ _ _).mpr (of_blaming_eq_result hx)]
      rfl

variable (hs : s.Matches s')
include hs

theorem readDerived_matches (line line' : Nat) (target : String) (rest : List Token)
    {children children' : List Entry} {alternative alternative' : Option Entry}
    {entries entries' : List Entry}
    (hchildren : PaddedEntries children children') (halternative : PaddedElse alternative alternative')
    (hentries : PaddedEntries entries entries') :
    Matches (readDerived s line target rest children alternative entries)
      (readDerived s' line' target rest children' alternative' entries') := by
  rw [readDerived_eq, readDerived_eq, hs.template]
  refine (collecting_matches ?_).bind fun own =>
    (blaming_matches _ _ _ _ _ _ (hs.load _)).bind fun _ => .refl _
  exact (check_matches line line' _).bind fun _ => (refuseChildren_matches hchildren).bind fun _ =>
    (refuseElse_matches halternative).bind fun _ => readEntries_matches hs _ _ hentries

/-- **A template with silent entries in it is read as the template without them.** -/
theorem readDocument_matches {layout layout' : Layout}
    (hfirst : layout'.lines.head?.map Line.depth = layout.lines.head?.map Line.depth)
    (hforest : PaddedEntries (Entry.forest layout) (Entry.forest layout')) :
    Matches (readDocument s layout) (readDocument s' layout') := by
  unfold readDocument
  cases hline : layout.lines.head? with
  | none =>
    rw [hline] at hfirst
    rw [Option.map_eq_none_iff.mp hfirst]
    exact .refl _
  | some first =>
    rw [hline] at hfirst
    obtain ⟨first', hline', hdepth⟩ := Option.map_eq_some_iff.mp hfirst
    rw [hline']
    dsimp only
    rw [hdepth]
    split
    · exact .of_error (fun _ _ _ h => by cases h) fun _ _ _ h => by cases h
    · rcases hforest.dropWhile_isVacant_cases with
        ⟨hdrop, hdrop'⟩ | ⟨e, e', rest, rest', hdrop, hdrop', he, hrest⟩
      · rw [hdrop, hdrop']
        exact .refl _
      · rw [hdrop, hdrop']
        have hplain := collecting_matches (readEntries_matches hs _ _ (.cons he hrest))
        cases he with
        | @mk line _ line' _ tokens _ _ _ _ inside behind =>
          cases tokens with
          | nil => exact hplain
          | cons t tokens =>
            cases t with
            | extending target => exact readDerived_matches hs line line' target tokens inside behind hrest
            | _ => exact hplain

end

section
variable {s : Surroundings}

/-- **A template is not read if an `else` line stands behind a line that says nothing in it.** -/
theorem readDocument_ne_ok_of_stray {layout : Layout} {e : Entry} (he : e ∈ Entry.forest layout)
    (hstray : e.Stray) (d : Document) (asked asked' : List String) :
    readDocument s layout asked ≠ .ok d asked' := by
  intro h
  rcases succeeds_of_readDocument h e he with ⟨_, _, _, rfl, -⟩ | hread
  · cases hstray with
    | inside _ mem => cases mem
  · exact (Entry.refused_of_stray hstray).entry hread

end

end Trellis
