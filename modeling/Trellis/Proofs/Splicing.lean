import Trellis.Proofs.Outline
import Trellis.Proofs.Pasting

/-!
# `Trellis.Proofs.Splicing`: entries in place of an include statement

`Entry.Pasted` says that one entry is another one with some entries in place of include statements.
The numbers of lines may differ. It is one of three relations, as entries hold lists of entries and
`else` lines. Only an include statement without children and without an `else` line is replaced,
and `Entry.Bare` says that all are such.

`pasted_forest` goes from lines to entries. Lines that are pasted as `scans_pasted` tells come out
as the entries of their own template in place of the entry of the include statement. The proof goes
through the lines from behind, as `Entry.arrange` does: `Entry.enclose` is its step, and
`PastedLevels` is what a step keeps.
-/

set_option autoImplicit false

namespace Trellis

open Source

/-! ### Pasted entries -/

section
variable (target : String) (paste : List Entry → Prop)

mutual

/-- An entry and the same one in which include statements of one target are replaced. -/
inductive Entry.Pasted : Entry → Entry → Prop
  | mk {line next line' next' : Nat} {tokens : List Token} {children children' : List Entry}
    {alternative alternative' : Option Entry} (inside : PastedEntries children children')
    (behind : PastedElse alternative alternative') :
    Entry.Pasted (.mk line next tokens children alternative)
      (.mk line' next' tokens children' alternative')

/-- Entries side by side. What stands in place of an include statement is one of `paste`. -/
inductive PastedEntries : List Entry → List Entry → Prop
  | nil : PastedEntries [] []
  | cons {e e' : Entry} {es es' : List Entry} (first : e.Pasted e') (later : PastedEntries es es') :
    PastedEntries (e :: es) (e' :: es')
  | paste {line next : Nat} {pasted es es' : List Entry} (pastes : paste pasted)
    (later : PastedEntries es es') :
    PastedEntries (.mk line next [.including target] [] none :: es) (pasted ++ es')

/-- An `else` line, if there is one. -/
inductive PastedElse : Option Entry → Option Entry → Prop
  | none : PastedElse none none
  | some {e e' : Entry} (pasted : e.Pasted e') : PastedElse (some e) (some e')

end

end

/-- The include statements of an entry have neither children nor an `else` line, and only targets
of a kind. -/
inductive Entry.Bare (Q : String → Prop) : Entry → Prop
  | mk {line next : Nat} {tokens : List Token} {children : List Entry} {alternative : Option Entry}
    (including : ∀ target, tokens = [.including target] →
      children = [] ∧ alternative = none ∧ Q target)
    (inside : ∀ e ∈ children, e.Bare Q) (behind : ∀ e ∈ alternative, e.Bare Q) :
    Entry.Bare Q (.mk line next tokens children alternative)

/-! ### The step of the outline -/

namespace Entry

/-- Takes the first entry away if it is an `else` line at a depth. -/
def takeElse (depth : Nat) : List (Nat × Entry) → Option Entry × List (Nat × Entry)
  | [] => (none, [])
  | (d, e) :: rest => if d = depth ∧ e.isElse then (some e, rest) else (none, (d, e) :: rest)

/-- The entry of a line in front of the entries of the lines behind it, some of which it takes in. -/
def enclose (l : Line) (next : Nat) (later : List (Nat × Entry)) : List (Nat × Entry) :=
  let behind := takeElse l.depth (later.dropWhile fun e => l.depth < e.1)
  (l.depth, .mk l.position.line next l.tokens ((later.takeWhile fun e => l.depth < e.1).map (·.2))
    behind.1) :: behind.2

theorem arrange_cons_eq (finish : Nat) (l : Line) (rest : List Line) :
    ∃ next, arrange finish (l :: rest) = enclose l next (arrange finish rest) := by
  rw [arrange.eq_def finish (l :: rest)]
  unfold enclose
  dsimp only
  cases (arrange finish rest).dropWhile fun e => l.depth < e.1 with
  | nil => exact ⟨_, rfl⟩
  | cons a siblings =>
    obtain ⟨d, e⟩ := a
    dsimp only [takeElse]
    by_cases helse : d = l.depth ∧ e.isElse = true
    · rw [if_pos helse, if_pos helse]
      exact ⟨_, rfl⟩
    · rw [if_neg helse, if_neg helse]
      exact ⟨_, rfl⟩

variable {depth : Nat}

theorem takeElse_of_not {es : List (Nat × Entry)}
    (h : ∀ a ∈ es.head?, ¬(a.1 = depth ∧ a.2.isElse = true)) : takeElse depth es = (none, es) := by
  cases es with
  | nil => rfl
  | cons a rest => exact if_neg (h a rfl)

theorem takeElse_append (es : List (Nat × Entry)) {more : List (Nat × Entry)}
    (h : ∀ a ∈ more.head?, ¬(a.1 = depth ∧ a.2.isElse = true)) :
    takeElse depth (es ++ more) = ((takeElse depth es).1, (takeElse depth es).2 ++ more) := by
  cases es with
  | nil => exact takeElse_of_not h
  | cons a rest =>
    obtain ⟨d, e⟩ := a
    rw [List.cons_append, takeElse, takeElse]
    split <;> rfl

theorem takeElse_fst_eq_none {es : List (Nat × Entry)} (h : (takeElse depth es).1 = none) :
    (∀ a ∈ es.head?, ¬(a.1 = depth ∧ a.2.isElse = true)) ∧ (takeElse depth es).2 = es := by
  cases es with
  | nil => exact ⟨nofun, rfl⟩
  | cons a rest =>
    obtain ⟨d, e⟩ := a
    rw [takeElse] at h ⊢
    by_cases helse : d = depth ∧ e.isElse
    · rw [if_pos helse] at h
      cases h
    · rw [if_neg helse]
      refine ⟨fun a ha => ?_, rfl⟩
      cases ha
      exact helse

/-- Nothing is deeper than what no entry is deeper than. -/
theorem takeWhile_dropWhile_of_le {es : List (Nat × Entry)} (h : ∀ a ∈ es, a.1 ≤ depth) :
    (es.takeWhile fun a => depth < a.1) = [] ∧ (es.dropWhile fun a => depth < a.1) = es := by
  cases es with
  | nil => exact ⟨rfl, rfl⟩
  | cons a rest =>
    have ha := h a List.mem_cons_self
    have hnot : ¬(decide (depth < a.1) = true) := by
      simp only [decide_eq_true_eq]
      omega
    exact ⟨List.takeWhile_cons_of_neg hnot, List.dropWhile_cons_of_neg hnot⟩

/-- A line takes in nothing that stands behind, is not deeper and is no `else` line of it. -/
theorem enclose_append (l : Line) (next : Nat) (later : List (Nat × Entry))
    {more : List (Nat × Entry)} (hdepth : ∀ a ∈ more, a.1 ≤ l.depth)
    (helse : ∀ a ∈ more.head?, ¬(a.1 = l.depth ∧ a.2.isElse = true)) :
    enclose l next (later ++ more) = enclose l next later ++ more := by
  obtain ⟨htake, hdrop⟩ := takeWhile_dropWhile_of_le hdepth
  have htakes : ((later ++ more).takeWhile fun e => l.depth < e.1) =
      later.takeWhile fun e => l.depth < e.1 := by
    rw [List.takeWhile_append, htake, List.append_nil]
    split
    · next hall => exact ((List.takeWhile_prefix _).eq_of_length hall).symm
    · rfl
  have hdrops : ((later ++ more).dropWhile fun e => l.depth < e.1) =
      (later.dropWhile fun e => l.depth < e.1) ++ more := by
    rw [List.dropWhile_append, hdrop]
    split
    · next hempty => rw [List.isEmpty_iff.mp hempty, List.nil_append]
    · rfl
  unfold enclose
  rw [htakes, hdrops, takeElse_append _ helse]
  rfl

end Entry

/-! ### Entries with their depths -/

/-- Entries with their depths and the same ones in which include statements are replaced, all `k`
levels deeper. What stands behind an include statement is not deeper, and no `else` line of it. -/
inductive PastedLevels (target : String) (paste : List Entry → Prop) (k : Nat) :
    List (Nat × Entry) → List (Nat × Entry) → Prop
  | nil : PastedLevels target paste k [] []
  | cons {d : Nat} {e e' : Entry} {es es' : List (Nat × Entry)} (first : e.Pasted target paste e')
    (later : PastedLevels target paste k es es') :
    PastedLevels target paste k ((d, e) :: es) ((d + k, e') :: es')
  | paste {d line next : Nat} {pasted : List Entry} {es es' : List (Nat × Entry)}
    (pastes : paste pasted) (depth : ∀ a ∈ es, a.1 ≤ d)
    (noElse : ∀ a ∈ es.head?, ¬(a.1 = d ∧ a.2.isElse = true))
    (later : PastedLevels target paste k es es') :
    PastedLevels target paste k ((d, .mk line next [.including target] [] none) :: es)
      (pasted.map (fun e => (d + k, e)) ++ es')

theorem Entry.Pasted.isElse_eq {target : String} {paste : List Entry → Prop} {e e' : Entry}
    (h : e.Pasted target paste e') : e'.isElse = e.isElse := by
  cases h
  rfl

namespace PastedLevels

variable {target : String} {paste : List Entry → Prop} {k : Nat} {es es' : List (Nat × Entry)}

theorem entries (h : PastedLevels target paste k es es') :
    PastedEntries target paste (es.map (·.2)) (es'.map (·.2)) := by
  induction h with
  | nil => exact .nil
  | cons first _ ih => exact .cons first ih
  | @paste d _ _ pasted _ _ pastes _ _ _ ih =>
    have hpasted : (pasted.map fun e => (d + k, e)).map (·.2) = pasted := by
      rw [List.map_map]
      exact List.map_id _
    rw [List.map_cons, List.map_append, hpasted]
    exact .paste pastes ih

theorem depth_le (h : PastedLevels target paste k es es') {depth : Nat}
    (hdepth : ∀ a ∈ es, a.1 ≤ depth) : ∀ a ∈ es', a.1 ≤ depth + k := by
  induction h with
  | nil => nofun
  | cons first _ ih =>
    obtain ⟨hd, hes⟩ := List.forall_mem_cons.mp hdepth
    exact List.forall_mem_cons.mpr ⟨Nat.add_le_add_right hd k, ih hes⟩
  | paste _ _ _ _ ih =>
    obtain ⟨hd, hes⟩ := List.forall_mem_cons.mp hdepth
    intro a ha
    rcases List.mem_append.mp ha with ha | ha
    · obtain ⟨e, -, rfl⟩ := List.mem_map.mp ha
      exact Nat.add_le_add_right hd k
    · exact ih hes a ha

/-- What is deeper than some depth, and what begins with the first that is not. -/
theorem takeWhile_dropWhile (h : PastedLevels target paste k es es') (depth : Nat) :
    PastedLevels target paste k (es.takeWhile fun a => depth < a.1)
        (es'.takeWhile fun a => depth + k < a.1) ∧
      PastedLevels target paste k (es.dropWhile fun a => depth < a.1)
        (es'.dropWhile fun a => depth + k < a.1) := by
  induction h with
  | nil => exact ⟨.nil, .nil⟩
  | @cons d _ _ _ _ first later ih =>
    by_cases hd : depth < d
    · have hd' : depth + k < d + k := by omega
      simp only [List.takeWhile_cons, List.dropWhile_cons, hd, hd', decide_true, if_true]
      exact ⟨.cons first ih.1, ih.2⟩
    · have hd' : ¬depth + k < d + k := by omega
      simp only [List.takeWhile_cons, List.dropWhile_cons, hd, hd', decide_false,
        Bool.false_eq_true, if_false]
      exact ⟨.nil, .cons first later⟩
  | @paste d line next pasted es es' pastes hdepth noElse later ih =>
    by_cases hd : depth < d
    · have hall : ∀ a ∈ pasted.map fun e => (d + k, e), decide (depth + k < a.1) = true := by
        intro a ha
        obtain ⟨e, -, rfl⟩ := List.mem_map.mp ha
        simpa using hd
      rw [List.takeWhile_append_of_pos hall, List.dropWhile_append_of_pos hall]
      simp only [List.takeWhile_cons, List.dropWhile_cons, hd, decide_true, if_true]
      refine ⟨.paste pastes (fun a ha => hdepth a ((List.takeWhile_sublist _).subset ha)) ?_ ih.1, ih.2⟩
      intro a ha
      rw [List.head?_takeWhile] at ha
      exact noElse a (Option.filter_eq_some_iff.mp ha).1
    · -- Neither the include statement nor anything behind it is deeper.
      have hpaste : PastedLevels target paste k
          ((d, .mk line next [.including target] [] none) :: es)
          (pasted.map (fun e => (d + k, e)) ++ es') := .paste pastes hdepth noElse later
      have hes : ∀ a ∈ es, a.1 ≤ depth := by
        intro a ha
        have := hdepth a ha
        omega
      have hall := hpaste.depth_le (List.forall_mem_cons.mpr ⟨Nat.le_of_not_lt hd, hes⟩)
      obtain ⟨htake, hdrop⟩ := Entry.takeWhile_dropWhile_of_le hall
      rw [htake, hdrop]
      simp only [List.takeWhile_cons, List.dropWhile_cons, hd, decide_false, Bool.false_eq_true, if_false]
      exact ⟨.nil, hpaste⟩

/-- What no `else` line of some depth begins still begins with none. -/
theorem not_isElse_head? (hpaste : ∀ pasted, paste pasted → ∀ e ∈ pasted.head?, e.isElse = false)
    (h : PastedLevels target paste k es es') {depth : Nat} (hdepth : ∀ a ∈ es, a.1 ≤ depth)
    (hfirst : ∀ a ∈ es.head?, ¬(a.1 = depth ∧ a.2.isElse = true)) :
    ∀ a ∈ es'.head?, ¬(a.1 = depth + k ∧ a.2.isElse = true) := by
  induction h with
  | nil => nofun
  | cons first _ _ =>
    intro a ha helse
    cases ha
    obtain ⟨hd, helse⟩ := helse
    rw [first.isElse_eq] at helse
    exact hfirst _ rfl ⟨Nat.add_right_cancel hd, helse⟩
  | @paste d _ _ pasted es es' pastes hes noElse _ ih =>
    cases pasted with
    | nil =>
      -- Nothing is pasted, so what stood behind the include statement comes first.
      have hd : d ≤ depth := hdepth _ List.mem_cons_self
      refine ih (fun a ha => (hes a ha).trans hd) fun a ha helse => ?_
      have hle := hes a (List.mem_of_mem_head? ha)
      exact noElse a ha ⟨by omega, helse.2⟩
    | cons e pasted =>
      intro a ha helse
      cases ha
      have hnot : e.isElse = false := hpaste _ pastes e rfl
      rw [hnot] at helse
      exact Bool.false_ne_true helse.2

theorem takeElse (hpaste : ∀ pasted, paste pasted → ∀ e ∈ pasted.head?, e.isElse = false)
    (h : PastedLevels target paste k es es') {depth : Nat} (hdepth : ∀ a ∈ es, a.1 ≤ depth) :
    PastedElse target paste (Entry.takeElse depth es).1 (Entry.takeElse (depth + k) es').1 ∧
      PastedLevels target paste k (Entry.takeElse depth es).2 (Entry.takeElse (depth + k) es').2 := by
  by_cases hfirst : ∀ a ∈ es.head?, ¬(a.1 = depth ∧ a.2.isElse = true)
  · rw [Entry.takeElse_of_not hfirst, Entry.takeElse_of_not (h.not_isElse_head? hpaste hdepth hfirst)]
    exact ⟨.none, h⟩
  · simp only [not_forall, not_not, exists_prop] at hfirst
    obtain ⟨a, ha, rfl, helse⟩ := hfirst
    cases h with
    | nil => cases ha
    | cons first later =>
      cases ha
      have helse' := first.isElse_eq.trans helse
      rw [Entry.takeElse, Entry.takeElse, if_pos ⟨rfl, helse⟩, if_pos ⟨rfl, helse'⟩]
      exact ⟨.some first, later⟩
    | paste =>
      cases ha
      cases helse

/-- **A line keeps the relation**, whatever it takes in. -/
theorem enclose (hpaste : ∀ pasted, paste pasted → ∀ e ∈ pasted.head?, e.isElse = false)
    (h : PastedLevels target paste k es es') (hsorted : es.Pairwise fun a b => b.1 ≤ a.1)
    {l l' : Line} (hdepth : l'.depth = l.depth + k) (htokens : l'.tokens = l.tokens)
    (next next' : Nat) :
    PastedLevels target paste k (Entry.enclose l next es) (Entry.enclose l' next' es') := by
  obtain ⟨hinside, hbehind⟩ := h.takeWhile_dropWhile l.depth
  obtain ⟨helse, hsiblings⟩ := hbehind.takeElse hpaste (le_of_mem_dropWhile hsorted l.depth)
  unfold Entry.enclose
  rw [hdepth, htokens]
  exact .cons (.mk hinside.entries helse) hsiblings

end PastedLevels

/-! ### From lines to entries -/

section
variable {target : String} {paste : List Entry → Prop}
  (hpaste : ∀ pasted, paste pasted → ∀ e ∈ pasted.head?, e.isElse = false)
include hpaste

/-- The same lines in front of others, so many levels deeper that they take in none of those. -/
theorem pastedLevels_append (k finish finish' : Nat) {lines lines' : List Line} (behind : List Line)
    (hshape : lines'.map Line.shape = lines.map fun l => (l.depth + k, l.tokens))
    (hdepth : ∀ a ∈ Entry.arrange finish' behind, a.1 ≤ k)
    (helse : ∀ a ∈ (Entry.arrange finish' behind).head?, ¬(a.1 = k ∧ a.2.isElse = true)) :
    ∃ es', Entry.arrange finish' (lines' ++ behind) = es' ++ Entry.arrange finish' behind ∧
      PastedLevels target paste k (Entry.arrange finish lines) es' := by
  induction lines generalizing lines' with
  | nil =>
    rw [List.map_nil, List.map_eq_nil_iff] at hshape
    subst hshape
    exact ⟨[], rfl, .nil⟩
  | cons l lines ih =>
    obtain ⟨l', lines', rfl, hl, hshape⟩ := List.map_eq_cons_iff.mp hshape
    obtain ⟨es', heq, hlevels⟩ := ih hshape
    obtain ⟨next, hnext⟩ := Entry.arrange_cons_eq finish l lines
    obtain ⟨next', hnext'⟩ := Entry.arrange_cons_eq finish' l' (lines' ++ behind)
    have hl' : l'.depth = l.depth + k := congrArg Prod.fst hl
    have hback : ∀ a ∈ Entry.arrange finish' behind, a.1 ≤ l'.depth := by
      intro a ha
      have := hdepth a ha
      omega
    refine ⟨Entry.enclose l' next' es', ?_, ?_⟩
    · rw [List.cons_append, hnext', heq]
      refine Entry.enclose_append l' next' es' hback fun a ha hboth => ?_
      have := hdepth a (List.mem_of_mem_head? ha)
      exact helse a ha ⟨by omega, hboth.2⟩
    · rw [hnext]
      exact hlevels.enclose hpaste (pairwise_arrange finish lines) hl' (congrArg Prod.snd hl) next next'

/-- The same lines at the same depths. -/
theorem pastedLevels_of_shape (finish finish' : Nat) {lines lines' : List Line}
    (hshape : lines'.map Line.shape = lines.map Line.shape) :
    PastedLevels target paste 0 (Entry.arrange finish lines) (Entry.arrange finish' lines') := by
  obtain ⟨es', heq, hlevels⟩ :=
    pastedLevels_append hpaste 0 finish finish' [] hshape nofun nofun
  rw [List.append_nil] at heq
  rw [heq, Entry.arrange, List.append_nil]
  exact hlevels

end

/-! ### Include statements -/

section
variable {Q : String → Prop} {target : String} {finish : Nat} {inc : Line} {rest : List Line}

/-- What holds for the entries of some lines holds for those of the last lines. -/
theorem bare_of_append (before : List Line)
    (h : ∀ a ∈ Entry.arrange finish (before ++ rest), a.2.Bare Q) :
    ∀ a ∈ Entry.arrange finish rest, a.2.Bare Q := by
  induction before with
  | nil => exact h
  | cons l before ih =>
    refine ih ?_
    obtain ⟨next, alternative, siblings, heq, -, hsplit⟩ := arrange_cons finish l (before ++ rest)
    rw [List.cons_append, heq] at h
    obtain ⟨hfirst, hsiblings⟩ := List.forall_mem_cons.mp h
    cases hfirst with
    | mk _ inside behind =>
      intro a ha
      rw [← List.takeWhile_append_dropWhile (p := fun e => l.depth < e.1)
        (l := Entry.arrange finish (before ++ rest)), hsplit] at ha
      rcases List.mem_append.mp ha with ha | ha
      · exact inside a.2 (List.mem_map_of_mem ha)
      rcases List.mem_append.mp ha with ha | ha
      · obtain ⟨e, he, rfl⟩ := List.mem_map.mp ha
        exact behind e (Option.mem_toList.mp he)
      · exact hsiblings a ha

/-- The entry of an include statement takes nothing in. -/
theorem arrange_include (htokens : inc.tokens = [.including target])
    (h : ∀ a ∈ Entry.arrange finish (inc :: rest), a.2.Bare Q) :
    (∃ next, Entry.arrange finish (inc :: rest) =
        (inc.depth, .mk inc.position.line next [.including target] [] none) ::
          Entry.arrange finish rest) ∧
      (∀ a ∈ Entry.arrange finish rest, a.1 ≤ inc.depth) ∧
      ∀ a ∈ (Entry.arrange finish rest).head?, ¬(a.1 = inc.depth ∧ a.2.isElse = true) := by
  obtain ⟨next, heq⟩ := Entry.arrange_cons_eq finish inc rest
  have hsorted := pairwise_arrange finish rest
  rw [heq] at h ⊢
  generalize Entry.arrange finish rest = later at h hsorted ⊢
  unfold Entry.enclose at h ⊢
  dsimp only at h ⊢
  rw [htokens] at h ⊢
  have hsplit := List.takeWhile_append_dropWhile (p := fun e => inc.depth < e.1) (l := later)
  have hle := le_of_mem_dropWhile hsorted inc.depth
  cases (List.forall_mem_cons.mp h).1 with
  | mk including _ _ =>
    obtain ⟨hchildren, hnone, -⟩ := including target rfl
    rw [List.map_eq_nil_iff.mp hchildren, List.nil_append] at hsplit
    rw [hsplit] at hnone hle ⊢
    obtain ⟨hfirst, hbehind⟩ := Entry.takeElse_fst_eq_none hnone
    rw [hchildren, hnone, hbehind]
    exact ⟨⟨next, rfl⟩, hle, hfirst⟩

theorem target_of_bare (htokens : inc.tokens = [.including target])
    (h : ∀ a ∈ Entry.arrange finish (inc :: rest), a.2.Bare Q) : Q target := by
  obtain ⟨⟨next, heq⟩, -, -⟩ := arrange_include htokens h
  rw [heq] at h
  cases (List.forall_mem_cons.mp h).1 with
  | mk including _ _ => exact (including target rfl).2.2

/-- The statement behind an include statement is not deeper. -/
theorem depth_le_of_bare (htokens : inc.tokens = [.including target])
    (h : ∀ a ∈ Entry.arrange finish (inc :: rest), a.2.Bare Q) :
    ∀ first ∈ rest.head?, first.depth ≤ inc.depth := by
  obtain ⟨-, hdepth, -⟩ := arrange_include htokens h
  intro first hfirst
  cases rest with
  | nil => cases hfirst
  | cons l rest =>
    cases hfirst
    obtain ⟨next, alternative, siblings, heq, -, -⟩ := arrange_cons finish first rest
    rw [heq] at hdepth
    exact hdepth _ List.mem_cons_self

end

/-! ### Templates -/

/-- Entries that are the same but for the numbers of their lines. -/
def SameEntries (es es' : List Entry) : Prop := PastedEntries "" (fun _ => False) es es'

theorem SameEntries.isElse_head? {es es' : List Entry} (h : SameEntries es es')
    (helse : ∀ e ∈ es.head?, e.isElse = false) : ∀ e ∈ es'.head?, e.isElse = false := by
  cases h with
  | nil => nofun
  | cons first later =>
    intro e he
    cases he
    rw [first.isElse_eq]
    exact helse _ rfl
  | paste pastes => exact pastes.elim

theorem isElse_head?_of_same {es : List (Nat × Entry)}
    (helse : ∀ a ∈ es.head?, a.2.isElse = false) :
    ∀ pasted, SameEntries (es.map (·.2)) pasted → ∀ e ∈ pasted.head?, e.isElse = false := by
  intro pasted hpasted
  refine hpasted.isElse_head? fun e he => ?_
  rw [List.head?_map, Option.mem_def, Option.map_eq_some_iff] at he
  obtain ⟨a, ha, rfl⟩ := he
  exact helse a ha

theorem PastedLevels.le_depth {target : String} {paste : List Entry → Prop} {k : Nat}
    {es es' : List (Nat × Entry)} (h : PastedLevels target paste k es es') : ∀ a ∈ es', k ≤ a.1 := by
  induction h with
  | nil => nofun
  | cons _ _ ih => exact List.forall_mem_cons.mpr ⟨Nat.le_add_left k _, ih⟩
  | paste _ _ _ _ ih =>
    intro a ha
    rcases List.mem_append.mp ha with ha | ha
    · obtain ⟨e, -, rfl⟩ := List.mem_map.mp ha
      exact Nat.le_add_left k _
    · exact ih a ha

/-- All entries of a template are on the outermost level. -/
theorem depth_arrange_le_zero (finish : Nat) {lines : List Line}
    (hzero : ∀ first ∈ lines.head?, first.depth = 0) : ∀ a ∈ Entry.arrange finish lines, a.1 ≤ 0 := by
  have hsorted := pairwise_arrange finish lines
  cases lines with
  | nil => nofun
  | cons l rest =>
    have hdepth : l.depth = 0 := hzero l rfl
    obtain ⟨next, alternative, siblings, heq, -, -⟩ := arrange_cons finish l rest
    rw [heq] at hsorted ⊢
    obtain ⟨hfirst, -⟩ := List.pairwise_cons.mp hsorted
    exact List.forall_mem_cons.mpr ⟨hdepth.le, fun a ha => hdepth ▸ hfirst a ha⟩

section
variable {Q : String → Prop} {target : String} {part : List Line} (finish finish' finishPart : Nat)
  (hzero : ∀ first ∈ part.head?, first.depth = 0)
  (helse : ∀ a ∈ (Entry.arrange finishPart part).head?, a.2.isElse = false)
include hzero helse

/-- The lines of a part in front of others come out as entries side by side. -/
theorem pastedLevels_include {inc : Line} {rest lines' : List Line}
    (htokens : inc.tokens = [.including target])
    (hbare : ∀ a ∈ Entry.arrange finish (inc :: rest), a.2.Bare Q)
    (hshape : lines'.map Line.shape =
      part.map (fun l => (l.depth + inc.depth, l.tokens)) ++ rest.map Line.shape) :
    PastedLevels target (SameEntries ((Entry.arrange finishPart part).map (·.2))) 0
      (Entry.arrange finish (inc :: rest)) (Entry.arrange finish' lines') := by
  have hpaste := isElse_head?_of_same helse
  obtain ⟨copied, behind, rfl, hcopied, hbehind⟩ := List.map_eq_append_iff.mp hshape
  obtain ⟨⟨next, heq⟩, hdepth, hfirst⟩ := arrange_include htokens hbare
  have hlater : PastedLevels target (SameEntries ((Entry.arrange finishPart part).map (·.2))) 0
      (Entry.arrange finish rest) (Entry.arrange finish' behind) :=
    pastedLevels_of_shape hpaste finish finish' hbehind
  obtain ⟨es', hes', hlevels⟩ : ∃ es',
      Entry.arrange finish' (copied ++ behind) = es' ++ Entry.arrange finish' behind ∧
        PastedLevels "" (fun _ => False) inc.depth (Entry.arrange finishPart part) es' :=
    pastedLevels_append nofun inc.depth finishPart finish' behind hcopied (hlater.depth_le hdepth)
      (hlater.not_isElse_head? hpaste hdepth hfirst)
  -- All entries of the part stand where the include statement stood.
  have hlevel : es' = (es'.map (·.2)).map fun e => (inc.depth + 0, e) := by
    have hle := hlevels.depth_le (depth_arrange_le_zero finishPart hzero)
    have hge := hlevels.le_depth
    rw [List.map_map]
    conv => lhs; rw [← List.map_id es']
    refine List.map_congr_left fun a ha => ?_
    have := hle a ha
    have := hge a ha
    refine Prod.ext ?_ rfl
    show a.1 = inc.depth + 0
    omega
  rw [heq, hes', hlevel]
  exact .paste hlevels.entries hdepth hfirst hlater

/-- **The entries of a template in which the lines of a part are pasted** are those with the include
statement, and with the entries of the part in its place. -/
theorem pastedLevels_arrange {before rest lines' : List Line} {inc : Line}
    (htokens : inc.tokens = [.including target])
    (hbare : ∀ a ∈ Entry.arrange finish (before ++ inc :: rest), a.2.Bare Q)
    (hshape : lines'.map Line.shape = before.map Line.shape ++
      (part.map (fun l => (l.depth + inc.depth, l.tokens)) ++ rest.map Line.shape)) :
    PastedLevels target (SameEntries ((Entry.arrange finishPart part).map (·.2))) 0
      (Entry.arrange finish (before ++ inc :: rest)) (Entry.arrange finish' lines') := by
  induction before generalizing lines' with
  | nil => exact pastedLevels_include finish finish' finishPart hzero helse htokens hbare hshape
  | cons l before ih =>
    obtain ⟨l', lines', rfl, hl, hshape⟩ := List.map_eq_cons_iff.mp hshape
    obtain ⟨next, hnext⟩ := Entry.arrange_cons_eq finish l (before ++ inc :: rest)
    obtain ⟨next', hnext'⟩ := Entry.arrange_cons_eq finish' l' lines'
    rw [List.cons_append] at hbare ⊢
    rw [hnext, hnext']
    exact (ih (bare_of_append [l] hbare) hshape).enclose (isElse_head?_of_same helse)
      (pairwise_arrange finish _) (congrArg Prod.fst hl) (congrArg Prod.snd hl) next next'

end

end Trellis
