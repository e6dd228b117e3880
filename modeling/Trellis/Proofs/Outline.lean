import Mathlib.Data.List.TakeWhile
import Trellis.Document.Outline
import Trellis.Proofs.Levels

/-!
# `Trellis.Proofs.Outline`: the outline of a template says what its stream says

The reader of statements works on a forest of entries. The levels of the stream have become
the children of entries, and an `else` line has become a part of the line before it. This
module goes back: `Entry.items` is the piece of the stream that an entry stands for. Its
tokens and its line end come first, then its children between an indent and an outdent, then
its `else` line.

* `items_eq_entryItems`: the stream of a template is what the entries of its forest stand
  for, and the end. So no line is lost or moved on the way from one to the other.
* `sound_of_mem_forest`: a line without tokens has no children, and what is kept as the `else`
  line of another line begins with `else`.

Both follow from what `Trellis.Proofs.Levels` knows of the lines, by induction on them. The
entries of the lines behind a line are `Stepped`: the first is at most one level deeper than
the line, and none is deeper than one before it. So all children of a line are on one level.
-/

set_option autoImplicit false

namespace Trellis

open Source

/-! ### The items of entries -/

mutual

/-- The piece of the stream that an entry stands for. -/
def Entry.items : Entry → List Item
  | .mk _ _ tokens children alternative =>
    tokens.map Item.token ++ .newline :: (childItems children ++ alternativeItems alternative)

/-- The items of entries that stand side by side. -/
def entryItems : List Entry → List Item
  | [] => []
  | e :: rest => e.items ++ entryItems rest

/-- The items of children. They have a level of their own. -/
def childItems : List Entry → List Item
  | [] => []
  | e :: rest => .indent :: (e.items ++ entryItems rest ++ [.outdent])

/-- The items of an `else` line. -/
def alternativeItems : Option Entry → List Item
  | none => []
  | some e => e.items

end

theorem childItems_of_ne_nil {children : List Entry} (h : children ≠ []) :
    childItems children = .indent :: (entryItems children ++ [.outdent]) := by
  cases children with
  | nil => exact absurd rfl h
  | cons e rest => rw [childItems, entryItems]

/-- The items of entries with their depths, behind a line at depth `before`, to the end. -/
def levelStream (before : Nat) : List (Nat × Entry) → List Item
  | [] => levelItems before 0 ++ [.finish]
  | (d, e) :: rest => levelItems before d ++ e.items ++ levelStream d rest

theorem levelItems_self (d : Nat) : levelItems d d = [] := by simp [levelItems]

theorem levelItems_succ_of_le {k d : Nat} (h : d ≤ k) :
    levelItems (k + 1) d = .outdent :: levelItems k d := by
  rw [levelItems, levelItems, if_neg (by omega), if_neg (by omega), Nat.succ_sub h]
  rfl

/-! ### Entries that are stepped -/

/-- Behind a line at depth `before`: one level deeper at most, and then never deeper than
before. -/
structure Stepped (before : Nat) (es : List (Nat × Entry)) : Prop where
  first : ∀ a ∈ es.head?, a.1 ≤ before + 1
  sorted : es.Pairwise fun a b => b.1 ≤ a.1

/-- In entries of which none is deeper than one before it, nothing deep follows what is not deep. -/
theorem le_of_mem_dropWhile {es : List (Nat × Entry)} (hsorted : es.Pairwise fun a b => b.1 ≤ a.1)
    (k : Nat) : ∀ a ∈ es.dropWhile fun a => k < a.1, a.1 ≤ k := by
  have hrest := hsorted.sublist (List.dropWhile_sublist fun a => k < a.1)
  have hfirst := List.head?_dropWhile_not (fun a : Nat × Entry => decide (k < a.1)) es
  generalize (es.dropWhile fun a => k < a.1) = rest at hrest hfirst ⊢
  cases rest with
  | nil => simp
  | cons a rest =>
    have ha : a.1 ≤ k := by simpa using hfirst
    intro b hb
    rcases List.mem_cons.mp hb with rfl | hb
    · exact ha
    · exact Nat.le_trans ((List.pairwise_cons.mp hrest).1 b hb) ha

/-- What is no deeper than the line begins a stepped list, too. -/
theorem Stepped.dropWhile {before : Nat} {es : List (Nat × Entry)} (h : Stepped before es)
    (k : Nat) :
    Stepped k (es.dropWhile fun a => k < a.1) ∧ ∀ a ∈ es.dropWhile fun a => k < a.1, a.1 ≤ k := by
  have hall := le_of_mem_dropWhile h.sorted k
  refine ⟨⟨fun a ha => ?_, h.sorted.sublist (List.dropWhile_sublist _)⟩, hall⟩
  exact Nat.le_succ_of_le (hall a (List.mem_of_mem_head? ha))

/-- Entries that are one level deeper than a line, and behind them what is not. -/
theorem levelStream_of_level {k : Nat} {children behind : List (Nat × Entry)}
    (hchildren : ∀ a ∈ children, a.1 = k + 1) (hbehind : ∀ a ∈ behind, a.1 ≤ k) :
    levelStream (k + 1) (children ++ behind) =
      entryItems (children.map (·.2)) ++ .outdent :: levelStream k behind := by
  induction children with
  | nil =>
    cases behind with
    | nil => rw [List.nil_append, levelStream, levelItems_succ_of_le (Nat.zero_le k)]; rfl
    | cons a rest =>
      obtain ⟨d, e⟩ := a
      have hd : d ≤ k := hbehind (d, e) List.mem_cons_self
      rw [List.nil_append, levelStream, levelItems_succ_of_le hd]
      rfl
  | cons a rest ih =>
    obtain ⟨d, e⟩ := a
    have hd : d = k + 1 := hchildren (d, e) List.mem_cons_self
    have hrest := ih fun b hb => hchildren b (List.mem_cons_of_mem _ hb)
    subst hd
    rw [List.cons_append, levelStream, levelItems_self, hrest, List.map_cons, entryItems]
    simp

/-- Behind a line come its children on a level of their own, then what is not deeper. -/
theorem levelStream_of_stepped {k : Nat} {es : List (Nat × Entry)} (h : Stepped k es) :
    levelStream k es =
      childItems ((es.takeWhile fun a => k < a.1).map (·.2)) ++
        levelStream k (es.dropWhile fun a => k < a.1) := by
  obtain ⟨-, hbehind⟩ := h.dropWhile k
  -- All deeper entries are exactly one level deeper.
  have hlevel : ∀ a ∈ es.takeWhile fun a => k < a.1, a.1 = k + 1 := by
    intro a ha
    have hdeeper : k < a.1 := by simpa using List.mem_takeWhile_imp ha
    have hmem : a ∈ es := (List.takeWhile_sublist _).subset ha
    cases es with
    | nil => cases hmem
    | cons b rest =>
      have hb : b.1 ≤ k + 1 := h.first b rfl
      rcases List.mem_cons.mp hmem with rfl | hmem
      · omega
      · have := (List.pairwise_cons.mp h.sorted).1 a hmem
        omega
  have hsplit : (es.takeWhile fun a => k < a.1) ++ (es.dropWhile fun a => k < a.1) = es :=
    List.takeWhile_append_dropWhile
  generalize (es.takeWhile fun a => k < a.1) = children at hlevel hsplit ⊢
  generalize (es.dropWhile fun a => k < a.1) = behind at hbehind hsplit ⊢
  rw [← hsplit]
  cases children with
  | nil => rfl
  | cons a rest =>
    obtain ⟨d, e⟩ := a
    have hd : d = k + 1 := hlevel (d, e) List.mem_cons_self
    have hrest := levelStream_of_level (fun b hb => hlevel b (List.mem_cons_of_mem _ hb)) hbehind
    subst hd
    rw [List.cons_append, levelStream, hrest, levelItems, if_pos (Nat.lt_succ_self k),
      List.map_cons, childItems]
    simp

/-! ### The entries of lines -/

/-- The entry of a line takes the deeper entries behind it as children and the next one as
its `else` line if it is one. -/
theorem arrange_cons (finish : Nat) (l : Line) (rest : List Line) :
    ∃ (next : Nat) (alternative : Option Entry) (siblings : List (Nat × Entry)),
      Entry.arrange finish (l :: rest) =
        (l.depth, .mk l.position.line next l.tokens
          (((Entry.arrange finish rest).takeWhile fun e => l.depth < e.1).map (·.2))
          alternative) :: siblings ∧
      (∀ e ∈ alternative, e.isElse = true) ∧
      ((Entry.arrange finish rest).dropWhile fun e => l.depth < e.1) =
        (alternative.toList.map fun e => (l.depth, e)) ++ siblings := by
  rw [Entry.arrange.eq_def finish (l :: rest)]
  dsimp only
  cases hbehind : (Entry.arrange finish rest).dropWhile fun e => l.depth < e.1 with
  | nil => exact ⟨_, none, [], rfl, by simp, rfl⟩
  | cons a siblings =>
    obtain ⟨d, e⟩ := a
    dsimp only
    split
    · next h =>
      refine ⟨_, some e, siblings, rfl, fun e' he' => ?_, ?_⟩
      · cases he'
        exact h.2
      · rw [h.1]
        rfl
    · exact ⟨_, none, (d, e) :: siblings, rfl, by simp, rfl⟩

/-- No entry is deeper than one before it. -/
theorem pairwise_arrange (finish : Nat) (lines : List Line) :
    (Entry.arrange finish lines).Pairwise fun a b => b.1 ≤ a.1 := by
  induction lines with
  | nil => exact .nil
  | cons l rest ih =>
    obtain ⟨next, alternative, siblings, heq, -, hsplit⟩ := arrange_cons finish l rest
    have hall := le_of_mem_dropWhile ih l.depth
    have hbehind := ih.sublist (List.dropWhile_sublist fun a => l.depth < a.1)
    rw [hsplit] at hall hbehind
    rw [heq]
    refine List.pairwise_cons.mpr ⟨fun b hb => ?_, (List.pairwise_append.mp hbehind).2.1⟩
    exact hall b (List.mem_append_right _ hb)

/-- The entries of a run are stepped. -/
theorem stepped_of_run {widths : List Nat} {lines : List Line} (h : Run widths lines)
    (finish : Nat) : Stepped widths.length (Entry.arrange finish lines) where
  first := by
    cases h with
    | done => simp [Entry.arrange]
    | @line _ _ l rest moves depth _ _ _ =>
      obtain ⟨next, alternative, siblings, heq, -, -⟩ := arrange_cons finish l rest
      rw [heq]
      intro a ha
      cases ha
      have := moves.length_le
      omega
  sorted := pairwise_arrange finish lines

/-- **The stream of a run is what its entries stand for.** -/
theorem itemsFrom_eq_levelStream {widths : List Nat} {lines : List Line} (h : Run widths lines)
    (finish : Position) (number : Nat) :
    (itemsFrom finish widths.length lines).map Prod.snd =
      levelStream widths.length (Entry.arrange number lines) := by
  induction h with
  | done =>
    rw [itemsFrom, Entry.arrange, levelStream, List.map_map]
    exact List.map_id _
  | @line widths inside l rest moves depth column silent later ih =>
    obtain ⟨next, alternative, siblings, heq, -, hsplit⟩ := arrange_cons number l rest
    have hlater := levelStream_of_stepped (stepped_of_run later number)
    rw [← depth] at ih hlater
    have hbehind : levelStream l.depth ((alternative.toList.map fun e => (l.depth, e)) ++ siblings) =
        alternativeItems alternative ++ levelStream l.depth siblings := by
      cases alternative with
      | none => rfl
      | some e =>
        show levelItems l.depth l.depth ++ e.items ++ levelStream l.depth siblings = _
        rw [levelItems_self]
        rfl
    rw [hsplit, hbehind] at hlater
    have hline : (l.items widths.length).map Prod.snd =
        levelItems widths.length l.depth ++ l.tokens.map Item.token ++ [.newline] := by
      rw [Line.items, List.map_map]
      exact List.map_id _
    rw [itemsFrom, List.map_append, hline, ih, hlater, heq, levelStream, Entry.items]
    simp

/-! ### What the reader may rely on -/

/-- Only lines with tokens have children, and `else` lines begin with `else`. -/
inductive Entry.Sound : Entry → Prop
  | mk {line next : Nat} {tokens : List Token} {children : List Entry}
    {alternative : Option Entry} (silent : tokens = [] → children = [])
    (inside : ∀ e ∈ children, e.Sound) (otherwise : ∀ e ∈ alternative, e.isElse = true)
    (behind : ∀ e ∈ alternative, e.Sound) :
    Entry.Sound (.mk line next tokens children alternative)

/-- Behind a line that says nothing, no entry is deeper. -/
theorem takeWhile_arrange_of_silent {inside : List Nat} {l : Line} {rest : List Line}
    (depth : l.depth = inside.length) (column : l.position.column = inside.headD 0 + 1)
    (hnext : ∀ n ∈ rest.head?, n.position.column ≤ l.position.column) (later : Run inside rest)
    (finish : Nat) : ((Entry.arrange finish rest).takeWhile fun e => l.depth < e.1) = [] := by
  cases later with
  | done => rfl
  | @line _ further n rest moves hdepth hcolumn _ _ =>
    obtain ⟨_, _, _, heq, -, -⟩ := arrange_cons finish n rest
    have hn : n.position.column ≤ l.position.column := hnext n rfl
    have hnot : ¬l.depth < n.depth := by
      cases moves with
      | deeper h =>
        -- A deeper line would stand further to the right.
        rw [hcolumn, column] at hn
        simp only [List.headD_cons] at hn
        omega
      | back h =>
        have := h.length_le
        omega
    rw [heq, List.takeWhile_cons_of_neg (by simpa using hnot)]

/-- The entries of a run are sound. -/
theorem sound_of_run {widths : List Nat} {lines : List Line} (h : Run widths lines)
    (finish : Nat) : ∀ a ∈ Entry.arrange finish lines, a.2.Sound := by
  induction h with
  | done => simp [Entry.arrange]
  | @line widths inside l rest moves depth column silent later ih =>
    obtain ⟨next, alternative, siblings, heq, helse, hsplit⟩ := arrange_cons finish l rest
    have hbehind : ∀ a ∈ (alternative.toList.map fun e => (l.depth, e)) ++ siblings,
        a.2.Sound := by
      rw [← hsplit]
      exact fun a ha => ih a ((List.dropWhile_sublist _).subset ha)
    rw [heq]
    intro a ha
    rcases List.mem_cons.mp ha with rfl | ha
    · refine .mk (fun htokens => ?_) (fun e he => ?_) helse (fun e he => ?_)
      · rw [takeWhile_arrange_of_silent depth column (silent htokens) later finish]
        rfl
      · obtain ⟨b, hb, rfl⟩ := List.mem_map.mp he
        exact ih b ((List.takeWhile_sublist _).subset hb)
      · cases he
        exact hbehind (l.depth, e) (by simp)
    · exact hbehind a (List.mem_append_right _ ha)

/-! ### Whole templates -/

/-- Entries that are all on the outermost level. -/
theorem levelStream_zero {es : List (Nat × Entry)} (h : ∀ a ∈ es, a.1 = 0) :
    levelStream 0 es = entryItems (es.map (·.2)) ++ [.finish] := by
  induction es with
  | nil => rfl
  | cons a rest ih =>
    obtain ⟨d, e⟩ := a
    have hd : d = 0 := h (d, e) List.mem_cons_self
    have hrest := ih fun b hb => h b (List.mem_cons_of_mem _ hb)
    subst hd
    rw [levelStream, levelItems_self, hrest, List.map_cons, entryItems]
    simp

/-- **The stream of a template is what its forest stands for, and the end.** A first line
that is indented would have to be the child of a line. -/
theorem items_eq_entryItems {source : String} {l : Layout} (h : Layout.scan source = .ok l)
    (hfirst : ∀ first ∈ l.lines.head?, first.depth = 0) :
    l.items.map Prod.snd = entryItems (Entry.forest l) ++ [.finish] := by
  have hrun := run_of_scan h
  have hzero : ∀ a ∈ Entry.arrange l.finish.line l.lines, a.1 = 0 := by
    have hsorted := (stepped_of_run hrun l.finish.line).sorted
    cases hlines : l.lines with
    | nil => simp [Entry.arrange]
    | cons first rest =>
      obtain ⟨next, alternative, siblings, heq, -, -⟩ :=
        arrange_cons l.finish.line first rest
      have hdepth : first.depth = 0 := hfirst first (by rw [hlines]; rfl)
      rw [hlines, heq] at hsorted
      rw [heq]
      intro a ha
      rcases List.mem_cons.mp ha with rfl | ha
      · exact hdepth
      · have := (List.pairwise_cons.mp hsorted).1 a ha
        dsimp only at this
        omega
  have hitems := itemsFrom_eq_levelStream hrun l.finish l.finish.line
  rw [Layout.items, Entry.forest, ← levelStream_zero hzero]
  exact hitems

/-- Every entry of a template is sound. -/
theorem sound_of_mem_forest {source : String} {l : Layout} (h : Layout.scan source = .ok l) :
    ∀ e ∈ Entry.forest l, e.Sound := by
  intro e he
  obtain ⟨a, ha, rfl⟩ := List.mem_map.mp he
  exact sound_of_run (run_of_scan h) l.finish.line a ha

end Trellis
