import Trellis.Proofs.Chain

/-!
# `Trellis.Proofs.Coinciding`: two readings that can only say the same

One template is read in two places, or two templates are read that say the same. Either reading may
fail, and it may ask for other sources than the other one. `Coincide` says that the two give the
same whenever both succeed. The steps of the reader respect this relation.

A reading also collects mixins. One of them may have begun with some mixins that the other one did
not have, and then it has those under the ones that both have met (`Over`). Tables of mixins are in
ascending order (`Table.Ordered`), so tables in which the same is found are the same.
-/

set_option autoImplicit false

namespace Trellis

open Source

/-! ### Tables in order -/

namespace Table

variable {α : Type}

/-- The keys are in ascending order. -/
def Ordered (t : Table α) : Prop := t.keys.Pairwise (· < ·)

theorem ordered_nil : Ordered ([] : Table α) := .nil

theorem ordered_insert (key : String) (x : α) {t : Table α} (h : t.Ordered) :
    (t.insert key x).Ordered := by
  induction t with
  | nil => exact List.pairwise_singleton _ _
  | cons p rest ih =>
    obtain ⟨k, y⟩ := p
    obtain ⟨hfirst, hrest⟩ := List.pairwise_cons.mp h
    rw [insert]
    split
    · next hk =>
      subst hk
      exact h
    next hne =>
    split
    · next hlt =>
      refine List.pairwise_cons.mpr ⟨fun k' hk' => ?_, h⟩
      rcases List.mem_cons.mp hk' with rfl | hk'
      · exact hlt
      · exact String.lt_trans hlt (hfirst k' hk')
    · next hnot =>
      have hlt : k < key := by
        by_contra hle
        exact hne (String.le_antisymm hnot hle)
      refine List.pairwise_cons.mpr ⟨fun k' hk' => ?_, ih hrest⟩
      obtain ⟨q, hq, rfl⟩ := List.mem_map.mp hk'
      rcases mem_insert hq with rfl | hq
      · exact hlt
      · exact hfirst _ (List.mem_map_of_mem hq)

theorem ordered_insertAll (pairs : List (String × α)) {t : Table α} (h : t.Ordered) :
    (t.insertAll pairs).Ordered := by
  induction pairs generalizing t with
  | nil => exact h
  | cons p rest ih => exact ih (ordered_insert p.1 p.2 h)

/-- In front of the first key nothing is found. -/
theorem find?_eq_none_of_lt {key : String} {t : Table α} (h : ∀ k ∈ t.keys, key < k) :
    t.find? key = none := by
  induction t with
  | nil => rfl
  | cons p rest ih =>
    obtain ⟨k, y⟩ := p
    obtain ⟨hk, hrest⟩ := List.forall_mem_cons.mp h
    have hne : k ≠ key := by
      rintro rfl
      exact String.lt_irrefl k hk
    rw [find?, if_neg hne]
    exact ih hrest

/-- Tables in order in which the same is found are the same. -/
theorem Ordered.ext {t t' : Table α} (h : t.Ordered) (h' : t'.Ordered)
    (hfind : ∀ key, t.find? key = t'.find? key) : t = t' := by
  have hhead {k : String} {x : α} {rest : Table α} : find? k ((k, x) :: rest) = some x := if_pos rfl
  induction t generalizing t' with
  | nil =>
    cases t' with
    | nil => rfl
    | cons p rest' =>
      have := (hfind p.1).trans hhead
      cases this
  | cons p rest ih =>
    obtain ⟨k, x⟩ := p
    obtain ⟨hfirst, hrest⟩ := List.pairwise_cons.mp h
    cases t' with
    | nil =>
      have := (hfind k).symm.trans hhead
      cases this
    | cons p' rest' =>
      obtain ⟨k', x'⟩ := p'
      obtain ⟨hfirst', hrest'⟩ := List.pairwise_cons.mp h'
      -- The first key of each table is found in the other, so neither is in front of the other.
      have hk : k = k' := by
        refine String.le_antisymm (fun hlt => ?_) (fun hlt => ?_)
        · have hnone : find? k' ((k, x) :: rest) = none :=
            find?_eq_none_of_lt (List.forall_mem_cons.mpr
              ⟨hlt, fun k'' hk'' => String.lt_trans hlt (hfirst k'' hk'')⟩)
          rw [hfind, hhead] at hnone
          cases hnone
        · have hnone : find? k ((k', x') :: rest') = none :=
            find?_eq_none_of_lt (List.forall_mem_cons.mpr
              ⟨hlt, fun k'' hk'' => String.lt_trans hlt (hfirst' k'' hk'')⟩)
          rw [← hfind, hhead] at hnone
          cases hnone
      subst hk
      have hx := (hhead.symm.trans (hfind k)).trans hhead
      cases hx
      have hbehind : ∀ key, find? key rest = find? key rest' := by
        intro key
        by_cases hkey : k = key
        · subst hkey
          rw [find?_eq_none_of_lt hfirst, find?_eq_none_of_lt hfirst']
        · have := hfind key
          rwa [find?, find?, if_neg hkey, if_neg hkey] at this
      rw [ih hrest hrest' hbehind]

/-- What is found after putting in a table: what stands there, and else what stood there before. -/
theorem find?_insertAll {pairs : Table α} (h : pairs.Ordered) (t : Table α) (key : String) :
    (t.insertAll pairs).find? key = (pairs.find? key).or (t.find? key) := by
  induction pairs generalizing t with
  | nil => rfl
  | cons p rest ih =>
    obtain ⟨k, x⟩ := p
    obtain ⟨hfirst, hrest⟩ := List.pairwise_cons.mp h
    show find? key (insertAll rest (t.insert k x)) = _
    rw [ih hrest, find?_insert, find?]
    by_cases hkey : k = key
    · subst hkey
      rw [if_pos rfl, if_pos rfl, find?_eq_none_of_lt hfirst]
      rfl
    · rw [if_neg (Ne.symm hkey), if_neg hkey]

end Table

/-! ### Readings -/

/-- The second table has what the first one has, and else what a third one has. -/
structure Over (under t t' : Table Mixin) : Prop where
  ordered : t.Ordered
  ordered' : t'.Ordered
  find?_eq (name : String) : t'.find? name = (t.find? name).or (under.find? name)

namespace Over

variable {under t t' : Table Mixin}

theorem insertAll (h : Over under t t') (mixins : Table Mixin) :
    Over under (t.insertAll mixins) (t'.insertAll mixins) := by
  induction mixins generalizing t t' with
  | nil => exact h
  | cons m rest ih =>
    refine ih ⟨Table.ordered_insert m.1 m.2 h.ordered, Table.ordered_insert m.1 m.2 h.ordered', ?_⟩
    intro name
    rw [Table.find?_insert, Table.find?_insert, h.find?_eq]
    split <;> rfl

/-- Over nothing, the tables are the same. -/
theorem eq (h : Over [] t t') : t' = t := by
  refine h.ordered'.ext h.ordered fun name => ?_
  rw [h.find?_eq, Table.find?_nil, Option.or_none]

theorem empty (h : t.Ordered) : Over t [] t := ⟨Table.ordered_nil, h, fun _ => rfl⟩

/-- What was collected over a table may as well be added to it. -/
theorem trans_insertAll {mixins collected : Table Mixin} (h : Over under t t')
    (hover : Over t' mixins collected) : Over under (t.insertAll mixins) collected where
  ordered := Table.ordered_insertAll mixins h.ordered
  ordered' := hover.ordered'
  find?_eq name := by
    rw [hover.find?_eq, h.find?_eq, Table.find?_insertAll hover.ordered, Option.or_assoc]

end Over

/-- Two readings that give the same whenever both succeed. The second one has some more mixins. -/
structure Coincide (under : Table Mixin) {α : Type} (a a' : Building α) : Prop where
  coincide : ∀ p p' x x' q q', Over under p.mixins p'.mixins → a p = .ok x q → a' p' = .ok x' q' →
    x' = x ∧ Over under q.mixins q'.mixins

/-- Two askings that give the same whenever both succeed. -/
structure AskCoincide {α : Type} (a a' : Asking α) : Prop where
  coincide : ∀ p p' x x' q q', a p = .ok x q → a' p' = .ok x' q' → x' = x

namespace Coincide

variable {under : Table Mixin} {α β : Type}

/-- A reading that fails coincides with any other. -/
theorem of_error {a a' : Building α} (h : ∀ p x q, a p ≠ .ok x q) : Coincide under a a' where
  coincide p _ x _ q _ _ hx _ := (h p x q hx).elim

theorem result (x : α) : Coincide under (pure x) (pure x) where
  coincide p p' y y' q q' hover hy hy' := by
    cases hy
    cases hy'
    exact ⟨rfl, hover⟩

theorem bind {a a' : Building α} {k k' : α → Building β} (ha : Coincide under a a')
    (hk : ∀ x, Coincide under (k x) (k' x)) : Coincide under (a >>= k) (a' >>= k') where
  coincide p p' y y' q q' hover hy hy' := by
    obtain ⟨x, between, hx, hy⟩ := of_bind_eq_result hy
    obtain ⟨x', between', hx', hy'⟩ := of_bind_eq_result hy'
    obtain ⟨rfl, hover⟩ := ha.coincide _ _ _ _ _ _ hover hx hx'
    exact (hk x').coincide _ _ _ _ _ _ hover hy hy'

theorem addMixins (mixins : Table Mixin) :
    Coincide under (Trellis.addMixins mixins) (Trellis.addMixins mixins) where
  coincide p p' y y' q q' hover hy hy' := by
    cases hy
    cases hy'
    exact ⟨rfl, hover.insertAll mixins⟩

end Coincide

/-- The steps of the reader respect the relation. -/
theorem respects_coincide (under : Table Mixin) : Respects (fun a a' => Coincide under a a') where
  pure x := .result x
  fail _ _ _ _ := .of_error fun _ _ _ h => by cases h
  addMixins mixins := .addMixins mixins
  bind := .bind

section
variable {under : Table Mixin} {α : Type} {s s' : Surroundings}

theorem fail_coincide (line : Nat) (fault : ParseFault) (a' : Building α) :
    Coincide under (s.fail line fault) a' := .of_error fun _ _ _ h => by cases h

theorem check_coincide (line line' : Nat) (r : Except ParseFault α) :
    Coincide under (s.check line r) (s'.check line' r) := by
  cases r with
  | ok x => exact .result x
  | error fault => exact fail_coincide line fault _

theorem of_orMissing_eq_ok {line : Nat} {fault : ParseFault} {a : Asking α} {p q : Progress} {x : α}
    (h : s.orMissing line fault a p = .ok x q) :
    a p.asked = .ok x q.asked ∧ q.mixins = p.mixins := by
  rw [orMissing_eq, asking_eq] at h
  have h : resuming p (a p.asked) = .ok x q := of_blaming_eq_result h
  cases ha : a p.asked with
  | error e asked =>
    rw [ha] at h
    cases h
  | ok y asked =>
    rw [ha] at h
    cases h
    exact ⟨rfl, rfl⟩

theorem orMissing_coincide (line line' : Nat) (fault fault' : ParseFault) {a a' : Asking α}
    (h : AskCoincide a a') :
    Coincide under (s.orMissing line fault a) (s'.orMissing line' fault' a') where
  coincide p p' x x' q q' hover hx hx' := by
    obtain ⟨hx, hmixins⟩ := of_orMissing_eq_ok hx
    obtain ⟨hx', hmixins'⟩ := of_orMissing_eq_ok hx'
    rw [hmixins, hmixins']
    exact ⟨h.coincide _ _ _ _ _ _ hx hx', hover⟩

/-- Two surroundings in which a reference leads to the same template, and in which sources and
documents that can be had are the same. -/
structure Surroundings.Coincide (s s' : Surroundings) : Prop where
  resolve (target : String) :
    Reference.resolve s'.template target = Reference.resolve s.template target
  fetch (name : String) (h : Reference.isRaw name = true) : AskCoincide (s.fetch name) (s'.fetch name)
  load (name : String) : AskCoincide (s.load name) (s'.load name)

theorem includeNodes_coincide (h : s.Coincide s') (line line' : Nat) (target : String) :
    Coincide under (s.includeNodes line target) (s'.includeNodes line' target) := by
  unfold Surroundings.includeNodes
  rw [h.resolve]
  dsimp only
  split
  · next hraw =>
    exact (orMissing_coincide line line' _ _ (h.fetch _ hraw)).bind fun _ => .result _
  · exact (orMissing_coincide line line' _ _ (h.load _)).bind fun _ =>
      (Coincide.addMixins _).bind fun _ => .result _

theorem refuseChildren_coincide (children children' : List Entry) :
    Coincide under (refuseChildren s children) (refuseChildren s' children') := by
  cases children with
  | cons e rest => exact fail_coincide _ _ _
  | nil =>
    cases children' with
    | nil => exact .result ()
    | cons e rest => exact ⟨fun _ _ _ _ _ _ _ _ h => by cases h⟩

theorem refuseElse_coincide (alternative alternative' : Option Entry) :
    Coincide under (refuseElse s alternative) (refuseElse s' alternative') := by
  cases alternative with
  | some e => exact fail_coincide _ _ _
  | none =>
    cases alternative' with
    | none => exact .result ()
    | some e => exact ⟨fun _ _ _ _ _ _ _ _ h => by cases h⟩

end

/-! ### Documents -/

theorem of_collecting_eq_ok {b : Building (List Node)} {asked asked' : List String} {d : Document}
    (h : collecting b asked = .ok d asked') :
    ∃ q, b ⟨[], asked⟩ = .ok d.nodes q ∧ q.mixins = d.mixins := by
  rw [collecting_eq] at h
  have h : collected (b ⟨[], asked⟩) = .ok d asked' := h
  cases hb : b ⟨[], asked⟩ with
  | error e q =>
    rw [hb] at h
    cases h
  | ok nodes q =>
    rw [hb] at h
    cases h
    exact ⟨q, rfl, rfl⟩

theorem collecting_coincide {b b' : Building (List Node)} (h : Coincide [] b b') :
    AskCoincide (collecting b) (collecting b') where
  coincide p p' d d' q q' hd hd' := by
    obtain ⟨r, hb, hmixins⟩ := of_collecting_eq_ok hd
    obtain ⟨r', hb', hmixins'⟩ := of_collecting_eq_ok hd'
    obtain ⟨hnodes, hover⟩ := h.coincide _ _ _ _ _ _ (.empty Table.ordered_nil) hb hb'
    have hcollected : d'.mixins = d.mixins := hmixins'.symm.trans (hover.eq.trans hmixins)
    obtain ⟨nodes, mixins⟩ := d
    obtain ⟨nodes', mixins'⟩ := d'
    rw [Document.mk.injEq]
    exact ⟨hnodes, hcollected⟩

/-- The steps from entries to a document respect the relations. -/
theorem respectsAsking_coincide :
    RespectsAsking (fun a a' => Coincide [] a a') (fun a a' => AskCoincide a a') where
  reading := respects_coincide []
  pure x := ⟨fun _ _ _ _ _ _ h h' => by
    cases h
    cases h'
    rfl⟩
  fail _ _ _ _ := ⟨fun _ _ _ _ _ _ h => by cases h⟩
  bind ha hk := ⟨fun p p' y y' q q' hy hy' => by
    obtain ⟨x, between, hx, hy⟩ := of_bind_eq_result hy
    obtain ⟨x', between', hx', hy'⟩ := of_bind_eq_result hy'
    cases ha.coincide _ _ _ _ _ _ hx hx'
    exact (hk x).coincide _ _ _ _ _ _ hy hy'⟩
  collecting := collecting_coincide

/-- One template in surroundings that coincide. -/
theorem readDocument_coincide {s s' : Surroundings} (h : s.Coincide s')
    (htemplate : s'.template = s.template) (layout : Layout) : AskCoincide (readDocument s layout) (readDocument s' layout) := by
  refine readDocument_related respectsAsking_coincide ?_ layout.namesOnly_true
  exact {
    template := htemplate
    includeNodes := fun line target _ => includeNodes_coincide h line line target
    base := fun line target _ => ⟨fun p p' x x' q q' hx hx' => by
      rw [htemplate] at hx'
      exact (h.load _).coincide _ _ _ _ _ _ (of_blaming_eq_result hx) (of_blaming_eq_result hx')⟩ }

/-! ### Libraries -/

/-- Two libraries that have the same sources, but for one template. -/
def Library.SameBut (template : String) (l l' : Library) : Prop :=
  ∀ name, (name = template → Reference.isRaw name = true) → l'.source name = l.source name

namespace Library

variable {l l' : Library} {template : String}

theorem ask_coincide (h : l.SameBut template l') {name : String}
    (hname : name = template → Reference.isRaw name = true) :
    AskCoincide (l.ask name) (l'.ask name) where
  coincide p p' x x' q q' hx hx' := by
    unfold ask at hx hx'
    rw [h name hname] at hx'
    cases hsource : l.source name with
    | error e =>
      rw [hsource] at hx
      cases hx
    | ok source =>
      rw [hsource] at hx hx'
      cases hx
      cases hx'
      rfl

/-- What can be loaded from both libraries is the same, while that template is under way. -/
theorem load_coincide (h : l.SameBut template l') {unused unused' under under' : List String}
    (hunder : template ∈ under') (name : String) :
    AskCoincide (l.load unused under name) (l'.load unused' under' name) := by
  induction hn : unused.length using Nat.strongRecOn generalizing unused unused' under under' name with
  | ind n ih =>
  refine ⟨fun p p' d d' q q' hd hd' => ?_⟩
  obtain ⟨-, hmem, hresolve⟩ := of_load_eq_result hd
  obtain ⟨hnot, -, hresolve'⟩ := of_load_eq_result hd'
  obtain ⟨source, layout, hsource, hscan, hread⟩ := resolve_eq_ok_iff.mp hresolve
  obtain ⟨source', layout', hsource', hscan', hread'⟩ := resolve_eq_ok_iff.mp hresolve'
  have hother : name = template → Reference.isRaw name = true := by
    rintro rfl
    exact (hnot hunder).elim
  rw [h name hother, hsource] at hsource'
  cases hsource'
  cases hscan.symm.trans hscan'
  have hshorter : (unused.erase name).length < n := hn ▸ length_erase_lt hmem
  have hsurroundings : Surroundings.Coincide
      ⟨name, l.ask, l.load (unused.erase name) (under ++ [name])⟩
      ⟨name, l'.ask, l'.load (unused'.erase name) (under' ++ [name])⟩ :=
    { resolve := fun _ => rfl
      fetch := fun _ hraw => ask_coincide h fun _ => hraw
      load := fun target =>
        ih _ hshorter (List.mem_append_left _ hunder) target rfl }
  exact (readDocument_coincide hsurroundings rfl layout).coincide _ _ _ _ _ _ hread hread'

end Library

end Trellis
