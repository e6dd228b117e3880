import Mathlib.Data.List.Forall2
import Trellis.Datum
import Trellis.Proofs.Coinciding
import Trellis.Proofs.Leading
import Trellis.Proofs.Steps

/-!
# `Trellis.Proofs.Conversion`: data as values

What `Datum.toValue` makes of a datum, and when it makes nothing of it.

* `Datum.visits` lists the parts of a datum in the order in which they are gone through, each behind
  its own parts and with its place: it may be a key, or a value of a map that no key waits for.
  `Visit.fault?` says what is wrong with a part in its place. `findSome?_visits` is the main lemma:
  the conversion fails with the first of these faults, and succeeds if there is none.
* `Datum.Shows` says what a value shows of the datum that it was made from. Of a map, that is for
  each key the last value that was put in under it (`Table.HoldsLast`).
* `Datum.bare` takes off all layers around all parts. The value is the same without them
  (`toValue_bare`), and a value comes back from its mirror image (`toValue_mirror`).

`Datum.toValue_faithful` puts this together. `ordered_of_toValue` says that no other values come out
than those that come back.
-/

set_option autoImplicit false

namespace Trellis

/-- What comes next in a map, be it a key or a value. -/
def MapStep.content {α : Type} : MapStep α → α
  | .key k => k
  | .value v => v

/-- Induction on data, with one hypothesis for all parts of a list, record or map. -/
@[elab_as_elim]
theorem Datum.partsInduction {motive : Datum → Prop} (null : motive .null)
    (bool : ∀ b, motive (.bool b)) (whole : ∀ n, motive (.whole n)) (float : ∀ x, motive (.float x))
    (str : ∀ s, motive (.str s))
    (list : ∀ items, (∀ d ∈ items, motive d) → motive (.list items))
    (record : ∀ fields, (∀ f ∈ fields, motive f.2) → motive (.record fields))
    (table : ∀ steps, (∀ s ∈ steps, motive s.content) → motive (.table steps))
    (wrapped : ∀ inner, motive inner → motive (.wrapped inner))
    (refusing : ∀ message, motive (.refusing message)) (d : Datum) : motive d := by
  refine Datum.rec (motive_2 := fun items => ∀ d ∈ items, motive d)
    (motive_3 := fun fields => ∀ f ∈ fields, motive f.2)
    (motive_4 := fun steps => ∀ s ∈ steps, motive s.content) (motive_5 := fun f => motive f.2)
    (motive_6 := fun s => motive s.content) null bool whole float str list record table wrapped
    refusing ?_ ?_ ?_ ?_ ?_ ?_ ?_ ?_ ?_ d
  all_goals simp +contextual [MapStep.content]

/-! ### Going through a datum -/

/-- What a part of a datum is to the map in which it stands, if there is anything to be said. -/
inductive Role where
  | part
  | key
  /-- A value that no key waits for. -/
  | keyless

/-- A part of a datum in its place. -/
structure Visit where
  role : Role
  datum : Datum

namespace Datum

mutual

/-- The parts inside a datum, in the order in which they are done with: each comes behind the parts
inside itself. -/
def inside : Datum → List Visit
  | .list items => itemVisits items
  | .record fields => fieldVisits fields
  | .table steps => stepVisits false steps
  | .wrapped inner => inner.inside ++ [⟨.part, inner⟩]
  | _ => []

def itemVisits : List Datum → List Visit
  | [] => []
  | d :: rest => d.inside ++ ⟨.part, d⟩ :: itemVisits rest

def fieldVisits : List (String × Datum) → List Visit
  | [] => []
  | (_, d) :: rest => d.inside ++ ⟨.part, d⟩ :: fieldVisits rest

/-- The parts of a map. Does a key wait for the next value? -/
def stepVisits (waiting : Bool) : List (MapStep Datum) → List Visit
  | [] => []
  | .key k :: rest => k.inside ++ ⟨.key, k⟩ :: stepVisits true rest
  | .value d :: rest => d.inside ++ ⟨if waiting then .part else .keyless, d⟩ :: stepVisits false rest

end

/-- All parts of a datum that stands in a place. It is the last one itself. -/
def visitsAs (role : Role) (d : Datum) : List Visit := d.inside ++ [⟨role, d⟩]

/-- All parts of a datum that stands alone. -/
def visits (d : Datum) : List Visit := d.visitsAs .part

end Datum

/-- The values that have a text to be a key. -/
def Value.isKey : Value → Bool
  | .str _ | .int _ | .float _ | .bool _ => true
  | _ => false

theorem Value.asKey_eq (v : Value) :
    v.asKey = if v.isKey then .ok v.text else .error (.badKey v.typeName) := by
  cases v <;> simp [asKey, isKey, text]

/-- What is wrong with a value in its place. -/
def Role.fault? (role : Role) (v : Value) : Option ConfigurationFault :=
  match role with
  | .part => none
  | .key => if v.isKey then none else some (.badKey v.typeName)
  | .keyless => some .missingKey

/-- What is wrong with a part by itself or in its place. A part of which something inside fails has
no place to be wrong in. -/
def Visit.fault? (x : Visit) : Option ConfigurationFault :=
  match x.datum with
  | .refusing message => some (.refused message)
  | d =>
    match d.toValue with
    | .ok v => x.role.fault? v
    | .error _ => none

/-- The fault by which a conversion fails. -/
def failure? {ε α : Type} : Except ε α → Option ε
  | .ok _ => none
  | .error e => some e

theorem failure?_map {ε α β : Type} (x : Except ε α) (f : α → β) :
    failure? (x.map f) = failure? x := by
  cases x <;> rfl

/-! ### The first fault -/

namespace Datum

/-- What is found first in a datum that stands in a place: the fault of its conversion, or else what
is wrong with its value there. -/
def faultAs? (role : Role) (d : Datum) : Option ConfigurationFault :=
  match d.toValue with
  | .ok v => role.fault? v
  | .error fault => some fault

variable {role : Role}

/-- A datum that has a value is all right by itself. -/
theorem fault?_of_toValue {d : Datum} {v : Value} (h : d.toValue = .ok v) :
    Visit.fault? ⟨role, d⟩ = role.fault? v := by
  cases d with
  | refusing message => cases h
  | _ => simp only [Visit.fault?, h]

/-- Behind the parts inside a datum, all that is left is what is wrong with it in its place. -/
theorem findSome?_of_inside {d : Datum} (h : d.inside.findSome? Visit.fault? = failure? d.toValue) :
    (d.visitsAs role).findSome? Visit.fault? = d.faultAs? role := by
  rw [visitsAs, List.findSome?_append, h, faultAs?, List.findSome?_singleton]
  cases hv : d.toValue with
  | error fault => rfl
  | ok v => exact fault?_of_toValue hv

/-- With a datum in front, the search goes on if there is nothing wrong with it in its place. -/
theorem findSome?_cons (d : Datum) (rest : List Visit)
    (h : (d.visitsAs role).findSome? Visit.fault? = d.faultAs? role) :
    (d.inside ++ ⟨role, d⟩ :: rest).findSome? Visit.fault? =
      (d.faultAs? role).or (rest.findSome? Visit.fault?) := by
  rw [← List.singleton_append, ← List.append_assoc, List.findSome?_append, ← visitsAs, h]

theorem findSome?_itemVisits {items : List Datum}
    (h : ∀ d ∈ items, ∀ role, (d.visitsAs role).findSome? Visit.fault? = d.faultAs? role) :
    (itemVisits items).findSome? Visit.fault? = failure? (itemValues items) := by
  induction items with
  | nil => rfl
  | cons d rest ih =>
    obtain ⟨hd, hrest⟩ := List.forall_mem_cons.mp h
    rw [itemVisits, findSome?_cons d _ (hd .part), ih hrest, faultAs?, itemValues]
    cases d.toValue with
    | error fault => rfl
    | ok v =>
      show failure? (itemValues rest) = failure? (itemValues rest >>= _)
      cases itemValues rest with
      | error fault => rfl
      | ok vs => rfl

theorem findSome?_fieldVisits {fields : List (String × Datum)}
    (h : ∀ f ∈ fields, ∀ role, (f.2.visitsAs role).findSome? Visit.fault? = f.2.faultAs? role)
    (entries : Table Value) :
    (fieldVisits fields).findSome? Visit.fault? = failure? (fieldValues entries fields) := by
  induction fields generalizing entries with
  | nil => rfl
  | cons f rest ih =>
    obtain ⟨name, d⟩ := f
    obtain ⟨hd, hrest⟩ := List.forall_mem_cons.mp h
    rw [fieldVisits, findSome?_cons d _ (hd .part), faultAs?, fieldValues]
    cases d.toValue with
    | error fault => rfl
    | ok v => exact ih hrest (Table.insert name v entries)

theorem findSome?_stepVisits {steps : List (MapStep Datum)}
    (h : ∀ s ∈ steps, ∀ role,
      (s.content.visitsAs role).findSome? Visit.fault? = s.content.faultAs? role)
    (entries : Table Value) (waiting : Option String) :
    (stepVisits waiting.isSome steps).findSome? Visit.fault? =
      failure? (stepValues entries waiting steps) := by
  induction steps generalizing entries waiting with
  | nil => rfl
  | cons s rest ih =>
    obtain ⟨hs, hrest⟩ := List.forall_mem_cons.mp h
    cases s with
    | key k =>
      rw [stepVisits, findSome?_cons k _ (hs .key), faultAs?, stepValues]
      cases k.toValue with
      | error fault => rfl
      | ok v =>
        show (Role.key.fault? v).or _ =
          failure? (v.asKey >>= fun key => stepValues entries (some key) rest)
        rw [Value.asKey_eq, Role.fault?]
        split
        · exact ih hrest entries (some v.text)
        · rfl
    | value d =>
      rw [stepVisits, findSome?_cons d _ (hs _), faultAs?, stepValues]
      cases d.toValue with
      | error fault => rfl
      | ok v =>
        -- Without a key, the value is wrong in its place, whatever comes behind.
        cases waiting with
        | none => rfl
        | some key => exact ih hrest (Table.insert key v entries) none

/-- **The conversion of a datum fails with the first fault of its parts.** -/
theorem findSome?_visitsAs (d : Datum) (role : Role) :
    (d.visitsAs role).findSome? Visit.fault? = d.faultAs? role := by
  induction d using Datum.partsInduction generalizing role with
  | list items ih =>
    refine findSome?_of_inside ?_
    rw [inside, findSome?_itemVisits ih, toValue, failure?_map]
  | record fields ih =>
    refine findSome?_of_inside ?_
    rw [inside, findSome?_fieldVisits ih [], toValue, failure?_map]
  | table steps ih =>
    refine findSome?_of_inside ?_
    rw [toValue, failure?_map]
    exact findSome?_stepVisits ih [] none
  | wrapped inner ih =>
    refine findSome?_of_inside ?_
    rw [inside, ← visitsAs, ih, faultAs?, toValue]
    cases inner.toValue <;> rfl
  | refusing message => rfl
  | _ => exact findSome?_of_inside rfl

/-- The same for a datum that stands alone. -/
theorem findSome?_visits (d : Datum) : d.visits.findSome? Visit.fault? = failure? d.toValue := by
  rw [visits, findSome?_visitsAs, faultAs?]
  cases d.toValue <;> rfl

/-- With a part, the parts inside it are gone through. -/
def Closed (xs : List Visit) : Prop := ∀ x ∈ xs, x.datum.inside ⊆ xs

theorem closed_visitsAs {d : Datum} (h : Closed d.inside) : Closed (d.visitsAs role) := by
  intro x hx
  rcases List.mem_append.mp hx with hx | hx
  · exact List.subset_append_of_subset_left _ (h x hx)
  · obtain rfl := List.mem_singleton.mp hx
    exact List.subset_append_left _ _

theorem Closed.append {xs ys : List Visit} (hxs : Closed xs) (hys : Closed ys) : Closed (xs ++ ys) := by
  intro x hx
  rcases List.mem_append.mp hx with hx | hx
  · exact List.subset_append_of_subset_left _ (hxs x hx)
  · exact List.subset_append_of_subset_right _ (hys x hx)

theorem closed_cons {d : Datum} {rest : List Visit} (hd : Closed d.inside) (hrest : Closed rest) :
    Closed (d.inside ++ ⟨role, d⟩ :: rest) := by
  have h : Closed (d.visitsAs role ++ rest) := (closed_visitsAs hd).append hrest
  rwa [visitsAs, List.append_assoc] at h

theorem closed_inside (d : Datum) : Closed d.inside := by
  induction d using Datum.partsInduction with
  | list items ih =>
    induction items with
    | nil => nofun
    | cons d rest ihrest =>
      obtain ⟨hd, hrest⟩ := List.forall_mem_cons.mp ih
      exact closed_cons hd (ihrest hrest)
  | record fields ih =>
    induction fields with
    | nil => nofun
    | cons f rest ihrest =>
      obtain ⟨hf, hrest⟩ := List.forall_mem_cons.mp ih
      exact closed_cons hf (ihrest hrest)
  | table steps ih =>
    have hsteps (waiting : Bool) : Closed (stepVisits waiting steps) := by
      induction steps generalizing waiting with
      | nil => nofun
      | cons s rest ihrest =>
        obtain ⟨hs, hrest⟩ := List.forall_mem_cons.mp ih
        cases s with
        | key k => exact closed_cons hs (ihrest hrest true)
        | value d => exact closed_cons hs (ihrest hrest false)
    exact hsteps false
  | wrapped inner ih => exact closed_visitsAs ih
  | _ => nofun

/-- In a datum that has a value, every part has one, and it is all right in its place. -/
theorem exists_of_mem_visits {d : Datum} {v : Value} (h : d.toValue = .ok v) {x : Visit}
    (hx : x ∈ d.visits) : ∃ w, x.datum.toValue = .ok w ∧ x.role.fault? w = none := by
  have hall : d.visits.findSome? Visit.fault? = none := by
    rw [findSome?_visits, h]
    rfl
  have hpart : (x.datum.visitsAs x.role).findSome? Visit.fault? = none := by
    refine List.findSome?_eq_none_iff.mpr fun y hy => List.findSome?_eq_none_iff.mp hall y ?_
    rcases List.mem_append.mp hy with hy | hy
    · exact closed_visitsAs (closed_inside d) x hx hy
    · exact List.mem_singleton.mp hy ▸ hx
  rw [findSome?_visitsAs, faultAs?] at hpart
  split at hpart
  · next w hw => exact ⟨w, hw, hpart⟩
  · cases hpart

/-- **A conversion succeeds if no part fails by itself or is wrong in its place.** -/
theorem toValue_isOk_iff (d : Datum) :
    (∃ v, d.toValue = .ok v) ↔
      (∀ x ∈ d.visits, ∀ message, x.datum ≠ .refusing message) ∧
      (∀ x ∈ d.visits, x.role ≠ .keyless) ∧
      (∀ x ∈ d.visits, x.role = .key → ∃ v, x.datum.toValue = .ok v ∧ v.isKey = true) := by
  constructor
  · rintro ⟨v, hv⟩
    refine ⟨fun x hx message hrefusing => ?_, fun x hx hrole => ?_, fun x hx hrole => ?_⟩
    all_goals obtain ⟨w, hw, hfault⟩ := exists_of_mem_visits hv hx
    · rw [hrefusing] at hw
      cases hw
    · rw [hrole] at hfault
      cases hfault
    · rw [hrole, Role.fault?] at hfault
      split at hfault
      · next hkey => exact ⟨w, hw, hkey⟩
      · cases hfault
  · rintro ⟨hrefusing, hkeyless, hkey⟩
    have hall : d.visits.findSome? Visit.fault? = none := by
      refine List.findSome?_eq_none_iff.mpr fun x hx => ?_
      obtain ⟨role, e⟩ := x
      cases he : e.toValue with
      | error fault =>
        cases e with
        | refusing message => exact absurd rfl (hrefusing _ hx message)
        | _ => simp only [Visit.fault?, he]
      | ok v =>
        rw [fault?_of_toValue he]
        cases role with
        | part => rfl
        | keyless => exact absurd rfl (hkeyless _ hx)
        | key =>
          obtain ⟨w, hw, hisKey⟩ := hkey _ hx rfl
          obtain rfl := Except.ok.inj (he.symm.trans hw)
          rw [Role.fault?, if_pos hisKey]
    rw [findSome?_visits] at hall
    cases hd : d.toValue with
    | ok v => exact ⟨v, rfl⟩
    | error fault =>
      rw [hd] at hall
      cases hall

end Datum

/-! ### What a value shows -/

namespace Table

variable {α : Type}

/-- A table in order with what was put in last under each key. -/
def HoldsLast (t : Table α) (written : List (String × α)) : Prop :=
  t.Ordered ∧ ∀ key, t.find? key = find? key written.reverse

theorem find?_append (key : String) (t u : Table α) :
    find? key (t ++ u) = (find? key t).or (find? key u) := by
  induction t with
  | nil => rfl
  | cons p rest ih =>
    obtain ⟨k, x⟩ := p
    rw [List.cons_append, find?, find?]
    split
    · rfl
    · exact ih

/-- What was put in last is found, or else what was there before. -/
theorem find?_insertAll_eq (key : String) (written : List (String × α)) (t : Table α) :
    find? key (insertAll written t) = (find? key written.reverse).or (find? key t) := by
  induction written generalizing t with
  | nil => rfl
  | cons p rest ih =>
    have hlater : find? key (insertAll (p :: rest) t) =
        (find? key rest.reverse).or (find? key (insert p.1 p.2 t)) := ih (insert p.1 p.2 t)
    have hlast : find? key (insert p.1 p.2 t) = (find? key [p]).or (find? key t) := by
      rw [find?_insert]
      simp only [find?, eq_comm]
      split <;> rfl
    rw [hlater, hlast, List.reverse_cons, find?_append, Option.or_assoc]

theorem holdsLast_insertAll (written : List (String × α)) : HoldsLast (insertAll written []) written := by
  refine ⟨ordered_insertAll written ordered_nil, fun key => ?_⟩
  rw [find?_insertAll_eq, find?_nil, Option.or_none]

/-- A table in order is what it is when it is put together again. -/
theorem Ordered.insertAll_nil {t : Table α} (h : t.Ordered) : insertAll t [] = t := by
  refine (ordered_insertAll t ordered_nil).ext h fun key => ?_
  rw [find?_insertAll h, find?_nil, Option.or_none]

end Table

namespace Datum

/-- The text of a key: a text, or a number or truth value as it is written. -/
def HasKeyText (k : Datum) (key : String) : Prop :=
  ∃ v, k.toValue = .ok v ∧ v.isKey = true ∧ v.text = key

/-- The values of a map, each with the key that waits for it: the last one in front of the value, if
no other value stands between them. -/
def assignments (waiting : Option Datum) : List (MapStep Datum) → List (Datum × Datum)
  | [] => []
  | .key k :: rest => assignments (some k) rest
  | .value d :: rest => (waiting.map fun k => (k, d)).toList ++ assignments none rest

/-- What a value shows of the datum that it was made from. -/
def Shows : Datum → Value → Prop
  | .null, v => v = .null
  | .bool b, v => v = .bool b
  | .whole n, v => v = Value.ofWhole n
  | .float x, v => v = .float x
  | .str s, v => v = .str s
  | .list items, v => ∃ vs, v = .list vs ∧ List.Forall₂ (fun d w => d.toValue = .ok w) items vs
  | .record fields, v => ∃ entries written, v = .map entries ∧ Table.HoldsLast entries written ∧
      List.Forall₂ (fun f p => f.1 = p.1 ∧ f.2.toValue = .ok p.2) fields written
  | .table steps, v => ∃ entries written, v = .map entries ∧ Table.HoldsLast entries written ∧
      List.Forall₂ (fun a p => HasKeyText a.1 p.1 ∧ a.2.toValue = .ok p.2) (assignments none steps)
        written
  | .wrapped inner, v => inner.toValue = .ok v
  | .refusing _, _ => False

theorem forall₂_of_itemValues {items : List Datum} {vs : List Value} (h : itemValues items = .ok vs) :
    List.Forall₂ (fun d v => d.toValue = .ok v) items vs := by
  induction items generalizing vs with
  | nil =>
    cases h
    exact .nil
  | cons d rest ih =>
    obtain ⟨v, hv, h⟩ := of_bind_eq_ok h
    obtain ⟨ws, hws, h⟩ := of_bind_eq_ok h
    cases h
    exact .cons hv (ih hws)

theorem exists_written_of_fieldValues {fields : List (String × Datum)} {entries t : Table Value}
    (h : fieldValues entries fields = .ok t) :
    ∃ written, t = Table.insertAll written entries ∧
      List.Forall₂ (fun f p => f.1 = p.1 ∧ f.2.toValue = .ok p.2) fields written := by
  induction fields generalizing entries with
  | nil =>
    cases h
    exact ⟨[], rfl, .nil⟩
  | cons f rest ih =>
    obtain ⟨name, d⟩ := f
    obtain ⟨v, hv, h⟩ := of_bind_eq_ok h
    obtain ⟨written, ht, hwritten⟩ := ih h
    exact ⟨(name, v) :: written, ht, .cons ⟨rfl, hv⟩ hwritten⟩

theorem hasKeyText_of_asKey {k : Datum} {v : Value} {key : String} (hv : k.toValue = .ok v)
    (hkey : v.asKey = .ok key) : HasKeyText k key := by
  rw [Value.asKey_eq] at hkey
  split at hkey
  · next hisKey =>
    cases hkey
    exact ⟨v, hv, hisKey, rfl⟩
  · cases hkey

/-- The key that waits is the text of the last key. -/
theorem exists_written_of_stepValues {steps : List (MapStep Datum)} {entries t : Table Value}
    {waiting : Option String} (h : stepValues entries waiting steps = .ok t) {k? : Option Datum}
    (hwaiting : Option.Rel HasKeyText k? waiting) :
    ∃ written, t = Table.insertAll written entries ∧
      List.Forall₂ (fun a p => HasKeyText a.1 p.1 ∧ a.2.toValue = .ok p.2) (assignments k? steps)
        written := by
  induction steps generalizing entries waiting k? with
  | nil =>
    cases h
    exact ⟨[], rfl, .nil⟩
  | cons s rest ih =>
    cases s with
    | key k =>
      obtain ⟨v, hv, h⟩ := of_bind_eq_ok h
      obtain ⟨key, hkey, h⟩ := of_bind_eq_ok h
      exact ih h (.some (hasKeyText_of_asKey hv hkey))
    | value d =>
      obtain ⟨v, hv, h⟩ := of_bind_eq_ok h
      cases hwaiting with
      | none => cases h
      | @some k key hk =>
        obtain ⟨written, ht, hwritten⟩ := ih h .none
        exact ⟨(key, v) :: written, ht, .cons ⟨hk, hv⟩ hwritten⟩

/-- **A value shows its datum.** -/
theorem shows_of_toValue {d : Datum} {v : Value} (h : d.toValue = .ok v) : d.Shows v := by
  cases d with
  | list items =>
    obtain ⟨vs, hvs, rfl⟩ := of_map_eq_ok h
    exact ⟨vs, rfl, forall₂_of_itemValues hvs⟩
  | record fields =>
    obtain ⟨t, ht, rfl⟩ := of_map_eq_ok h
    obtain ⟨written, rfl, hwritten⟩ := exists_written_of_fieldValues ht
    exact ⟨_, written, rfl, Table.holdsLast_insertAll written, hwritten⟩
  | table steps =>
    obtain ⟨t, ht, rfl⟩ := of_map_eq_ok h
    obtain ⟨written, rfl, hwritten⟩ := exists_written_of_stepValues ht .none
    exact ⟨_, written, rfl, Table.holdsLast_insertAll written, hwritten⟩
  | wrapped inner => exact h
  | refusing message => cases h
  | _ =>
    cases h
    rfl

end Datum

/-! ### Layers, and the way back -/

namespace Datum

mutual

/-- A datum without the layers around it and around all its parts. -/
def bare : Datum → Datum
  | .list items => .list (bareItems items)
  | .record fields => .record (bareFields fields)
  | .table steps => .table (bareSteps steps)
  | .wrapped inner => inner.bare
  | d => d

def bareItems : List Datum → List Datum
  | [] => []
  | d :: rest => d.bare :: bareItems rest

def bareFields : List (String × Datum) → List (String × Datum)
  | [] => []
  | (name, d) :: rest => (name, d.bare) :: bareFields rest

def bareSteps : List (MapStep Datum) → List (MapStep Datum)
  | [] => []
  | .key k :: rest => .key k.bare :: bareSteps rest
  | .value d :: rest => .value d.bare :: bareSteps rest

end

theorem itemValues_bare {items : List Datum} (h : ∀ d ∈ items, d.bare.toValue = d.toValue) :
    itemValues (bareItems items) = itemValues items := by
  induction items with
  | nil => rfl
  | cons d rest ih =>
    obtain ⟨hd, hrest⟩ := List.forall_mem_cons.mp h
    rw [bareItems, itemValues, itemValues, hd, ih hrest]

theorem fieldValues_bare {fields : List (String × Datum)}
    (h : ∀ f ∈ fields, f.2.bare.toValue = f.2.toValue) (entries : Table Value) :
    fieldValues entries (bareFields fields) = fieldValues entries fields := by
  induction fields generalizing entries with
  | nil => rfl
  | cons f rest ih =>
    obtain ⟨hf, hrest⟩ := List.forall_mem_cons.mp h
    rw [bareFields, fieldValues, fieldValues, hf]
    simp only [ih hrest]

theorem stepValues_bare {steps : List (MapStep Datum)}
    (h : ∀ s ∈ steps, s.content.bare.toValue = s.content.toValue) (entries : Table Value)
    (waiting : Option String) :
    stepValues entries waiting (bareSteps steps) = stepValues entries waiting steps := by
  induction steps generalizing entries waiting with
  | nil => rfl
  | cons s rest ih =>
    obtain ⟨hs, hrest⟩ := List.forall_mem_cons.mp h
    cases s with
    | key k =>
      rw [MapStep.content] at hs
      rw [bareSteps, stepValues, stepValues, hs]
      simp only [ih hrest]
    | value d =>
      rw [MapStep.content] at hs
      rw [bareSteps, stepValues, stepValues, hs]
      simp only [ih hrest]

/-- **Layers do not show**, wherever they are. -/
theorem toValue_bare (d : Datum) : d.bare.toValue = d.toValue := by
  induction d using Datum.partsInduction with
  | list items ih => rw [bare, toValue, toValue, itemValues_bare ih]
  | record fields ih => rw [bare, toValue, toValue, fieldValues_bare ih]
  | table steps ih => rw [bare, toValue, toValue, stepValues_bare ih]
  | wrapped inner ih => rw [bare, toValue, ih]
  | _ => rfl

end Datum

namespace Value

/-- All maps in the value are in order. -/
inductive Ordered : Value → Prop
  | null : Ordered .null
  | bool (b : Bool) : Ordered (.bool b)
  | int (n : Int64) : Ordered (.int n)
  | float (x : Float) : Ordered (.float x)
  | str (s : String) : Ordered (.str s)
  | list {items : List Value} (parts : ∀ v ∈ items, Ordered v) : Ordered (.list items)
  | map {entries : Table Value} (keys : entries.Ordered) (parts : ∀ p ∈ entries, Ordered p.2) :
    Ordered (.map entries)

mutual

/-- The datum that a value is the image of: a list for a list, and for a map a map with texts as
keys. -/
def mirror : Value → Datum
  | .null => .null
  | .bool b => .bool b
  | .int n => .whole n.toInt
  | .float x => .float x
  | .str s => .str s
  | .list items => .list (mirrorItems items)
  | .map entries => .table (mirrorSteps entries)

def mirrorItems : List Value → List Datum
  | [] => []
  | v :: rest => v.mirror :: mirrorItems rest

def mirrorSteps : List (String × Value) → List (MapStep Datum)
  | [] => []
  | (key, v) :: rest => .key (.str key) :: .value v.mirror :: mirrorSteps rest

end

theorem itemValues_mirror {items : List Value} (h : ∀ v ∈ items, v.mirror.toValue = .ok v) :
    Datum.itemValues (mirrorItems items) = .ok items := by
  induction items with
  | nil => rfl
  | cons v rest ih =>
    obtain ⟨hv, hrest⟩ := List.forall_mem_cons.mp h
    rw [mirrorItems, Datum.itemValues, hv, ih hrest]
    rfl

theorem stepValues_mirror {entries : List (String × Value)}
    (h : ∀ p ∈ entries, p.2.mirror.toValue = .ok p.2) (t : Table Value) :
    Datum.stepValues t none (mirrorSteps entries) = .ok (Table.insertAll entries t) := by
  induction entries generalizing t with
  | nil => rfl
  | cons p rest ih =>
    obtain ⟨key, v⟩ := p
    obtain ⟨hv, hrest⟩ := List.forall_mem_cons.mp h
    rw [mirrorSteps, Datum.stepValues]
    show Datum.stepValues t (some key) (.value v.mirror :: mirrorSteps rest) = _
    rw [Datum.stepValues, hv]
    exact ih hrest (Table.insert key v t)

/-- **A value comes back from its mirror image.** -/
theorem toValue_mirror {v : Value} (h : v.Ordered) : v.mirror.toValue = .ok v := by
  induction h with
  | int n =>
    rw [mirror, Datum.toValue, ofWhole, Expr.int64?_toInt]
  | list _ ih =>
    rw [mirror, Datum.toValue, itemValues_mirror ih]
    rfl
  | map keys _ ih =>
    rw [mirror, Datum.toValue, stepValues_mirror ih, keys.insertAll_nil]
    rfl
  | _ => rfl

end Value

namespace Datum

/-- What stands in a list on the right has a partner on the left. -/
theorem exists_of_forall₂ {α β : Type} {R : α → β → Prop} {xs : List α} {ys : List β}
    (h : List.Forall₂ R xs ys) : ∀ y ∈ ys, ∃ x ∈ xs, R x y := by
  induction h with
  | nil => nofun
  | @cons x y xs ys hxy _ ih =>
    refine List.forall_mem_cons.mpr ⟨⟨x, List.mem_cons_self, hxy⟩, fun z hz => ?_⟩
    obtain ⟨w, hw, hwz⟩ := ih z hz
    exact ⟨w, List.mem_cons_of_mem x hw, hwz⟩

theorem exists_of_mem_assignments {steps : List (MapStep Datum)} {k? : Option Datum}
    {a : Datum × Datum} (h : a ∈ assignments k? steps) : ∃ s ∈ steps, s.content = a.2 := by
  induction steps generalizing k? with
  | nil => cases h
  | cons s rest ih =>
    have later {k? : Option Datum} (hlater : a ∈ assignments k? rest) :
        ∃ t ∈ s :: rest, t.content = a.2 := by
      obtain ⟨t, ht, heq⟩ := ih hlater
      exact ⟨t, List.mem_cons_of_mem s ht, heq⟩
    cases s with
    | key k => exact later h
    | value d =>
      rcases List.mem_append.mp h with hd | hlater
      · obtain ⟨k, -, rfl⟩ := Option.map_eq_some_iff.mp (Option.mem_toList.mp hd)
        exact ⟨_, List.mem_cons_self, rfl⟩
      · exact later hlater

/-- **All maps that come out are in order**, at any depth. -/
theorem ordered_of_toValue {d : Datum} {v : Value} (h : d.toValue = .ok v) : v.Ordered := by
  -- What stands in a table was put in.
  have entries {written : List (String × Value)} (hparts : ∀ p ∈ written, p.2.Ordered) :
      Value.Ordered (.map (Table.insertAll written [])) := by
    refine .map (Table.holdsLast_insertAll written).1 fun p hp => ?_
    rcases Table.mem_insertAll hp with hp | hp
    · exact hparts p hp
    · cases hp
  induction d using Datum.partsInduction generalizing v with
  | list items ih =>
    obtain ⟨vs, hvs, rfl⟩ := of_map_eq_ok h
    refine .list fun w hw => ?_
    obtain ⟨d, hd, hdw⟩ := exists_of_forall₂ (forall₂_of_itemValues hvs) w hw
    exact ih d hd hdw
  | record fields ih =>
    obtain ⟨t, ht, rfl⟩ := of_map_eq_ok h
    obtain ⟨written, rfl, hwritten⟩ := exists_written_of_fieldValues ht
    refine entries fun p hp => ?_
    obtain ⟨f, hf, -, hfp⟩ := exists_of_forall₂ hwritten p hp
    exact ih f hf hfp
  | table steps ih =>
    obtain ⟨t, ht, rfl⟩ := of_map_eq_ok h
    obtain ⟨written, rfl, hwritten⟩ := exists_written_of_stepValues ht .none
    refine entries fun p hp => ?_
    obtain ⟨a, ha, -, hap⟩ := exists_of_forall₂ hwritten p hp
    obtain ⟨s, hs, heq⟩ := exists_of_mem_assignments ha
    exact ih s hs (heq ▸ hap)
  | wrapped inner ih => exact ih h
  | whole n =>
    cases h
    unfold Value.ofWhole
    split <;> constructor
  | refusing message => cases h
  | _ =>
    cases h
    constructor

/-- **The conversion of data is faithful, and fails only where it must.** A datum has a value if no
part refuses to be taken over, no value of a map lacks a key, and all keys have the text of a key.
Otherwise the fault is that of the first part that is wrong. The value shows the datum, and a datum
that is the mirror image of a value but for layers around its parts has this value. -/
theorem toValue_faithful (d : Datum) :
    ((∃ v, d.toValue = .ok v) ↔
      (∀ x ∈ d.visits, ∀ message, x.datum ≠ .refusing message) ∧
      (∀ x ∈ d.visits, x.role ≠ .keyless) ∧
      (∀ x ∈ d.visits, x.role = .key → ∃ v, x.datum.toValue = .ok v ∧ v.isKey = true)) ∧
    (∀ fault, d.toValue = .error fault ↔ d.visits.findSome? Visit.fault? = some fault) ∧
    (∀ v, d.toValue = .ok v → d.Shows v) ∧
    (∀ v : Value, v.Ordered → d.bare = v.mirror → d.toValue = .ok v) := by
  refine ⟨toValue_isOk_iff d, fun fault => ?_, fun v => shows_of_toValue, fun v hv hbare => ?_⟩
  · rw [findSome?_visits]
    cases d.toValue with
    | ok v => exact ⟨nofun, nofun⟩
    | error e => exact ⟨fun h => congrArg some (Except.error.inj h),
        fun h => congrArg Except.error (Option.some.inj h)⟩
  · rw [← toValue_bare, hbare]
    exact Value.toValue_mirror hv

/-- A person with a list of marks. -/
def person : Value := .map [("marks", .list [.null, .int 3]), ("name", .str "tom")]

/-- The same as data, with layers around the whole, a key, an item and a value. -/
def personData : Datum :=
  .wrapped (.table [.key (.wrapped (.str "marks")), .value (.list [.wrapped .null, .whole 3]),
    .key (.str "name"), .value (.wrapped (.wrapped (.str "tom")))])

/-- A map whose first value has no key and holds something that refuses to be taken over, and whose
key is none. -/
def brokenData : Datum := .table [.value (.list [.refusing "locked"]), .key .null, .value .null]

theorem toValue_faithful_person :
    person.Ordered ∧ personData.bare = person.mirror ∧ personData.toValue = .ok person ∧
    personData.Shows person ∧ brokenData.toValue = .error (.refused "locked") := by
  have hordered : person.Ordered := by
    refine .map (List.pairwise_pair.mpr (by decide)) fun p hp => ?_
    simp only [List.mem_cons, List.not_mem_nil, or_false] at hp
    rcases hp with rfl | rfl
    · refine .list fun v hv => ?_
      simp only [List.mem_cons, List.not_mem_nil, or_false] at hv
      rcases hv with rfl | rfl <;> constructor
    · constructor
  have hbare : personData.bare = person.mirror := rfl
  obtain ⟨-, -, hshows, hmirror⟩ := toValue_faithful personData
  obtain ⟨-, hbroken, -⟩ := toValue_faithful brokenData
  have hperson := hmirror person hordered hbare
  exact ⟨hordered, hbare, hperson, hshows person hperson, (hbroken _).mpr rfl⟩

end Datum

end Trellis
