import Mathlib.Data.Set.Defs
import Trellis.Cache

/-!
# `Trellis.Proofs.Cache`: whose thing a cache hands out

A cache is used by operations that follow each other: a request is fetched or looked for,
or everything is given up. `answers` lists what a run of operations hands out, each thing
next to the request that it answers.

What is made for a request should never answer another one. The key of a request is its
name, a hyphen and its version, put together without any mark of where the name ends, so
a hyphen inside a name or a version can be taken for the one in between. `key_eq_iff`
says when that happens: two requests have the same key exactly when they are the same or
`Overlap`.

`answers_own_iff` is the main statement. Over some set of requests, every answer of every
run was made for the request that it answers, if and only if no two requests of the set
overlap. The direction from right to left rests on one invariant, `Belongs`: what is kept
under a key was made for a request with that key. Every operation keeps it, since what is
found is put back under the key that found it, and what goes from a full cache leaves
everything else in place.

Versions that are plain numbers or fingerprints hold no hyphen, and then nothing
overlaps: `not_overlap_of_hyphen_notMem`.
-/

set_option autoImplicit false

namespace Trellis

/-- What a cache is asked for. -/
structure Cache.Request where
  name : String
  version : String
  deriving DecidableEq

namespace Cache

/-- The key of a request. -/
def Request.key (r : Request) : String := Cache.key r.name r.version

/-- One use of a cache. -/
inductive Operation where
  | fetch (r : Request)
  | get (r : Request)
  | clear
  deriving DecidableEq

/-- The request of an operation. -/
def Operation.request? : Operation → Option Request
  | .fetch r => some r
  | .get r => some r
  | .clear => none

/-! ### Keys -/

/-- A hyphen inside the version of the first request ends the name of the second. -/
def Overlap (r r' : Request) : Prop :=
  ∃ part, r'.name = r.name ++ "-" ++ part ∧ r.version = part ++ "-" ++ r'.version

theorem toList_key (r : Request) :
    r.key.toList = r.name.toList ++ '-' :: r.version.toList := by
  simp [Request.key, Cache.key]

/-- Overlapping requests, read as lists of characters. -/
theorem overlap_iff_toList {r r' : Request} :
    Overlap r r' ↔ ∃ part : List Char, r'.name.toList = r.name.toList ++ '-' :: part ∧
      r.version.toList = part ++ '-' :: r'.version.toList := by
  constructor
  · rintro ⟨part, hname, hversion⟩
    exact ⟨part.toList, by simp [hname], by simp [hversion]⟩
  · rintro ⟨part, hname, hversion⟩
    refine ⟨String.ofList part, ?_, ?_⟩
    · rw [← String.toList_inj]
      simp [hname]
    · rw [← String.toList_inj]
      simp [hversion]

/-- A request is known by the characters of its name and its version. -/
theorem Request.eq_of_toList {r r' : Request} (hname : r.name.toList = r'.name.toList)
    (hversion : r.version.toList = r'.version.toList) : r = r' := by
  obtain ⟨name, version⟩ := r
  obtain ⟨name', version'⟩ := r'
  rw [Request.mk.injEq]
  exact ⟨String.toList_inj.mp hname, String.toList_inj.mp hversion⟩

/-- Two requests have one key exactly when they are the same or one overlaps the other:
both split the key at a hyphen, at the same one or at two different ones. -/
theorem key_eq_iff {r r' : Request} :
    r.key = r'.key ↔ r = r' ∨ Overlap r r' ∨ Overlap r' r := by
  rw [← String.toList_inj, toList_key, toList_key, overlap_iff_toList, overlap_iff_toList]
  constructor
  · intro h
    -- One name is the beginning of the other. What is left over of it is empty or begins
    -- with the hyphen of the shorter one.
    rcases List.append_eq_append_iff.mp h with ⟨left, hname, hrest⟩ | ⟨left, hname, hrest⟩
    · cases left with
      | nil =>
        rw [List.append_nil] at hname
        exact Or.inl (Request.eq_of_toList hname.symm (List.cons.inj hrest).2)
      | cons c part =>
        obtain ⟨rfl, hversion⟩ := List.cons.inj hrest
        exact Or.inr (Or.inl ⟨part, hname, hversion⟩)
    · cases left with
      | nil =>
        rw [List.append_nil] at hname
        exact Or.inl (Request.eq_of_toList hname (List.cons.inj hrest).2.symm)
      | cons c part =>
        obtain ⟨rfl, hversion⟩ := List.cons.inj hrest
        exact Or.inr (Or.inr ⟨part, hname, hversion⟩)
  · rintro (rfl | ⟨part, hname, hversion⟩ | ⟨part, hname, hversion⟩)
    · rfl
    · simp [hname, hversion]
    · simp [hname, hversion]

/-- A request does not overlap itself: its name would be longer than it is. -/
theorem Overlap.ne {r r' : Request} (h : Overlap r r') : r ≠ r' := by
  rintro rfl
  obtain ⟨part, hname, -⟩ := overlap_iff_toList.mp h
  have := congrArg List.length hname
  simp at this

/-- A request whose version holds no hyphen overlaps nothing. -/
theorem not_overlap_of_hyphen_notMem {r r' : Request} (h : '-' ∉ r.version.toList) :
    ¬ Overlap r r' := by
  intro ho
  obtain ⟨part, -, hversion⟩ := overlap_iff_toList.mp ho
  exact h (by simp [hversion])

/-- Without hyphens in the versions, the key tells the name and the version. -/
theorem eq_of_key_eq_of_hyphen_notMem {name version name' version' : String}
    (h : '-' ∉ version.toList) (h' : '-' ∉ version'.toList)
    (hkey : key name version = key name' version') : name = name' ∧ version = version' := by
  have heq : (⟨name, version⟩ : Request) = ⟨name', version'⟩ := by
    have hkeys : (⟨name, version⟩ : Request).key = (⟨name', version'⟩ : Request).key := hkey
    rcases key_eq_iff.mp hkeys with heq | ho | ho
    · exact heq
    · exact absurd ho (not_overlap_of_hyphen_notMem h)
    · exact absurd ho (not_overlap_of_hyphen_notMem h')
  exact ⟨congrArg Request.name heq, congrArg Request.version heq⟩

/-! ### Runs of operations -/

section
variable {α σ ε : Type}

/-- Performs one operation: what it hands out and for which request, and the cache after
it. What is fetched and not there is made by `make`, which has a state of its own. -/
def perform (make : Request → σ → Except ε α × σ) (c : Cache α) (s : σ) :
    Operation → Option (Request × α) × Cache α × σ
  | .fetch r =>
    let (result, c, s) := c.fetch r.name r.version (make r) s
    (result.toOption.map fun a => (r, a), c, s)
  | .get r =>
    let (found, c) := c.get r.name r.version
    (found.map fun a => (r, a), c, s)
  | .clear => (none, c.clear, s)

/-- What a run of operations hands out, in order, each thing next to its request. -/
def answers (make : Request → σ → Except ε α × σ) (c : Cache α) (s : σ) :
    List Operation → List (Request × α)
  | [] => []
  | o :: rest =>
    let (handed, c, s) := perform make c s o
    handed.toList ++ answers make c s rest

/-- Whatever `make` makes for a request is made for it, as `owner` tells. -/
def MakesOwn (owner : α → Request) (make : Request → σ → Except ε α × σ) : Prop :=
  ∀ r s a, (make r s).1 = .ok a → owner a = r

/-! ### What is kept belongs to its key -/

/-- Each thing that is kept was made for a request of the set, and is kept under the key
of that request. -/
def Belongs (owner : α → Request) (requests : Set Request) (c : Cache α) : Prop :=
  ∀ e ∈ c.entries, owner e.2 ∈ requests ∧ e.1 = (owner e.2).key

theorem belongs_empty (owner : α → Request) (requests : Set Request) (capacity : Nat) :
    Belongs owner requests (.empty capacity : Cache α) := by
  intro e he
  simp [Cache.empty] at he

theorem belongs_clear {owner : α → Request} {requests : Set Request} (c : Cache α) :
    Belongs owner requests c.clear := by
  intro e he
  simp [Cache.clear] at he

/-- What is kept after a use is the thing used or was kept before. -/
theorem mem_use {c : Cache α} {k : String} {a : α} {e : String × α}
    (h : e ∈ (c.use k a).entries) : e = (k, a) ∨ e ∈ c.entries := by
  rcases List.mem_cons.mp (List.mem_of_mem_take h) with he | he
  · exact Or.inl he
  · exact Or.inr (List.mem_filter.mp he).1

/-- Using a thing under its own key keeps the invariant. -/
theorem belongs_use {owner : α → Request} {requests : Set Request} {c : Cache α} {k : String}
    {a : α} (h : Belongs owner requests c) (ha : owner a ∈ requests) (hk : k = (owner a).key) :
    Belongs owner requests (c.use k a) := by
  intro e he
  rcases mem_use he with rfl | he
  · exact ⟨ha, hk⟩
  · exact h e he

/-- What is found under a key is kept under it. -/
theorem mem_of_find? {c : Cache α} {k : String} {a : α} (h : c.find? k = some a) :
    (k, a) ∈ c.entries := by
  obtain ⟨before, after, heq, -⟩ := List.lookup_eq_some_iff.mp h
  rw [heq]
  exact List.mem_append_right _ List.mem_cons_self

/-- A fetch finds a thing, or makes it and keeps it, or fails to make it. -/
theorem fetch_cases (c : Cache α) (name version : String) (make : σ → Except ε α × σ) (s : σ) :
    (∃ a, c.find? (key name version) = some a ∧
      c.fetch name version make s = (.ok a, c.use (key name version) a, s)) ∨
    (∃ a s', make s = (.ok a, s') ∧
      c.fetch name version make s = (.ok a, c.use (key name version) a, s')) ∨
    (∃ e s', make s = (.error e, s') ∧ c.fetch name version make s = (.error e, c, s')) := by
  rw [fetch]
  split
  · next a hfind => exact Or.inl ⟨a, hfind, rfl⟩
  · split
    · next a s' hmake => exact Or.inr (Or.inl ⟨a, s', hmake, rfl⟩)
    · next e s' hmake => exact Or.inr (Or.inr ⟨e, s', hmake, rfl⟩)

/-- Looking finds a thing or not, and makes nothing. -/
theorem get_cases (c : Cache α) (name version : String) :
    (∃ a, c.find? (key name version) = some a ∧
      c.get name version = (some a, c.use (key name version) a)) ∨
    (c.find? (key name version) = none ∧ c.get name version = (none, c)) := by
  rw [get]
  split
  · next a hfind => exact Or.inl ⟨a, hfind, rfl⟩
  · next hfind => exact Or.inr ⟨hfind, rfl⟩

/-- Where nothing overlaps, the key tells the request. -/
theorem eq_of_key_eq {requests : Set Request}
    (hno : ∀ r ∈ requests, ∀ r' ∈ requests, ¬ Overlap r r') {r r' : Request}
    (hr : r ∈ requests) (hr' : r' ∈ requests) (h : r.key = r'.key) : r = r' := by
  rcases key_eq_iff.mp h with heq | ho | ho
  · exact heq
  · exact absurd ho (hno r hr r' hr')
  · exact absurd ho (hno r' hr' r hr)

/-- Where nothing overlaps, what is found for a request was made for it. -/
theorem owner_of_find? {owner : α → Request} {requests : Set Request}
    (hno : ∀ r ∈ requests, ∀ r' ∈ requests, ¬ Overlap r r') {c : Cache α}
    (hc : Belongs owner requests c) {r : Request} (hr : r ∈ requests) {a : α}
    (h : c.find? r.key = some a) : owner a = r := by
  obtain ⟨ha, hkey⟩ := hc (r.key, a) (mem_of_find? h)
  exact (eq_of_key_eq hno hr ha hkey).symm

/-- An operation on a request of the set hands out what was made for that request, and
keeps the invariant. -/
theorem perform_own {owner : α → Request} {make : Request → σ → Except ε α × σ}
    (hmake : MakesOwn owner make) {requests : Set Request}
    (hno : ∀ r ∈ requests, ∀ r' ∈ requests, ¬ Overlap r r') {c : Cache α}
    (hc : Belongs owner requests c) (s : σ) {o : Operation}
    (ho : ∀ r, o.request? = some r → r ∈ requests) :
    (∀ x ∈ (perform make c s o).1, owner x.2 = x.1) ∧
      Belongs owner requests (perform make c s o).2.1 := by
  cases o with
  | fetch r =>
    have hr : r ∈ requests := ho r rfl
    rw [perform]
    rcases fetch_cases c r.name r.version (make r) s with ⟨a, hfind, heq⟩ | ⟨a, s', hm, heq⟩ |
      ⟨e, s', hm, heq⟩
    · -- A hit: the thing is handed out and used under the same key.
      have ha : owner a = r := owner_of_find? hno hc hr hfind
      rw [heq]
      exact ⟨by simp [Except.toOption, ha], belongs_use hc (ha ▸ hr) (by rw [ha, Request.key])⟩
    · -- A miss: the thing was made for the request just now.
      have ha : owner a = r := hmake r s a (by rw [hm])
      rw [heq]
      exact ⟨by simp [Except.toOption, ha], belongs_use hc (ha ▸ hr) (by rw [ha, Request.key])⟩
    · -- Nothing could be made, so nothing is handed out or kept.
      rw [heq]
      exact ⟨by simp [Except.toOption], hc⟩
  | get r =>
    have hr : r ∈ requests := ho r rfl
    rw [perform]
    rcases get_cases c r.name r.version with ⟨a, hfind, heq⟩ | ⟨-, heq⟩
    · have ha : owner a = r := owner_of_find? hno hc hr hfind
      rw [heq]
      exact ⟨by simp [ha], belongs_use hc (ha ▸ hr) (by rw [ha, Request.key])⟩
    · rw [heq]
      exact ⟨by simp, hc⟩
  | clear => exact ⟨by simp [perform], belongs_clear c⟩

/-- The invariant carries a whole run: every answer was made for its request. -/
theorem answers_own {owner : α → Request} {make : Request → σ → Except ε α × σ}
    (hmake : MakesOwn owner make) {requests : Set Request}
    (hno : ∀ r ∈ requests, ∀ r' ∈ requests, ¬ Overlap r r') (ops : List Operation) :
    ∀ (c : Cache α) (s : σ), Belongs owner requests c →
      (∀ o ∈ ops, ∀ r, o.request? = some r → r ∈ requests) →
      ∀ x ∈ answers make c s ops, owner x.2 = x.1 := by
  induction ops with
  | nil => intro c s _ _ x hx; simp [answers] at hx
  | cons o rest ih =>
    intro c s hc hops x hx
    obtain ⟨hanswer, hkept⟩ := perform_own hmake hno hc s (hops o List.mem_cons_self)
    rcases List.mem_append.mp hx with hx | hx
    · exact hanswer x (Option.mem_toList.mp hx)
    · exact ih _ _ hkept (fun o' ho' => hops o' (List.mem_cons_of_mem _ ho')) x hx

/-! ### Overlapping requests -/

/-- Making a thing that is nothing but its request. -/
def makeLabel (r : Request) (s : Unit) : Except Unit Request × Unit := (.ok r, s)

/-- Two fetches for requests with one key hand out the same thing. -/
theorem answers_two_fetches {r r' : Request} (h : r.key = r'.key) :
    answers makeLabel (.empty 1) () [.fetch r, .fetch r'] = [(r, r), (r', r)] := by
  have hkey : Cache.key r'.name r'.version = Cache.key r.name r.version := h.symm
  simp [answers, perform, fetch, find?, Cache.empty, use, makeLabel, hkey, Except.toOption]

end

/-- Over a set of requests, whatever the cache hands out in whatever run was made for the
request that it answers, exactly when no two requests of the set overlap. -/
theorem answers_own_iff (requests : Set Request) :
    (∀ (α σ ε : Type) (owner : α → Request) (make : Request → σ → Except ε α × σ),
      MakesOwn owner make → ∀ (capacity : Nat) (s : σ) (ops : List Operation),
        (∀ o ∈ ops, ∀ r, o.request? = some r → r ∈ requests) →
        ∀ x ∈ answers make (.empty capacity) s ops, owner x.2 = x.1) ↔
      ∀ r ∈ requests, ∀ r' ∈ requests, ¬ Overlap r r' := by
  constructor
  · -- Two overlapping requests of the set, fetched one after the other, get one thing.
    intro h r hr r' hr' ho
    have hrun := answers_two_fetches (key_eq_iff.mpr (Or.inr (Or.inl ho)))
    have hlabel : MakesOwn (fun r => r) makeLabel := by
      intro r s a ha
      cases ha
      rfl
    have hown := h Request Unit Unit (fun r => r) makeLabel hlabel 1 () [.fetch r, .fetch r']
      (by simp [Operation.request?, hr, hr']) (r', r) (by rw [hrun]; simp)
    exact ho.ne hown
  · intro hno α σ ε owner make hmake capacity s ops hops
    exact answers_own hmake hno ops _ s (belongs_empty owner requests capacity) hops

/-- Version `b-c` of `a` and version `c` of `a-b` overlap, so the second of two fetches gets
what was made for the first. -/
theorem answer_of_overlapping_name :
    MakesOwn (fun r => r) makeLabel ∧
      ∃ x ∈ answers makeLabel (.empty 1000) () [.fetch ⟨"a", "b-c"⟩, .fetch ⟨"a-b", "c"⟩],
        x.2 ≠ x.1 := by
  refine ⟨?_, (⟨"a-b", "c"⟩, ⟨"a", "b-c"⟩), ?_, ?_⟩
  · intro r s a ha
    cases ha
    rfl
  · decide
  · decide

end Cache

end Trellis
