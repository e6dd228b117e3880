import Mathlib.Data.List.Induction
import Trellis.Proofs.Cache

/-!
# `Trellis.Proofs.Recency`: what a cache still has

A cache has room for some things, and keeps those that were used last. This module says what
that means for a whole run of operations.

An operation touches the key of its request if it hands something out: it has found a thing,
or has made one. `Usage` goes along with a run and notes the keys that were touched since
everything was last given up, the latest first. `recency_of_run` is the main statement. After
any run, the keys in the cache are the first distinct ones of that list, as many as there is
room for, and they stand in this order. So whether a request will find something can be read
off the answers that were given before, and the statement goes on from there: for a key that
is present the thing is handed out that was made last under it, and nothing is made; for one
that is absent a fetch makes a thing, once, and a `get` does nothing at all.

What is made is not visible in the answers, as a thing that was found looks like one that was
made. `recording` makes things as some `make` does and keeps a list of them.

The invariant is `UpToDate`, and `upToDate_perform` is the step.
-/

set_option autoImplicit false

namespace Trellis

/-! ### Distinct keys of a list -/

section
variable {κ : Type} [DecidableEq κ]

/-- Leaving out a key and leaving out repetitions can change places. -/
theorem eraseDups_filter_ne (k : κ) (l : List κ) :
    (l.filter (· != k)).eraseDups = l.eraseDups.filter (· != k) := by
  -- The repetitions of the first key are left out before the others are looked at, so the
  -- induction is on the length.
  induction h : l.length using Nat.strongRecOn generalizing l with
  | ind n ih =>
    subst h
    cases l with
    | nil => rfl
    | cons a rest =>
      have hshorter : (rest.filter fun b => !b == a).length < (a :: rest).length :=
        Nat.lt_succ_of_le (List.length_filter_le _ rest)
      have hrest := ih _ hshorter (rest.filter fun b => !b == a) rfl
      rw [List.eraseDups_cons, List.filter_cons, List.filter_cons, ← hrest, List.filter_filter]
      by_cases ha : a = k
      · -- The first key is the one left out, on both sides with all its repetitions.
        subst ha
        simp [bne]
      · have hkeep : (a != k) = true := by simpa using ha
        rw [if_pos hkeep, if_pos hkeep, List.eraseDups_cons, List.filter_filter]
        simp only [Bool.and_comm]

theorem nodup_eraseDups (l : List κ) : l.eraseDups.Nodup := by
  induction h : l.length using Nat.strongRecOn generalizing l with
  | ind n ih =>
    subst h
    cases l with
    | nil => exact List.nodup_nil
    | cons a rest =>
      have hshorter : (rest.filter fun b => !b == a).length < (a :: rest).length :=
        Nat.lt_succ_of_le (List.length_filter_le _ rest)
      rw [List.eraseDups_cons, List.nodup_cons]
      refine ⟨?_, ih _ hshorter _ rfl⟩
      rw [List.mem_eraseDups]
      simp

/-- Of distinct keys, the first `n` without one of them are the first `n` of the first
`n + 1` without it: only one place is lost. -/
theorem take_filter_ne_take (k : κ) {l : List κ} (hl : l.Nodup) (n : Nat) :
    ((l.take (n + 1)).filter (· != k)).take n = (l.filter (· != k)).take n := by
  induction l generalizing n with
  | nil => simp
  | cons a rest ih =>
    obtain ⟨ha, hrest⟩ := List.nodup_cons.mp hl
    rw [List.take_succ_cons]
    by_cases hk : a = k
    · -- No other of the keys is left out.
      subst hk
      have hall : ∀ b ∈ rest, (b != a) = true := by
        intro b hb
        have hne : b ≠ a := fun hba => ha (hba ▸ hb)
        simpa using hne
      have hsome : ∀ b ∈ rest.take n, (b != a) = true :=
        fun b hb => hall b (List.mem_of_mem_take hb)
      simp [List.filter_eq_self.mpr hall, List.filter_eq_self.mpr hsome, List.take_take]
    · have hkeep : (a != k) = true := by simpa using hk
      rw [List.filter_cons, List.filter_cons, if_pos hkeep, if_pos hkeep]
      cases n with
      | zero => rfl
      | succ n => rw [List.take_succ_cons, List.take_succ_cons, ih hrest n]

/-- Putting a key in front of the first distinct ones gives the first distinct ones with that
key in front. -/
theorem take_cons_recent (k : κ) (l : List κ) (room : Nat) :
    (k :: (l.eraseDups.take room).filter (· != k)).take room = (k :: l).eraseDups.take room := by
  have hdups : (l.filter fun b => !b == k).eraseDups = l.eraseDups.filter (· != k) :=
    eraseDups_filter_ne k l
  rw [List.eraseDups_cons, hdups]
  cases room with
  | zero => rfl
  | succ n => rw [List.take_succ_cons, List.take_succ_cons, take_filter_ne_take k (nodup_eraseDups l)]

end

namespace Cache

variable {α σ ε : Type}

/-! ### Runs that are noted down -/

/-- Makes things as `make` does, and notes down what was made for which request, the latest
first. -/
def recording (make : Request → σ → Except ε α × σ) (r : Request) :
    σ × List (Request × Except ε α) → Except ε α × σ × List (Request × Except ε α)
  | (s, made) =>
    let (result, s) := make r s
    (result, s, (r, result) :: made)

/-- The thing that was made last under a key. Where the making failed, there is no thing. -/
def lastMade (made : List (Request × Except ε α)) (k : String) : Option α :=
  made.findSome? fun m => if m.1.key = k then m.2.toOption else none

/-- A cache in use. `touched` are the keys for which something was handed out since everything
was last given up, the latest first. -/
structure Usage (α σ : Type) where
  cache : Cache α
  state : σ
  touched : List String

namespace Usage

/-- A cache that was not used yet. -/
def start (capacity : Nat) (s : σ) : Usage α σ := ⟨.empty capacity, s, []⟩

/-- Performs an operation. -/
def perform (make : Request → σ → Except ε α × σ) (u : Usage α σ) (o : Operation) :
    Usage α σ :=
  let (handed, c, s) := Cache.perform make u.cache u.state o
  ⟨c, s,
    match o.request? with
    | none => []
    | some r => if handed.isSome then r.key :: u.touched else u.touched⟩

/-- Performs some operations, in order. -/
def run (make : Request → σ → Except ε α × σ) (u : Usage α σ) (ops : List Operation) :
    Usage α σ :=
  ops.foldl (perform make) u

theorem run_concat (make : Request → σ → Except ε α × σ) (u : Usage α σ) (ops : List Operation)
    (o : Operation) : u.run make (ops ++ [o]) = (u.run make ops).perform make o := by
  rw [run, run, List.foldl_append]
  rfl

end Usage

/-! ### One operation -/

/-- The keys in a cache, the one that was used last first. -/
def keys (c : Cache α) : List String := c.entries.map (·.1)

theorem find?_eq_none_iff {c : Cache α} {k : String} : c.find? k = none ↔ k ∉ c.keys := by
  rw [find?, List.lookup_eq_none_iff, keys, List.mem_map]
  constructor
  · rintro h ⟨e, he, rfl⟩
    have := h e he
    simp at this
  · intro h e he
    have hne : k ≠ e.1 := fun hk => h ⟨e, he, hk.symm⟩
    simpa using hne

theorem exists_of_mem_keys {c : Cache α} {k : String} (h : k ∈ c.keys) :
    ∃ a, c.find? k = some a := by
  cases hfind : c.find? k with
  | none => exact absurd h (find?_eq_none_iff.mp hfind)
  | some a => exact ⟨a, rfl⟩

theorem keys_use (c : Cache α) (k : String) (a : α) :
    (c.use k a).keys = (k :: c.keys.filter (· != k)).take c.capacity := by
  show (((k, a) :: c.entries.filter (·.1 != k)).take c.capacity).map (·.1) = _
  rw [List.map_take, List.map_cons, keys, List.filter_map]
  rfl

/-- A fetch finds what is there. -/
theorem fetch_of_find? {c : Cache α} {name version : String} {a : α}
    (h : c.find? (key name version) = some a) (make : σ → Except ε α × σ) (s : σ) :
    c.fetch name version make s = (.ok a, c.use (key name version) a, s) := by
  rw [fetch, h]

/-- A fetch makes what is not there. -/
theorem fetch_of_absent {c : Cache α} {name version : String}
    (h : c.find? (key name version) = none) (make : σ → Except ε α × σ) (s : σ) :
    c.fetch name version make s =
      match make s with
      | (.ok a, s) => (.ok a, c.use (key name version) a, s)
      | (.error e, s) => (.error e, c, s) := by
  unfold fetch
  cases make s with
  | mk result t =>
    cases result with
    | ok a => simp only [h]
    | error e => simp only [h]

section
variable {make : Request → σ → Except ε α × σ} {c : Cache α} {r : Request}

theorem perform_fetch_of_find? {a : α} (h : c.find? r.key = some a) (s : σ) :
    perform make c s (.fetch r) = (some (r, a), c.use r.key a, s) := by
  rw [perform, fetch_of_find? h]
  rfl

theorem perform_get_of_find? {a : α} (h : c.find? r.key = some a) (s : σ) :
    perform make c s (.get r) = (some (r, a), c.use r.key a, s) := by
  have hget : c.get r.name r.version = (some a, c.use r.key a) := by
    rw [get, show c.find? (key r.name r.version) = some a from h]
    rfl
  rw [perform, hget]
  rfl

theorem perform_get_of_absent (h : c.find? r.key = none) (s : σ) :
    perform make c s (.get r) = (none, c, s) := by
  have hget : c.get r.name r.version = (none, c) := by
    rw [get, show c.find? (key r.name r.version) = none from h]
  rw [perform, hget]
  rfl

/-- A thing that is not there is made, once, and what came of it is noted down. It is put into
the cache if there is one. -/
theorem perform_fetch_of_absent (h : c.find? r.key = none) (s : σ)
    (made : List (Request × Except ε α)) :
    perform (recording make) c (s, made) (.fetch r) =
      ((make r s).1.toOption.map fun a => (r, a),
        match (make r s).1 with
        | .ok a => c.use r.key a
        | .error _ => c,
        (make r s).2, (r, (make r s).1) :: made) := by
  rw [perform, fetch_of_absent h]
  simp only [recording]
  cases (make r s).1 with
  | ok a => rfl
  | error e => rfl

end

/-! ### What is noted down tells what is there -/

/-- The cache has the keys that were touched last, and under each of them what was made last
under it. -/
structure UpToDate (room : Nat) (u : Usage α (σ × List (Request × Except ε α))) : Prop where
  capacity : u.cache.capacity = room
  keys : u.cache.keys = u.touched.eraseDups.take room
  last : ∀ e ∈ u.cache.entries, lastMade u.state.2 e.1 = some e.2

section
variable {room : Nat} {make : Request → σ → Except ε α × σ}
  {u : Usage α (σ × List (Request × Except ε α))}

theorem upToDate_start (capacity : Nat) (s : σ) :
    UpToDate (max capacity 1) (.start capacity (s, []) : Usage α (σ × List (Request × Except ε α))) where
  capacity := rfl
  keys := by simp [keys, Usage.start, Cache.empty]
  last e he := absurd he List.not_mem_nil

/-- Touching a key puts it in front of the others. -/
theorem keys_use_of_upToDate (h : UpToDate room u) (k : String) (a : α) :
    (u.cache.use k a).keys = (k :: u.touched).eraseDups.take room := by
  rw [keys_use, h.keys, h.capacity, take_cons_recent]

/-- What is found under a key was made last under it, and finding it again keeps the cache up
to date. -/
theorem upToDate_of_found (h : UpToDate room u) {k : String} {a : α}
    (hfind : u.cache.find? k = some a) :
    lastMade u.state.2 k = some a ∧ UpToDate room ⟨u.cache.use k a, u.state, k :: u.touched⟩ := by
  have ha : lastMade u.state.2 k = some a := h.last (k, a) (mem_of_find? hfind)
  refine ⟨ha, h.capacity, keys_use_of_upToDate h k a, ?_⟩
  intro e he
  rcases mem_use he with rfl | he
  · exact ha
  · exact h.last e he

theorem lastMade_cons_of_error (r : Request) (e : ε) (made : List (Request × Except ε α))
    (k : String) : lastMade ((r, .error e) :: made) k = lastMade made k := by
  rw [lastMade, List.findSome?_cons]
  by_cases hk : r.key = k
  · rw [if_pos hk]
    rfl
  · rw [if_neg hk]
    rfl

theorem lastMade_cons_of_ok (r : Request) (a : α) (made : List (Request × Except ε α))
    (k : String) :
    lastMade ((r, .ok a) :: made) k = if r.key = k then some a else lastMade made k := by
  rw [lastMade, List.findSome?_cons]
  by_cases hk : r.key = k
  · rw [if_pos hk, if_pos hk]
    rfl
  · rw [if_neg hk, if_neg hk]
    rfl

/-- A thing that was made just now is the last one under its key. Whatever else is in the
cache stands under another key. -/
theorem upToDate_of_made (h : UpToDate room u) (r : Request) (a : α) (s : σ) :
    UpToDate room
      ⟨u.cache.use r.key a, (s, (r, .ok a) :: u.state.2), r.key :: u.touched⟩ := by
  refine ⟨h.capacity, keys_use_of_upToDate h r.key a, ?_⟩
  intro e he
  show lastMade ((r, .ok a) :: u.state.2) e.1 = some e.2
  rw [lastMade_cons_of_ok]
  rcases List.mem_cons.mp (List.mem_of_mem_take he) with rfl | he
  · rw [if_pos rfl]
  · obtain ⟨he, hne⟩ := List.mem_filter.mp he
    rw [if_neg (fun hk => by simp [hk] at hne)]
    exact h.last e he

/-- Where nothing could be made, everything stays as it was. -/
theorem upToDate_of_failed (h : UpToDate room u) (r : Request) (e : ε) (s : σ) :
    UpToDate room ⟨u.cache, (s, (r, .error e) :: u.state.2), u.touched⟩ := by
  refine ⟨h.capacity, h.keys, ?_⟩
  intro entry hentry
  show lastMade ((r, .error e) :: u.state.2) entry.1 = some entry.2
  rw [lastMade_cons_of_error]
  exact h.last entry hentry

/-- **Every operation keeps the cache up to date.** -/
theorem upToDate_perform (h : UpToDate room u) (o : Operation) :
    UpToDate room (u.perform (recording make) o) := by
  cases o with
  | fetch r =>
    unfold Usage.perform
    cases hfind : u.cache.find? r.key with
    | some a =>
      rw [perform_fetch_of_find? hfind]
      exact (upToDate_of_found h hfind).2
    | none =>
      rw [show u.state = (u.state.1, u.state.2) from rfl, perform_fetch_of_absent hfind]
      cases (make r u.state.1).1 with
      | ok a => exact upToDate_of_made h r a _
      | error e => exact upToDate_of_failed h r e _
  | get r =>
    unfold Usage.perform
    cases hfind : u.cache.find? r.key with
    | some a =>
      rw [perform_get_of_find? hfind]
      exact (upToDate_of_found h hfind).2
    | none =>
      rw [perform_get_of_absent hfind]
      exact h
  | clear =>
    refine ⟨h.capacity, ?_, fun e he => absurd he List.not_mem_nil⟩
    simp [Usage.perform, perform, Operation.request?, keys, clear]

theorem upToDate_run (h : UpToDate room u) (ops : List Operation) :
    UpToDate room (u.run (recording make) ops) := by
  induction ops using List.reverseRecOn with
  | nil => exact h
  | append_singleton ops o ih =>
    rw [Usage.run_concat]
    exact upToDate_perform ih o

end

/-! ### Any run -/

/-- After any run of operations on a cache with room for some things, one at least:

- the keys in it are the first distinct ones, as many as there is room for, of those that were
  touched since everything was last given up, the latest first;
- for a request with such a key, what was made last under the key is handed out, and nothing
  is made;
- for any other request a fetch makes a thing, exactly once, and uses it; if the making fails
  the cache stays as it is; and `get` changes nothing;
- giving everything up makes nothing. -/
theorem recency_of_run (make : Request → σ → Except ε α × σ) (capacity : Nat) (s : σ)
    (ops : List Operation) :
    let u : Usage α (σ × List (Request × Except ε α)) :=
      Usage.run (recording make) (.start capacity (s, [])) ops
    let present := u.touched.eraseDups.take (max capacity 1)
    u.cache.keys = present ∧
    (∀ r : Request, r.key ∈ present → ∃ a, lastMade u.state.2 r.key = some a ∧
      perform (recording make) u.cache u.state (.fetch r) =
        (some (r, a), u.cache.use r.key a, u.state) ∧
      perform (recording make) u.cache u.state (.get r) =
        (some (r, a), u.cache.use r.key a, u.state)) ∧
    (∀ r : Request, r.key ∉ present →
      perform (recording make) u.cache u.state (.fetch r) =
        ((make r u.state.1).1.toOption.map fun a => (r, a),
          match (make r u.state.1).1 with
          | .ok a => u.cache.use r.key a
          | .error _ => u.cache,
          (make r u.state.1).2, (r, (make r u.state.1).1) :: u.state.2) ∧
      perform (recording make) u.cache u.state (.get r) = (none, u.cache, u.state)) ∧
    perform (recording make) u.cache u.state .clear = (none, u.cache.clear, u.state) := by
  intro u present
  have hu : UpToDate (max capacity 1) u := upToDate_run (upToDate_start capacity s) ops
  have hkeys : u.cache.keys = present := hu.keys
  refine ⟨hkeys, ?_, ?_, rfl⟩
  · intro r hr
    rw [← hkeys] at hr
    obtain ⟨a, hfind⟩ := exists_of_mem_keys hr
    exact ⟨a, (upToDate_of_found hu hfind).1, perform_fetch_of_find? hfind _,
      perform_get_of_find? hfind _⟩
  · intro r hr
    rw [← hkeys] at hr
    have hfind : u.cache.find? r.key = none := find?_eq_none_iff.mpr hr
    exact ⟨perform_fetch_of_absent hfind _ _, perform_get_of_absent hfind _⟩

/-- Three things with room for two, the first of which is looked for before the third comes. -/
def threeForTwo : List Operation :=
  [.fetch ⟨"a", "1"⟩, .fetch ⟨"b", "1"⟩, .get ⟨"a", "1"⟩, .fetch ⟨"c", "1"⟩]

/-- The second of them is given up for the third. The first is found, and the second is made
anew. -/
theorem recency_of_run_threeForTwo :
    let u := Usage.run (recording makeLabel) (.start 2 ((), [])) threeForTwo
    u.cache.keys = ["c-1", "a-1"] ∧
    (perform (recording makeLabel) u.cache u.state (.get ⟨"a", "1"⟩)).1 =
      some (⟨"a", "1"⟩, ⟨"a", "1"⟩) ∧
    (perform (recording makeLabel) u.cache u.state (.fetch ⟨"b", "1"⟩)).2.2 =
      ((), (⟨"b", "1"⟩, .ok ⟨"b", "1"⟩) :: u.state.2) := by
  intro u
  obtain ⟨hkeys, hpresent, habsent, -⟩ := recency_of_run makeLabel 2 () threeForTwo
  have ha : Request.key ⟨"a", "1"⟩ ∈ u.touched.eraseDups.take (max 2 1) := by decide
  have hb : Request.key ⟨"b", "1"⟩ ∉ u.touched.eraseDups.take (max 2 1) := by decide
  refine ⟨hkeys.trans (by decide), ?_, ?_⟩
  · obtain ⟨a, hlast, -, hget⟩ := hpresent ⟨"a", "1"⟩ ha
    have hmade : lastMade u.state.2 (Request.key ⟨"a", "1"⟩) = some ⟨"a", "1"⟩ := by decide
    have heq : a = ⟨"a", "1"⟩ := Option.some.inj (hlast.symm.trans hmade)
    rw [hget, heq]
  · exact congrArg (fun p => p.2.2) (habsent ⟨"b", "1"⟩ hb).1

end Cache

end Trellis
