import Trellis.Proofs.Coinciding
import Trellis.Proofs.Listing
import Trellis.Proofs.Recency
import Trellis.Proofs.Session

/-!
# `Trellis.Proofs.Precompiling`: asking for everything in advance

`Engine.precompile` asks for every name that the loader lists, in order, and ends at the first
one for which there is no template. `Session.precompile_of_run` says what that is good for, in
every state that a session with ordered sources can come to.

* It succeeds exactly when each name is `Ready` when it is reached: a template is kept for the
  name as it is now, or the name compiles. What is kept when a name is reached depends on the
  names before it, for they may have taken the place of what was kept.
* If there is room for all the names, every one of them gives from then on the template that was
  obtained for it, and nothing is compiled, for as long as only listed names are asked for and
  the loader, its sources and the options stay.
* If it fails, it fails with the error of the first name that is not ready, and nothing comes to be
  kept for this name and for those behind it.

The templates that were served last stand in front of the cache. `Cache.Leads` is the invariant:
some entries lead the others, each under a key of its own. A use puts its own entry in front of
them, and it pushes none of them out if there is room (`leads_use`). `Engine.Stocked` says it of
the templates that were served for some names; asking for a further name adds one of them
(`stocked_template`), and asking for one of these names again changes nothing but the order
(`stocked_again`). What the cache had before stands behind them and does not matter, with old
versions or without.

Keys put together from different names are different, since versions are hexadecimal.
-/

set_option autoImplicit false

namespace Trellis

/-! ### Entries in front of a cache -/

namespace Cache

variable {α : Type}

/-- The entries are the first ones of the cache, each under a key of its own. -/
structure Leads (c : Cache α) (kept : List (String × α)) : Prop where
  distinct : (kept.map (·.1)).Nodup
  front : kept <+: c.entries

theorem leads_nil (c : Cache α) : c.Leads [] := ⟨List.nodup_nil, List.nil_prefix⟩

variable {c : Cache α} {kept : List (String × α)} {k : String} {a : α}

/-- An entry in front of the others is found. -/
theorem find?_of_leads (h : c.Leads kept) (hmem : (k, a) ∈ kept) : c.find? k = some a := by
  obtain ⟨behind, hentries⟩ := h.front
  obtain ⟨before, after, hkept⟩ := List.append_of_mem hmem
  have hdistinct := h.distinct
  rw [hkept, List.map_append, List.map_cons] at hdistinct
  rw [find?, List.lookup_eq_some_iff]
  refine ⟨before, after ++ behind, by rw [← hentries, hkept]; simp, ?_⟩
  intro p hp
  -- An entry before it under the same key would be a second one.
  have hne : p.1 ≠ k := by
    have hdisjoint := (List.nodup_append.mp hdistinct).2.2
    exact hdisjoint p.1 (List.mem_map_of_mem hp) k List.mem_cons_self
  simpa using hne.symm

/-- Two entries in front under one key are the same. -/
theorem Leads.unique (h : c.Leads kept) {b : α} (ha : (k, a) ∈ kept) (hb : (k, b) ∈ kept) :
    a = b :=
  Option.some.inj ((find?_of_leads h ha).symm.trans (find?_of_leads h hb))

/-- A use puts its entry in front of the leading ones, which stay if there is room. -/
theorem leads_use (h : c.Leads kept) (hroom : (kept.filter (·.1 != k)).length < c.capacity) :
    (c.use k a).Leads ((k, a) :: kept.filter (·.1 != k)) := by
  constructor
  · rw [List.map_cons, List.nodup_cons]
    constructor
    · intro hk
      obtain ⟨p, hp, hpk⟩ := List.mem_map.mp hk
      have hne := (List.mem_filter.mp hp).2
      simp [hpk] at hne
    · exact h.distinct.sublist (List.filter_sublist.map _)
  · show _ <+: ((k, a) :: c.entries.filter (·.1 != k)).take c.capacity
    rw [List.prefix_take_iff]
    exact ⟨List.cons_prefix_cons.mpr ⟨rfl, h.front.filter _⟩, by simpa using hroom⟩

end Cache

/-! ### Names that are obtained -/

/-- No version of the loader has a hyphen in it. -/
def Loader.Unhyphened (l : Loader) : Prop :=
  ∀ name version, l.version name = .ok version → '-' ∉ version.toList

namespace Engine

/-- Is there a template for the name, kept for its version or compiled now? -/
def Ready (e : Engine) (name : String) : Prop :=
  (∃ version, e.loader.version name = .ok version ∧ Cache.key name version ∈ e.cache.keys) ∨
    ∃ document, (e.loader.document name).1 = .ok document

/-- Each of the names is obtained when those before it have been asked for. -/
def Obtains (e : Engine) (names : List String) : Prop :=
  ∀ before name after, names = before ++ name :: after →
    ∃ t, ((e.prepare before).2.template name).1 = .ok t

/-- Each of the names is ready when those before it have been asked for. -/
def ReadyInTurn (e : Engine) (names : List String) : Prop :=
  ∀ before name after, names = before ++ name :: after → (e.prepare before).2.Ready name

variable {e : Engine} {name : String} {names : List String} {t : Template} {error : Error}

/-- A template that is handed out while caching is on was used just now. -/
theorem template_used (hcaching : e.options.caching = true) (h : (e.template name).1 = .ok t) :
    ∃ version, e.loader.version name = .ok version ∧
      (e.template name).2.cache = e.cache.use (Cache.key name version) t := by
  rcases e.template_cases name with ⟨error, -, heq⟩ | ⟨version, hversion, ⟨u, -, -, heq⟩ |
    ⟨u, log, -, heq⟩ | ⟨error, log, -, heq⟩⟩
  · rw [heq] at h
    cases h
  · rw [heq] at h ⊢
    cases h
    exact ⟨version, hversion, rfl⟩
  · rw [heq] at h ⊢
    cases h
    exact ⟨version, hversion, if_pos hcaching⟩
  · rw [heq] at h
    cases h

/-- A name that fails leaves the cache as it is. -/
theorem template_failed (h : (e.template name).1 = .error error) :
    (e.template name).2.cache = e.cache := by
  rcases e.template_cases name with ⟨_, -, heq⟩ | ⟨version, -, ⟨u, -, -, heq⟩ | ⟨u, log, -, heq⟩ |
    ⟨_, log, -, heq⟩⟩
  · rw [heq]
  · rw [heq] at h
    cases h
  · rw [heq] at h
    cases h
  · rw [heq]

/-- What is kept for the name as it is now is handed out, and nothing is compiled. -/
theorem template_of_find? (hcaching : e.options.caching = true) {version : String}
    (hversion : e.loader.version name = .ok version)
    (hfind : e.cache.find? (Cache.key name version) = some t) :
    e.template name = (.ok t, { e with cache := e.cache.use (Cache.key name version) t }) := by
  unfold template
  rw [hversion]
  simp only [hcaching, if_true, Cache.fetch_of_find? hfind]

theorem template_capacity (e : Engine) (name : String) :
    (e.template name).2.cache.capacity = e.cache.capacity := by
  rcases e.template_cases name with ⟨_, -, heq⟩ | ⟨version, -, ⟨u, -, -, heq⟩ | ⟨u, log, -, heq⟩ |
    ⟨_, log, -, heq⟩⟩
  · rw [heq]
  · rw [heq]
    rfl
  · rw [heq]
    dsimp only
    split <;> rfl
  · rw [heq]

/-- While one name is asked for, nothing comes to be kept for another. -/
theorem mem_template {k : String × Template} (h : k ∈ (e.template name).2.cache.entries) :
    k ∈ e.cache.entries ∨ ∃ version, e.loader.version name = .ok version ∧
      k.1 = Cache.key name version := by
  rcases (e.template_builds name).kept k h with hk | -
  · exact .inl hk
  rcases e.template_cases name with ⟨_, -, heq⟩ | ⟨version, hversion, ⟨u, -, -, heq⟩ |
    ⟨u, log, -, heq⟩ | ⟨_, log, -, heq⟩⟩
  · rw [heq] at h
    exact .inl h
  · rw [heq] at h
    rcases Cache.mem_use h with rfl | h
    · exact .inr ⟨version, hversion, rfl⟩
    · exact .inl h
  · rw [heq] at h
    dsimp only at h
    split at h
    · rcases Cache.mem_use h with rfl | h
      · exact .inr ⟨version, hversion, rfl⟩
      · exact .inl h
    · exact .inl h
  · rw [heq] at h
    exact .inl h

/-! ### Asking for one name after the other -/

theorem prepare_cons_of_ok (names : List String) (h : (e.template name).1 = .ok t) :
    e.prepare (name :: names) = (e.template name).2.prepare names := by
  rw [prepare]
  cases hresult : e.template name with
  | mk result f =>
    rw [hresult] at h
    cases h
    rfl

theorem prepare_cons_of_error (names : List String) (h : (e.template name).1 = .error error) :
    e.prepare (name :: names) = (.error error, (e.template name).2) := by
  rw [prepare]
  cases hresult : e.template name with
  | mk result f =>
    rw [hresult] at h
    cases h
    rfl

/-- Either every name is obtained, or there is a first one that is not, and its error is the
error of the whole. -/
theorem prepare_cases (e : Engine) (names : List String) :
    ((e.prepare names).1 = .ok () ∧ e.Obtains names) ∨
    ∃ before name after error, names = before ++ name :: after ∧ e.Obtains before ∧
      (e.prepare before).1 = .ok () ∧ ((e.prepare before).2.template name).1 = .error error ∧
      e.prepare names = (.error error, ((e.prepare before).2.template name).2) := by
  induction names generalizing e with
  | nil => exact .inl ⟨rfl, fun before name after h => by simp at h⟩
  | cons first rest ih =>
    cases hfirst : (e.template first).1 with
    | error error =>
      refine .inr ⟨[], first, rest, error, rfl, fun before name after h => by simp at h, rfl, hfirst, ?_⟩
      rw [prepare_cons_of_error rest hfirst]
      rfl
    | ok t =>
      -- What is obtained behind the first name is obtained after it.
      have obtains : ∀ names, (e.template first).2.Obtains names → e.Obtains (first :: names) := by
        intro names hnames before name after hsplit
        cases before with
        | nil =>
          obtain ⟨rfl, -⟩ := List.cons.inj hsplit
          exact ⟨t, hfirst⟩
        | cons b before =>
          obtain ⟨rfl, htail⟩ := List.cons.inj hsplit
          rw [prepare_cons_of_ok before hfirst]
          exact hnames before name after htail
      rcases ih (e.template first).2 with ⟨hok, hrest⟩ | ⟨before, name, after, error, hsplit, hbefore, hok, herror, hall⟩
      · refine .inl ⟨?_, obtains rest hrest⟩
        rw [prepare_cons_of_ok rest hfirst]
        exact hok
      · refine .inr ⟨first :: before, name, after, error, by rw [hsplit]; rfl, obtains before hbefore, ?_⟩
        rw [prepare_cons_of_ok before hfirst, prepare_cons_of_ok rest hfirst]
        exact ⟨hok, herror, hall⟩

/-- All names succeed together exactly when each of them is obtained. -/
theorem prepare_ok_iff : (e.prepare names).1 = .ok () ↔ e.Obtains names := by
  rcases e.prepare_cases names with ⟨hok, hall⟩ | ⟨before, name, after, error, hsplit, -, -, herror, heq⟩
  · exact iff_of_true hok hall
  · refine iff_of_false (by rw [heq]; simp) fun hall => ?_
    obtain ⟨t, ht⟩ := hall before name after hsplit
    rw [herror] at ht
    cases ht

/-- Whatever comes to be kept while names are asked for is kept for one of them. -/
theorem mem_prepare {k : String × Template} (h : k ∈ (e.prepare names).2.cache.entries) :
    k ∈ e.cache.entries ∨ ∃ name ∈ names, ∃ version, e.loader.version name = .ok version ∧
      k.1 = Cache.key name version := by
  induction names generalizing e with
  | nil => exact .inl h
  | cons first rest ih =>
    have hloader := (e.template_builds first).loader
    have hmem : k ∈ (e.template first).2.cache.entries ∨ ∃ name ∈ rest, ∃ version,
        e.loader.version name = .ok version ∧ k.1 = Cache.key name version := by
      cases hfirst : (e.template first).1 with
      | error error =>
        rw [prepare_cons_of_error rest hfirst] at h
        exact .inl h
      | ok t =>
        rw [prepare_cons_of_ok rest hfirst] at h
        have hrest := ih h
        rwa [hloader] at hrest
    rcases hmem with hmem | ⟨name, hname, hversion⟩
    · rcases mem_template hmem with hmem | hversion
      · exact .inl hmem
      · exact .inr ⟨first, List.mem_cons_self, hversion⟩
    · exact .inr ⟨name, List.mem_cons_of_mem _ hname, hversion⟩

/-! ### Templates that stay at hand -/

/-- Caching is on, there is room for the templates that were served, and they lead the cache, each
of them kept for its name as it is now. -/
structure Stocked (e : Engine) (served : List (String × Template)) : Prop where
  caching : e.options.caching = true
  room : served.length ≤ e.cache.capacity
  kept : ∃ kept, e.cache.Leads kept ∧ kept.length ≤ served.length ∧
    ∀ p ∈ served, ∃ version, e.loader.version p.1 = .ok version ∧ (Cache.key p.1 version, p.2) ∈ kept

variable {served : List (String × Template)}

/-- What is served for a further name stays at hand, too. -/
theorem stocked_template (hplain : e.loader.Unhyphened) (h : e.Stocked served)
    (hroom : served.length < e.cache.capacity) (hnew : name ∉ served.map (·.1))
    (ht : (e.template name).1 = .ok t) : (e.template name).2.Stocked ((name, t) :: served) := by
  obtain ⟨version, hversion, hcache⟩ := template_used h.caching ht
  have hbuilds := e.template_builds name
  obtain ⟨kept, hleads, hlength, hkept⟩ := h.kept
  have hfilter := List.length_filter_le (·.1 != Cache.key name version) kept
  refine ⟨by rw [hbuilds.options, h.caching], by rw [template_capacity]; exact hroom, ?_⟩
  rw [hbuilds.loader, hcache]
  refine ⟨_, Cache.leads_use hleads (by omega), by rw [List.length_cons, List.length_cons]; omega, ?_⟩
  intro p hp
  rcases List.mem_cons.mp hp with rfl | hp
  · exact ⟨version, hversion, List.mem_cons_self⟩
  · obtain ⟨version', hversion', hmem⟩ := hkept p hp
    refine ⟨version', hversion', List.mem_cons_of_mem _ (List.mem_filter.mpr ⟨hmem, ?_⟩)⟩
    -- Another name has another key.
    have hne : Cache.key p.1 version' ≠ Cache.key name version := fun hkey =>
      hnew ((Cache.eq_of_key_eq_of_hyphen_notMem (hplain _ _ hversion') (hplain _ _ hversion) hkey).1 ▸
        List.mem_map_of_mem hp)
    simpa using hne

/-- A name that was served gives the same template again, and nothing is compiled. Everything
that was served stays at hand. -/
theorem stocked_again (h : e.Stocked served) (hmem : (name, t) ∈ served) :
    (e.template name).1 = .ok t ∧ (e.template name).2.log = e.log ∧
      (e.template name).2.Stocked served := by
  obtain ⟨kept, hleads, hlength, hkept⟩ := h.kept
  obtain ⟨version, hversion, hentry⟩ := hkept _ hmem
  -- The entry itself is left out, so there is room for it.
  have hshorter : (kept.filter (·.1 != Cache.key name version)).length < kept.length :=
    List.length_filter_lt_length_iff_exists.mpr ⟨_, hentry, by simp⟩
  have hroom := h.room
  have hleads' : (e.cache.use (Cache.key name version) t).Leads _ := Cache.leads_use hleads (by omega)
  rw [template_of_find? h.caching hversion (Cache.find?_of_leads hleads hentry)]
  refine ⟨rfl, rfl, h.caching, h.room, _, hleads', by rw [List.length_cons]; omega, ?_⟩
  intro p hp
  obtain ⟨version', hversion', hmem'⟩ := hkept p hp
  refine ⟨version', hversion', ?_⟩
  by_cases hkey : Cache.key p.1 version' = Cache.key name version
  · rw [hkey] at hmem' ⊢
    rw [hleads.unique hmem' hentry]
    exact List.mem_cons_self
  · exact List.mem_cons_of_mem _ (List.mem_filter.mpr ⟨hmem', by simpa using hkey⟩)

/-- Distinct names for which there is room are all at hand when they have been asked for, each
with the template that was obtained for it. -/
theorem stocked_prepare (hplain : e.loader.Unhyphened) (h : e.Stocked served)
    (hroom : served.length + names.length ≤ e.cache.capacity)
    (hnew : (served.map (·.1) ++ names).Nodup) (hall : e.Obtains names) :
    ∃ served', (e.prepare names).2.Stocked served' ∧ served ⊆ served' ∧
      ∀ before name after, names = before ++ name :: after →
        ∃ t, ((e.prepare before).2.template name).1 = .ok t ∧ (name, t) ∈ served' := by
  induction names generalizing e served with
  | nil => exact ⟨served, h, List.Subset.refl _, fun before name after hsplit => by simp at hsplit⟩
  | cons first rest ih =>
    obtain ⟨t, ht⟩ := hall [] first rest rfl
    replace ht : (e.template first).1 = .ok t := ht
    rw [List.length_cons] at hroom
    have hfirst : first ∉ served.map (·.1) := fun hmem =>
      (List.nodup_append.mp hnew).2.2 first hmem first List.mem_cons_self rfl
    have hstep := stocked_template hplain h (by omega) hfirst ht
    obtain ⟨served', hstocked, hsubset, hsplits⟩ := ih (by rwa [(e.template_builds first).loader]) hstep
      (by rw [template_capacity, List.length_cons]; omega)
      (List.nodup_middle.mp hnew) (by
        intro before name after hsplit
        have := hall (first :: before) name after (by rw [hsplit]; rfl)
        rwa [prepare_cons_of_ok before ht] at this)
    refine ⟨served', ?_, fun p hp => hsubset (List.mem_cons_of_mem _ hp), ?_⟩
    · rwa [prepare_cons_of_ok rest ht]
    · intro before name after hsplit
      cases before with
      | nil =>
        obtain ⟨rfl, -⟩ := List.cons.inj hsplit
        exact ⟨t, ht, hsubset List.mem_cons_self⟩
      | cons b before =>
        obtain ⟨rfl, htail⟩ := List.cons.inj hsplit
        rw [prepare_cons_of_ok before ht]
        exact hsplits before name after htail

/-- Names that were served are prepared without compiling anything. -/
theorem stocked_prepare_again (h : e.Stocked served) (hmem : ∀ name ∈ names, ∃ t, (name, t) ∈ served) :
    (e.prepare names).2.log = e.log ∧ (e.prepare names).2.Stocked served := by
  induction names generalizing e with
  | nil => exact ⟨rfl, h⟩
  | cons first rest ih =>
    obtain ⟨⟨t, ht⟩, hrest⟩ := List.forall_mem_cons.mp hmem
    obtain ⟨hresult, hlog, hstocked⟩ := stocked_again h ht
    rw [prepare_cons_of_ok rest hresult, ← hlog]
    exact ih hstocked hrest

end Engine

/-! ### Sources in memory -/

namespace Memory

variable {m : Memory}

theorem unhyphened_loader (m : Memory) : m.loader.Unhyphened := fun _ _ h => hyphen_notMem_version h

/-- What is listed stands in ascending order. -/
theorem pairwise_list (h : m.sources.Ordered) : m.loader.list.Pairwise (· < ·) :=
  List.Pairwise.filter _ h

theorem ordered_erase (h : m.sources.Ordered) (name : String) : (m.erase name).sources.Ordered :=
  h.sublist (List.filter_sublist.map _)

/-- A name without a version has no document, either, and for the same reason. -/
theorem document_of_version_error {name : String} {error : Error}
    (h : m.loader.version name = .error error) : (m.loader.document name).1 = .error error := by
  have hsource : m.loader.source name = .error error := by
    change (m.source name).map Text.fingerprint = .error error at h
    change m.source name = .error error
    cases hs : m.source name with
    | error e =>
      rw [hs] at h
      cases h
      rfl
    | ok source =>
      rw [hs] at h
      cases h
  have hresolve : m.loader.resolve m.loader.names [] name [] = .error error [name] := by
    rw [Library.resolve_eq]
    change EStateM.bind _ _ _ = _
    rw [EStateM.bind, Library.ask_of_missing hsource]
  rw [Library.document, hresolve]

end Memory

namespace Engine

variable {e : Engine} {m : Memory} {name : String}

/-- A name is obtained exactly when it is ready. -/
theorem template_ok_iff (hloader : e.loader = m.loader) (hcaching : e.options.caching = true) :
    (∃ t, (e.template name).1 = .ok t) ↔ e.Ready name := by
  constructor
  · rintro ⟨t, ht⟩
    rcases e.template_cases name with ⟨error, -, heq⟩ | ⟨version, hversion, ⟨u, -, hfind, -⟩ |
      ⟨u, log, hmake, -⟩ | ⟨error, log, -, heq⟩⟩
    · rw [heq] at ht
      cases ht
    · exact .inl ⟨version, hversion, List.mem_map_of_mem (Cache.mem_of_find? hfind)⟩
    · exact .inr ⟨u.document, (Template.of_compile (congrArg Prod.fst hmake)).2.2.2.2⟩
    · rw [heq] at ht
      cases ht
  · rintro (⟨version, hversion, hkept⟩ | ⟨document, hdocument⟩)
    · obtain ⟨t, hfind⟩ := Cache.exists_of_mem_keys hkept
      exact ⟨t, by rw [template_of_find? hcaching hversion hfind]⟩
    · cases hversion : e.loader.version name with
      | ok version => exact e.template_ok hversion hdocument
      | error error =>
        rw [hloader] at hversion hdocument
        rw [Memory.document_of_version_error hversion] at hdocument
        cases hdocument

/-- Names are obtained exactly when each is ready in its turn: while they are asked for, the loader
and the options stay. -/
theorem obtains_iff (hloader : e.loader = m.loader) (hcaching : e.options.caching = true)
    (names : List String) : e.Obtains names ↔ e.ReadyInTurn names := by
  refine forall_congr' fun before => forall_congr' fun name => forall_congr' fun after => ?_
  have hbuilds := e.prepare_builds before
  exact imp_congr_right fun _ =>
    template_ok_iff (hbuilds.loader.trans hloader) (by rw [hbuilds.options, hcaching])

/-- The error of a name that is not ready is that of reading it. -/
theorem document_of_template_error (hloader : e.loader = m.loader) {error : Error}
    (h : (e.template name).1 = .error error) : (e.loader.document name).1 = .error error := by
  rcases e.template_cases name with ⟨error', hversion, heq⟩ | ⟨version, -, ⟨u, -, -, heq⟩ |
    ⟨u, log, -, heq⟩ | ⟨error', log, hmake, heq⟩⟩
  · rw [heq] at h
    cases h
    rw [hloader] at hversion ⊢
    exact Memory.document_of_version_error hversion
  · rw [heq] at h
    cases h
  · rw [heq] at h
    cases h
  · rw [heq] at h
    cases h
    -- Compiling fails exactly when there is no document.
    have hcompile : (e.loader.document name).1.map _ = .error error := congrArg Prod.fst hmake
    cases hdocument : (e.loader.document name).1 with
    | error _ =>
      rw [hdocument] at hcompile
      cases hcompile
      rfl
    | ok document =>
      rw [hdocument] at hcompile
      cases hcompile

theorem precompile_ok_iff {n : Nat} :
    e.precompile.1 = .ok n ↔ n = e.loader.list.length ∧ e.Obtains e.loader.list := by
  rw [← prepare_ok_iff]
  show (e.prepare e.loader.list).1.map (fun _ => e.loader.list.length) = .ok n ↔ _
  cases (e.prepare e.loader.list).1 with
  | ok u => simp [Except.map, eq_comm]
  | error error => simp [Except.map]

/-- When precompiling fails, it ends at a first name, and the cache is as the names before this one
left it. -/
theorem precompile_error {error : Error} (h : e.precompile.1 = .error error) :
    ∃ before name after, e.loader.list = before ++ name :: after ∧ e.Obtains before ∧
      ((e.prepare before).2.template name).1 = .error error ∧
      e.precompile.2 = ((e.prepare before).2.template name).2 ∧
      e.precompile.2.cache = (e.prepare before).2.cache := by
  rcases e.prepare_cases e.loader.list with ⟨-, hall⟩ | ⟨before, name, after, error', hsplit, hbefore,
    -, hname, heq⟩
  · rw [precompile_ok_iff.mpr ⟨rfl, hall⟩] at h
    cases h
  · have hsame : e.precompile.1 = .error error' := by
      show (e.prepare e.loader.list).1.map _ = _
      rw [heq]
      rfl
    rw [hsame] at h
    cases h
    have hend : e.precompile.2 = ((e.prepare before).2.template name).2 := congrArg Prod.snd heq
    exact ⟨before, name, after, hsplit, hbefore, hname, hend, hend ▸ template_failed hname⟩

/-- Whatever is kept under the key of a name that was not asked for was kept before. -/
theorem mem_of_mem_prepare (hplain : e.loader.Unhyphened) {names : List String} (hname : name ∉ names)
    {version : String} (hversion : '-' ∉ version.toList) {t : Template}
    (h : (Cache.key name version, t) ∈ (e.prepare names).2.cache.entries) :
    (Cache.key name version, t) ∈ e.cache.entries := by
  rcases mem_prepare h with hmem | ⟨other, hother, version', hversion', hkey⟩
  · exact hmem
  · have hsame := (Cache.eq_of_key_eq_of_hyphen_notMem hversion (hplain _ _ hversion') hkey).1
    exact absurd (hsame ▸ hother) hname

end Engine

namespace Session

/-! ### Sources in order -/

/-- The sources of a session stand in order, if those of every loader do that is put in place. -/
theorem ordered_run {m : Memory} (options : Options) {steps : List Step} (hm : m.sources.Ordered)
    (hloaders : ∀ m', Step.setLoader m' ∈ steps → m'.sources.Ordered) :
    ((start m options).run steps).memory.sources.Ordered := by
  induction steps using List.reverseRecOn with
  | nil => exact hm
  | append_singleton steps a ih =>
    have hbefore := ih fun m' hm' => hloaders m' (List.mem_append_left _ hm')
    rw [run_concat]
    cases a with
    | insert name source => exact Table.ordered_insert _ _ hbefore
    | remove name => exact Memory.ordered_erase hbefore name
    | setLoader m' => exact hloaders m' (by simp)
    | template | render | precompile | setCaching | setPretty | setMode | share | shareAll | unshare
      | setFilter | removeFilter => exact hbefore

/-! ### Steps that disturb nothing -/

/-- The step asks only for names of the list, if for any, and leaves the loader, its sources and
the options as they are. -/
def Step.Keeps (options : Options) (names : List String) : Step → Prop
  | .template name => name ∈ names
  | .render name _ => name ∈ names
  | .setCaching on => on = options.caching
  | .setPretty on => on = options.pretty
  | .setMode mode => mode = options.mode
  | .precompile | .share .. | .shareAll _ | .unshare | .setFilter .. | .removeFilter _ => True
  | .insert .. | .remove _ | .setLoader _ => False

/-- The second session has the loader and the options of the first one, and what was served is at
hand. `log` is what had been compiled then. -/
structure Supplied (s t : Session) (served : List (String × Template)) (log : Log) : Prop where
  loader : t.engine.loader = s.engine.loader
  options : t.engine.options = s.engine.options
  log : t.engine.log = log
  stocked : t.engine.Stocked served

variable {s t : Session} {served : List (String × Template)} {log : Log}

/-- **A step that disturbs nothing compiles nothing.** -/
theorem Supplied.step (h : s.Supplied t served log)
    (hlisted : ∀ name ∈ s.engine.loader.list, ∃ u, (name, u) ∈ served) {a : Step}
    (ha : a.Keeps s.engine.options s.engine.loader.list) : s.Supplied (t.step a) served log := by
  have asked : ∀ name ∈ s.engine.loader.list, s.Supplied ⟨(t.engine.template name).2, t.memory⟩ served log := by
    intro name hname
    obtain ⟨u, hu⟩ := hlisted name hname
    obtain ⟨-, hlog, hstocked⟩ := Engine.stocked_again h.stocked hu
    have hbuilds := t.engine.template_builds name
    exact ⟨hbuilds.loader.trans h.loader, hbuilds.options.trans h.options, hlog.trans h.log, hstocked⟩
  cases a with
  | insert | remove | setLoader => cases ha
  | template name => exact asked name ha
  | render name d =>
    show s.Supplied ⟨(t.engine.renderDatum name d).2, t.memory⟩ served log
    rw [Engine.renderDatum]
    cases d.toVariables with
    | error fault => exact h
    | ok own =>
      have hasked := asked name ha
      dsimp only
      split
      · next hf => rwa [hf] at hasked
      · next hf => rwa [hf] at hasked
  | precompile =>
    have hserved : ∀ name ∈ t.engine.loader.list, ∃ u, (name, u) ∈ served := by
      rw [h.loader]
      exact hlisted
    obtain ⟨hlog, hstocked⟩ := Engine.stocked_prepare_again h.stocked hserved
    have hbuilds := t.engine.precompile_builds
    exact ⟨hbuilds.loader.trans h.loader, hbuilds.options.trans h.options, hlog.trans h.log, hstocked⟩
  | setCaching on =>
    -- Caching is on already.
    have hon : on = true := by rw [show on = _ from ha, ← h.options, h.stocked.caching]
    have hsame : t.engine.setCaching on = t.engine := by
      rw [Engine.setCaching, if_pos hon, hon, ← h.stocked.caching]
    show s.Supplied ⟨t.engine.setCaching on, t.memory⟩ served log
    rwa [hsame]
  | setPretty on =>
    have hsame : t.engine.setPretty on = t.engine := if_pos (by rw [h.options]; exact Eq.symm ha)
    show s.Supplied ⟨t.engine.setPretty on, t.memory⟩ served log
    rwa [hsame]
  | setMode mode =>
    have hsame : t.engine.setMode mode = t.engine := if_pos (by rw [h.options]; exact Eq.symm ha)
    show s.Supplied ⟨t.engine.setMode mode, t.memory⟩ served log
    rwa [hsame]
  | share | shareAll | unshare | setFilter | removeFilter =>
    exact ⟨h.loader, h.options, h.log, h.stocked.caching, h.stocked.room, h.stocked.kept⟩

theorem Supplied.run (h : s.Supplied t served log)
    (hlisted : ∀ name ∈ s.engine.loader.list, ∃ u, (name, u) ∈ served) {more : List Step}
    (hmore : ∀ a ∈ more, a.Keeps s.engine.options s.engine.loader.list) :
    s.Supplied (t.run more) served log := by
  induction more using List.reverseRecOn with
  | nil => exact h
  | append_singleton more a ih =>
    rw [run_concat]
    exact (ih fun b hb => hmore b (List.mem_append_left _ hb)).step hlisted (hmore a (by simp))

/-! ### Precompiling -/

/-- When all listed names have been obtained and there is room for them, each of them gives its
template from then on. -/
theorem template_of_precompile (s : Session) (hplain : s.engine.loader.Unhyphened)
    (hcaching : s.engine.options.caching = true) (hnodup : s.engine.loader.list.Nodup)
    (hroom : s.engine.loader.list.length ≤ s.engine.cache.capacity)
    (hall : s.engine.Obtains s.engine.loader.list) {before after : List String} {name : String}
    (hsplit : s.engine.loader.list = before ++ name :: after) :
    ∃ t, ((s.engine.prepare before).2.template name).1 = .ok t ∧
      ∀ more, (∀ a ∈ more, a.Keeps s.engine.options s.engine.loader.list) →
        let f := ((s.step .precompile).run more).engine
        f.log = s.engine.precompile.2.log ∧ (f.template name).1 = .ok t ∧
          (f.template name).2.log = s.engine.precompile.2.log := by
  -- Before the first name is asked for, nothing is at hand that would count.
  have hempty : s.engine.Stocked [] :=
    ⟨hcaching, Nat.zero_le _, [], Cache.leads_nil _, le_refl _, by simp⟩
  obtain ⟨served, hstocked, -, hserved⟩ := Engine.stocked_prepare hplain hempty (by simpa using hroom)
    (by simpa using hnodup) hall
  have hlisted : ∀ name ∈ s.engine.loader.list, ∃ u, (name, u) ∈ served := by
    intro name hname
    obtain ⟨before, after, hsplit⟩ := List.append_of_mem hname
    obtain ⟨u, -, hu⟩ := hserved before name after hsplit
    exact ⟨u, hu⟩
  obtain ⟨t, ht, hmem⟩ := hserved before name after hsplit
  refine ⟨t, ht, fun more hmore => ?_⟩
  have hbuilds := s.engine.precompile_builds
  have hstart : s.Supplied (s.step .precompile) served s.engine.precompile.2.log :=
    ⟨hbuilds.loader, hbuilds.options, rfl, hstocked⟩
  have hend := hstart.run hlisted hmore
  obtain ⟨hresult, hlog, -⟩ := Engine.stocked_again hend.stocked hmem
  exact ⟨hend.log, hresult, hlog.trans hend.log⟩

/-- **What precompiling does, in every state that a session can come to.** Take a session with
ordered sources, in a state in which caching is on.

* The listed names stand in ascending order.
* Precompiling succeeds with their number exactly when each of them is ready after those before it
  have been asked for.
* If it succeeds and there is room for all of them, each of them gives from then on the template
  that was obtained for it and nothing is compiled, whatever is done that keeps the loader, its
  sources and the options and asks for listed names only.
* If it fails, the error is that of reading the first name that is not ready. Those before it have
  been obtained, and those behind it are not asked for. Nothing is kept for this name as it is now,
  and whatever is kept for it or for a name behind it was kept before. -/
theorem precompile_of_run {m : Memory} {options : Options} {steps : List Step}
    (hm : m.sources.Ordered) (hloaders : ∀ m', Step.setLoader m' ∈ steps → m'.sources.Ordered)
    (hcaching : ((start m options).run steps).engine.options.caching = true) :
    let s := (start m options).run steps
    let e := s.engine
    let listed := e.loader.list
    listed.Pairwise (· < ·) ∧
    (∀ n, e.precompile.1 = .ok n ↔ n = listed.length ∧ e.ReadyInTurn listed) ∧
    (∀ n, e.precompile.1 = .ok n → n ≤ e.cache.capacity →
      ∀ before name after, listed = before ++ name :: after →
        ∃ t, ((e.prepare before).2.template name).1 = .ok t ∧
          ∀ more, (∀ a ∈ more, a.Keeps e.options listed) →
            let f := ((s.step .precompile).run more).engine
            f.log = e.precompile.2.log ∧ (f.template name).1 = .ok t ∧
              (f.template name).2.log = e.precompile.2.log) ∧
    (∀ error, e.precompile.1 = .error error →
      ∃ before name after, listed = before ++ name :: after ∧ e.ReadyInTurn before ∧
        e.Obtains before ∧ ¬ (e.prepare before).2.Ready name ∧
        (e.loader.document name).1 = .error error ∧
        e.precompile.2 = ((e.prepare before).2.template name).2 ∧
        (∀ version, e.loader.version name = .ok version →
          Cache.key name version ∉ e.precompile.2.cache.keys) ∧
        ∀ later ∈ name :: after, ∀ version t, '-' ∉ version.toList →
          (Cache.key later version, t) ∈ e.precompile.2.cache.entries →
            (Cache.key later version, t) ∈ e.cache.entries) := by
  intro s e listed
  have hloader : e.loader = s.memory.loader := (traced m options steps).current
  have hplain : e.loader.Unhyphened := hloader ▸ s.memory.unhyphened_loader
  have hpairwise : listed.Pairwise (· < ·) := by
    show e.loader.list.Pairwise (· < ·)
    rw [hloader]
    exact Memory.pairwise_list (ordered_run options hm hloaders)
  have hnodup : listed.Nodup := hpairwise.imp fun h => String.ne_of_lt h
  refine ⟨hpairwise, ?_, ?_, ?_⟩
  · intro n
    rw [Engine.precompile_ok_iff, Engine.obtains_iff hloader hcaching]
  · intro n hok hroom before name after hsplit
    obtain ⟨rfl, hall⟩ := Engine.precompile_ok_iff.mp hok
    exact s.template_of_precompile hplain hcaching hnodup hroom hall hsplit
  · intro error herror
    obtain ⟨before, name, after, hsplit, hbefore, hname, hend, hcache⟩ := Engine.precompile_error herror
    have hbuilds := e.prepare_builds before
    have hready := (Engine.obtains_iff hloader hcaching before).mp hbefore
    have hnot : ¬ (e.prepare before).2.Ready name := by
      rw [← Engine.template_ok_iff (hbuilds.loader.trans hloader) (by rw [hbuilds.options, hcaching])]
      rintro ⟨t, ht⟩
      rw [hname] at ht
      cases ht
    have hdocument := Engine.document_of_template_error (hbuilds.loader.trans hloader) hname
    rw [hbuilds.loader] at hdocument
    refine ⟨before, name, after, hsplit, hready, hbefore, hnot, hdocument, hend, ?_, ?_⟩
    · intro version hversion hmem
      rw [hcache] at hmem
      exact hnot (.inl ⟨version, by rw [hbuilds.loader, hversion], hmem⟩)
    · intro later hlater version t hversion hmem
      rw [hcache] at hmem
      -- Listed names are distinct, so it is not one of those before the first that fails.
      have hnotMem : later ∉ before := fun hbefore =>
        (List.nodup_append.mp (hsplit ▸ hnodup)).2.2 later hbefore later hlater rfl
      exact Engine.mem_of_mem_prepare hplain hnotMem hversion hmem

/-- Two pages, and a file of another kind. -/
def twoPages : Memory := ⟨[("a", "| x"), ("b", "| x"), ("style.css", "| x")]⟩

/-- When one of the pages has been asked for, both can be precompiled, and then they stay. -/
theorem precompile_of_run_twoPages :
    let s := (start twoPages {}).run [.template "b"]
    s.engine.precompile.1 = .ok 2 ∧ ∃ t, ∀ more, (∀ a ∈ more, a.Keeps {} ["a", "b"]) →
      (((s.step .precompile).run more).engine.template "a").1 = .ok t ∧
      (((s.step .precompile).run more).engine.template "a").2.log = s.engine.precompile.2.log := by
  intro s
  have hordered : twoPages.sources.Ordered := by
    show ["a", "b", "style.css"].Pairwise (· < ·)
    decide
  have hbuilds : (Engine.start twoPages.loader {}).Builds s.engine := Engine.template_builds _ "b"
  have hloader : s.engine.loader = twoPages.loader := hbuilds.loader
  have hlist : s.engine.loader.list = ["a", "b"] := by
    rw [hloader]
    cbv
  have hcaching : ((start twoPages {}).run [.template "b"]).engine.options.caching = true := by
    show s.engine.options.caching = true
    rw [hbuilds.options]
    rfl
  obtain ⟨-, hsucceeds, hserves, -⟩ := precompile_of_run hordered (by simp) hcaching
  have hready : s.engine.ReadyInTurn s.engine.loader.list := by
    intro before name after hsplit
    have hname : name ∈ ["a", "b"] := by
      rw [← hlist, hsplit]
      simp
    have hsource : twoPages.loader.source name = .ok "| x" := by
      fin_cases hname <;> cbv
    refine .inr ⟨_, Directory.document_of_line _ ?_⟩
    rw [(s.engine.prepare_builds before).loader, hloader, hsource]
  have hok : s.engine.precompile.1 = .ok 2 := (hsucceeds 2).mpr ⟨by rw [hlist]; rfl, hready⟩
  have hroom : 2 ≤ s.engine.cache.capacity := by
    show 2 ≤ (Engine.template (Engine.start twoPages.loader {}) "b").2.cache.capacity
    rw [Engine.template_capacity]
    decide
  refine ⟨hok, ?_⟩
  obtain ⟨t, -, ht⟩ := hserves 2 hok hroom [] "a" ["b"] hlist
  refine ⟨t, fun more hmore => (ht more ?_).2⟩
  rw [hlist, hbuilds.options]
  exact hmore

end Session

end Trellis
