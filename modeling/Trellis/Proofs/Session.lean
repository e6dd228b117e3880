import Mathlib
import Trellis.Proofs.Building
import Trellis.Proofs.Memory

/-!
# `Trellis.Proofs.Session`: what an engine hands out while sources change

A session is an engine over sources in memory. Its steps change the sources, put another
loader in place, ask for templates, and change settings, in any order.

The engine keeps a compiled template under the version of its own source, and nothing
tells it that a template which that source includes or extends has changed. So what it
hands out may be older than what the sources say now. `template_of_run` is the exact
promise. What is handed out for a name is what a fresh reading gave at some moment of the
run, after the loader was put in place. At that moment the name had the source that it has
now, so a change of the template itself is never missed. And if everything that the
reading asked for then is still the same, it is what a fresh reading gives now.
`template_of_stale_part` is a run in which a part has changed and the page has not.

The invariant is `Traced`: each template that is kept was made at a moment of the run. A
step keeps it, since the engine only keeps what it had or what it makes from the loader as
it is (`Engine.Grows`), and another loader comes with an empty cache.

Versions are fingerprints, so a change is noticed only if the two sources have different
ones. `CollisionFree` says this of the sources that were held during the run.
-/

set_option autoImplicit false

namespace Trellis

/-! ### What an engine keeps -/

/-- A kept template stands under its own name and version, has the version that the loader
gives for the name, and is what the loader makes of the name. -/
structure Loader.Made (l : Loader) (kept : String × Template) : Prop where
  key : kept.1 = Cache.key kept.2.name kept.2.version
  version : l.version kept.2.name = .ok kept.2.version
  document : (l.document kept.2.name).1 = .ok kept.2.document

namespace Engine

/-- From one engine to the other, with the same loader: whatever is kept was kept before or
is made by the loader. -/
structure Grows (e e' : Engine) : Prop where
  loader : e'.loader = e.loader
  kept : ∀ k ∈ e'.cache.entries, k ∈ e.cache.entries ∨ e.loader.Made k

theorem Grows.refl (e : Engine) : e.Grows e := ⟨rfl, fun _ hk => Or.inl hk⟩

theorem Grows.of_subset {e e' : Engine} (hloader : e'.loader = e.loader)
    (h : e'.cache.entries ⊆ e.cache.entries) : e.Grows e' := ⟨hloader, fun _ hk => Or.inl (h hk)⟩

/-- Giving everything up keeps nothing that would have to be accounted for. -/
theorem grows_of_clear {e e' : Engine} (hloader : e'.loader = e.loader)
    (h : e'.cache = e.cache.clear) : e.Grows e' :=
  Grows.of_subset hloader (by rw [h]; exact List.nil_subset _)

/-- What an engine compiles for a name, the loader makes of it. -/
theorem Compiles.made {e : Engine} {k : String × Template} (h : e.Compiles k) :
    e.loader.Made k := by
  obtain ⟨log, hlog⟩ := h.compiled
  exact ⟨h.key, h.version, (Template.of_compile hlog).2.2.2.2⟩

theorem Builds.grows {e e' : Engine} (h : e.Builds e') : e.Grows e' :=
  ⟨h.loader, fun k hk => (h.kept k hk).imp_right Compiles.made⟩

/-- Asking for a template keeps what was kept, and what it makes. The answer is kept under
the key of the name, or is made of the name now. -/
theorem template_spec (e : Engine) (name : String) :
    e.Grows (e.template name).2 ∧
      ∀ t, (e.template name).1 = .ok t → ∃ version, e.loader.version name = .ok version ∧
        ((Cache.key name version, t) ∈ e.cache.entries ∨
          t.name = name ∧ t.version = version ∧ e.loader.Made (Cache.key name version, t)) := by
  refine ⟨(e.template_builds name).grows, ?_⟩
  intro t h
  rcases e.template_cases name with ⟨error, -, heq⟩ | ⟨version, hversion, ⟨u, -, hfind, heq⟩ |
    ⟨u, log, hmake, heq⟩ | ⟨error, log, -, heq⟩⟩
  · rw [heq] at h
    cases h
  · rw [heq] at h
    cases h
    exact ⟨version, hversion, .inl (Cache.mem_of_find? hfind)⟩
  · rw [heq] at h
    cases h
    have hcompile := congrArg Prod.fst hmake
    obtain ⟨hname, hsame, -⟩ := Template.of_compile hcompile
    exact ⟨version, hversion, .inr ⟨hname, hsame, (compiles_of_compile hversion hcompile).made⟩⟩
  · rw [heq] at h
    cases h

theorem setCaching_grows (e : Engine) (on : Bool) : e.Grows (e.setCaching on) := by
  cases on with
  | false => exact grows_of_clear rfl rfl
  | true => exact Grows.of_subset rfl (List.Subset.refl _)

theorem setPretty_grows (e : Engine) (on : Bool) : e.Grows (e.setPretty on) := by
  rw [setPretty]
  split
  · exact Grows.refl e
  · exact grows_of_clear rfl rfl

theorem setMode_grows (e : Engine) (mode : Markup.Mode) : e.Grows (e.setMode mode) := by
  rw [setMode]
  split
  · exact Grows.refl e
  · exact grows_of_clear rfl rfl

end Engine

/-! ### Sessions -/

/-- An engine over sources in memory, and those sources as they are now. -/
structure Session where
  engine : Engine
  memory : Memory

namespace Session

/-- One step of a session. -/
inductive Step where
  | insert (name source : String)
  | remove (name : String)
  | setLoader (m : Memory)
  | template (name : String)
  | render (name : String) (d : Datum)
  | precompile
  | setCaching (on : Bool)
  | setPretty (on : Bool)
  | setMode (mode : Markup.Mode)
  | share (name : String) (v : Value)
  | shareAll (vars : Variables)
  | unshare
  | setFilter (name : String) (filter : Filter)
  | removeFilter (name : String)

/-- Does the step put another loader in place? -/
def Step.isSetLoader : Step → Bool
  | .setLoader _ => true
  | _ => false

/-- A session that begins. -/
def start (m : Memory) (options : Options) : Session := ⟨.start m.loader options, m⟩

/-- The same engine over other sources of the same loader. -/
def change (s : Session) (m : Memory) : Session := ⟨s.engine.refresh m.loader, m⟩

/-- Takes a step. -/
def step (s : Session) : Step → Session
  | .insert name source => s.change (s.memory.insert name source)
  | .remove name => s.change (s.memory.erase name)
  | .setLoader m => ⟨s.engine.setLoader m.loader, m⟩
  | .template name => { s with engine := (s.engine.template name).2 }
  | .render name d => { s with engine := (s.engine.renderDatum name d).2 }
  | .precompile => { s with engine := s.engine.precompile.2 }
  | .setCaching on => { s with engine := s.engine.setCaching on }
  | .setPretty on => { s with engine := s.engine.setPretty on }
  | .setMode mode => { s with engine := s.engine.setMode mode }
  | .share name v => { s with engine := s.engine.share name v }
  | .shareAll vars => { s with engine := s.engine.shareAll vars }
  | .unshare => { s with engine := s.engine.unshare }
  | .setFilter name filter => { s with engine := s.engine.setFilter name filter }
  | .removeFilter name => { s with engine := s.engine.removeFilter name }

/-- Takes some steps, in order. -/
def run (s : Session) (steps : List Step) : Session := steps.foldl step s

theorem run_concat (s : Session) (steps : List Step) (a : Step) :
    s.run (steps ++ [a]) = (s.run steps).step a := by
  rw [run, run, List.foldl_append]
  rfl

/-- What a step can do: it lets the engine grow and leaves the sources alone, it changes the
sources and leaves the engine alone, or it puts another loader in place. -/
theorem step_cases (s : Session) (a : Step) :
    (a.isSetLoader = false ∧ (s.step a).memory = s.memory ∧ s.engine.Grows (s.step a).engine) ∨
    (a.isSetLoader = false ∧ ∃ m, s.step a = s.change m) ∨
    (∃ m, a = .setLoader m) := by
  have grow : ∀ e : Engine, s.engine.Grows e → a.isSetLoader = false →
      s.step a = { s with engine := e } →
      a.isSetLoader = false ∧ (s.step a).memory = s.memory ∧
        s.engine.Grows (s.step a).engine := by
    intro e he ha hs
    rw [hs]
    exact ⟨ha, rfl, he⟩
  have same : ∀ e : Engine, e.loader = s.engine.loader → e.cache = s.engine.cache →
      s.engine.Grows e := fun e hloader hcache =>
    Engine.Grows.of_subset hloader (by rw [hcache]; exact List.Subset.refl _)
  cases a with
  | insert name source => exact Or.inr (Or.inl ⟨rfl, _, rfl⟩)
  | remove name => exact Or.inr (Or.inl ⟨rfl, _, rfl⟩)
  | setLoader m => exact Or.inr (Or.inr ⟨m, rfl⟩)
  | template name => exact Or.inl (grow _ (s.engine.template_builds name).grows rfl rfl)
  | render name d => exact Or.inl (grow _ (s.engine.renderDatum_builds name d).grows rfl rfl)
  | precompile => exact Or.inl (grow _ s.engine.precompile_builds.grows rfl rfl)
  | setCaching on => exact Or.inl (grow _ (Engine.setCaching_grows _ on) rfl rfl)
  | setPretty on => exact Or.inl (grow _ (Engine.setPretty_grows _ on) rfl rfl)
  | setMode mode => exact Or.inl (grow _ (Engine.setMode_grows _ mode) rfl rfl)
  | share name v => exact Or.inl (grow _ (same (s.engine.share name v) rfl rfl) rfl rfl)
  | shareAll vars => exact Or.inl (grow _ (same (s.engine.shareAll vars) rfl rfl) rfl rfl)
  | unshare => exact Or.inl (grow _ (same (s.engine.unshare) rfl rfl) rfl rfl)
  | setFilter name filter =>
    exact Or.inl (grow _ (same (s.engine.setFilter name filter) rfl rfl) rfl rfl)
  | removeFilter name => exact Or.inl (grow _ (same (s.engine.removeFilter name) rfl rfl) rfl rfl)

/-! ### Where kept templates come from -/

/-- A moment of a run, with the loader as it is at its end: the steps before it, and those
behind it, none of which puts another loader in place. -/
structure Moment (steps before after : List Step) : Prop where
  split : steps = before ++ after
  sameLoader : ∀ a ∈ after, a.isSetLoader = false

theorem Moment.now (steps : List Step) : Moment steps steps [] :=
  ⟨(List.append_nil steps).symm, by simp⟩

theorem Moment.concat {steps before after : List Step} (h : Moment steps before after)
    {a : Step} (ha : a.isSetLoader = false) :
    Moment (steps ++ [a]) before (after ++ [a]) := by
  refine ⟨by rw [h.split, List.append_assoc], ?_⟩
  intro b hb
  rcases List.mem_append.mp hb with hb | hb
  · exact h.sameLoader b hb
  · rw [List.mem_singleton.mp hb]
    exact ha

/-- At the end of a run the engine works with the sources as they are, and each template
that it keeps was made of the sources as they were at a moment of the run. -/
structure Traced (s : Session) (steps : List Step) : Prop where
  current : (s.run steps).engine.loader = (s.run steps).memory.loader
  kept : ∀ k ∈ (s.run steps).engine.cache.entries,
    ∃ before after, Moment steps before after ∧ (s.run before).memory.loader.Made k

/-- **Every step keeps the invariant.** -/
theorem Traced.concat {s : Session} {steps : List Step} (h : s.Traced steps) (a : Step) :
    s.Traced (steps ++ [a]) := by
  -- What was kept before the step is traced to the same moment as before it.
  have old : ∀ k ∈ (s.run steps).engine.cache.entries, a.isSetLoader = false →
      ∃ before after, Moment (steps ++ [a]) before after ∧
        (s.run before).memory.loader.Made k := by
    intro k hk ha
    obtain ⟨before, after, hmoment, hmade⟩ := h.kept k hk
    exact ⟨before, after ++ [a], hmoment.concat ha, hmade⟩
  constructor
  · rw [run_concat]
    rcases step_cases (s.run steps) a with ⟨-, hmemory, hgrows⟩ | ⟨-, m, hm⟩ | ⟨m, rfl⟩
    · rw [hgrows.loader, hmemory]
      exact h.current
    · rw [hm]
      rfl
    · rfl
  · intro k hk
    rw [run_concat] at hk
    rcases step_cases (s.run steps) a with ⟨ha, -, hgrows⟩ | ⟨ha, m, hm⟩ | ⟨m, rfl⟩
    · rcases hgrows.kept k hk with hk | hk
      · exact old k hk ha
      · -- What the step itself made was made of the sources before it.
        exact ⟨steps, [a], (Moment.now steps).concat ha, h.current ▸ hk⟩
    · rw [hm] at hk
      exact old k hk ha
    · -- Another loader comes with an empty cache.
      exact absurd hk List.not_mem_nil

/-- The invariant holds in every session that begins with an engine of its own. -/
theorem traced (m : Memory) (options : Options) (steps : List Step) :
    (start m options).Traced steps := by
  induction steps using List.reverseRecOn with
  | nil => exact ⟨rfl, fun k hk => absurd hk List.not_mem_nil⟩
  | append_singleton steps a ih => exact ih.concat a

/-! ### What is handed out -/

/-- A source is held at some moment of a run. -/
def Held (s : Session) (steps : List Step) (source : String) : Prop :=
  ∃ before, before <+: steps ∧ ∃ name, (s.run before).memory.source name = .ok source

/-- Different sources that are held during a run have different fingerprints. -/
def CollisionFree (s : Session) (steps : List Step) : Prop :=
  ∀ a b, s.Held steps a → s.Held steps b → Text.fingerprint a = Text.fingerprint b → a = b

/-- Whatever a run hands out for a name is what a fresh reading gave at a moment of the run
at which the name had the source that it has now. It is what a fresh reading gives now, if
all sources that were read then are still the same. -/
theorem template_of_run {m : Memory} {options : Options} {steps : List Step} {name : String}
    {t : Template} (hfree : (start m options).CollisionFree steps)
    (h : (((start m options).run steps).engine.template name).1 = .ok t) :
    ∃ before after, Moment steps before after ∧
      ((start m options).run before).memory.source name =
        ((start m options).run steps).memory.source name ∧
      (((start m options).run before).memory.loader.document name).1 = .ok t.document ∧
      ((∀ n ∈ (((start m options).run before).memory.loader.document name).2,
          ((start m options).run before).memory.source n =
            ((start m options).run steps).memory.source n) →
        (((start m options).run steps).memory.loader.document name).1 = .ok t.document) := by
  have htraced := traced m options steps
  obtain ⟨version, hversion, hanswer⟩ := (Engine.template_spec _ name).2 t h
  rw [htraced.current] at hversion hanswer
  -- Kept or made now, the answer was made at some moment of the run.
  have hmade : ∃ before after, Moment steps before after ∧
      ((start m options).run before).memory.loader.Made (Cache.key name version, t) := by
    rcases hanswer with hk | ⟨-, -, hmade⟩
    · exact htraced.kept _ hk
    · exact ⟨steps, [], Moment.now steps, hmade⟩
  obtain ⟨before, after, hmoment, hmade⟩ := hmade
  -- Its key tells the name and the version, so the fingerprint has not changed since.
  obtain ⟨hname, hversions⟩ := Cache.eq_of_key_eq_of_hyphen_notMem
    (Memory.hyphen_notMem_version hversion) (Memory.hyphen_notMem_version hmade.version) hmade.key
  have hdocument := hmade.document
  have hthen := hmade.version
  dsimp only at hname hversions hdocument hthen
  rw [← hname] at hdocument hthen
  obtain ⟨source, hsource, hprint⟩ := Memory.version_eq_ok_iff.mp hthen
  obtain ⟨source', hsource', hprint'⟩ := Memory.version_eq_ok_iff.mp hversion
  have hsame : source = source' := by
    refine hfree source source' ⟨before, ⟨after, hmoment.split.symm⟩, name, hsource⟩
      ⟨steps, List.prefix_refl steps, name, hsource'⟩ ?_
    rw [hprint, hprint', hversions]
  refine ⟨before, after, hmoment, by rw [hsource, hsource', hsame], hdocument, ?_⟩
  intro hagree
  rw [Library.document_congr (Memory.complete_loader _) (Memory.complete_loader _) hagree]
  exact hdocument

/-! ### A page whose part changes -/

/-- A page that includes a part and says nothing else. -/
def pageWithPart (part : String) : Memory := ⟨[("page", "include part"), ("part", part)]⟩

/-- The page is asked for, and then the part gets another text. -/
def askAndChange : List Step := [.template "page", .insert "part" "| new"]

theorem insert_part (part part' : String) :
    (pageWithPart part).insert "part" part' = pageWithPart part' := by
  have h : Memory.shortName "part" = "part" := by cbv
  have horder : ¬("part" : String) < "page" := by decide
  rw [Memory.insert, h]
  simp only [pageWithPart, Table.insert, horder, if_false, if_true]
  rfl

theorem source_page (part : String) :
    (pageWithPart part).source "page" = .ok "include part" := by
  have h : Memory.shortName "page" = "page" := by cbv
  rw [Memory.source, h]
  rfl

theorem source_part (part : String) : (pageWithPart part).source "part" = .ok part := by
  have h : Memory.shortName "part" = "part" := by cbv
  rw [Memory.source, h]
  rfl

/-- With a part of one line of text, the page is that text. -/
theorem document_page {part text : String} {finish : Source.Position}
    (hscan : Source.Layout.scan part = .ok ⟨[⟨⟨1, 1⟩, 0, [.text text]⟩], finish⟩)
    (hread : Head.read [.text text] = .ok (.leaf (.text [.literal text]))) :
    ((pageWithPart part).loader.document "page").1 = .ok ⟨[.text [.literal text]], []⟩ := by
  have hpage : (pageWithPart part).loader.source "page" = .ok "include part" := source_page part
  have hpart : (pageWithPart part).loader.source "part" = .ok part := source_part part
  have hlisted : "part" ∈ (pageWithPart part).loader.names := by
    simp [Memory.loader, pageWithPart, Table.keys]
  generalize (pageWithPart part).loader.toLibrary = l at hpage hpart hlisted ⊢
  have hscanpage : Source.Layout.scan "include part" =
      .ok ⟨[⟨⟨1, 1⟩, 0, [.including "part"]⟩], ⟨1, 1⟩⟩ := by cbv
  have hreadpage : Head.read [.including "part"] = .ok (.including "part") := by cbv
  have hresolve : Reference.resolve "page" "part" = "part" := by cbv
  have hraw : Reference.isRaw "part" = false := by cbv
  -- The part is loaded while the page is under way.
  have hload : ∀ asked, l.load l.names ["page"] "part" asked =
      .ok ⟨[.text [.literal text]], []⟩ ("part" :: asked) := by
    intro asked
    rw [Library.load, if_neg (by decide), if_pos hlisted, Library.resolve_eq]
    change EStateM.bind _ _ _ = _
    rw [EStateM.bind, Library.ask, hpart]
    dsimp only
    rw [hscan]
    simp [readDocument, Entry.forest, Entry.arrange, Entry.isVacant, readEntries, readEntry,
      hread, Head.nodes, collecting, refuseChildren, refuseElse, bind, EStateM.bind, pure,
      EStateM.pure, Node.join, Node.cons]
  have hresolved : l.resolve l.names [] "page" [] =
      .ok ⟨[.text [.literal text]], []⟩ ["part", "page"] := by
    rw [Library.resolve_eq]
    change EStateM.bind _ _ _ = _
    rw [EStateM.bind, Library.ask, hpage]
    dsimp only
    rw [hscanpage]
    simp [readDocument, Entry.forest, Entry.arrange, Entry.isVacant, readEntries, readEntry,
      hreadpage, Head.nodes, collecting, refuseChildren, refuseElse, bind, EStateM.bind, pure,
      EStateM.pure, Node.join, Node.cons, Surroundings.includeNodes, hresolve, hraw,
      Surroundings.orMissing, asking, hload, addMixins, Table.insertAll, modify, modifyGet,
      MonadStateOf.modifyGet, EStateM.modifyGet]
  rw [Library.document, hresolved]

theorem document_old : ((pageWithPart "| old").loader.document "page").1 =
    .ok ⟨[.text [.literal "old"]], []⟩ := by
  have hscan : Source.Layout.scan "| old" = .ok ⟨[⟨⟨1, 1⟩, 0, [.text "old"]⟩], ⟨1, 1⟩⟩ := by cbv
  have hread : Head.read [.text "old"] = .ok (.leaf (.text [.literal "old"])) := by cbv
  exact document_page hscan hread

theorem document_new : ((pageWithPart "| new").loader.document "page").1 =
    .ok ⟨[.text [.literal "new"]], []⟩ := by
  have hscan : Source.Layout.scan "| new" = .ok ⟨[⟨⟨1, 1⟩, 0, [.text "new"]⟩], ⟨1, 1⟩⟩ := by cbv
  have hread : Head.read [.text "new"] = .ok (.leaf (.text [.literal "new"])) := by cbv
  exact document_page hscan hread

theorem memory_askAndChange :
    ((start (pageWithPart "| old") {}).run askAndChange).memory = pageWithPart "| new" :=
  insert_part "| old" "| new"

/-- When the page is asked for again, the answer is what it was before. -/
theorem template_askAndChange :
    ∃ t, (((start (pageWithPart "| old") {}).run askAndChange).engine.template "page").1 = .ok t ∧
      t.document = ⟨[.text [.literal "old"]], []⟩ := by
  have hversion : ∀ p, (pageWithPart p).loader.version "page" =
      .ok (Text.fingerprint "include part") := fun p =>
    Memory.version_eq_ok_iff.mpr ⟨_, source_page p, rfl⟩
  refine ⟨⟨0, "page", Text.fingerprint "include part", _, .html, false⟩, ?_, rfl⟩
  simp [askAndChange, run, step, start, change, insert_part, Engine.refresh, Engine.start,
    Engine.template, hversion, Cache.fetch, Cache.find?, Cache.empty, Template.compile,
    document_old, Except.map, Cache.use]

/-- The three sources of this run have three fingerprints. -/
theorem collisionFree_askAndChange :
    (start (pageWithPart "| old") {}).CollisionFree askAndChange := by
  have hheld : ∀ source, (start (pageWithPart "| old") {}).Held askAndChange source →
      source = "include part" ∨ source = "| old" ∨ source = "| new" := by
    rintro source ⟨before, hbefore, name, hsource⟩
    have hmemory : ((start (pageWithPart "| old") {}).run before).memory = pageWithPart "| old" ∨
        ((start (pageWithPart "| old") {}).run before).memory = pageWithPart "| new" := by
      rw [askAndChange] at hbefore
      rcases List.prefix_cons_iff.mp hbefore with rfl | ⟨rest, rfl, hrest⟩
      · exact Or.inl rfl
      · rcases List.prefix_cons_iff.mp hrest with rfl | ⟨rest', rfl, hrest'⟩
        · exact Or.inl rfl
        · rw [List.prefix_nil.mp hrest']
          exact Or.inr memory_askAndChange
    rcases hmemory with hmemory | hmemory
    · have := Memory.find?_of_source (hmemory ▸ hsource)
      grind [pageWithPart, Table.find?]
    · have := Memory.find?_of_source (hmemory ▸ hsource)
      grind [pageWithPart, Table.find?]
  have h1 : Text.fingerprint "include part" ≠ Text.fingerprint "| old" := by cbv
  have h2 : Text.fingerprint "include part" ≠ Text.fingerprint "| new" := by cbv
  have h3 : Text.fingerprint "| old" ≠ Text.fingerprint "| new" := by cbv
  intro a b ha hb hab
  rcases hheld a ha with rfl | rfl | rfl <;> rcases hheld b hb with rfl | rfl | rfl
  · rfl
  · exact absurd hab h1
  · exact absurd hab h2
  · exact absurd hab.symm h1
  · rfl
  · exact absurd hab h3
  · exact absurd hab.symm h2
  · exact absurd hab.symm h3
  · rfl

/-- In this run the page is handed out as a moment of the run had it. -/
theorem template_of_run_askAndChange :
    ∃ t before after, Moment askAndChange before after ∧
      (((start (pageWithPart "| old") {}).run before).memory.loader.document "page").1 =
        .ok t.document ∧
      (((start (pageWithPart "| old") {}).run askAndChange).engine.template "page").1 = .ok t := by
  obtain ⟨t, ht, -⟩ := template_askAndChange
  obtain ⟨before, after, hmoment, -, hdocument, -⟩ :=
    template_of_run collisionFree_askAndChange ht
  exact ⟨t, before, after, hmoment, hdocument, ht⟩

/-- Now the page reads otherwise: what was handed out is older than that. -/
theorem template_of_stale_part :
    (start (pageWithPart "| old") {}).CollisionFree askAndChange ∧
      ∃ t, (((start (pageWithPart "| old") {}).run askAndChange).engine.template "page").1 = .ok t ∧
        (((start (pageWithPart "| old") {}).run askAndChange).memory.loader.document "page").1 =
          .ok ⟨[.text [.literal "new"]], []⟩ ∧
        t.document ≠ ⟨[.text [.literal "new"]], []⟩ := by
  obtain ⟨t, ht, hdocument⟩ := template_askAndChange
  refine ⟨collisionFree_askAndChange, t, ht, ?_, ?_⟩
  · rw [memory_askAndChange]
    exact document_new
  · rw [hdocument]
    simp

end Session

end Trellis
