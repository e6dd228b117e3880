import Mathlib
import Trellis.Loader.Versioned
import Trellis.Proofs.Building

/-!
# `Trellis.Proofs.Coherence`: kept templates and the settings of an engine

A compiled template has the mode and the layout that it was compiled for, and the engine keeps
it. So whenever one of those settings changes, or another loader is put in place, what is kept
has to go. Each setter decides for itself whether it clears the cache; `coherent_of_run` says
that together they never miss it. After any run of operations, every template that is kept was
compiled from the loader that is in place, with the mode and the layout that are set now. If
caching is off, nothing is kept. And whatever is handed out for a name, kept or not, has the
mode and the layout that are set now.

What a loader holds can change while it stays in place; `Step.refresh` stands for that. A kept
template was then compiled from what the loader held at an earlier moment of the run, and the
statement names that moment. If nothing was refreshed since, compiling the name gives the same
template now.

`template_cases` says what asking for a template can do, and `Builds` what that leaves of an
engine. Everything else follows from these two. The invariant of a run is `Coherent`.
-/

set_option autoImplicit false

namespace Trellis

namespace Engine

/-! ### Operations -/

/-- One operation on an engine. With `refresh`, the loader in place comes to hold something
else. -/
inductive Step where
  | template (name : String)
  | render (name : String) (d : Datum)
  | precompile
  | setCaching (on : Bool)
  | setPretty (on : Bool)
  | setMode (mode : Markup.Mode)
  | setLoader (l : Loader)
  | refresh (l : Loader)
  | share (name : String) (v : Value)
  | shareAll (vars : Variables)
  | unshare
  | setFilter (name : String) (filter : Filter)
  | removeFilter (name : String)

/-- Does the step put another loader in place? -/
def Step.isSetLoader : Step → Bool
  | .setLoader _ => true
  | _ => false

/-- Does the loader come to hold something else? -/
def Step.isRefresh : Step → Bool
  | .refresh _ => true
  | _ => false

/-- Takes a step. -/
def step (e : Engine) : Step → Engine
  | .template name => (e.template name).2
  | .render name d => (e.renderDatum name d).2
  | .precompile => e.precompile.2
  | .setCaching on => e.setCaching on
  | .setPretty on => e.setPretty on
  | .setMode mode => e.setMode mode
  | .setLoader l => e.setLoader l
  | .refresh l => e.refresh l
  | .share name v => e.share name v
  | .shareAll vars => e.shareAll vars
  | .unshare => e.unshare
  | .setFilter name filter => e.setFilter name filter
  | .removeFilter name => e.removeFilter name

/-- Takes some steps, in order. -/
def run (e : Engine) (steps : List Step) : Engine := steps.foldl step e

theorem run_append (e : Engine) (steps more : List Step) :
    e.run (steps ++ more) = (e.run steps).run more :=
  List.foldl_append

/-- What a step can do: it leaves the settings alone and builds templates, it gives up whatever
is kept, it refreshes the loader, or it turns caching on. -/
theorem step_cases (e : Engine) (a : Step) :
    (a.isSetLoader = false ∧ e.Builds (e.step a)) ∨ (e.step a).cache.entries = [] ∨
      (∃ l, a = .refresh l) ∨ a = .setCaching true := by
  -- What touches neither the options nor the loader nor the cache builds nothing.
  have same : ∀ e' : Engine, e'.options = e.options → e'.loader = e.loader →
      e'.cache = e.cache → e.Builds e' := by
    intro e' hoptions hloader hcache
    exact ⟨hoptions, hloader, fun k hk => .inl (hcache ▸ hk), fun _ => hcache⟩
  cases a with
  | template name => exact .inl ⟨rfl, e.template_builds name⟩
  | render name d => exact .inl ⟨rfl, e.renderDatum_builds name d⟩
  | precompile => exact .inl ⟨rfl, e.precompile_builds⟩
  | setCaching on =>
    cases on with
    | false => exact .inr (.inl rfl)
    | true => exact .inr (.inr (.inr rfl))
  | setPretty on =>
    by_cases hon : e.options.pretty = on
    · have hsame : e.step (.setPretty on) = e := if_pos hon
      rw [hsame]
      exact .inl ⟨rfl, Builds.refl e⟩
    · have hclear : e.step (.setPretty on) =
          { e with options := { e.options with pretty := on } }.clearCache := if_neg hon
      rw [hclear]
      exact .inr (.inl rfl)
  | setMode mode =>
    by_cases hmode : e.options.mode = mode
    · have hsame : e.step (.setMode mode) = e := if_pos hmode
      rw [hsame]
      exact .inl ⟨rfl, Builds.refl e⟩
    · have hclear : e.step (.setMode mode) =
          { e with options := { e.options with mode := mode } }.clearCache := if_neg hmode
      rw [hclear]
      exact .inr (.inl rfl)
  | setLoader l => exact .inr (.inl rfl)
  | refresh l => exact .inr (.inr (.inl ⟨l, rfl⟩))
  | share name v => exact .inl ⟨rfl, same _ rfl rfl rfl⟩
  | shareAll vars => exact .inl ⟨rfl, same _ rfl rfl rfl⟩
  | unshare => exact .inl ⟨rfl, same _ rfl rfl rfl⟩
  | setFilter name filter => exact .inl ⟨rfl, same _ rfl rfl rfl⟩
  | removeFilter name => exact .inl ⟨rfl, same _ rfl rfl rfl⟩

/-- What a step does to what is kept and to what it was compiled for: everything goes, or the
loader in place, the mode and the layout stay, and whatever is kept then was kept before or is
compiled with them. -/
theorem step_kept (e : Engine) (a : Step) :
    (e.step a).cache.entries = [] ∨
    (a.isSetLoader = false ∧ (e.step a).options.mode = e.options.mode ∧
      (e.step a).options.pretty = e.options.pretty ∧
      (a.isRefresh = false → (e.step a).loader = e.loader) ∧
      ∀ k ∈ (e.step a).cache.entries, k ∈ e.cache.entries ∨ e.Compiles k) := by
  rcases e.step_cases a with ⟨hset, hbuilds⟩ | hnone | ⟨l, rfl⟩ | rfl
  · exact .inr ⟨hset, congrArg Options.mode hbuilds.options, congrArg Options.pretty hbuilds.options,
      fun _ => hbuilds.loader, hbuilds.kept⟩
  · exact .inl hnone
  · exact .inr ⟨rfl, rfl, rfl, nofun, fun _ hk => .inl hk⟩
  · exact .inr ⟨rfl, rfl, rfl, fun _ => rfl, fun _ hk => .inl hk⟩

/-- Nothing is kept while caching is off. -/
def KeepsNothingOff (e : Engine) : Prop := e.options.caching = false → e.cache.entries = []

/-- Whatever turns caching off clears the cache, and nothing comes in while it is off. -/
theorem keepsNothingOff_step {e : Engine} (h : e.KeepsNothingOff) (a : Step) :
    (e.step a).KeepsNothingOff := by
  intro hoff
  rcases e.step_cases a with ⟨-, hbuilds⟩ | hnone | ⟨l, rfl⟩ | rfl
  · rw [hbuilds.options] at hoff
    rw [hbuilds.off hoff]
    exact h hoff
  · exact hnone
  · exact h hoff
  · cases hoff

/-! ### Runs -/

/-- At the end of a run, each kept template was compiled at a moment since which the loader in
place, the mode and the layout have not changed. -/
structure Coherent (e : Engine) (steps : List Step) : Prop where
  kept : ∀ k ∈ (e.run steps).cache.entries, ∃ before after, steps = before ++ after ∧
    (∀ a ∈ after, a.isSetLoader = false) ∧ (e.run before).Compiles k ∧
    (e.run before).options.mode = (e.run steps).options.mode ∧
    (e.run before).options.pretty = (e.run steps).options.pretty ∧
    ((∀ a ∈ after, a.isRefresh = false) → (e.run before).loader = (e.run steps).loader)
  off : (e.run steps).KeepsNothingOff

/-- **Every step keeps the invariant.** -/
theorem Coherent.concat {e : Engine} {steps : List Step} (h : e.Coherent steps) (a : Step) :
    e.Coherent (steps ++ [a]) := by
  have hrun : e.run (steps ++ [a]) = (e.run steps).step a := e.run_append steps [a]
  constructor
  · intro k hk
    rw [hrun] at hk ⊢
    rcases (e.run steps).step_kept a with hnone | ⟨hset, hmode, hpretty, hloader, hkept⟩
    · rw [hnone] at hk
      exact absurd hk List.not_mem_nil
    · rw [hmode, hpretty]
      rcases hkept k hk with hk | hk
      · -- It was kept before, and its moment is still a good one.
        obtain ⟨before, after, hsplit, hsame, hcompiles, hmode', hpretty', hloader'⟩ := h.kept k hk
        refine ⟨before, after ++ [a], by rw [hsplit, List.append_assoc], ?_, hcompiles, hmode',
          hpretty', ?_⟩
        · intro b hb
          rcases List.mem_append.mp hb with hb | hb
          · exact hsame b hb
          · rw [List.mem_singleton.mp hb]
            exact hset
        · intro hfresh
          have ha : a.isRefresh = false := hfresh a (by simp)
          rw [hloader ha]
          exact hloader' fun b hb => hfresh b (List.mem_append_left _ hb)
      · -- It was compiled in this very step.
        refine ⟨steps, [a], rfl, ?_, hk, rfl, rfl, ?_⟩
        · intro b hb
          rw [List.mem_singleton.mp hb]
          exact hset
        · intro hfresh
          exact (hloader (hfresh a List.mem_cons_self)).symm
  · rw [hrun]
    exact keepsNothingOff_step h.off a

/-- A new engine keeps nothing, so whatever is done with it leaves it coherent. -/
theorem coherent (loader : Loader) (options : Options) (steps : List Step) :
    (start loader options).Coherent steps := by
  induction steps using List.reverseRecOn with
  | nil => exact ⟨fun k hk => absurd hk List.not_mem_nil, fun _ => rfl⟩
  | append_singleton steps a ih => exact ih.concat a

/-- After any run of operations on a new engine:

- every template that is kept was compiled at a moment of the run since which the same loader is
  in place, for the mode and the layout that are set now; if that loader was not refreshed
  since, the engine compiles the very same now;
- if caching is off, nothing is kept;
- whatever template is handed out for a name has the mode and the layout that are set now. -/
theorem coherent_of_run (loader : Loader) (options : Options) (steps : List Step) :
    let e := (start loader options).run steps
    (∀ k ∈ e.cache.entries, ∃ before after, steps = before ++ after ∧
      (∀ a ∈ after, a.isSetLoader = false) ∧ ((start loader options).run before).Compiles k ∧
      k.2.mode = e.options.mode ∧ k.2.pretty = e.options.pretty ∧
      ((∀ a ∈ after, a.isRefresh = false) → e.Compiles k)) ∧
    (e.options.caching = false → e.cache.entries = []) ∧
    ∀ name t, (e.template name).1 = .ok t →
      t.mode = e.options.mode ∧ t.pretty = e.options.pretty := by
  intro e
  have hcoherent := coherent loader options steps
  have hkept : ∀ k ∈ e.cache.entries, ∃ before after, steps = before ++ after ∧
      (∀ a ∈ after, a.isSetLoader = false) ∧ ((start loader options).run before).Compiles k ∧
      k.2.mode = e.options.mode ∧ k.2.pretty = e.options.pretty ∧
      ((∀ a ∈ after, a.isRefresh = false) → e.Compiles k) := by
    intro k hk
    obtain ⟨before, after, hsplit, hsame, hcompiles, hmode, hpretty, hloader⟩ :=
      hcoherent.kept k hk
    exact ⟨before, after, hsplit, hsame, hcompiles, hcompiles.mode.trans hmode,
      hcompiles.pretty.trans hpretty, fun hfresh =>
        hcompiles.congr (hloader hfresh).symm hmode.symm hpretty.symm⟩
  refine ⟨hkept, hcoherent.off, ?_⟩
  intro name t ht
  rcases e.template_cases name with ⟨error, -, heq⟩ | ⟨version, hversion, ⟨t', -, hfind, heq⟩ |
    ⟨t', log, hmake, heq⟩ | ⟨error, log, -, heq⟩⟩
  · rw [heq] at ht
    cases ht
  · -- It was kept, so it is as the settings are.
    rw [heq] at ht
    cases ht
    obtain ⟨before, after, -, -, -, hmode, hpretty, -⟩ := hkept _ (Cache.mem_of_find? hfind)
    exact ⟨hmode, hpretty⟩
  · rw [heq] at ht
    cases ht
    have hcompiles := compiles_of_compile hversion (congrArg Prod.fst hmake)
    exact ⟨hcompiles.mode, hcompiles.pretty⟩
  · rw [heq] at ht
    cases ht

/-- A loader of one page. -/
def onePage : Loader := Versioned.loader [("page", ⟨"| hi", "1"⟩)]

theorem document_onePage :
    onePage.document "page" = (.ok ⟨[.text [.literal "hi"]], []⟩, ["page"]) := by cbv

/-- The page is asked for in one mode and then in another. -/
def otherMode : List Step := [.template "page", .setMode .xhtml, .template "page"]

/-- The page as it was compiled for the second time. -/
def pageInOtherMode : Template :=
  ⟨1, "page", "1", ⟨[.text [.literal "hi"]], []⟩, .xhtml, false⟩

theorem run_otherMode : (start onePage {}).run otherMode =
    ⟨{ mode := .xhtml }, onePage, [], Filter.initial, ⟨1000, [("page-1", pageInOtherMode)]⟩,
      ⟨2, 2⟩⟩ := by
  have hversion : onePage.version "page" = .ok "1" := rfl
  have hkey : Cache.key "page" "1" = "page-1" := rfl
  simp [otherMode, pageInOtherMode, run, step, start, template, setMode, clearCache, hversion,
    Cache.fetch, Cache.find?, Cache.empty, Cache.use, Cache.clear, Template.compile,
    document_onePage, Except.map, hkey]

/-- In this run the page is kept as it is compiled in the second mode, and is handed out so. -/
theorem coherent_of_run_otherMode :
    let e := (start onePage {}).run otherMode
    ("page-1", pageInOtherMode) ∈ e.cache.entries ∧ e.Compiles ("page-1", pageInOtherMode) ∧
      (e.template "page").1 = .ok pageInOtherMode ∧
      pageInOtherMode.mode = e.options.mode ∧ e.options.mode = .xhtml := by
  intro e
  have hmem : ("page-1", pageInOtherMode) ∈ e.cache.entries := by
    simp [e, run_otherMode]
  have hanswer : (e.template "page").1 = .ok pageInOtherMode := by
    simp only [e, run_otherMode]
    rfl
  obtain ⟨hkept, -, hhanded⟩ := coherent_of_run onePage {} otherMode
  obtain ⟨before, after, hsplit, -, -, -, -, hnow⟩ := hkept _ hmem
  have hfresh : ∀ a ∈ otherMode, a.isRefresh = false := by
    simp [otherMode, Step.isRefresh]
  refine ⟨hmem, hnow fun a ha => hfresh a ?_, hanswer, (hhanded "page" _ hanswer).1, ?_⟩
  · rw [hsplit]
    exact List.mem_append_right _ ha
  · simp [e, run_otherMode]

end Engine

end Trellis
