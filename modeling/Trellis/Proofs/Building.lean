import Trellis.Engine
import Trellis.Proofs.Cache

/-!
# `Trellis.Proofs.Building`: what asking for a template leaves of an engine

Asking for a template is the only way in which anything comes to be kept. `template_cases` says
what it can do: the name has no version, the template is found, it is compiled, or it does not
compile. `Builds` says what that leaves of the engine, and that asking for several templates, or
for one and its text, leaves no more than that.
-/

set_option autoImplicit false

namespace Trellis

/-! ### Compiling -/

/-- What a compilation gives has the name and the version that it was begun for, and the mode
and the layout of the options. -/
theorem Template.of_compile {l : Loader} {options : Options} {name version : String}
    {log : Log} {t : Template} (h : (Template.compile l options name version log).1 = .ok t) :
    t.name = name ∧ t.version = version ∧ t.mode = options.mode ∧ t.pretty = options.pretty ∧
      (l.document name).1 = .ok t.document := by
  have hmap : (l.document name).1.map (fun d => (⟨log.compilations, name, version, d,
      options.mode, options.pretty⟩ : Template)) = .ok t := h
  cases hd : (l.document name).1 with
  | error error =>
    rw [hd] at hmap
    cases hmap
  | ok d =>
    rw [hd] at hmap
    cases hmap
    exact ⟨rfl, rfl, rfl, rfl, rfl⟩

/-- Of the options, compiling looks at the mode and the layout only. -/
theorem Template.compile_congr (l : Loader) {options options' : Options}
    (hmode : options.mode = options'.mode) (hpretty : options.pretty = options'.pretty)
    (name version : String) (log : Log) :
    Template.compile l options name version log = Template.compile l options' name version log := by
  unfold Template.compile
  rw [hmode, hpretty]

namespace Engine

/-- A kept template stands under its own name and version, has the version that the loader
gives for the name, and is what the engine compiles for the name. -/
structure Compiles (e : Engine) (kept : String × Template) : Prop where
  key : kept.1 = Cache.key kept.2.name kept.2.version
  version : e.loader.version kept.2.name = .ok kept.2.version
  compiled : ∃ log,
    (Template.compile e.loader e.options kept.2.name kept.2.version log).1 = .ok kept.2

theorem Compiles.mode {e : Engine} {k : String × Template} (h : e.Compiles k) :
    k.2.mode = e.options.mode := by
  obtain ⟨log, hlog⟩ := h.compiled
  exact (Template.of_compile hlog).2.2.1

theorem Compiles.pretty {e : Engine} {k : String × Template} (h : e.Compiles k) :
    k.2.pretty = e.options.pretty := by
  obtain ⟨log, hlog⟩ := h.compiled
  exact (Template.of_compile hlog).2.2.2.1

/-- Another engine with the same loader, mode and layout compiles the same. -/
theorem Compiles.congr {e e' : Engine} {k : String × Template} (h : e.Compiles k)
    (hloader : e'.loader = e.loader) (hmode : e'.options.mode = e.options.mode)
    (hpretty : e'.options.pretty = e.options.pretty) : e'.Compiles k := by
  obtain ⟨hkey, hversion, log, hlog⟩ := h
  refine ⟨hkey, by rw [hloader, hversion], log, ?_⟩
  rw [hloader, Template.compile_congr e.loader hmode hpretty, hlog]

theorem compiles_of_compile {e : Engine} {name version : String} {log : Log} {t : Template}
    (hversion : e.loader.version name = .ok version)
    (h : (Template.compile e.loader e.options name version log).1 = .ok t) :
    e.Compiles (Cache.key name version, t) := by
  obtain ⟨rfl, rfl, -⟩ := Template.of_compile h
  exact ⟨rfl, hversion, log, h⟩

/-! ### Asking for a template -/

/-- Asking for a template fails if the name has no version, finds the template in the cache,
compiles it and keeps it if caching is on, or fails to compile it. -/
theorem template_cases (e : Engine) (name : String) :
    (∃ error, e.loader.version name = .error error ∧ e.template name = (.error error, e)) ∨
    ∃ version, e.loader.version name = .ok version ∧
      ((∃ t, e.options.caching = true ∧ e.cache.find? (Cache.key name version) = some t ∧
        e.template name = (.ok t, { e with cache := e.cache.use (Cache.key name version) t })) ∨
      (∃ t log, Template.compile e.loader e.options name version e.log = (.ok t, log) ∧
        e.template name = (.ok t, { e with
          cache := if e.options.caching then e.cache.use (Cache.key name version) t else e.cache
          log := log })) ∨
      (∃ error log, Template.compile e.loader e.options name version e.log = (.error error, log) ∧
        e.template name = (.error error, { e with log := log }))) := by
  rw [template]
  cases hversion : e.loader.version name with
  | error error => exact .inl ⟨error, rfl, rfl⟩
  | ok version =>
    refine .inr ⟨version, rfl, ?_⟩
    dsimp only
    by_cases hcaching : e.options.caching = true
    · rw [if_pos hcaching]
      rcases e.cache.fetch_cases name version (Template.compile e.loader e.options name version)
        e.log with ⟨t, hfind, heq⟩ | ⟨t, log, hmake, heq⟩ | ⟨error, log, hmake, heq⟩
      · exact .inl ⟨t, hcaching, hfind, by rw [heq]⟩
      · exact .inr (.inl ⟨t, log, hmake, by rw [heq, if_pos hcaching]⟩)
      · exact .inr (.inr ⟨error, log, hmake, by rw [heq]⟩)
    · -- Without caching the cache is not asked.
      rw [if_neg hcaching]
      cases hmake : Template.compile e.loader e.options name version e.log with
      | mk result log =>
        cases result with
        | ok t => exact .inr (.inl ⟨t, log, rfl, by rw [if_neg hcaching]⟩)
        | error error => exact .inr (.inr ⟨error, log, rfl, rfl⟩)

/-- From one engine to the other, with the same settings: whatever is kept was kept before or
is compiled with these settings, and without caching nothing comes in. -/
structure Builds (e e' : Engine) : Prop where
  options : e'.options = e.options
  loader : e'.loader = e.loader
  kept : ∀ k ∈ e'.cache.entries, k ∈ e.cache.entries ∨ e.Compiles k
  off : e.options.caching = false → e'.cache = e.cache

theorem Builds.refl (e : Engine) : e.Builds e := ⟨rfl, rfl, fun _ hk => .inl hk, fun _ => rfl⟩

theorem Builds.trans {e f g : Engine} (h : e.Builds f) (h' : f.Builds g) : e.Builds g := by
  refine ⟨h'.options.trans h.options, h'.loader.trans h.loader, ?_, ?_⟩
  · intro k hk
    rcases h'.kept k hk with hk | hk
    · exact h.kept k hk
    · exact .inr (hk.congr h.loader.symm (by rw [h.options]) (by rw [h.options]))
  · intro hoff
    rw [h'.off (by rw [h.options, hoff]), h.off hoff]

theorem template_builds (e : Engine) (name : String) : e.Builds (e.template name).2 := by
  rcases e.template_cases name with ⟨error, -, heq⟩ | ⟨version, hversion, ⟨t, hon, hfind, heq⟩ |
    ⟨t, log, hmake, heq⟩ | ⟨error, log, -, heq⟩⟩
  · rw [heq]
    exact Builds.refl e
  · -- A hit: the entry moves to the front, and nothing new is kept.
    rw [heq]
    refine ⟨rfl, rfl, ?_, ?_⟩
    · intro k hk
      rcases Cache.mem_use hk with rfl | hk
      · exact .inl (Cache.mem_of_find? hfind)
      · exact .inl hk
    · intro hoff
      rw [hoff] at hon
      cases hon
  · -- A miss: if caching is on, what was compiled is kept, and something may go for it.
    rw [heq]
    refine ⟨rfl, rfl, ?_, ?_⟩
    · intro k hk
      by_cases hon : e.options.caching = true
      · dsimp only at hk
        rw [if_pos hon] at hk
        rcases Cache.mem_use hk with rfl | hk
        · exact .inr (compiles_of_compile hversion (congrArg Prod.fst hmake))
        · exact .inl hk
      · dsimp only at hk
        rw [if_neg hon] at hk
        exact .inl hk
    · intro hoff
      show (if e.options.caching = true then _ else e.cache) = e.cache
      rw [hoff]
      rfl
  · rw [heq]
    exact ⟨rfl, rfl, fun _ hk => .inl hk, fun _ => rfl⟩

theorem prepare_builds (e : Engine) (names : List String) : e.Builds (e.prepare names).2 := by
  induction names generalizing e with
  | nil => exact Builds.refl e
  | cons name rest ih =>
    have hfirst := e.template_builds name
    rw [prepare]
    split
    · next f hf =>
      rw [hf] at hfirst
      exact hfirst.trans (ih f)
    · next f hf =>
      rw [hf] at hfirst
      exact hfirst

theorem precompile_builds (e : Engine) : e.Builds e.precompile.2 :=
  e.prepare_builds e.loader.list

theorem renderDatum_builds (e : Engine) (name : String) (d : Datum) :
    e.Builds (e.renderDatum name d).2 := by
  rw [renderDatum]
  cases d.toVariables with
  | error fault => exact Builds.refl e
  | ok own =>
    have hfirst := e.template_builds name
    dsimp only
    split
    · next f hf =>
      rw [hf] at hfirst
      exact hfirst
    · next f hf =>
      rw [hf] at hfirst
      exact hfirst

end Engine

end Trellis
