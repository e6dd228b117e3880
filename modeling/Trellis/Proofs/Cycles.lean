import Mathlib
import Trellis.Proofs.Memory
import Trellis.Proofs.Requests

/-!
# `Trellis.Proofs.Cycles`: templates that name each other in a circle

Resolution takes names off a list, and it ends because the list gets shorter. That the list is
there is not seen from outside. `Library.descend` resolves without it: it goes down at most so many
templates, and what would come further down is given. Below the number of names it makes no
difference what is given, since it is never looked at (`descend_eq_resolve`).

`Memory.resolution` puts this together with what `Trellis.Proofs.Requests` tells about cycles, for
sources in memory.
-/

set_option autoImplicit false

namespace Trellis

open Source

theorem respectsAsking_eq : RespectsAsking (fun a a' => a = a') (fun a a' => a = a') where
  reading :=
    { pure := fun _ => rfl
      fail := fun _ _ _ _ => rfl
      addMixins := fun _ => rfl
      bind := fun ha hk => by rw [ha, funext hk] }
  pure _ := rfl
  fail _ _ _ _ := rfl
  bind ha hk := by rw [ha, funext hk]
  collecting h := by rw [h]

/-- A reader loads nothing but names to which a reference can resolve. -/
theorem readDocument_congr {template : String} {fetch : String → Asking String}
    {load load' : String → Asking Document}
    (h : ∀ name, name.toList.head? ≠ some '/' → load name = load' name) (layout : Layout) :
    readDocument ⟨template, fetch, load⟩ layout = readDocument ⟨template, fetch, load'⟩ layout := by
  have hload (target : String) : load (Reference.resolve template target) =
      load' (Reference.resolve template target) :=
    h _ (Reference.head?_resolve_ne_slash template target)
  have hrelated : Surroundings.RelatedAsking (fun a a' => a = a') (fun a a' => a = a')
      (fun _ => True) (fun _ => True) ⟨template, fetch, load⟩ ⟨template, fetch, load'⟩ :=
    { template := rfl
      includeNodes := fun line target _ => by
        simp only [Surroundings.includeNodes, hload]
        rfl
      base := fun line target _ => by
        simp only [hload]
        rfl }
  exact readDocument_related respectsAsking_eq hrelated layout.namesOnly_true

namespace Library

/-- Resolves a template whose chain of templates under way is `chain`, and looks at the chain
alone. At most `depth` templates are read below each other; `beyond` is what comes of a template
further down. -/
def descend (l : Library) (beyond : List String → String → Asking Document) :
    Nat → List String → String → Asking Document
  | 0, chain, name => beyond chain name
  | depth + 1, chain, name =>
    if name ∈ chain then throw (.parse name 0 (.cycle (chain ++ [name])))
    else do
      let source ← l.ask name
      match Layout.scan source with
      | .error e => throw (.scan name e)
      | .ok layout => readDocument ⟨name, l.ask, l.descend beyond depth (chain ++ [name])⟩ layout

section
variable {l : Library} {beyond : List String → String → Asking Document} {depth : Nat}
  {chain : List String} {name : String}

/-- One step down comes to what resolution comes to, if this is so of all that the template
loads. -/
theorem descend_succ_eq_resolve {unused : List String} (hnew : name ∉ chain)
    (hload : ∀ target, target.toList.head? ≠ some '/' →
      l.descend beyond depth (chain ++ [name]) target = l.load unused (chain ++ [name]) target) :
    l.descend beyond (depth + 1) chain name = l.resolve unused chain name := by
  rw [descend, if_neg hnew, resolve_eq]
  congr 1
  funext source
  cases Layout.scan source with
  | error e => rfl
  | ok layout => exact readDocument_congr hload layout

/-- Descending is loading, as long as it goes further down than there are names left. The
induction is on the depth: each template under way has taken a name off the list. -/
theorem descend_eq_load {unused : List String} (hc : l.Covers unused chain)
    (hname : name.toList.head? ≠ some '/') (hdepth : unused.length < depth) :
    l.descend beyond depth chain name = l.load unused chain name := by
  induction depth generalizing unused chain name with
  | zero => omega
  | succ depth ih =>
    by_cases hunder : name ∈ chain
    · rw [descend, load, if_pos hunder, if_pos hunder]
    · cases hsource : l.source name with
      | error e =>
        funext asked
        rw [load_of_missing hunder hsource, descend, if_neg hunder]
        show EStateM.bind _ _ _ = _
        rw [EStateM.bind, ask_of_missing hsource]
      | ok source =>
        have hmem : name ∈ unused := hc name source hname hsource hunder
        have hshorter := length_erase_lt hmem
        rw [load, if_neg hunder, if_pos hmem]
        exact descend_succ_eq_resolve hunder fun target htarget =>
          ih (hc.erase name) htarget (by omega)

/-- **Resolution ends before it has gone down further than there are names.** The first name may
be one more, since it need not be on the list. -/
theorem descend_eq_resolve (h : l.Complete) (hdepth : l.names.length + 2 ≤ depth) :
    l.descend beyond depth [] name = l.resolve l.names [] name := by
  cases depth with
  | zero => omega
  | succ depth =>
    exact descend_succ_eq_resolve List.not_mem_nil fun target htarget =>
      descend_eq_load (h.covers _) htarget (by omega)

end

end Library

namespace Memory

theorem plain_loader (m : Memory) : m.loader.toLibrary.Plain := by
  intro name e he
  rw [(of_source_eq_error he).1]
  exact fun _ _ _ => nofun

/-- There are two names for each source. -/
theorem length_names_loader (m : Memory) : m.loader.names.length = 2 * m.size := by
  show (m.sources.keys.flatMap fun name => [name, name ++ String.ofList ending]).length = _
  rw [size, Table.keys, List.flatMap_map]
  induction m.sources with
  | nil => rfl
  | cons p rest ih =>
    rw [List.flatMap_cons, List.length_append, ih, List.length_cons, List.length_cons]
    simp only [List.length_cons, List.length_nil]
    omega

/-- **Resolution ends, and rejects exactly the cycles.** For sources in memory, however they name
each other:

* it never goes down further than twice the number of sources, and two more;
* the chain of templates under way never holds more names than twice that number, and one more;
* a request for a template under way makes the compilation fail;
* it does not fail so if no template leads back to itself, under whatever name. -/
theorem resolution (m : Memory) (root : String) :
    (∀ (beyond : List String → String → Asking Document) (depth : Nat), 2 * m.size + 2 ≤ depth →
      outcome (m.loader.descend beyond depth [] root []) = (m.loader.document root).1) ∧
    (∀ chain target, m.loader.Requests root chain target → chain.length ≤ 2 * m.size + 1) ∧
    (∀ chain target, m.loader.Requests root chain target → target ∈ chain →
      (m.loader.document root).1 = .error (.parse target 0 (.cycle (chain ++ [target])))) ∧
    ((∀ a b, Relation.ReflTransGen m.loader.Refers root a → Relation.TransGen m.loader.Refers a b →
        shortName a ≠ shortName b) →
      ∀ template line chain,
        (m.loader.document root).1 ≠ .error (.parse template line (.cycle chain))) := by
  have hcomplete := m.complete_loader
  have hplain := m.plain_loader
  have hlength := m.length_names_loader
  refine ⟨fun beyond depth hdepth => ?_, fun chain target hr => ?_, fun chain target hr hmem => ?_,
    fun hacyclic template line chain herror => ?_⟩
  · rw [Library.descend_eq_resolve hcomplete (by omega), Library.document]
    cases m.loader.resolve m.loader.names [] root [] <;> rfl
  · have := hr.length_chain_le hcomplete hplain
    omega
  · have hcomes : m.loader.comes chain target = .error (.parse target 0 (.cycle (chain ++ [target]))) := by
      rw [Library.comes, Library.enter, if_pos hmem]
      rfl
    refine Library.error_of_requests hcomplete hplain hr hcomes ?_
    intro name hname
    cases hname
  · rw [Library.document_eq_comes] at herror
    obtain ⟨chain', target, hr, hmem⟩ :=
      Library.exists_request_of_cycle hcomplete hplain .first herror fun h => h _ _ _ rfl
    obtain ⟨hroot, hcircle⟩ := (hr.reaches hplain).2 target hmem
    exact hacyclic target target hroot hcircle rfl

/-- A page that includes itself. -/
def pageInPage : Memory := ⟨[("page", "include page")]⟩

/-- It asks for itself while it is under way. -/
theorem requests_pageInPage : pageInPage.loader.Requests "page" ["page"] "page" := by
  have hshort : shortName "page" = "page" := by cbv
  have hsource : pageInPage.loader.source "page" = .ok "include page" := by
    show pageInPage.source "page" = _
    rw [Memory.source, hshort]
    rfl
  generalize pageInPage.loader.toLibrary = l at hsource ⊢
  have hscan : Layout.scan "include page" =
      .ok ⟨[⟨⟨1, 1⟩, 0, [.including "page"]⟩], ⟨1, 1⟩⟩ := by cbv
  have hread : Head.read [.including "page"] = .ok (.including "page") := by cbv
  have hresolve : Reference.resolve "page" "page" = "page" := by cbv
  have hraw : Reference.isRaw "page" = false := by cbv
  have hcomes : l.comes ["page"] "page" = .error (.parse "page" 0 (.cycle ["page", "page"])) := by
    rw [Library.comes, Library.enter, if_pos List.mem_cons_self]
    rfl
  refine .next .first List.not_mem_nil hsource hscan ?_
  simp [Library.reread, noting, readDocument, Entry.forest, Entry.arrange, Entry.isVacant,
    readEntries, readEntry, hread, Head.nodes, collecting, refuseChildren, bind, EStateM.bind,
    pure, EStateM.pure, Surroundings.includeNodes, Surroundings.orMissing, asking, hresolve, hraw,
    hcomes, Trellis.ending]

theorem resolution_pageInPage : (pageInPage.loader.document "page").1 =
    .error (.parse "page" 0 (.cycle ["page", "page"])) :=
  (resolution pageInPage "page").2.2.1 ["page"] "page" requests_pageInPage List.mem_cons_self

end Memory

end Trellis
