import Trellis.Loader.Memory
import Trellis.Proofs.Reading
import Trellis.Proofs.Reference

/-!
# `Trellis.Proofs.Resolution`: on which sources a document depends

`Library.document` tells which names it asked for on the way. `document_congr` states
that the document depends on the sources under these names only: a library that has the
same sources there makes the same document of the name, or fails in the same way, and
asks for the same names.

The proof compares the two resolutions step by step. `Follows` is the relation between
two computations that it rests on. The first one never forgets a name that was asked for,
and the second one does the same as the first if the libraries have the same sources
under all names that the first one has asked for at its end. The steps of the reader
respect this relation, so `Trellis.Proofs.Reading` carries it from the include statements
to whole templates.

A library also lists its names, and resolution takes names off that list. A name that is
not on it has no source, if the list is `Complete`. Then it makes no difference that
other names are on the list: `Library.Covers` is what the list must still hold while
templates are under way.
-/

set_option autoImplicit false

namespace Trellis

open Source

/-- The state in which a computation ended. -/
def ending {σ α : Type} : EStateM.Result Error σ α → σ
  | .ok _ s => s
  | .error _ s => s

namespace Library

/-- Two libraries have the same sources under some names. -/
def Agree (l l' : Library) (names : List String) : Prop := ∀ n ∈ names, l.source n = l'.source n

theorem Agree.mono {l l' : Library} {names names' : List String} (h : Agree l l' names)
    (hsub : names' ⊆ names) : Agree l l' names' := fun n hn => h n (hsub hn)

/-- Every name without a leading slash that has a source is listed as unused, those under
way apart. -/
def Covers (l : Library) (unused under : List String) : Prop :=
  ∀ n source, n.toList.head? ≠ some '/' → l.source n = .ok source → n ∉ under → n ∈ unused

/-- The names that a library lists are all that have a source. -/
def Complete (l : Library) : Prop := l.Covers l.names []

/-- Whatever is taken off the list is under way from then on. -/
theorem Covers.erase {l : Library} {unused under : List String} (h : l.Covers unused under)
    (target : String) : l.Covers (unused.erase target) (under ++ [target]) := by
  intro n source hn hsource hnot
  simp only [List.mem_append, List.mem_singleton, not_or] at hnot
  exact (List.mem_erase_of_ne hnot.2).mpr (h n source hn hsource hnot.1)

theorem Complete.covers {l : Library} (h : l.Complete) (under : List String) :
    l.Covers l.names under :=
  fun n source hn hsource _ => h n source hn hsource (by simp)

end Library

/-! ### Computations that follow each other -/

/-- The first computation keeps the names that were asked for, and the second one does the
same if the libraries agree on the names that the first one has asked for at its end. -/
structure Follows (l l' : Library) {σ α : Type} (asked : σ → List String)
    (a a' : EStateM Error σ α) : Prop where
  keeps : ∀ s, asked s ⊆ asked (ending (a s))
  same : ∀ s, Library.Agree l l' (asked (ending (a s))) → a' s = a s

section
variable {l l' : Library} {σ α β : Type} {asked : σ → List String}

/-- A computation that leaves the names alone follows itself. -/
theorem Follows.refl {a : EStateM Error σ α} (h : ∀ s, asked (ending (a s)) = asked s) :
    Follows l l' asked a a where
  keeps s := by rw [h]; exact List.Subset.refl _
  same _ _ := rfl

theorem Follows.bind {a a' : EStateM Error σ α} {k k' : α → EStateM Error σ β}
    (ha : Follows l l' asked a a') (hk : ∀ x, Follows l l' asked (k x) (k' x)) :
    Follows l l' asked (a >>= k) (a' >>= k') := by
  constructor
  · intro s
    have hkeeps := ha.keeps s
    change asked s ⊆ asked (ending (EStateM.bind a k s))
    cases has : a s with
    | ok x s1 =>
      rw [has] at hkeeps
      simpa only [EStateM.bind, has] using List.Subset.trans hkeeps ((hk x).keeps s1)
    | error e s1 =>
      rw [has] at hkeeps
      simp only [EStateM.bind, has]
      exact hkeeps
  · intro s hagree
    change Library.Agree l l' (asked (ending (EStateM.bind a k s))) at hagree
    change EStateM.bind a' k' s = EStateM.bind a k s
    have hsame := ha.same s
    cases has : a s with
    | ok x s1 =>
      -- What the first part asked for is still known at the end, so the libraries agree
      -- on it, too.
      simp only [EStateM.bind, has] at hagree
      rw [has] at hsame
      rw [EStateM.bind, EStateM.bind, hsame (hagree.mono ((hk x).keeps s1)), has]
      exact (hk x).same s1 hagree
    | error e s1 =>
      simp only [EStateM.bind, has] at hagree
      rw [has] at hsame
      rw [EStateM.bind, EStateM.bind, hsame hagree, has]

/-- To run a computation on a part of a larger state keeps the relation, whatever becomes
of its result, as long as the names are those of that part. -/
theorem Follows.within {τ : Type} (asked' : τ → List String) (view : τ → σ)
    (f : τ → EStateM.Result Error σ α → EStateM.Result Error τ β)
    (hview : ∀ t, asked' t = asked (view t))
    (hf : ∀ t r, asked' (ending (f t r)) = asked (ending r)) {a a' : EStateM Error σ α}
    (h : Follows l l' asked a a') :
    Follows l l' asked' (fun t => f t (a (view t))) (fun t => f t (a' (view t))) where
  keeps t := by rw [hf, hview]; exact h.keeps (view t)
  same t hagree := by rw [hf] at hagree; rw [h.same (view t) hagree]

end

/-- The steps of the reader respect the relation. -/
theorem respects_follows (l l' : Library) :
    Respects (fun a a' => Follows l l' Progress.asked a a') where
  pure _ := Follows.refl fun _ => rfl
  fail _ _ _ _ := Follows.refl fun _ => rfl
  addMixins _ := Follows.refl fun _ => rfl
  bind ha hk := ha.bind hk

/-! ### Templates -/

section
variable {l l' : Library}

theorem ending_blaming {σ α : Type} (template : String) (line : Nat) (fault : ParseFault)
    (r : EStateM.Result Error σ α) : ending (blaming template line fault r) = ending r := by
  unfold blaming
  split <;> rfl

/-- The result of asking, for a reader on its way. -/
def resuming {α : Type} (p : Progress) :
    EStateM.Result Error (List String) α → EStateM.Result Error Progress α
  | .ok x asked => .ok x { p with asked }
  | .error e asked => .error e { p with asked }

theorem asking_eq {α : Type} (a : Asking α) : asking a = fun p => resuming p (a p.asked) := by
  funext p
  rw [asking]
  cases a p.asked <;> rfl

theorem orMissing_eq {α : Type} (s : Surroundings) (line : Nat) (fault : ParseFault)
    (a : Asking α) :
    s.orMissing line fault a = fun p => blaming s.template line fault (asking a p) := by
  funext p
  rw [Surroundings.orMissing]
  cases asking a p with
  | ok x p => rfl
  | error e p => cases e <;> rfl

theorem orMissing_follows {α : Type} {s s' : Surroundings} (hs : s'.template = s.template)
    (line : Nat) (fault : ParseFault) {a a' : Asking α} (h : Follows l l' id a a') :
    Follows l l' Progress.asked (s.orMissing line fault a) (s'.orMissing line fault a') := by
  have hasking : Follows l l' Progress.asked (asking a) (asking a') := by
    rw [asking_eq, asking_eq]
    refine h.within Progress.asked Progress.asked resuming (fun _ => rfl) ?_
    intro p r
    cases r <;> rfl
  rw [orMissing_eq, orMissing_eq, hs]
  exact hasking.within Progress.asked id (fun _ => blaming s.template line fault)
    (fun _ => rfl) fun _ r => congrArg Progress.asked (ending_blaming _ _ _ r)

/-- What asking for a source leaves behind. -/
theorem ending_ask (l : Library) (name : String) (asked : List String) :
    ending (l.ask name asked) = name :: asked := by
  rw [Library.ask]
  cases l.source name <;> rfl

theorem ask_follows (l l' : Library) (name : String) :
    Follows l l' id (l.ask name) (l'.ask name) where
  keeps asked := by
    rw [ending_ask]
    exact List.subset_cons_self name asked
  same asked hagree := by
    rw [ending_ask] at hagree
    rw [Library.ask, Library.ask, hagree name List.mem_cons_self]

/-- Two surroundings of one template that fetch and load alike. Only names to which a
reference can resolve are loaded. -/
structure Surroundings.Follow (l l' : Library) (s s' : Surroundings) : Prop where
  template : s'.template = s.template
  fetch (name : String) : Follows l l' id (s.fetch name) (s'.fetch name)
  load (name : String) : name.toList.head? ≠ some '/' →
    Follows l l' id (s.load name) (s'.load name)

variable {s s' : Surroundings}

theorem Surroundings.Follow.related (h : s.Follow l l' s') :
    s.Related (fun a a' => Follows l l' Progress.asked a a') (fun _ => True) s' where
  template := h.template
  includeNodes line target _ := by
    have hR := respects_follows l l'
    rw [includeNodes, includeNodes, h.template]
    split
    · exact (orMissing_follows h.template line _ (h.fetch _)).bind fun _ => hR.pure _
    · exact (orMissing_follows h.template line _
          (h.load _ (Reference.head?_resolve_ne_slash _ _))).bind fun _ =>
        hR.bind (hR.addMixins _) fun _ => hR.pure _

/-- The nodes and mixins that a reader has come to, as a document. -/
def collected : EStateM.Result Error Progress (List Node) →
    EStateM.Result Error (List String) Document
  | .ok nodes p => .ok ⟨nodes, p.mixins⟩ p.asked
  | .error e p => .error e p.asked

theorem collecting_eq (b : Building (List Node)) :
    collecting b = fun asked => collected (b ⟨[], asked⟩) := by
  funext asked
  rw [collecting]
  cases b ⟨[], asked⟩ <;> rfl

theorem collecting_follows {b b' : Building (List Node)}
    (h : Follows l l' Progress.asked b b') :
    Follows l l' id (collecting b) (collecting b') := by
  rw [collecting_eq, collecting_eq]
  refine h.within id (fun asked => ⟨[], asked⟩) (fun _ => collected) (fun _ => rfl) ?_
  intro asked r
  cases r <;> rfl

theorem respectsAsking_follows (l l' : Library) :
    RespectsAsking (fun a a' => Follows l l' Progress.asked a a')
      (fun a a' => Follows l l' id a a') where
  reading := respects_follows l l'
  pure _ := Follows.refl fun _ => rfl
  fail _ _ _ _ := Follows.refl fun _ => rfl
  bind ha hk := ha.bind hk
  collecting := collecting_follows

theorem readDocument_follows (h : s.Follow l l' s') (layout : Layout) :
    Follows l l' id (readDocument s layout) (readDocument s' layout) := by
  refine readDocument_related (respectsAsking_follows l l') ⟨h.related, fun line target _ => ?_⟩
    layout.namesOnly_true
  rw [h.template]
  have hload := h.load (Reference.resolve s.template target)
    (Reference.head?_resolve_ne_slash _ _)
  exact hload.within id id
    (fun _ => blaming s.template line (.noTemplate (Reference.resolve s.template target)))
    (fun _ => rfl) fun _ r => ending_blaming _ _ _ r

end

/-! ### Whole documents -/

namespace Library

/-- How a library loads a template that another one names, the templates of `under` being
under way. -/
def load (l : Library) (unused under : List String) (target : String) : Asking Document :=
  if target ∈ under then throw (.parse target 0 (.cycle (under ++ [target])))
  else if target ∈ unused then l.resolve (unused.erase target) under target
  else do
    let _ ← l.ask target
    throw (.notFound target)

/-- Resolution reads the template in surroundings that load with this one under way, too. -/
theorem resolve_eq (l : Library) (unused chain : List String) (name : String) :
    l.resolve unused chain name = (do
      let source ← l.ask name
      match Layout.scan source with
      | .error e => throw (.scan name e)
      | .ok layout =>
        readDocument ⟨name, l.ask, l.load unused (chain ++ [name])⟩ layout) := by
  rw [Library.resolve]
  rfl

theorem ask_of_missing {l : Library} {name : String} {e : Error} (h : l.source name = .error e)
    (asked : List String) : l.ask name asked = .error e (name :: asked) := by rw [ask, h]

theorem ask_of_source {l : Library} {name source : String} (h : l.source name = .ok source)
    (asked : List String) : l.ask name asked = .ok source (name :: asked) := by rw [ask, h]

/-- A name without a source fails in the same way, whether it is on the list or not. -/
theorem load_of_missing {l : Library} {unused under : List String} {target : String}
    {e : Error} (hunder : target ∉ under) (h : l.source target = .error e)
    (asked : List String) :
    l.load unused under target asked = .error e (target :: asked) := by
  rw [load, if_neg hunder]
  split
  · rw [resolve_eq]
    change EStateM.bind _ _ _ = _
    rw [EStateM.bind, ask_of_missing h]
  · change EStateM.bind _ _ _ = _
    rw [EStateM.bind, ask_of_missing h]

/-- Resolving a name asks for it, and follows every other resolution of the name that
could have had the same names under way. -/
structure Settled (l : Library) (unused chain : List String) (name : String) : Prop where
  asks (asked : List String) : name ∈ ending (l.resolve unused chain name asked)
  follows (l' : Library) (unused' : List String) : l'.Covers unused' (chain ++ [name]) →
    Follows l l' id (l.resolve unused chain name) (l'.resolve unused' chain name)

/-- Loading follows loading, if this is known of the resolution to which it comes. -/
theorem load_follows {l l' : Library} {unused unused' under : List String} {target : String}
    (htarget : target.toList.head? ≠ some '/') (hc : l.Covers unused under)
    (hc' : l'.Covers unused' under)
    (hsettled : target ∈ unused → l.Settled (unused.erase target) under target) :
    Follows l l' id (l.load unused under target) (l'.load unused' under target) := by
  by_cases hunder : target ∈ under
  · rw [load, load, if_pos hunder, if_pos hunder]
    exact Follows.refl fun _ => rfl
  cases hsource : l.source target with
  | error e =>
    have hload : ∀ asked, l.load unused under target asked = .error e (target :: asked) :=
      load_of_missing hunder hsource
    constructor
    · intro asked
      rw [hload]
      exact List.subset_cons_self target asked
    · intro asked hagree
      rw [hload] at hagree ⊢
      exact load_of_missing hunder ((hagree target List.mem_cons_self).symm.trans hsource) asked
  | ok source =>
    have hmem : target ∈ unused := hc target source htarget hsource hunder
    have hs := hsettled hmem
    have hload : l.load unused under target = l.resolve (unused.erase target) under target := by
      rw [load, if_neg hunder, if_pos hmem]
    rw [hload]
    constructor
    · exact (hs.follows l _ (hc.erase target)).keeps
    · intro asked hagree
      -- The other library has the source, too, so it has the name on its list.
      have hmem' : target ∈ unused' :=
        hc' target source htarget ((hagree target (hs.asks asked)).symm.trans hsource) hunder
      rw [load, if_neg hunder, if_pos hmem']
      exact (hs.follows l' _ (hc'.erase target)).same asked hagree

/-- Every resolution is settled. The induction follows the chain of templates under way,
along which the list of unused names gets shorter. -/
theorem settled (l : Library) (unused chain : List String) (name : String)
    (hc : l.Covers unused (chain ++ [name])) : l.Settled unused chain name := by
  have hread : ∀ (l' : Library) (unused' : List String), l'.Covers unused' (chain ++ [name]) →
      ∀ source, Follows l l' id
        (match Layout.scan source with
        | .error e => throw (.scan name e)
        | .ok layout => readDocument ⟨name, l.ask, l.load unused (chain ++ [name])⟩ layout)
        (match Layout.scan source with
        | .error e => throw (.scan name e)
        | .ok layout =>
          readDocument ⟨name, l'.ask, l'.load unused' (chain ++ [name])⟩ layout) := by
    intro l' unused' hc' source
    have hs : Surroundings.Follow l l' ⟨name, l.ask, l.load unused (chain ++ [name])⟩
        ⟨name, l'.ask, l'.load unused' (chain ++ [name])⟩ :=
      { template := rfl
        fetch := ask_follows l l'
        load := fun target htarget => load_follows htarget hc hc' fun hmem =>
          settled l (unused.erase target) (chain ++ [name]) target (hc.erase target) }
    split
    · exact Follows.refl fun _ => rfl
    · exact readDocument_follows hs _
  constructor
  · intro asked
    rw [resolve_eq]
    change name ∈ ending (EStateM.bind _ _ _)
    cases hsource : l.source name with
    | error e =>
      rw [EStateM.bind, ask_of_missing hsource]
      exact List.mem_cons_self
    | ok source =>
      rw [EStateM.bind, ask_of_source hsource]
      exact (hread l unused hc source).keeps (name :: asked) List.mem_cons_self
  · intro l' unused' hc'
    rw [resolve_eq, resolve_eq]
    exact (ask_follows l l' name).bind (hread l' unused' hc')
termination_by unused.length
decreasing_by exact length_erase_lt hmem

/-- What a library was asked for is the state in which resolution ends. -/
theorem mem_asked_iff (l : Library) (name n : String) :
    n ∈ (l.document name).2 ↔ n ∈ ending (l.resolve l.names [] name []) := by
  rw [document]
  cases l.resolve l.names [] name [] with
  | ok d asked => exact List.mem_reverse
  | error e asked => exact List.mem_reverse

/-- **A document depends on the sources that were asked for only.** -/
theorem document_congr {l l' : Library} (h : l.Complete) (h' : l'.Complete) {name : String}
    (hagree : Agree l l' (l.document name).2) : l'.document name = l.document name := by
  have hsame := ((settled l l.names [] name (h.covers _)).follows l' l'.names (h'.covers _)).same
    []
  have hending : Agree l l' (ending (l.resolve l.names [] name [])) :=
    fun n hn => hagree n ((mem_asked_iff l name n).mpr hn)
  rw [document, document, hsame hending]

end Library

end Trellis
