import Mathlib.Logic.Relation
import Trellis.Loader.Directory
import Trellis.Proofs.Pasting
import Trellis.Proofs.Resolution

/-!
# `Trellis.Proofs.Confinement`: no reference leads out of the root

What a template names in an include or extends statement is a path, and a path can go up. The name
that comes of it never does: it is made of segments that name something, so it stays below the root
of the loader (`references_confined`).

* `Reference.Simplifies` tells how a path from the root is made shorter, one step at a time, without
  leading elsewhere. Steps in any order end in the same segments (`walk_of_simplified`), and these are
  what `Reference.walk` leaves (`simplified_walk`).
* `AsksOnly` bounds the names that a computation asks for. The steps of the reader respect it, so all
  names that resolution asks for, the first one apart, are names that a reference resolves to
  (`Library.asksOnly_resolve`).
* `Directory.below_path` goes on to files: the path that such a name means goes on from that of the
  base directory, and only down.
-/

set_option autoImplicit false

namespace Trellis

open Source Text

/-! ### Splitting and joining -/

/-- Pieces without the character come back from the text that they are joined to. -/
theorem Text.splitAll_joinWith {d : Char} {parts : List (List Char)} (hne : parts ≠ [])
    (h : ∀ p ∈ parts, d ∉ p) : splitAll d (joinWith [d] parts) = parts := by
  induction parts with
  | nil => exact absurd rfl hne
  | cons part rest ih =>
    have hpart := splitAll_of_notMem (h part List.mem_cons_self)
    cases rest with
    | nil => exact hpart
    | cons other rest =>
      have hrest := ih (List.cons_ne_nil _ _) fun p hp => h p (List.mem_cons_of_mem _ hp)
      rw [joinWith, List.append_assoc, List.singleton_append, splitAll_append, hpart, hrest]
      · rfl
      · exact List.cons_ne_nil _ _

/-- A text behind the last piece belongs to it. -/
theorem Text.joinWith_append_last (d : List Char) (front : List (List Char)) (last more : List Char) :
    joinWith d (front ++ [last ++ more]) = joinWith d (front ++ [last]) ++ more := by
  induction front with
  | nil => rfl
  | cons part front ih =>
    have hcons (cs : List Char) :
        joinWith d (part :: (front ++ [cs])) = part ++ d ++ joinWith d (front ++ [cs]) :=
      joinWith.eq_3 _ _ _ (by simp)
    rw [List.cons_append, List.cons_append, hcons, hcons, ih, ← List.append_assoc]

/-- The pieces of a text, joined, are the text. -/
theorem Text.joinWith_splitAll (d : Char) (cs : List Char) : joinWith [d] (splitAll d cs) = cs := by
  induction cs with
  | nil => rfl
  | cons c cs ih =>
    rw [splitAll]
    cases hparts : splitAll d cs with
    | nil => exact absurd hparts (splitAll_ne_nil d cs)
    | cons part parts =>
      rw [hparts] at ih
      dsimp only
      split
      · next heq =>
        subst heq
        rw [joinWith.eq_3 _ _ _ (by simp), ih]
        rfl
      · cases parts with
        | nil =>
          rw [← ih]
          rfl
        | cons other parts =>
          rw [← ih, joinWith.eq_3 _ _ _ (List.cons_ne_nil _ _), joinWith.eq_3 _ _ _ (List.cons_ne_nil _ _)]
          rfl

namespace Reference

/-! ### Paths made shorter -/

/-- One step that makes a path from the root shorter and leads to the same place: a segment that
stays goes away, two dots take the segment in front with them, and at the root they do nothing. -/
inductive Simplifies : List (List Char) → List (List Char) → Prop
  | empty (front back : List (List Char)) : Simplifies (front ++ [] :: back) (front ++ back)
  | dot (front back : List (List Char)) : Simplifies (front ++ ['.'] :: back) (front ++ back)
  | back {part : List Char} (h : IsSegment part) (front back : List (List Char)) :
    Simplifies (front ++ part :: ['.', '.'] :: back) (front ++ back)
  | root (back : List (List Char)) : Simplifies (['.', '.'] :: back) back

/-- A path that cannot be made shorter comes of another one by such steps. -/
structure Simplified (parts segments : List (List Char)) : Prop where
  steps : Relation.ReflTransGen Simplifies parts segments
  isSegment : ∀ s ∈ segments, IsSegment s

theorem walk_cons_of_isSegment {part : List Char} (h : IsSegment part) (up parts : List (List Char)) :
    walk up (part :: parts) = walk (part :: up) parts := by
  rw [walk, if_neg (by simp [h.ne_nil, h.ne_dot]), if_neg h.ne_dots]

/-- Going through segments changes nothing. -/
theorem walk_of_isSegment {segments : List (List Char)} (h : ∀ s ∈ segments, IsSegment s)
    (up : List (List Char)) : walk up segments = up.reverse ++ segments := by
  induction segments generalizing up with
  | nil => rw [walk, List.append_nil]
  | cons s segments ih =>
    obtain ⟨hs, hsegments⟩ := List.forall_mem_cons.mp h
    rw [walk_cons_of_isSegment hs, ih hsegments, List.reverse_cons, List.append_assoc]
    rfl

/-- A step leads to the same place. -/
theorem Simplifies.walk_eq {parts parts' : List (List Char)} (h : Simplifies parts parts') :
    walk [] parts = walk [] parts' := by
  cases h with
  | empty front back => rw [walk_append, walk_append, walk, if_pos (.inl rfl)]
  | dot front back => rw [walk_append, walk_append, walk, if_pos (.inr rfl)]
  | back hpart front back =>
    rw [walk_append, walk_append, walk_cons_of_isSegment hpart, walk, if_neg (by simp), if_pos rfl]
    rfl
  | root back =>
    rw [walk, if_neg (by simp), if_pos rfl]
    rfl

/-- **Steps in any order end in the same segments.** -/
theorem walk_of_simplified {parts segments : List (List Char)} (h : Simplified parts segments) :
    walk [] parts = segments := by
  obtain ⟨hsteps, hsegments⟩ := h
  have hwalk : walk [] parts = walk [] segments := by
    clear hsegments
    induction hsteps with
    | refl => rfl
    | tail _ hstep ih => exact ih.trans hstep.walk_eq
  rw [hwalk, walk_of_isSegment hsegments]
  rfl

/-- Going through a path makes it shorter step by step. The segments that were passed stand in front
of those that are left. -/
theorem simplifies_walk {up parts : List (List Char)} (hup : ∀ p ∈ up, IsSegment p)
    (hparts : ∀ p ∈ parts, '/' ∉ p) :
    Relation.ReflTransGen Simplifies (up.reverse ++ parts) (walk up parts) := by
  induction parts generalizing up with
  | nil =>
    rw [walk, List.append_nil]
  | cons part parts ih =>
    obtain ⟨hpart, hrest⟩ := List.forall_mem_cons.mp hparts
    by_cases hnothing : part = [] ∨ part = ['.']
    · rw [walk, if_pos hnothing]
      rcases hnothing with rfl | rfl
      · exact .head (.empty _ _) (ih hup hrest)
      · exact .head (.dot _ _) (ih hup hrest)
    by_cases hdots : part = ['.', '.']
    · rw [walk, if_neg hnothing, if_pos hdots]
      subst hdots
      cases up with
      | nil => exact .head (.root _) (ih hup hrest)
      | cons s up =>
        obtain ⟨hs, hup⟩ := List.forall_mem_cons.mp hup
        rw [List.reverse_cons, List.append_assoc]
        exact .head (.back hs _ _) (ih hup hrest)
    · have hsegment : IsSegment part :=
        ⟨fun h => hnothing (.inl h), fun h => hnothing (.inr h), hdots, hpart⟩
      have hlater := ih (List.forall_mem_cons.mpr ⟨hsegment, hup⟩) hrest
      rw [List.reverse_cons, List.append_assoc] at hlater
      rw [walk_cons_of_isSegment hsegment]
      exact hlater

/-- **What is left of a path cannot be made shorter.** -/
theorem simplified_walk {parts : List (List Char)} (h : ∀ p ∈ parts, '/' ∉ p) :
    Simplified parts (walk [] parts) where
  steps := simplifies_walk (List.forall_mem_nil _) h
  isSegment := isSegment_of_mem_walk (List.forall_mem_nil _) h

/-! ### Targets -/

/-- The text has no character of a kind at either end. -/
structure Bare (p : Char → Bool) (cs : List Char) : Prop where
  first : ∀ c ∈ cs.head?, p c = false
  last : ∀ c ∈ cs.getLast?, p c = false

/-- What is left of a target without the blanks around it, and without the quotes inside those. -/
def Strips (target core : List Char) : Prop :=
  ∃ before marks marks' after, target = before ++ (marks ++ core ++ marks') ++ after ∧
    isBlankText before = true ∧ isBlankText after = true ∧ Bare isBlank (marks ++ core ++ marks') ∧
    (∀ c ∈ marks ++ marks', isQuoteMark c = true) ∧ Bare isQuoteMark core

/-- The path that a target spells out in some template: from the root if it begins with a slash, and
else from the directory of the template. -/
inductive Spells (current : List Char) : List Char → List Char → Prop
  | root (path : List Char) : Spells current ('/' :: path) path
  | beside {directory file core : List Char} (hcurrent : current = directory ++ '/' :: file)
    (hfile : '/' ∉ file) (hcore : core.head? ≠ some '/') :
    Spells current core (directory ++ '/' :: core)
  | top {core : List Char} (hcurrent : '/' ∉ current) (hcore : core.head? ≠ some '/') :
    Spells current core core

theorem first_dropWhile (p : Char → Bool) (cs : List Char) : ∀ c ∈ (cs.dropWhile p).head?, p c = false := by
  intro c hc
  have h := List.head?_dropWhile_not p cs
  rw [Option.mem_def.mp hc] at h
  simpa using h

/-- What is dropped at both ends, and what stays between. -/
theorem exists_dropWhile_both (p : Char → Bool) (cs : List Char) :
    ∃ front behind, cs = front ++ ((cs.dropWhile p).reverse.dropWhile p).reverse ++ behind ∧
      (∀ c ∈ front ++ behind, p c = true) ∧ Bare p ((cs.dropWhile p).reverse.dropWhile p).reverse := by
  have hfront := List.takeWhile_append_dropWhile (p := p) (l := cs)
  have hbehind := List.takeWhile_append_dropWhile (p := p) (l := (cs.dropWhile p).reverse)
  have hsplit : cs.dropWhile p = ((cs.dropWhile p).reverse.dropWhile p).reverse ++
      ((cs.dropWhile p).reverse.takeWhile p).reverse := by
    rw [← List.reverse_append, hbehind, List.reverse_reverse]
  refine ⟨cs.takeWhile p, ((cs.dropWhile p).reverse.takeWhile p).reverse, ?_, ?_, ?_, ?_⟩
  · rw [List.append_assoc, ← hsplit, hfront]
  · intro c hc
    rcases List.mem_append.mp hc with hc | hc
    · exact List.mem_takeWhile_imp hc
    · exact List.mem_takeWhile_imp (List.mem_reverse.mp hc)
  · -- What stays begins as the text did behind what was dropped in front.
    intro c hc
    refine first_dropWhile p cs c ?_
    rw [hsplit, List.head?_append, Option.mem_def.mp hc]
    rfl
  · intro c hc
    rw [List.getLast?_reverse] at hc
    exact first_dropWhile p _ c hc

theorem trimEnd_eq (cs : List Char) : trimEnd cs = (cs.reverse.dropWhile isBlank).reverse := by
  obtain ⟨blanks, hcs, hblank⟩ := exists_trimEnd cs
  have hall : ∀ c ∈ blanks.reverse, isBlank c = true := fun c hc =>
    List.all_eq_true.mp hblank c (List.mem_reverse.mp hc)
  have hlast : ∀ c ∈ (trimEnd cs).reverse.head?, isBlank c = false := by
    intro c hc
    rw [List.head?_reverse] at hc
    clear hcs hall
    induction cs with
    | nil => cases hc
    | cons d cs ih =>
      rw [trimEnd] at hc
      split at hc
      · split at hc
        · cases hc
        · next hink =>
          cases hc
          exact eq_false_of_ne_true hink
      · next hne =>
        rw [List.getLast?_cons_of_ne_nil hne] at hc
        exact ih hc
  conv => rhs; rw [hcs, List.reverse_append, List.dropWhile_append_of_pos hall]
  cases hrest : (trimEnd cs).reverse with
  | nil => rw [List.reverse_eq_nil_iff.mp hrest]; rfl
  | cons c rest =>
    rw [hrest] at hlast
    rw [List.dropWhile_cons_of_neg (by simp [hlast c rfl]), ← hrest, List.reverse_reverse]

/-- **The target that is resolved is the stripped one.** -/
theorem strips_bareTarget (target : List Char) : Strips target (bareTarget target) := by
  obtain ⟨before, after, htarget, hblank, hbare⟩ := exists_dropWhile_both isBlank target
  have htrim : trim target = ((target.dropWhile isBlank).reverse.dropWhile isBlank).reverse :=
    trimEnd_eq _
  rw [← htrim] at htarget hbare
  obtain ⟨marks, marks', hinner, hmarks, hcore⟩ := exists_dropWhile_both isQuoteMark (trim target)
  change trim target = marks ++ bareTarget target ++ marks' at hinner
  rw [hinner] at htarget hbare
  have hall {cs : List Char} (h : ∀ c ∈ cs, c ∈ before ++ after) : isBlankText cs = true :=
    List.all_eq_true.mpr fun c hc => hblank c (h c hc)
  exact ⟨before, marks, marks', after, htarget, hall fun _ => List.mem_append_left _,
    hall fun _ => List.mem_append_right _, hbare, hmarks, hcore⟩

/-- The directory of a template is what stands in front of the last slash of its name. -/
theorem directory?_eq_some {name directory : List Char} (h : directory? name = some directory) :
    ∃ file, name = directory ++ '/' :: file ∧ '/' ∉ file := by
  have hsplit := List.takeWhile_append_dropWhile (p := (· != '/')) (l := name.reverse)
  have hslash := List.head?_dropWhile_not (· != '/') name.reverse
  unfold directory? at h
  cases hdrop : name.reverse.dropWhile (· != '/') with
  | nil =>
    rw [hdrop] at h
    cases h
  | cons c before =>
    rw [hdrop] at h hsplit hslash
    cases h
    have hc : c = '/' := by simpa using hslash
    subst hc
    refine ⟨(name.reverse.takeWhile (· != '/')).reverse, ?_, fun hmem => ?_⟩
    · have hname := congrArg List.reverse hsplit
      rw [List.reverse_append, List.reverse_reverse, List.reverse_cons, List.append_assoc] at hname
      exact hname.symm
    · have := List.mem_takeWhile_imp (List.mem_reverse.mp hmem)
      simp at this

theorem slash_notMem_of_directory? {name : List Char} (h : directory? name = none) : '/' ∉ name := by
  unfold directory? at h
  split at h
  · next hdrop =>
    intro hmem
    have := List.dropWhile_eq_nil_iff.mp hdrop '/' (List.mem_reverse.mpr hmem)
    simp at this
  · cases h

/-- A name that stays below the root: it is empty, or all segments of it name something. -/
def Confined (name : List Char) : Prop := name = [] ∨ ∀ part ∈ splitAll '/' name, IsSegment part

theorem confined_joinWith {segments : List (List Char)} (h : ∀ s ∈ segments, IsSegment s) :
    Confined (joinWith ['/'] segments) := by
  by_cases hnil : segments = []
  · subst hnil
    exact .inl rfl
  · refine .inr ?_
    rw [splitAll_joinWith hnil fun s hs => (h s hs).slash_notMem]
    exact h

/-- **What a reference resolves to** is the path that its target spells out, made shorter as far as it
goes. -/
theorem exists_spells (current target : String) :
    ∃ path, Spells current.toList (bareTarget target.toList) path ∧
      (resolve current target).toList = joinWith ['/'] (walk [] (splitAll '/' path)) := by
  unfold resolve normalize
  generalize bareTarget target.toList = core
  have hrelative (hcore : ∀ path, core ≠ '/' :: path) : core.head? ≠ some '/' := by
    cases core with
    | nil => nofun
    | cons c rest =>
      intro h
      cases h
      exact hcore rest rfl
  dsimp only
  split
  · next path => exact ⟨path, .root path, String.toList_ofList⟩
  · next hcore =>
    cases hdirectory : directory? current.toList with
    | none =>
      exact ⟨core, .top (slash_notMem_of_directory? hdirectory) (hrelative hcore), String.toList_ofList⟩
    | some directory =>
      obtain ⟨file, hcurrent, hfile⟩ := directory?_eq_some hdirectory
      exact ⟨_, .beside hcurrent hfile (hrelative hcore), String.toList_ofList⟩

end Reference

/-! ### What is asked for -/

/-- A computation asks only for names of a kind. -/
structure AsksOnly (Q : String → Prop) {σ α : Type} (asked : σ → List String) (a : EStateM Error σ α) :
    Prop where
  asks : ∀ s, ∃ names, asked (ending (a s)) = names ++ asked s ∧ ∀ n ∈ names, Q n

namespace AsksOnly

variable {Q : String → Prop} {σ α β : Type} {asked : σ → List String}

theorem still {a : EStateM Error σ α} (h : ∀ s, asked (ending (a s)) = asked s) : AsksOnly Q asked a where
  asks s := ⟨[], h s, List.forall_mem_nil _⟩

theorem bind {a : EStateM Error σ α} {k : α → EStateM Error σ β} (ha : AsksOnly Q asked a)
    (hk : ∀ x, AsksOnly Q asked (k x)) : AsksOnly Q asked (a >>= k) where
  asks s := by
    obtain ⟨names, hnames, hQ⟩ := ha.asks s
    show ∃ names, asked (ending (EStateM.bind a k s)) = names ++ asked s ∧ ∀ n ∈ names, Q n
    unfold EStateM.bind
    cases has : a s with
    | error e between =>
      rw [has] at hnames
      exact ⟨names, hnames, hQ⟩
    | ok x between =>
      rw [has] at hnames
      obtain ⟨more, hmore, hQ'⟩ := (hk x).asks between
      refine ⟨more ++ names, ?_, fun n hn => (List.mem_append.mp hn).elim (hQ' n) (hQ n)⟩
      have hbetween : asked between = names ++ asked s := hnames
      rw [List.append_assoc, ← hbetween]
      exact hmore

/-- To run a computation on a part of a larger state asks for nothing more, whatever becomes of its
result, as long as the names are those of that part. -/
theorem within {τ : Type} (asked' : τ → List String) (view : τ → σ)
    (f : τ → EStateM.Result Error σ α → EStateM.Result Error τ β) (hview : ∀ t, asked' t = asked (view t))
    (hf : ∀ t r, asked' (ending (f t r)) = asked (ending r)) {a : EStateM Error σ α}
    (h : AsksOnly Q asked a) : AsksOnly Q asked' fun t => f t (a (view t)) where
  asks t := by
    rw [hf, hview]
    exact h.asks (view t)

/-- That a source is missing is told in another way, but it was asked for. -/
theorem blaming {a : EStateM Error σ α} (h : AsksOnly Q asked a) (template : String) (line : Nat)
    (fault : ParseFault) : AsksOnly Q asked fun s => Trellis.blaming template line fault (a s) where
  asks s := by
    rw [ending_blaming]
    exact h.asks s

theorem asking {a : Asking α} (h : AsksOnly Q id a) : AsksOnly Q Progress.asked (Trellis.asking a) := by
  rw [asking_eq]
  refine h.within Progress.asked Progress.asked resuming (fun _ => rfl) fun p r => ?_
  cases r <;> rfl

theorem collecting {b : Building (List Node)} (h : AsksOnly Q Progress.asked b) :
    AsksOnly Q id (Trellis.collecting b) := by
  rw [collecting_eq]
  refine h.within id (fun asked => ⟨[], asked⟩) (fun _ => collected) (fun _ => rfl) fun _ r => ?_
  cases r <;> rfl

end AsksOnly

/-- The steps of the reader ask for nothing by themselves. -/
theorem respectsAsking_asksOnly (Q : String → Prop) :
    RespectsAsking (fun a _ => AsksOnly Q Progress.asked a) (fun a _ => AsksOnly Q id a) where
  reading :=
    { pure := fun _ => .still fun _ => rfl
      fail := fun _ _ _ _ => .still fun _ => rfl
      addMixins := fun _ => .still fun _ => rfl
      bind := .bind }
  pure _ := .still fun _ => rfl
  fail _ _ _ _ := .still fun _ => rfl
  bind := .bind
  collecting := .collecting

/-- A name that a reference resolves to, in some template. -/
def Referred (name : String) : Prop := ∃ current target, name = Reference.resolve current target

/-- A template asks only for names that its references resolve to, if what it asks for does. -/
theorem asksOnly_readDocument {s : Surroundings}
    (hfetch : ∀ name, Referred name → AsksOnly Referred id (s.fetch name))
    (hload : ∀ name, Referred name → AsksOnly Referred id (s.load name)) (layout : Layout) :
    AsksOnly Referred id (readDocument s layout) := by
  have hreferred (target : String) : Referred (Reference.resolve s.template target) := ⟨_, _, rfl⟩
  refine @readDocument_related _ _ (respectsAsking_asksOnly Referred) _ _ s s
    ⟨⟨rfl, fun line target _ => ?_⟩, fun line target _ => ?_⟩ layout layout.namesOnly_true
  · rw [Surroundings.includeNodes]
    split
    · rw [orMissing_eq]
      exact ((hfetch _ (hreferred target)).asking.blaming _ _ _).bind fun _ => .still fun _ => rfl
    · rw [orMissing_eq]
      exact ((hload _ (hreferred target)).asking.blaming _ _ _).bind fun _ => .still fun _ => rfl
  · exact (hload _ (hreferred target)).blaming _ _ _

namespace Library

theorem asksOnly_ask (l : Library) {name : String} (h : Referred name) :
    AsksOnly Referred id (l.ask name) where
  asks asked := by
    rw [ending_ask]
    exact ⟨[name], rfl, List.forall_mem_singleton.mpr h⟩

/-- **Resolution asks for the template, and then only for names that references resolve to.** The
induction follows the chain of templates under way. -/
theorem asksOnly_resolve (l : Library) (unused chain : List String) (name : String) (asked : List String) :
    ∃ names, ending (l.resolve unused chain name asked) = names ++ name :: asked ∧
      ∀ n ∈ names, Referred n := by
  have hload (target : String) (htarget : Referred target) :
      AsksOnly Referred id (l.load unused (chain ++ [name]) target) := by
    unfold load
    split
    · exact .still fun _ => rfl
    · split
      · next hmem =>
        refine ⟨fun asked => ?_⟩
        obtain ⟨names, hnames, hreferred⟩ :=
          asksOnly_resolve l (unused.erase target) (chain ++ [name]) target asked
        refine ⟨names ++ [target], ?_, fun n hn => ?_⟩
        · rw [List.append_assoc]
          exact hnames
        · rcases List.mem_append.mp hn with hn | hn
          · exact hreferred n hn
          · exact List.mem_singleton.mp hn ▸ htarget
      · exact (l.asksOnly_ask htarget).bind fun _ => .still fun _ => rfl
  rw [resolve_eq]
  show ∃ names, ending (EStateM.bind _ _ _) = _ ∧ _
  unfold EStateM.bind
  cases hsource : l.source name with
  | error e =>
    rw [ask_of_missing hsource]
    exact ⟨[], rfl, List.forall_mem_nil _⟩
  | ok source =>
    rw [ask_of_source hsource]
    dsimp only
    cases Layout.scan source with
    | error e => exact ⟨[], rfl, List.forall_mem_nil _⟩
    | ok layout => exact (asksOnly_readDocument (fun _ => l.asksOnly_ask) hload _).asks (name :: asked)
termination_by unused.length
decreasing_by exact length_erase_lt ‹_›

theorem asked_document (l : Library) (name : String) :
    ∃ names, (l.document name).2 = name :: names ∧ ∀ n ∈ names, Referred n := by
  obtain ⟨names, hnames, hreferred⟩ := l.asksOnly_resolve l.names [] name []
  have hasked : (l.document name).2 = (ending (l.resolve l.names [] name [])).reverse := by
    unfold document
    cases l.resolve l.names [] name [] <;> rfl
  refine ⟨names.reverse, ?_, fun n hn => hreferred n (List.mem_reverse.mp hn)⟩
  rw [hasked, hnames, List.reverse_append]
  rfl

end Library

/-! ### Files -/

namespace Text.Path

/-- A path goes on from another one, and only down. -/
structure Below (base path : List Char) : Prop where
  extends_base : base <+: path
  segments_eq : ∃ steps, steps ≠ [] ∧ (∀ s ∈ steps, Reference.IsSegment s) ∧
    segments path = segments base ++ steps

theorem segments_append (base path : List Char) :
    segments (base ++ '/' :: path) = segments base ++ segments path := by
  unfold segments
  rw [splitAll_append, List.filter_append]

theorem segments_joinWith {steps : List (List Char)} (hne : steps ≠ [])
    (h : ∀ s ∈ steps, Reference.IsSegment s) : segments (joinWith ['/'] steps) = steps := by
  unfold segments
  rw [splitAll_joinWith hne fun s hs => (h s hs).slash_notMem, List.filter_eq_self]
  intro s hs
  simp [(h s hs).ne_nil, (h s hs).ne_dot]

theorem below_join {steps : List (List Char)} (hne : steps ≠ []) (h : ∀ s ∈ steps, Reference.IsSegment s)
    (base : List Char) : Below base (join base (joinWith ['/'] steps)) := by
  have hsteps := segments_joinWith hne h
  generalize joinWith ['/'] steps = path at hsteps ⊢
  unfold join
  split
  · next hends =>
    refine ⟨List.prefix_append _ _, steps, hne, h, ?_⟩
    rcases Bool.or_eq_true_iff.mp hends with hempty | hslash
    · rw [List.isEmpty_iff.mp hempty]
      exact hsteps
    · obtain ⟨front, rfl⟩ : ∃ front, base = front ++ ['/'] :=
        List.getLast?_eq_some_iff.mp (beq_iff_eq.mp hslash)
      have hfront : segments (front ++ ['/']) = segments front := by
        rw [segments_append]
        exact List.append_nil _
      rw [hfront, List.append_assoc, List.singleton_append, segments_append, hsteps]
  · exact ⟨List.prefix_append _ _, steps, hne, h, by rw [segments_append, hsteps]⟩

end Text.Path

namespace Directory

/-- A name with the extension of templates behind it still names something. -/
theorem isSegment_append_extension {part : List Char} (h : Reference.IsSegment part) :
    Reference.IsSegment (part ++ '.' :: templateExtension) where
  ne_nil := by simp
  ne_dot hdot := by simpa [templateExtension] using congrArg List.length hdot
  ne_dots hdots := by simpa [templateExtension] using congrArg List.length hdots
  slash_notMem hmem := by
    rcases List.mem_append.mp hmem with hmem | hmem
    · exact h.slash_notMem hmem
    · revert hmem
      decide

/-- The file that such a name means is found by going down from the base directory, along at least
one segment. -/
theorem exists_steps {name : String} (h : Reference.Confined name.toList) :
    ∃ steps, steps ≠ [] ∧ (∀ s ∈ steps, Reference.IsSegment s) ∧
      (path name).toList = joinWith ['/'] steps := by
  rcases h with hempty | hsegments
  · have hname : name = "" := String.toList_inj.mp hempty
    subst hname
    exact ⟨[".jade".toList], by simp, by simpa using ⟨by simp, by simp, by simp, by simp⟩, by cbv⟩
  have hjoin := joinWith_splitAll '/' name.toList
  have hrelative : Text.Path.relative name.toList = name.toList := by
    have hfirst := Reference.head?_joinWith_ne_slash hsegments
    rw [hjoin] at hfirst
    unfold Text.Path.relative
    cases hname : name.toList with
    | nil => rfl
    | cons c cs =>
      rw [hname] at hfirst
      exact List.dropWhile_cons_of_neg (by simpa using hfirst)
  unfold path
  rw [hrelative]
  dsimp only
  split
  · exact ⟨_, splitAll_ne_nil '/' name.toList, hsegments, by rw [hjoin, String.toList_ofList]⟩
  · -- The extension that the name has not got is put behind its last segment.
    rcases List.eq_nil_or_concat (splitAll '/' name.toList) with hnil | ⟨front, last, hsplit⟩
    · exact absurd hnil (splitAll_ne_nil '/' name.toList)
    rw [List.concat_eq_append] at hsplit
    rw [hsplit] at hsegments hjoin
    obtain ⟨hfront, hlast⟩ := List.forall_mem_append.mp hsegments
    have hextended : Reference.IsSegment (last ++ '.' :: templateExtension) :=
      isSegment_append_extension (hlast last (List.mem_singleton_self _))
    refine ⟨front ++ [last ++ '.' :: templateExtension], by simp, ?_, ?_⟩
    · exact List.forall_mem_append.mpr ⟨hfront, List.forall_mem_singleton.mpr hextended⟩
    · rw [String.toList_ofList, joinWith_append_last, hjoin]

end Directory

/-! ### Confinement -/

theorem Referred.confined {name : String} (h : Referred name) : Reference.Confined name.toList := by
  obtain ⟨current, target, rfl⟩ := h
  obtain ⟨path, -, hresolve⟩ := Reference.exists_spells current target
  rw [hresolve]
  exact Reference.confined_joinWith
    (Reference.simplified_walk fun _ => notMem_of_mem_splitAll).isSegment

/-- The path of a confined name is not one from the root of all files. It goes on from any base
directory, and only down. -/
theorem Directory.below_path {name : String} (h : Reference.Confined name.toList) :
    (Directory.path name).toList.head? ≠ some '/' ∧
      ∀ base, Path.Below base (Path.join base (Directory.path name).toList) := by
  obtain ⟨steps, hne, hsteps, hpath⟩ := Directory.exists_steps h
  rw [hpath]
  exact ⟨Reference.head?_joinWith_ne_slash hsteps, Path.below_join hne hsteps⟩

/-- **No reference leads out of the root.** A reference resolves to the path that its stripped target
spells out, made shorter as far as it goes, where two dots at the root do nothing; all segments of a
name that is not empty name something. So all names that resolution asks for, the requested one apart,
are such names, and the files that they mean stand below the base directory. -/
theorem references_confined :
    (∀ current target : String, ∃ core path segments,
      Reference.Strips target.toList core ∧
      Reference.Spells current.toList core path ∧
      Reference.Simplified (splitAll '/' path) segments ∧
      (Reference.resolve current target).toList = joinWith ['/'] segments ∧
      Reference.Confined (Reference.resolve current target).toList) ∧
    ∀ (l : Library) (name : String), ∃ names, (l.document name).2 = name :: names ∧
      ∀ n ∈ names, Reference.Confined n.toList ∧ (Directory.path n).toList.head? ≠ some '/' ∧
        ∀ base, Path.Below base (Path.join base (Directory.path n).toList) := by
  refine ⟨fun current target => ?_, fun l name => ?_⟩
  · obtain ⟨path, hspells, hresolve⟩ := Reference.exists_spells current target
    exact ⟨_, path, _, Reference.strips_bareTarget target.toList, hspells,
      Reference.simplified_walk fun _ => notMem_of_mem_splitAll, hresolve,
      Referred.confined ⟨current, target, rfl⟩⟩
  · obtain ⟨names, hasked, hreferred⟩ := l.asked_document name
    refine ⟨names, hasked, fun n hn => ?_⟩
    have hconfined := (hreferred n hn).confined
    exact ⟨hconfined, Directory.below_path hconfined⟩

end Trellis
