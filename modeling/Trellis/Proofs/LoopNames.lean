import Mathlib
import Trellis.Proofs.Frames
import Trellis.Proofs.Vocabulary
import Trellis.Source.Line

/-!
# `Trellis.Proofs.LoopNames`: names of loop variables

A loop names its variables in one place, and expressions look for them in another. The line of the
loop is accepted if `isLoopName` holds of the names. An expression knows words, and those of
`takenWords` are no variables. Besides, the variable `loop` lies in the same frame, and is put
there last.

So not every name that a loop accepts can be read in its body. A name with a hyphen is no word, and
its text is read as a difference, if at all. A taken word is read as something else. The name `loop`
shows where the loop is, and of two equal names the key's hides the item's. `loopNames_iff` says
that this is all: with every other name, in each pass of each loop through a list or a map, the text
of the name comes to the item or to the key.

What a pass sees is stated for the run of a loop. `LoopLeft` is its invariant: what is left to be
done last are the passes through the items that are left.
-/

set_option autoImplicit false

namespace Trellis

open Rendering

/-! ### The frame of a pass -/

namespace Scope

variable {s : Scope}

theorem get_set (h : 0 < s.depth) (name : String) (v : Value) (other : String) :
    (s.set name v).get other = if other = name then v else s.get other := by
  obtain ⟨globals, frames⟩ := s
  cases frames with
  | nil => exact absurd h (Nat.lt_irrefl 0)
  | cons top rest =>
    show get ⟨globals, Table.insert name v top :: rest⟩ other = _
    unfold get find?
    rw [List.findSome?_cons, Table.find?_insert]
    by_cases hother : other = name
    · rw [if_pos hother, if_pos hother]
      rfl
    · rw [if_neg hother, if_neg hother]
      rfl

end Scope

section
variable {item : String} {key : Option String}

/-- What a body sees when it begins. -/
def passScope (s : Scope) (item : String) (key : Option String) (index length : Nat)
    (entry : Value × Value) : Scope :=
  s.pushFrame.setAll (loopBindings item key index length entry)

/-- The variable `loop` hides a key of that name, and the key an item. -/
theorem get_passScope (s : Scope) (index length : Nat) (entry : Value × Value) (name : String) :
    (passScope s item key index length entry).get name =
      if name = "loop" then loopValue index length
      else if some name = key then entry.2
      else if name = item then entry.1
      else s.get name := by
  have hdepth : 0 < s.pushFrame.depth := Nat.succ_pos s.depth
  cases key with
  | none =>
    show ((s.pushFrame.set item entry.1).set "loop" _).get name = _
    rw [Scope.get_set (by rwa [Scope.depth_set]), Scope.get_set hdepth]
    rfl
  | some k =>
    show (((s.pushFrame.set item entry.1).set k entry.2).set "loop" _).get name = _
    rw [Scope.get_set (by rwa [Scope.depth_set, Scope.depth_set]),
      Scope.get_set (by rwa [Scope.depth_set]), Scope.get_set hdepth]
    simp only [Option.some.injEq]
    rfl

end

/-! ### The run of a loop -/

/-- A machine that is to render one node and nothing else. -/
def Machine.single (n : Node) (callers : List Caller) (s : RenderState) : Machine :=
  ⟨[.work (.node n)], callers, s, none⟩

/-- On the way of a machine, the body of the pass with a number begins in a state. The machine has
nothing to do but that pass and those behind it. -/
def PassBegins (w : RenderSetting) (start : Machine) (index : Nat) (t : RenderState) : Prop :=
  ∃ m item key length body entry rest next,
    Machine.Reaches w start m ∧
      m.tasks = [.work (.passes item key length body index (entry :: rest))] ∧
      m.fault = none ∧ m.step w = some next ∧ next.state = t

section
variable {item : String} {key : Option String} {body : List Node} {items : List (Value × Value)}
  {w : RenderSetting} {m next : Machine}

/-- The last of the tasks are the passes through the items that are left, unless the loop is at its
end. -/
def LoopLeft (item : String) (key : Option String) (body : List Node)
    (items : List (Value × Value)) (tasks : List Task) : Prop :=
  tasks = [] ∨ ∃ front index, tasks =
    front ++ [.work (.passes item key items.length body index (items.drop index))]

/-- One pass leaves the passes behind it. -/
theorem loopLeft_pass {index : Nat} (h : m.step w = some next)
    (htasks : m.tasks = [.work (.passes item key items.length body index (items.drop index))]) :
    LoopLeft item key body items next.tasks := by
  obtain ⟨tasks, callers, s, fault⟩ := m
  subst htasks
  cases fault with
  | some e =>
    cases h
    exact .inl rfl
  | none =>
    cases hdrop : items.drop index with
    | nil =>
      rw [hdrop] at h
      cases h
      exact .inl rfl
    | cons entry rest =>
      have hrest : rest = items.drop (index + 1) := by
        rw [← List.drop_drop, hdrop]
        rfl
      rw [hdrop] at h
      cases h
      subst hrest
      refine .inr ⟨nodeTasks body ++ [.undo .popFrame], index + 1, ?_⟩
      exact List.append_nil _

theorem loopLeft_step (h : m.step w = some next) (hm : LoopLeft item key body items m.tasks) :
    LoopLeft item key body items next.tasks := by
  obtain htasks | ⟨front, index, htasks⟩ := hm
  · obtain ⟨tasks, callers, s, fault⟩ := m
    subst htasks
    cases h
  · cases front with
    | nil => exact loopLeft_pass h htasks
    | cons t front =>
      -- Tasks of the body are in front, and what they leave is in front as well.
      obtain ⟨front', htasks'⟩ := Machine.tasks_step h htasks
      rw [htasks']
      exact .inr ⟨front' ++ front, index, (List.append_assoc ..).symm⟩

theorem loopLeft_of_reaches (h : Machine.Reaches w m next)
    (hm : LoopLeft item key body items m.tasks) : LoopLeft item key body items next.tasks := by
  induction h with
  | refl => exact hm
  | tail _ hstep ih => exact loopLeft_step hstep ih

end

section
variable {w : RenderSetting} {callers : List Caller} {s : RenderState} {item : String}
  {key : Option String} {collection : Expression} {body : List Node} {fallback : Option (List Node)}
  {value : Value} {items : List (Value × Value)}

/-- A loop begins with the passes through all items. -/
theorem step_loop (hvalue : collection.evaluate s.scope.get = .ok value)
    (hitems : value.iterate? = some items) (hne : items ≠ []) :
    (Machine.single (.each item key collection body fallback) callers s).step w =
      some ⟨[.work (.passes item key items.length body 0 items)], callers, s, none⟩ := by
  have hevaluate : Rendering.evaluate collection s = .ok value s := by
    unfold Rendering.evaluate Rendering.ask
    rw [hvalue]
  have hopening : (Job.node (.each item key collection body fallback)).opening w callers s =
      .ok ([.work (.passes item key items.length body 0 items)], callers) s := by
    refine bind_eq_result hevaluate ?_
    rw [hitems]
    cases items with
    | nil => exact absurd rfl hne
    | cons => rfl
  exact Machine.step_of_opens hopening

/-- **What is seen when a pass begins** are the item and the key of that number, in a frame of
their own. -/
theorem scope_of_passBegins (hvalue : collection.evaluate s.scope.get = .ok value)
    (hitems : value.iterate? = some items) (hne : items ≠ []) {index : Nat} {t : RenderState}
    (h : PassBegins w (.single (.each item key collection body fallback) callers s) index t) :
    ∃ (hindex : index < items.length) (before : Scope),
      t.scope = passScope before item key index items.length items[index] := by
  obtain ⟨m, item', key', length, body', entry, rest, next, hreaches, htasks, hfault, hstep, rfl⟩ := h
  have hleft : LoopLeft item key body items m.tasks := by
    rcases Relation.ReflTransGen.cases_head hreaches with rfl | ⟨m', hfirst, hlater⟩
    · cases htasks
    · rw [step_loop hvalue hitems hne] at hfirst
      cases hfirst
      exact loopLeft_of_reaches hlater (.inr ⟨[], 0, rfl⟩)
  obtain hnone | ⟨front, i, hfront⟩ := hleft
  · rw [htasks] at hnone
    cases hnone
  · rw [htasks] at hfront
    -- There is one task only, so nothing is in front of the passes that are left.
    obtain ⟨-, hlast⟩ := List.append_inj' (List.nil_append _ |>.trans hfront) rfl
    obtain ⟨rfl, rfl, rfl, rfl, rfl, hdrop⟩ := Job.passes.inj (Task.work.inj (List.cons.inj hlast).1)
    have hindex : index < items.length := by
      refine Nat.lt_of_not_le fun hle => ?_
      rw [List.drop_eq_nil_of_le hle] at hdrop
      cases hdrop
    obtain ⟨rfl, -⟩ := List.cons.inj (hdrop.trans (List.drop_eq_getElem_cons hindex))
    obtain ⟨tasks, callers', before, fault⟩ := m
    subst htasks hfault
    cases hstep
    exact ⟨hindex, before.scope, rfl⟩

theorem passBegins_first (hvalue : collection.evaluate s.scope.get = .ok value)
    (hitems : value.iterate? = some items) {entry : Value × Value} {rest : List (Value × Value)}
    (hfirst : items = entry :: rest) :
    PassBegins w (.single (.each item key collection body fallback) callers s) 0
      { s with scope := passScope s.scope item key 0 items.length entry } := by
  subst hfirst
  exact ⟨_, _, _, _, _, _, _, _, .single (step_loop hvalue hitems (List.cons_ne_nil _ _)), rfl, rfl,
    rfl, rfl⟩

end

/-! ### Names that are read -/

/-- The text is read as an expression that comes to the value. -/
def Shows (vars : String → Value) (text : String) (v : Value) : Prop :=
  ∃ e, Expr.read text.toList = .ok e ∧ Expr.eval vars e = .ok v

/-- In each pass of each loop with those names that goes through a list or a map, the text comes to
what `pick` takes from the item and its key. -/
def ShownInLoops (item : String) (key : Option String) (text : String)
    (pick : Value × Value → Value) : Prop :=
  ∀ (w : RenderSetting) (callers : List Caller) (s : RenderState) (collection : Expression)
    (body : List Node) (fallback : Option (List Node)) (value : Value)
    (items : List (Value × Value)), collection.evaluate s.scope.get = .ok value →
    value.iterate? = some items → items ≠ [] → ∀ (index : Nat) (t : RenderState),
    PassBegins w (.single (.each item key collection body fallback) callers s) index t →
    ∃ hindex : index < items.length, Shows t.scope.get text (pick items[index])

section
variable {item text : String} {key : Option String} {pick : Value × Value → Value}

theorem shownInLoops_of_get (hword : Expr.isWord text = true) (hfree : text ∉ Expr.takenWords)
    (hget : ∀ s index length entry,
      (passScope s item key index length entry).get text = pick entry) :
    ShownInLoops item key text pick := by
  intro w callers s collection body fallback value items hvalue hitems hne index t hpass
  obtain ⟨hindex, before, hscope⟩ := scope_of_passBegins hvalue hitems hne hpass
  refine ⟨hindex, _, Expr.read_variable hword hfree, ?_⟩
  rw [hscope, Expr.eval, hget]

/-! ### Names that are not read -/

/-- A word that is taken is a literal, or cannot be read. -/
theorem read_taken : ∀ name ∈ Expr.takenWords,
    (∃ v, Expr.read name.toList = .ok (.literal v)) ∨
      ∃ fault, Expr.read name.toList = .error fault := by
  simp only [Expr.takenWords, List.forall_mem_cons]
  exact ⟨.inl ⟨.bool true, by cbv⟩, .inl ⟨.bool false, by cbv⟩, .inl ⟨.null, by cbv⟩,
    .inl ⟨.null, by cbv⟩, .inr ⟨.unexpectedEnd, by cbv⟩, List.forall_mem_nil _⟩

/-- A name that is no variable does not occur in what its own text is read as. -/
theorem avoids_own_name {name : String} {e : Expr}
    (hname : Expr.isWord name = false ∨ name ∈ Expr.takenWords)
    (h : Expr.read name.toList = .ok e) : e.Avoids name := by
  rcases hname with hname | hname
  · exact Expr.avoids_of_read h hname
  · rcases read_taken name hname with ⟨v, hv⟩ | ⟨fault, hfault⟩
    · cases h.symm.trans hv
      trivial
    · cases h.symm.trans hfault

/-- The expression that a variable is. -/
def named (name : String) (hword : Expr.isWord name = true) (hfree : name ∉ Expr.takenWords) :
    Expression :=
  ⟨name, .variable name, Expr.read_variable hword hfree⟩

/-- Two collections of one entry each, of which the passes do not differ but in the name itself. If
the text of the name does not ask for it, or finds the same both times, it cannot show what the
entries differ in. -/
theorem not_shownInLoops {x y : Value × Value} {value value' : Value}
    (hvalue : value.iterate? = some [x]) (hvalue' : value'.iterate? = some [y])
    (hne : pick x ≠ pick y)
    (hother : ∀ s name, name ≠ text →
      (passScope s item key 0 1 x).get name = (passScope s item key 0 1 y).get name)
    (hown : (∀ e, Expr.read text.toList = .ok e → e.Avoids text) ∨
      ∀ s, (passScope s item key 0 1 x).get text = (passScope s item key 0 1 y).get text) :
    ¬ShownInLoops item key text pick := by
  intro h
  -- Both collections lie in one scope, so that the passes differ in nothing but the entries.
  let s : RenderState := ⟨.start [("a", value), ("b", value')], .unlimited, 0, false, false⟩
  have hvaluea : (named "a" (by decide) (by decide)).evaluate s.scope.get = .ok value := rfl
  have hvalueb : (named "b" (by decide) (by decide)).evaluate s.scope.get = .ok value' := rfl
  have hshows {collection : Expression} {v : Value} {entry : Value × Value}
      (hcollection : collection.evaluate s.scope.get = .ok v) (hv : v.iterate? = some [entry]) :
      Shows (passScope s.scope item key 0 1 entry).get text (pick entry) := by
    have hpass : PassBegins ⟨[], [], .html, false⟩
        (.single (.each item key collection [] none) [] s) 0
        { s with scope := passScope s.scope item key 0 1 entry } :=
      passBegins_first hcollection hv rfl
    exact (h _ _ _ _ _ _ _ _ hcollection hv (List.cons_ne_nil _ _) _ _ hpass).2
  obtain ⟨e, hread, hevalx⟩ := hshows hvaluea hvalue
  obtain ⟨_, hread', hevaly⟩ := hshows hvalueb hvalue'
  cases hread.symm.trans hread'
  have hsame : Expr.eval (passScope s.scope item key 0 1 x).get e =
      Expr.eval (passScope s.scope item key 0 1 y).get e := by
    rcases hown with havoids | hget
    · exact eval_congr (hother s.scope) e (havoids e hread)
    · congr 1
      funext name
      by_cases hname : name = text
      · rw [hname, hget]
      · exact hother s.scope name hname
  exact hne (Except.ok.inj (hevalx.symm.trans (hsame.trans hevaly)))

theorem not_shownInLoops_item (h : Expr.isWord item = false ∨ item ∈ Expr.takenWords ∨
    item = "loop" ∨ key = some item) : ¬ShownInLoops item key item Prod.fst := by
  -- two lists of one item each, with the same key
  have hnull : (Value.list [.null]).iterate? = some [(.null, .int 0)] := rfl
  have htrue : (Value.list [.bool true]).iterate? = some [(.bool true, .int 0)] := rfl
  refine not_shownInLoops hnull htrue nofun (fun s name hname => ?_) ?_
  · rw [get_passScope, get_passScope, if_neg hname, if_neg hname]
  · rcases h with h | h | h | h
    · exact .inl fun e => avoids_own_name (.inl h)
    · exact .inl fun e => avoids_own_name (.inr h)
    · exact .inr fun s => by rw [get_passScope, get_passScope, if_pos h, if_pos h]
    · exact .inr fun s => by rw [get_passScope, get_passScope, if_pos h.symm, if_pos h.symm]

theorem not_shownInLoops_key {k : String} (h : Expr.isWord k = false ∨ k ∈ Expr.takenWords ∨
    k = "loop") : ¬ShownInLoops item (some k) k Prod.snd := by
  -- two maps of one entry each, with the same item
  have ha : (Value.map [("a", .null)]).iterate? = some [(.null, .str "a")] := rfl
  have hb : (Value.map [("b", .null)]).iterate? = some [(.null, .str "b")] := rfl
  refine not_shownInLoops ha hb (by simp) (fun s name hname => ?_) ?_
  · have hnot : ¬some name = some k := fun hsome => hname (Option.some.inj hsome)
    rw [get_passScope, get_passScope, if_neg hnot, if_neg hnot]
  · rcases h with h | h | h
    · exact .inl fun e => avoids_own_name (.inl h)
    · exact .inl fun e => avoids_own_name (.inr h)
    · exact .inr fun s => by rw [get_passScope, get_passScope, if_pos h, if_pos h]

end

/-! ### Names that a loop accepts -/

section
open Source

theorem isLoopName_of_loopToken {argument : List Char} {item collection : String}
    {key : Option String} (h : loopToken argument = .ok (.each item key collection)) :
    isLoopName item.toList = true ∧ ∀ k, key = some k → isLoopName k.toList = true := by
  unfold loopToken at h
  dsimp only at h
  split at h
  · cases h
  · split at h
    · next name keys _ =>
      split at h
      · next hnames =>
        rw [Bool.and_eq_true, Bool.and_eq_true, List.all_eq_true] at hnames
        split at h
        · cases h
        · cases h
          refine ⟨by rw [String.toList_ofList]; exact hnames.1.2, fun k hk => ?_⟩
          obtain ⟨cs, hcs, rfl⟩ := Option.map_eq_some_iff.1 hk
          rw [String.toList_ofList]
          exact hnames.2 cs (List.mem_of_head? hcs)
      · cases h
    · cases h

/-- Of the names that a loop accepts, those without a hyphen are words. -/
theorem isWord_iff_of_isLoopName {name : String} (h : isLoopName name.toList = true) :
    Expr.isWord name = true ↔ '-' ∉ name.toList := by
  rw [isLoopName, Bool.and_eq_true, List.all_eq_true] at h
  obtain ⟨hchars, hhead⟩ := h
  rw [Expr.isWord, Bool.and_eq_true, List.all_eq_true]
  constructor
  · rintro ⟨-, hparts⟩ hhyphen
    exact absurd (hparts _ hhyphen) (by decide)
  · intro hhyphen
    refine ⟨hhead, fun c hc => ?_⟩
    have hne : c ≠ '-' := fun hc' => hhyphen (hc' ▸ hc)
    have hchar := hchars c hc
    rw [isNameChar, Bool.or_eq_true, Bool.or_eq_true, beq_iff_eq (b := '-')] at hchar
    rcases hchar with hchar | hchar
    · rw [Expr.isWordPart, Bool.or_eq_true, Bool.or_eq_true]
      exact .inl hchar
    · exact absurd hchar hne

/-- **Of the names that a loop accepts, these can be read in its body**: the item's, unless it has a
hyphen, is a word that is taken, or is hidden by `loop` or by the key; and the key's, unless it has
a hyphen, is taken, or is hidden by `loop`. -/
theorem loopNames_iff {argument : List Char} {item collection : String} {key : Option String}
    (h : loopToken argument = .ok (.each item key collection)) :
    (ShownInLoops item key item Prod.fst ↔
        '-' ∉ item.toList ∧ item ∉ Expr.takenWords ∧ item ≠ "loop" ∧ key ≠ some item) ∧
      ∀ k, key = some k → (ShownInLoops item key k Prod.snd ↔
        '-' ∉ k.toList ∧ k ∉ Expr.takenWords ∧ k ≠ "loop") := by
  obtain ⟨hitem, hkeys⟩ := isLoopName_of_loopToken h
  constructor
  · rw [← isWord_iff_of_isLoopName hitem]
    constructor
    · intro hshown
      have hnot : ¬(Expr.isWord item = false ∨ item ∈ Expr.takenWords ∨ item = "loop" ∨
          key = some item) := fun hbad => not_shownInLoops_item hbad hshown
      simpa only [not_or, Bool.not_eq_false] using hnot
    · rintro ⟨hword, hfree, hloop, hkey⟩
      refine shownInLoops_of_get hword hfree fun s index length entry => ?_
      rw [get_passScope, if_neg hloop, if_neg (Ne.symm hkey), if_pos rfl]
  · rintro k rfl
    rw [← isWord_iff_of_isLoopName (hkeys k rfl)]
    constructor
    · intro hshown
      have hnot : ¬(Expr.isWord k = false ∨ k ∈ Expr.takenWords ∨ k = "loop") :=
        fun hbad => not_shownInLoops_key hbad hshown
      simpa only [not_or, Bool.not_eq_false] using hnot
    · rintro ⟨hword, hfree, hloop⟩
      refine shownInLoops_of_get hword hfree fun s index length entry => ?_
      rw [get_passScope, if_neg hloop, if_pos rfl]

/-- Two plain names can be read. -/
theorem loopNames_plain :
    loopToken "entry, i in entries".toList = .ok (.each "entry" (some "i") "entries") ∧
      ShownInLoops "entry" (some "i") "entry" Prod.fst ∧
      ShownInLoops "entry" (some "i") "i" Prod.snd := by
  have htoken : loopToken "entry, i in entries".toList =
      .ok (.each "entry" (some "i") "entries") := rfl
  obtain ⟨hitem, hkey⟩ := loopNames_iff htoken
  exact ⟨htoken, hitem.2 (by decide), (hkey "i" rfl).2 (by decide)⟩

theorem read_hyphen : Expr.read "x-y".toList =
    .ok (.binary (.arithmetic .subtract) (.variable "x") (.variable "y")) := by cbv

/-- A loop with a hyphen in the name of the item. -/
def hyphenLoop : Node := .each "x-y" none (named "xs" (by decide) (by decide)) [] none

/-- With a hyphen, the text of the name is read as a difference. -/
theorem loopNames_hyphen :
    loopToken "x-y in xs".toList = .ok (.each "x-y" none "xs") ∧
      ∃ t, PassBegins ⟨[], [], .html, false⟩
          (.single hyphenLoop [] ⟨.start [("xs", .list [.int 1])], .unlimited, 0, false, false⟩) 0
          t ∧
        Shows t.scope.get "x-y" (.int 0) ∧ ¬Shows t.scope.get "x-y" (.int 1) := by
  refine ⟨rfl, _, passBegins_first rfl rfl rfl, ⟨_, read_hyphen, rfl⟩, ?_⟩
  rintro ⟨e, he, heval⟩
  cases read_hyphen.symm.trans he
  cases heval

end

end Trellis
