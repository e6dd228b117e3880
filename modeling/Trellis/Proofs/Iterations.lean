import Trellis.Proofs.OwnFrame
import Trellis.Proofs.Streaming

/-!
# `Trellis.Proofs.Iterations`: the passes of a loop, each by itself

A pass of a loop leaves nothing behind but what it writes: its frame is taken off, and the frames
below are as before (`scope_runLoop`). A pass knows the others only by its key and the variable
`loop`. So a body that looks neither up does the same for an item, whatever stands before and
behind it (`level_runLoop`), and a loop over two lists, one behind the other, does what the two
loops do. That is `renderNode_each_append`.

The second loop begins where the first has written something. What it writes does not depend on
that (`Streams`), as long as the output is not laid out.
-/

set_option autoImplicit false

namespace Trellis

open Markup Rendering

/-! ### Passes -/

/-- The names by which a pass can be told from others for the same item. -/
def placeNames (key : Option String) : List String := "loop" :: key.toList

theorem find?_loopBindings {item : String} {key : Option String} {x : String}
    (hx : x ∉ placeNames key) (index length : Nat) (entry : Value × Value) :
    Table.find? x (Table.insertAll (loopBindings item key index length entry) []) =
      Table.find? x [(item, entry.1)] := by
  have hplace : x ∉ ((key.toList.map fun k => (k, entry.2)) ++
      [("loop", loopValue index length)]).map (·.1) := by
    cases key <;> simpa [placeNames, and_comm] using hx
  exact Table.find?_insertAll_of_notMem hplace [(item, entry.1)]

section
variable {w : RenderSetting} {cs : CallStack} {item : String} {key : Option String}
  {body : List Node} {c : Scope} {s t : RenderState}

/-- A body suits the frame of a pass, if it does not put out the content of a call around it. -/
theorem suits_body {hidden : List String} {globals : Variables} {low : List Variables}
    (hcontent : ¬PutsContent body) (hlookup : ∀ x ∈ hidden, ¬LooksUp w.mixins x body) :
    (Veil.mk hidden globals low).Suits w.mixins [] [] body where
  content _ := hcontent
  lookup x hx _ := hlookup x hx

/-- Two loops of which the passes can be told apart only by names that the body does not look up. -/
theorem level_runLoop {hidden : List String} (hcontent : ¬PutsContent body)
    (hlookup : ∀ x ∈ hidden, ¬LooksUp w.mixins x body) (hc : 0 < c.depth) {length length' : Nat}
    {entries entries' : List (Value × Value)} {index index' : Nat}
    (hpasses : List.Forall₂ (fun p p' => ∀ x, x ∉ hidden →
        Table.find? x (Table.insertAll (loopBindings item key p.2 length p.1) []) =
          Table.find? x (Table.insertAll (loopBindings item key p'.2 length' p'.1) []))
      (entries.zipIdx index) (entries'.zipIdx index'))
    (hst : s.Level w.pretty c t) :
    EndTogether (RenderState.Level w.pretty c) Eq
      (runLoop item key length (renderNodes w cs body) index entries s)
      (runLoop item key length' (renderNodes w cs body) index' entries' t) := by
  induction entries generalizing entries' index index' s t with
  | nil =>
    cases entries' with
    | nil => exact .ok rfl hst
    | cons entry' rest' => cases hpasses
  | cons entry rest ih =>
    cases entries' with
    | nil => cases hpasses
    | cons entry' rest' =>
      obtain _ | ⟨hpass, hrest⟩ := hpasses
      have hcallers : cs.callers = [] ++ cs.callers := rfl
      -- Behind the first pass the frames are those of the loop again, so the next one begins alike.
      have hfirst := level_underFrame hc hcallers (.nil []) (suits_body hcontent hlookup) hpass hst
      exact hfirst.bind fun _ _ _ _ _ hst' => ih hrest hst'

/-- A loop leaves the frames as they are. -/
theorem scope_runLoop (hcontent : ¬PutsContent body) (hs : 0 < s.scope.depth) (length index : Nat)
    (entries : List (Value × Value)) :
    ((runLoop item key length (renderNodes w cs body) index entries).after s).scope = s.scope := by
  -- The loop is compared with itself, with no name hidden.
  have hlookup : ∀ x ∈ ([] : List String), ¬LooksUp w.mixins x body := nofun
  have hends : EndTogether (RenderState.Level w.pretty s.scope) Eq
      (runLoop item key length (renderNodes w cs body) index entries s)
      (runLoop item key length (renderNodes w cs body) index entries s) :=
    level_runLoop hcontent hlookup hs (List.forall₂_same.mpr fun _ _ _ _ => rfl) (.refl w.pretty s)
  exact hends.scope_after

/-- **Passes for the same items do the same**, wherever they stand in their loops. -/
theorem level_runLoop_of_items (hcontent : ¬PutsContent body)
    (hlookup : ∀ x ∈ placeNames key, ¬LooksUp w.mixins x body) (hc : 0 < c.depth)
    {length length' : Nat} {entries entries' : List (Value × Value)}
    (hitems : List.Forall₂ (fun e e' => e.1 = e'.1) entries entries') (index index' : Nat)
    (hst : s.Level w.pretty c t) :
    EndTogether (RenderState.Level w.pretty c) Eq
      (runLoop item key length (renderNodes w cs body) index entries s)
      (runLoop item key length' (renderNodes w cs body) index' entries' t) := by
  refine level_runLoop hcontent hlookup hc ?_ hst
  clear hst
  induction hitems generalizing index index' with
  | nil => exact .nil
  | cons hitem _ ih =>
    refine .cons (fun x hx => ?_) (ih (index + 1) (index' + 1))
    rw [find?_loopBindings hx, find?_loopBindings hx, hitem]

theorem runLoop_append (length : Nat) (r : Rendering Unit) (index : Nat)
    (entries more : List (Value × Value)) :
    runLoop item key length r index (entries ++ more) = (do
      runLoop item key length r index entries
      runLoop item key length r (index + entries.length) more) := by
  induction entries generalizing index with
  | nil => rfl
  | cons entry rest ih =>
    rw [List.cons_append, runLoop, runLoop, bind_assoc, ih, List.length_cons, Nat.add_assoc,
      Nat.add_comm 1]

theorem streams_runLoop (length index : Nat) (entries : List (Value × Value)) :
    Streams (runLoop item key length (renderNodes w cs body) index entries) := by
  -- The relation speaks of one of two renderings only.
  have hrelated := @runLoop_related w w (fun r _ => Streams r) (respectsRendering_streams w) item
    key length (renderNodes w cs body) (renderNodes w cs body) (streams_renderNodes w cs body) index
    entries
  exact hrelated

end

/-! ### Loops -/

/-- Without a limit, a part writes one text and ends in one way behind anything that was written
before. -/
theorem Streams.text {r : Rendering Unit} (h : Streams r) {s : RenderState}
    (hs : s.sink.room = none) : ∃ out last, ∀ before,
      r (s.into { s.sink with text := before }) =
        endInto { s.sink with text := before ++ out } last := by
  obtain ⟨pieces, last, hdrained⟩ := h.drained s
  refine ⟨String.join pieces, last, fun before => ?_⟩
  have hk := hdrained { s.sink with text := before }
  have hall := Sink.offerAll_unlimited (k := { s.sink with text := before }) pieces hs
  generalize r (s.into { s.sink with text := before }) = result at hk ⊢
  cases hk with
  | whole h =>
    cases hall.symm.trans h
    rfl
  | short h => cases hall.symm.trans h

section
variable {w : RenderSetting} {cs : CallStack} {item : String} {key : Option String}
  {body : List Node} {fallback : Option (List Node)} {s : RenderState}

/-- A part that stands alone, and one that stands behind some text: they end in the same way, and
write the same text. -/
theorem texts_of_level {r r' : Rendering Unit} {c : Scope} {before : String} {t : RenderState}
    (hstreams : Streams r') (hroom : s.sink.room = none)
    (hends : EndTogether (RenderState.Level w.pretty c) Eq (r t)
      (r' (s.into { s.sink with text := before }))) :
    (∃ e u v, r t = .error e u ∧ r' s = .error e v) ∨
      ∃ u v out, r t = .ok () u ∧ r' s = .ok () v ∧ u.scope = c ∧
        u.sink = { s.sink with text := before ++ out } ∧
        v.sink = { s.sink with text := s.sink.text ++ out } := by
  obtain ⟨out, last, htext⟩ := hstreams.text hroom
  have halone := htext s.sink.text
  change r' s = _ at halone
  rw [htext before] at hends
  rw [halone]
  generalize r t = part at hends ⊢
  cases last with
  | error e v =>
    obtain _ | _ := hends
    exact .inl ⟨e, _, _, rfl, rfl⟩
  | ok a v =>
    obtain ⟨-, hlevel⟩ | _ := hends
    exact .inr ⟨_, _, out, rfl, rfl, hlevel.scope, hlevel.sink, rfl⟩

variable (cs item) in
/-- How a loop over some passes and more ends: with the fault of the first loop, or else with that
of the second, or else with the texts of both. -/
theorem runLoop_append_ends (hcontent : ¬PutsContent body)
    (hlookup : ∀ x ∈ placeNames key, ¬LooksUp w.mixins x body) (hpretty : w.pretty = false)
    (hroom : s.sink.room = none) (hs : 0 < s.scope.depth) (entries : List (Value × Value))
    {more more' : List (Value × Value)}
    (hmore : List.Forall₂ (fun e e' => e.1 = e'.1) more more') (n n' n'' : Nat) :
    let loop length entries := runLoop item key length (renderNodes w cs body) 0 entries s
    (∃ e t u, loop n (entries ++ more) = .error e t ∧ loop n' entries = .error e u) ∨
      ∃ u first, loop n' entries = .ok () u ∧ u.sink.text = s.sink.text ++ first ∧
        ((∃ e t v, loop n (entries ++ more) = .error e t ∧ loop n'' more' = .error e v) ∨
          ∃ t v second, loop n (entries ++ more) = .ok () t ∧ loop n'' more' = .ok () v ∧
            v.sink.text = s.sink.text ++ second ∧
            t.sink.text = s.sink.text ++ (first ++ second)) := by
  dsimp only
  have hboth : runLoop item key n (renderNodes w cs body) 0 (entries ++ more) s =
      EStateM.bind (runLoop item key n (renderNodes w cs body) 0 entries)
        (fun _ => runLoop item key n (renderNodes w cs body) (0 + entries.length) more) s := by
    rw [runLoop_append]
    rfl
  unfold EStateM.bind at hboth
  have hsame : List.Forall₂ (fun e e' : Value × Value => e.1 = e'.1) entries entries :=
    List.forall₂_same.mpr fun _ _ => rfl
  have hfirst : EndTogether (RenderState.Level w.pretty s.scope) Eq
      (runLoop item key n (renderNodes w cs body) 0 entries s)
      (runLoop item key n' (renderNodes w cs body) 0 entries
        (s.into { s.sink with text := s.sink.text })) :=
    level_runLoop_of_items hcontent hlookup hs hsame 0 0 (.refl w.pretty s)
  rcases texts_of_level (streams_runLoop n' 0 entries) hroom hfirst with
    ⟨e, t, u, hpart, halone⟩ | ⟨t, u, first, hpart, halone, hscope, hsink, hu⟩
  · rw [hpart] at hboth
    exact .inl ⟨e, t, u, hboth, halone⟩
  rw [hpart] at hboth
  refine .inr ⟨u, first, halone, by rw [hu], ?_⟩
  -- The second loop begins behind the first here, and where the first began otherwise.
  have hlevel : t.Level w.pretty s.scope (s.into { s.sink with text := s.sink.text ++ first }) := by
    rw [hpretty]
    exact { sink := hsink, indent := nofun, started := nofun, blockEmitted := nofun
            scope := hscope, scope' := rfl }
  have hsecond : EndTogether (RenderState.Level w.pretty s.scope) Eq
      (runLoop item key n (renderNodes w cs body) (0 + entries.length) more t)
      (runLoop item key n'' (renderNodes w cs body) 0 more'
        (s.into { s.sink with text := s.sink.text ++ first })) :=
    level_runLoop_of_items hcontent hlookup hs hmore (0 + entries.length) 0 hlevel
  rcases texts_of_level (streams_runLoop n'' 0 more') hroom hsecond with
    ⟨e, t', v, hpart', halone'⟩ | ⟨t', v, second, hpart', halone', -, hsink', hv⟩
  · exact .inl ⟨e, t', v, hboth.trans hpart', halone'⟩
  · refine .inr ⟨t', v, second, hboth.trans hpart', halone', by rw [hv], ?_⟩
    rw [hsink', ← String.append_assoc]

/-- A loop evaluates its collection where it stands. -/
theorem renderNode_each (collection : Expression) :
    renderNode w cs (.each item key collection body fallback) s =
      match collection.evaluate s.scope.get with
      | .ok v =>
        match v.iterate? with
        | none => .error (.notIterable v.typeName collection.source) s
        | some [] => renderOptional w cs fallback s
        | some (first :: rest) =>
          runLoop item key (rest.length + 1) (renderNodes w cs body) 0 (first :: rest) s
      | .error e => .error (.failed e) s := by
  rw [renderNode]
  refine (ask_bind _ _ s).trans ?_
  cases collection.evaluate s.scope.get with
  | error e => rfl
  | ok v =>
    dsimp only
    cases v.iterate? with
    | none => rfl
    | some entries => cases entries <;> rfl

/-- A loop leaves the frames as they are, however it ends, unless there is nothing to go through
and something else is rendered in its stead. -/
theorem scope_each (hcontent : ¬PutsContent body) (hs : 0 < s.scope.depth) {collection : Expression}
    (hempty : ∀ v, collection.evaluate s.scope.get = .ok v → v.iterate? = some [] →
      fallback = none) :
    ((renderNode w cs (.each item key collection body fallback)).after s).scope = s.scope := by
  unfold Rendering.after
  rw [renderNode_each]
  cases hvalue : collection.evaluate s.scope.get with
  | error e => rfl
  | ok v =>
    dsimp only
    cases hentries : v.iterate? with
    | none => rfl
    | some entries =>
      cases entries with
      | nil =>
        rw [hempty v hvalue hentries]
        dsimp only
        rw [renderOptional]
        rfl
      | cons first rest => exact scope_runLoop hcontent hs (rest.length + 1) 0 (first :: rest)

/-- The passes of a loop over a list, from a number on. -/
def passesFrom (n : Nat) (items : List Value) : List (Value × Value) :=
  (items.zipIdx n).map fun p => (p.1, Value.ofCount p.2)

theorem passesFrom_append (n : Nat) (items more : List Value) :
    passesFrom n (items ++ more) = passesFrom n items ++ passesFrom (n + items.length) more := by
  rw [passesFrom, List.zipIdx_append, List.map_append]
  rfl

theorem items_passesFrom (m n : Nat) (items : List Value) :
    List.Forall₂ (fun e e' => e.1 = e'.1) (passesFrom m items) (passesFrom n items) := by
  induction items generalizing m n with
  | nil => exact .nil
  | cons item rest ih => exact .cons rfl (ih (m + 1) (n + 1))

theorem renderNode_each_list {collection : Expression} {items : List Value} (hne : items ≠ [])
    (hvalue : collection.evaluate s.scope.get = .ok (.list items)) :
    renderNode w cs (.each item key collection body fallback) s =
      runLoop item key items.length (renderNodes w cs body) 0 (passesFrom 0 items) s := by
  rw [renderNode_each, hvalue]
  cases items with
  | nil => exact absurd rfl hne
  | cons first rest =>
    show runLoop item key ((List.map _ (rest.zipIdx 1)).length + 1) _ 0 _ s = _
    rw [List.length_map, List.length_zipIdx]
    rfl

/-- **The passes of a loop do not know each other.** Let a body look up neither the variable `loop`
nor the key, and put out no content of a call around it. Then a loop over two lists, one behind the
other, succeeds just if the loops over both do, and writes what they write. And every such loop
leaves the frames as they are. -/
theorem renderNode_each_append {whole front back : Expression} {xs ys : List Value}
    (hcontent : ¬PutsContent body) (hlookup : ∀ x ∈ placeNames key, ¬LooksUp w.mixins x body)
    (hpretty : w.pretty = false) (hroom : s.sink.room = none) (hs : 0 < s.scope.depth)
    (hxs : xs ≠ []) (hys : ys ≠ []) (hwhole : whole.evaluate s.scope.get = .ok (.list (xs ++ ys)))
    (hfront : front.evaluate s.scope.get = .ok (.list xs))
    (hback : back.evaluate s.scope.get = .ok (.list ys)) :
    let loop collection := renderNode w cs (.each item key collection body fallback)
    ((∃ t, loop whole s = .ok () t) ↔
        (∃ u, loop front s = .ok () u) ∧ ∃ v, loop back s = .ok () v) ∧
      (∀ t u v, loop whole s = .ok () t → loop front s = .ok () u → loop back s = .ok () v →
        ∃ first second, u.sink.text = s.sink.text ++ first ∧ v.sink.text = s.sink.text ++ second ∧
          t.sink.text = s.sink.text ++ (first ++ second)) ∧
      ∀ collection : Expression, (∀ v, collection.evaluate s.scope.get = .ok v →
          v.iterate? = some [] → fallback = none) →
        ((loop collection).after s).scope = s.scope := by
  have hends := runLoop_append_ends cs item hcontent hlookup hpretty hroom hs (passesFrom 0 xs)
    (items_passesFrom (0 + xs.length) 0 ys) (xs ++ ys).length xs.length ys.length
  have hloop {collection : Expression} {items : List Value} (hne : items ≠ [])
      (hvalue : collection.evaluate s.scope.get = .ok (.list items)) :
      renderNode w cs (.each item key collection body fallback) s =
        runLoop item key items.length (renderNodes w cs body) 0 (passesFrom 0 items) s :=
    renderNode_each_list hne hvalue
  dsimp only at hends ⊢
  rw [← passesFrom_append, ← hloop hxs hfront, ← hloop hys hback,
    ← hloop (List.append_ne_nil_of_left_ne_nil hxs ys) hwhole] at hends
  refine ⟨?_, fun t u v ht hu hv => ?_, fun collection => scope_each hcontent hs⟩
  · obtain ⟨e, t, u, hw, hf⟩ | ⟨u, first, hf, -, ⟨e, t, v, hw, hb⟩ | ⟨t, v, second, hw, hb, -⟩⟩ :=
      hends
    · simp [hw, hf]
    · simp [hw, hb]
    · simp [hw, hf, hb]
  · obtain ⟨e, t', u', hw, -⟩ | ⟨u', first, hf, hfirst, ⟨e, t', v', hw, -⟩ |
      ⟨t', v', second, hw, hb, hsecond, hwhole⟩⟩ := hends
    · cases hw.symm.trans ht
    · cases hw.symm.trans ht
    · cases hw.symm.trans ht
      cases hf.symm.trans hu
      cases hb.symm.trans hv
      exact ⟨first, second, hfirst, hsecond, hwhole⟩

end

/-- A mixin that puts out what it is called with, and one with a parameter that is called like the
key of the loop below. -/
def wrapAndMark : RenderSetting where
  mixins := [("mark", ⟨"mark", [⟨"k", none⟩], none, [.output ⟨"k", .variable "k", by cbv⟩ true]⟩),
    ("wrap", ⟨"wrap", [], none, [.tag "i" [] false [.content]]⟩)]
  filters := []
  mode := .html
  pretty := false

/-- A body that gives a variable a value, calls mixins, with content and without, and goes through
something itself. -/
def markedItem : List Node :=
  [.assign "y" nameX, .call "wrap" [] (some [.output nameY true]), .call "mark" [nameY] none,
    .each "z" none ⟨"[x]", .list [.variable "x"], by cbv⟩
      [.output ⟨"loop.index", .member (.variable "loop") "index", by cbv⟩ true] none]

/-- Where three variables hold two lists and both together. -/
def besideLists : RenderState where
  scope := ⟨[("back", .list [.str "b", .str "c"]), ("front", .list [.str "a"]),
    ("whole", .list [.str "a", .str "b", .str "c"])], [[("y", .str "old")]]⟩
  sink := .unlimited
  indent := 0
  started := false
  blockEmitted := false

theorem not_putsContent_markedItem : ¬PutsContent markedItem := by
  simp [markedItem, putsContent_cons_iff, not_putsContent_nil, Node.childLists]

theorem not_looksUp_markedItem :
    ∀ x ∈ placeNames (some "k"), ¬LooksUp wrapAndMark.mixins x markedItem := by
  intro x hx
  obtain rfl | rfl : x = "loop" ∨ x = "k" := by simpa [placeNames] using hx
  all_goals simp [markedItem, wrapAndMark, nameX, nameY, looksUp_cons_iff, not_looksUp_nil,
    Node.evaluated, Node.listsSeeing, Node.childLists, passNames, Table.find?, Mixin.names,
    Mixin.sources, Node.expressions, Parameter.source?, Expression.Avoids, Expr.Avoids, avoidsAll]

theorem renderNode_each_append_markedItem :
    let loop collection :=
      renderNode wrapAndMark .empty (.each "x" (some "k") collection markedItem none)
    let whole := ⟨"whole", .variable "whole", by cbv⟩
    let front := ⟨"front", .variable "front", by cbv⟩
    let back := ⟨"back", .variable "back", by cbv⟩
    ¬PutsContent markedItem ∧
      (∀ x ∈ placeNames (some "k"), ¬LooksUp wrapAndMark.mixins x markedItem) ∧
      wrapAndMark.pretty = false ∧ besideLists.sink.room = none ∧ 0 < besideLists.scope.depth ∧
      ((∃ t, loop whole besideLists = .ok () t) ↔
        (∃ u, loop front besideLists = .ok () u) ∧ ∃ v, loop back besideLists = .ok () v) ∧
      ((loop whole).after besideLists).scope = besideLists.scope ∧
      ((loop front).after besideLists).sink.text = "<i>a</i>a0" ∧
      ((loop back).after besideLists).sink.text = "<i>b</i>b0<i>c</i>c0" ∧
      ((loop whole).after besideLists).sink.text = "<i>a</i>a0<i>b</i>b0<i>c</i>c0" := by
  have hs : 0 < besideLists.scope.depth := by decide
  obtain ⟨hends, -, hscope⟩ := @renderNode_each_append wrapAndMark .empty "x" (some "k") markedItem
    none besideLists ⟨"whole", .variable "whole", by cbv⟩ ⟨"front", .variable "front", by cbv⟩
    ⟨"back", .variable "back", by cbv⟩ [.str "a"] [.str "b", .str "c"] not_putsContent_markedItem
    not_looksUp_markedItem rfl rfl hs (by simp) (by simp) (by cbv) (by cbv) (by cbv)
  exact ⟨not_putsContent_markedItem, not_looksUp_markedItem, rfl, rfl, hs, hends,
    hscope _ fun _ _ _ => rfl, by cbv, by cbv, by cbv⟩

end Trellis
