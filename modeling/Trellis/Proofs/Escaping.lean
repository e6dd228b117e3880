import Mathlib
import Trellis.Proofs.Places
import Trellis.Proofs.Steps
import Trellis.Proofs.TwoRuns

/-!
# `Trellis.Proofs.Escaping`: what is escaped cannot make markup

Whoever gives a text to a template should not be able to write its markup. This module says
so of a variable that a template shows and does nothing else with. The template puts out
values escaped only (`Node.Escapes`), the variable stands in it by itself wherever it is put
out, and nowhere else (`Node.ShowsWhole`), and nothing gives it another value
(`Node.Binds`). Then the marks of what is rendered are the same for any two texts that it
can be, as long as neither is empty (`render_marks`). An empty text does make a difference:
it contributes no class, and nothing counts as written.

All three conditions speak of one node at a time. They are asked of every node that stands
in the document, wherever that is.

The proof goes over the renderer once, with the relation of `Trellis.Proofs.TwoRuns` between
two renderings. Every function of the renderer has a statement of its own:

* `spansText_sameMarks` for texts, and `attributesText_sameMarks` for attributes, where
  classes are brought together before they are written;
* `bind_both` for the arguments of a call, which are the same in both renderings;
* `steady_renderNode` for nodes. The induction is on what is still to be rendered, as a call
  goes on with the body of a mixin, and that with the content of the call.
-/

set_option autoImplicit false

namespace Trellis

open Markup Rendering

/-! ### What a node does with values -/

/-- No value is put out as it is. -/
def Span.Escapes : Span → Prop
  | .raw _ => False
  | _ => True

/-- The variable occurs only as an escaped value by itself. -/
def Span.ShowsWhole (x : String) : Span → Prop
  | .literal _ => True
  | .escaped e => e.ShowsWhole x
  | .raw e => e.Avoids x

def AttributeValue.Escapes : AttributeValue → Prop
  | .spans parts => ∀ s ∈ parts, s.Escapes
  | _ => True

def AttributeValue.ShowsWhole (x : String) : AttributeValue → Prop
  | .implicit => True
  | .expression e => e.ShowsWhole x
  | .spans parts => ∀ s ∈ parts, s.ShowsWhole x

/-- The node itself puts out values escaped only. -/
def Node.Escapes : Node → Prop
  | .tag _ attributes _ _ => ∀ a ∈ attributes, a.escaped = true ∧ a.value.Escapes
  | .text spans => ∀ s ∈ spans, s.Escapes
  | .output _ escaped => escaped = true
  | _ => True

/-- In the node itself, the variable occurs only as a whole expression that is put out. -/
def Node.ShowsWhole (x : String) : Node → Prop
  | .tag _ attributes _ _ => ∀ a ∈ attributes, a.value.ShowsWhole x
  | .text spans => ∀ s ∈ spans, s.ShowsWhole x
  | .output e _ => e.ShowsWhole x
  | .assign _ e => e.Avoids x
  | .cond branches _ => ∀ b ∈ branches, b.test.Avoids x
  | .each _ _ collection _ _ => collection.Avoids x
  | .caseOf subject whens _ => subject.Avoids x ∧ ∀ w ∈ whens, w.value.Avoids x
  | .mixin m => ∀ p ∈ m.parameters, ∀ e ∈ p.default, e.Avoids x
  | .call _ arguments _ => ∀ e ∈ arguments, e.Avoids x
  | _ => True

/-- The node itself gives the variable another value. Every loop does so with `loop`. -/
def Node.Binds (x : String) : Node → Prop
  | .assign name _ => name = x
  | .each item key _ _ _ => item = x ∨ key = some x ∨ "loop" = x
  | .mixin m => m.rest = some x ∨ ∃ p ∈ m.parameters, p.name = x
  | _ => False

/-- The node itself does nothing with the variable but to put it out escaped. -/
structure Node.Guards (x : String) (n : Node) : Prop where
  escapes : n.Escapes
  showsWhole : n.ShowsWhole x
  keeps : ¬n.Binds x

/-- All nodes that stand in some nodes do nothing with the variable but to put it out
escaped. -/
def Guarded (x : String) (ns : List Node) : Prop := ∀ n, Stands n ns → n.Guards x

/-! ### Texts and attributes -/

section
variable {x : String} {vars vars' : String → Value} (hvars : Apart x vars vars')

theorem Shown.escape {v w : Value} (h : Shown v w) :
    SameMarks (Markup.escape v.text) (Markup.escape w.text) := by
  cases h with
  | same => exact .refl _
  | texts h h' =>
    refine .escape ?_
    obtain ⟨s, hs, rfl⟩ := h
    obtain ⟨t, ht, rfl⟩ := h'
    exact iff_of_false hs ht

include hvars in
theorem spansText_sameMarks (literals : Bool) (spans : List Span)
    (hescapes : ∀ s ∈ spans, s.Escapes) (hshows : ∀ s ∈ spans, s.ShowsWhole x) :
    Both SameMarks (spansText vars literals spans) (spansText vars' literals spans) := by
  induction spans with
  | nil => exact .ok (.refl _)
  | cons s rest ih =>
    obtain ⟨hs, hrest⟩ := List.forall_mem_cons.mp hescapes
    obtain ⟨hs', hrest'⟩ := List.forall_mem_cons.mp hshows
    have hmore := ih hrest hrest'
    cases s with
    | literal text =>
      exact hmore.bind fun _ _ h => .ok (SameMarks.append (.refl _) h)
    | escaped e =>
      refine (Expression.evaluate_shown hvars hs').bind fun v w hvw => ?_
      exact hmore.bind fun _ _ h => .ok (hvw.escape.append h)
    | raw e => exact absurd hs id

/-- Contributions to a tag that are the same but for texts with the same marks. -/
inductive Contribution.Alike : Contribution → Contribution → Prop
  | nothing : Alike .nothing .nothing
  | plain (name : String) {value value' : Option String}
    (h : Option.Rel SameMarks value value') : Alike (.attribute name value) (.attribute name value')
  | classes {texts texts' : List String} (h : List.Forall₂ SameMarks texts texts') :
    Alike (.classes texts) (.classes texts')

theorem Contribution.Alike.refl (c : Contribution) : c.Alike c := by
  rcases c with - | ⟨name, value⟩ | texts
  · exact .nothing
  · refine .plain name ?_
    cases value with
    | none => exact .none
    | some text => exact .some (.refl text)
  · exact .classes (List.forall₂_same.mpr fun text _ => .refl text)

/-- What a value contributes to a tag under the name of an attribute. -/
def contributionOf (mode : Mode) (name : String) (escaped : Bool) (v : Value) : Contribution :=
  if name = "class" then .classes (classesOf escaped v) else plainContribution mode name escaped v

theorem Attribute.contribution_eq (mode : Mode) (vars : String → Value) (a : Attribute) :
    a.contribution mode vars =
      (a.evaluate vars).map fun p => contributionOf mode a.name p.2 p.1 := by
  unfold Attribute.contribution
  cases a.evaluate vars with
  | ok p => rfl
  | error e => rfl

/-- Texts contribute alike if they have the same marks when they are written. -/
theorem contributionOf_text_alike (mode : Mode) (name : String) (escaped : Bool) {s t : String}
    (hempty : s = "" ↔ t = "") (h : SameMarks (escapeIf escaped s) (escapeIf escaped t)) :
    (contributionOf mode name escaped (.str s)).Alike (contributionOf mode name escaped (.str t)) := by
  unfold contributionOf
  split
  · refine .classes ?_
    simp only [classesOf, Value.text, String.isEmpty_iff]
    by_cases hs : s = ""
    · rw [if_pos hs, if_pos (hempty.mp hs)]
      exact .nil
    · rw [if_neg hs, if_neg (mt hempty.mpr hs)]
      exact .cons h .nil
  · exact .plain name (.some h)

theorem contributionOf_shown_alike (mode : Mode) (name : String) {v w : Value} (h : Shown v w) :
    (contributionOf mode name true v).Alike (contributionOf mode name true w) := by
  cases h with
  | same => exact .refl _
  | texts h h' =>
    obtain ⟨s, hs, rfl⟩ := h
    obtain ⟨t, ht, rfl⟩ := h'
    have hempty : s = "" ↔ t = "" := iff_of_false hs ht
    exact contributionOf_text_alike mode name true hempty (.escape hempty)

include hvars in
theorem Attribute.contribution_alike (mode : Mode) {a : Attribute} (hescaped : a.escaped = true)
    (hescapes : a.value.Escapes) (hshows : a.value.ShowsWhole x) :
    Both Contribution.Alike (a.contribution mode vars) (a.contribution mode vars') := by
  obtain ⟨name, value, escaped⟩ := a
  cases hescaped
  have hevaluate : Both (fun p q => (contributionOf mode name p.2 p.1).Alike
      (contributionOf mode name q.2 q.1)) (Attribute.evaluate vars ⟨name, value, true⟩)
      (Attribute.evaluate vars' ⟨name, value, true⟩) := by
    cases value with
    | implicit => exact .ok (.refl _)
    | expression e =>
      have hvalue : Both Shown (e.evaluate vars) (e.evaluate vars') :=
        Expression.evaluate_shown hvars hshows
      exact hvalue.map fun v w h => contributionOf_shown_alike mode name h
    | spans parts =>
      -- Spans are escaped as they are put together, and not once more.
      have htext := spansText_sameMarks hvars true parts hescapes hshows
      exact htext.map fun s t h => contributionOf_text_alike mode name false h.empty h
  rw [contribution_eq, contribution_eq]
  exact hevaluate.map fun _ _ h => h

include hvars in
theorem contributions_alike (mode : Mode) (attributes : List Attribute)
    (hescapes : ∀ a ∈ attributes, a.escaped = true ∧ a.value.Escapes)
    (hshows : ∀ a ∈ attributes, a.value.ShowsWhole x) :
    Both (List.Forall₂ Contribution.Alike) (contributions mode vars attributes)
      (contributions mode vars' attributes) := by
  induction attributes with
  | nil => exact .ok .nil
  | cons a rest ih =>
    obtain ⟨⟨hescaped, ha⟩, hrest⟩ := List.forall_mem_cons.mp hescapes
    obtain ⟨ha', hrest'⟩ := List.forall_mem_cons.mp hshows
    refine (Attribute.contribution_alike hvars mode hescaped ha ha').bind fun c c' hc => ?_
    exact (ih hrest hrest').bind fun cs cs' hcs => .ok (.cons hc hcs)

theorem gatherClasses_alike {cs cs' : List Contribution}
    (h : List.Forall₂ Contribution.Alike cs cs') :
    List.Forall₂ SameMarks (gatherClasses cs) (gatherClasses cs') := by
  induction h with
  | nil => exact .nil
  | cons hc _ ih =>
    cases hc with
    | nothing => exact ih
    | plain name h => exact ih
    | classes htexts => exact List.rel_append htexts ih

/-- Attributes are arranged alike, as it depends only on whether there are classes. -/
theorem arrangeAttributes_alike {classes classes' : List String}
    (hclasses : List.Forall₂ SameMarks classes classes') {cs cs' : List Contribution}
    (h : List.Forall₂ Contribution.Alike cs cs') (placed : Bool) :
    List.Forall₂ (fun p q => p.1 = q.1 ∧ Option.Rel SameMarks p.2 q.2)
      (arrangeAttributes classes placed cs) (arrangeAttributes classes' placed cs') := by
  have hempty : classes.isEmpty = classes'.isEmpty := by
    cases hclasses with
    | nil => rfl
    | cons _ _ => rfl
  induction h generalizing placed with
  | nil => exact .nil
  | cons hc _ ih =>
    cases hc with
    | nothing => exact ih placed
    | plain name h => exact .cons ⟨rfl, h⟩ (ih placed)
    | classes _ =>
      rw [arrangeAttributes, arrangeAttributes, hempty]
      split
      · exact ih true
      · exact .cons ⟨rfl, .some (.intercalate " " hclasses)⟩ (ih true)

theorem writeAttribute_sameMarks {p q : String × Option String} (hname : p.1 = q.1)
    (hvalue : Option.Rel SameMarks p.2 q.2) :
    SameMarks (writeAttribute p) (writeAttribute q) := by
  obtain ⟨name, value⟩ := p
  obtain ⟨name', value'⟩ := q
  cases hname
  cases hvalue with
  | none => exact .refl _
  | some h => exact ((SameMarks.refl _).append h).append (.refl _)

include hvars in
theorem attributesText_sameMarks (mode : Mode) (attributes : List Attribute)
    (hescapes : ∀ a ∈ attributes, a.escaped = true ∧ a.value.Escapes)
    (hshows : ∀ a ∈ attributes, a.value.ShowsWhole x) :
    Both SameMarks (attributesText mode vars attributes) (attributesText mode vars' attributes) := by
  refine (contributions_alike hvars mode attributes hescapes hshows).bind fun cs cs' hcs => .ok ?_
  have harranged := arrangeAttributes_alike (gatherClasses_alike hcs) hcs false
  refine .join (List.forall₂_map_left_iff.mpr (List.forall₂_map_right_iff.mpr ?_))
  exact harranged.imp fun p q h => writeAttribute_sameMarks h.1 h.2

end

/-! ### Tags -/

section
variable {x : String}

theorem steady_writeTag {w : RenderSetting} {name : String}
    {attributes : List Attribute} {selfClosing atOnce : Bool} {children : Rendering Unit}
    (hescapes : ∀ a ∈ attributes, a.escaped = true ∧ a.value.Escapes)
    (hshows : ∀ a ∈ attributes, a.value.ShowsWhole x) (hchildren : Steady x children) :
    Steady x (writeTag w name attributes selfClosing atOnce children) := by
  have htext := Parallel.ask fun _ _ hvars =>
    attributesText_sameMarks hvars w.mode attributes hescapes hshows
  have hbegin {text text' : String} (hmarks : SameMarks text text') :=
    Parallel.write (x := x) ((SameMarks.refl ("<" ++ name)).append hmarks)
  unfold writeTag
  dsimp only
  -- Behind the line feed in front of the tag, if there is one, all is the same.
  have hfront {r : Rendering Unit} (h : Steady x r) :
      Steady x (if isInline name = true then r else newline w.pretty >>= fun _ => r) := by
    split
    · exact h
    · exact h.behindNewline w.pretty
  refine hfront (htext.bind fun text text' hmarks => (hbegin hmarks).bind fun _ _ _ => ?_)
  split
  · exact (Steady.write _).bind fun _ _ _ => Steady.setBlockEmitted (· || !isInline name)
  · refine (Steady.write ">").bind fun _ _ _ => Parallel.state.bind fun s t hs => ?_
    rw [hs.blockEmitted]
    refine (Steady.setBlockEmitted fun _ => false).bind fun _ _ _ => ?_
    refine hchildren.indented.bind fun _ _ _ => Parallel.state.bind fun u v hu => ?_
    have hend : Steady x (do
        write ("</" ++ name ++ ">")
        modify fun s => { s with blockEmitted := t.blockEmitted || !isInline name }) :=
      (Steady.write _).bind fun _ _ _ =>
        Steady.setBlockEmitted fun _ => t.blockEmitted || !isInline name
    rw [hu.blockEmitted]
    split
    · exact hend.behindNewline w.pretty
    · exact hend

/-! ### Arguments -/

theorem evaluateAll_congr {vars vars' : String → Value} (hvars : Apart x vars vars')
    {es : List Expression} (h : ∀ e ∈ es, e.Avoids x) :
    evaluateAll vars es = evaluateAll vars' es := by
  induction es with
  | nil => rfl
  | cons e rest ih =>
    obtain ⟨he, hrest⟩ := List.forall_mem_cons.mp h
    rw [evaluateAll, evaluateAll, e.evaluate_congr hvars he, ih hrest]

/-- What parameters stand for does not depend on the variable. -/
theorem bindArguments_congr {vars vars' : String → Value} (hvars : Apart x vars vars')
    {surplus : Option String} {parameters : List Parameter} {arguments : List Expression}
    (hdefaults : ∀ p ∈ parameters, ∀ e ∈ p.default, e.Avoids x)
    (harguments : ∀ e ∈ arguments, e.Avoids x) :
    bindArguments vars surplus parameters arguments =
      bindArguments vars' surplus parameters arguments := by
  induction parameters generalizing arguments with
  | nil =>
    unfold bindArguments
    rw [evaluateAll_congr hvars harguments]
  | cons p ps ih =>
    obtain ⟨hp, hps⟩ := List.forall_mem_cons.mp hdefaults
    cases arguments with
    | nil =>
      have hmissing : p.missing vars = p.missing vars' := by
        unfold Parameter.missing
        split
        · next e he => exact e.evaluate_congr hvars (hp e he)
        · rfl
      rw [bindArguments, bindArguments, hmissing, ih hps harguments]
    | cons e rest =>
      obtain ⟨he, hrest⟩ := List.forall_mem_cons.mp harguments
      rw [bindArguments, bindArguments, e.evaluate_congr hvars he, ih hps hrest]

/-- Only parameters are bound. -/
theorem names_of_bindArguments {vars : String → Value} {surplus : Option String}
    {parameters : List Parameter} {arguments : List Expression}
    {bindings : List (String × Value)}
    (h : bindArguments vars surplus parameters arguments = .ok bindings) :
    ∀ b ∈ bindings, surplus = some b.1 ∨ ∃ p ∈ parameters, p.name = b.1 := by
  induction parameters generalizing arguments bindings with
  | nil =>
    unfold bindArguments at h
    cases surplus with
    | none =>
      cases h
      exact fun b hb => absurd hb List.not_mem_nil
    | some name =>
      obtain ⟨vs, -, h⟩ := of_bind_eq_ok h
      cases h
      exact fun b hb => .inl (congrArg some (by rw [List.mem_singleton.mp hb]))
  | cons p ps ih =>
    -- One binding for the parameter, from whatever gives its value, in front of the others.
    have hcons {value : Except ExpressionError Value} {arguments : List Expression}
        (h : (do
          let v ← value
          return (p.name, v) :: (← bindArguments vars surplus ps arguments)) = .ok bindings) :
        ∀ b ∈ bindings, surplus = some b.1 ∨ ∃ q ∈ p :: ps, q.name = b.1 := by
      obtain ⟨v, -, h⟩ := of_bind_eq_ok h
      obtain ⟨more, hmore, h⟩ := of_bind_eq_ok h
      cases h
      refine List.forall_mem_cons.mpr ⟨.inr ⟨p, List.mem_cons_self, rfl⟩, fun b hb => ?_⟩
      refine (ih hmore b hb).imp id fun hq => ?_
      obtain ⟨q, hq, hname⟩ := hq
      exact ⟨q, List.mem_cons_of_mem _ hq, hname⟩
    cases arguments with
    | nil => exact hcons h
    | cons e rest => exact hcons h

/-- What a call binds is the same, and is not the variable. -/
theorem bind_both {m : Mixin} {arguments : List Expression} {vars vars' : String → Value}
    (hvars : Apart x vars vars') (hm : (Node.mixin m).Guards x)
    (harguments : ∀ e ∈ arguments, e.Avoids x) :
    Both (fun bindings bindings' => bindings = bindings' ∧ ∀ b ∈ bindings, b.1 ≠ x)
      (m.bind arguments vars) (m.bind arguments vars') := by
  refine Both.of_eq (bindArguments_congr hvars hm.showsWhole harguments) fun bindings h => ?_
  refine ⟨rfl, fun b hb hname => hm.keeps ?_⟩
  rw [← hname]
  exact names_of_bindArguments h b hb

/-! ### Nodes -/

/-- The contents of all calls under way do nothing with the variable but to put it out
escaped. -/
def CallStack.Guarded (x : String) (cs : CallStack) : Prop :=
  ∀ c ∈ cs.callers, ∀ body ∈ c.body, Trellis.Guarded x body

theorem Guarded.head {n : Node} {ns : List Node} (h : Guarded x (n :: ns)) : n.Guards x :=
  h n (.here List.mem_cons_self)

theorem Guarded.mono {ns more : List Node} (h : Guarded x more) (hsub : ns ⊆ more) :
    Guarded x ns :=
  fun n hn => h n (hn.mono hsub)

/-- What is right inside a node is guarded if the node is. -/
theorem Guarded.inside {n : Node} {children : List Node} (h : Guarded x [n])
    (hchildren : children ∈ n.childLists) : Guarded x children :=
  fun m hm => h m (.inside (List.mem_singleton_self n) hchildren hm)

theorem CallStack.Guarded.push {cs inner : CallStack} {c : Caller} (h : cs.Guarded x)
    (hbody : ∀ body ∈ c.body, Trellis.Guarded x body) (hpush : cs.push? c = some inner) :
    inner.Guarded x := by
  unfold CallStack.push? at hpush
  split at hpush
  · cases hpush
    exact List.forall_mem_cons.mpr ⟨hbody, h⟩
  · cases hpush

theorem CallStack.Guarded.pop {cs outer : CallStack} {c : Caller} (h : cs.Guarded x)
    (hpop : cs.pop? = some (c, outer)) :
    outer.Guarded x ∧ ∀ body ∈ c.body, Trellis.Guarded x body := by
  obtain ⟨callers, hbounded⟩ := cs
  cases callers with
  | nil => cases hpop
  | cons caller rest =>
    cases hpop
    exact ⟨fun c' hc' => h c' (List.mem_cons_of_mem _ hc'), h c List.mem_cons_self⟩

variable {w : RenderSetting}
  (hmixins : ∀ name m, w.mixins.find? name = some m → Guarded x [.mixin m])
include hmixins

set_option linter.unusedSectionVars false in
mutual

/-- **A node that puts out the variable escaped, and does nothing else with it, is rendered
alike whatever text the variable is.** There is one statement for each function of the
renderer; the induction is the renderer's own recursion. -/
theorem steady_renderNode (cs : CallStack) (n : Node) :
    cs.Guarded x → Guarded x [n] → Steady x (renderNode w cs n) := by
  cases n with
  | doctype name =>
    intro _ _
    rw [renderNode]
    exact Steady.behindNewline ((Steady.write _).bind fun _ _ _ => Steady.markBlock) _
  | tag name attributes selfClosing children =>
    intro hcs hn
    have hguards := hn.head
    rw [renderNode]
    have hchildren : Guarded x children := hn.inside List.mem_cons_self
    exact steady_writeTag hguards.escapes hguards.showsWhole
      (steady_renderNodes cs children hcs hchildren)
  | text spans =>
    intro _ hn
    have hguards := hn.head
    rw [renderNode]
    refine Parallel.bind (Parallel.ask fun _ _ hvars =>
      spansText_sameMarks hvars false spans hguards.escapes hguards.showsWhole) ?_
    exact fun text text' hmarks => .write hmarks
  | output e escaped =>
    intro _ hn
    have hguards := hn.head
    rw [renderNode]
    refine Parallel.bind (Parallel.ask fun _ _ hvars =>
      Expression.evaluate_shown hvars hguards.showsWhole) ?_
    -- The two values may be different texts here, but both are escaped.
    have hescaped : escaped = true := hguards.escapes
    subst hescaped
    exact fun v v' hshown => .write hshown.escape
  | assign name e =>
    intro _ hn
    have hguards := hn.head
    rw [renderNode]
    refine Parallel.bind (Parallel.evaluate hguards.showsWhole) ?_
    rintro v _ rfl
    exact Steady.assign hguards.keeps v
  | cond branches otherwise =>
    intro hcs hn
    have hguards := hn.head
    rw [renderNode]
    refine steady_renderCond cs branches otherwise hcs (fun b hb => ⟨hguards.showsWhole b hb, ?_⟩) ?_
    · exact hn.inside (List.mem_append_left _ (List.mem_map_of_mem hb))
    · exact fun ns hns => hn.inside (List.mem_append_right _ (Option.mem_toList.mpr hns))
  | each item key collection body fallback =>
    intro hcs hn
    have hguards := hn.head
    rw [renderNode]
    refine Parallel.bind (Parallel.evaluate hguards.showsWhole) ?_
    rintro v _ rfl
    have hkeeps := hguards.keeps
    simp only [Node.Binds, not_or] at hkeeps
    have hbody : Guarded x body := hn.inside List.mem_cons_self
    have hfallback : ∀ ns ∈ fallback, Guarded x ns := fun ns hns =>
      hn.inside (List.mem_cons_of_mem _ (Option.mem_toList.mpr hns))
    -- The variable is not what is gone through, so the passes are the same.
    cases v.iterate? with
    | none => exact .fail _
    | some items =>
      cases items with
      | nil => exact steady_renderOptional cs fallback hcs hfallback
      | cons first rest =>
        exact Steady.runLoop hkeeps.1 hkeeps.2.1 hkeeps.2.2 (steady_renderNodes cs body hcs hbody) 0 _
  | caseOf subject whens default =>
    intro hcs hn
    have hguards := hn.head
    rw [renderNode]
    refine Parallel.bind (Parallel.evaluate hguards.showsWhole.1) ?_
    rintro v _ rfl
    refine steady_renderCase cs v whens default hcs
      (fun alternative ha => ⟨hguards.showsWhole.2 alternative ha, ?_⟩) ?_
    · exact hn.inside (List.mem_append_left _ (List.mem_map_of_mem ha))
    · exact fun ns hns => hn.inside (List.mem_append_right _ (Option.mem_toList.mpr hns))
  | comment text =>
    intro _ _
    rw [renderNode]
    exact Steady.behindNewline ((Steady.write _).bind fun _ _ _ => Steady.markBlock) _
  | mixin m =>
    intro _ _
    rw [renderNode]
    exact .result trivial
  | call name arguments body =>
    intro hcs hn
    have hguards := hn.head
    rw [renderNode]
    refine Parallel.bind Parallel.depth ?_
    rintro depth _ rfl
    cases hfind : w.mixins.find? name with
    | none => exact .fail _
    | some m =>
      have hm : Guarded x [.mixin m] := hmixins name m hfind
      have hbody : ∀ inside ∈ body, Guarded x inside :=
        fun inside h => hn.inside (Option.mem_toList.mpr h)
      dsimp only
      split
      · exact .fail _
      · next inner hpush =>
        refine Parallel.bind (Parallel.ask fun _ _ hvars =>
          bind_both hvars hm.head hguards.showsWhole) ?_
        rintro bindings _ ⟨rfl, hnames⟩
        -- The body of the mixin goes on under this call and what it brings along.
        have hinner : inner.Guarded x := hcs.push hbody hpush
        exact Steady.underFrame hnames
          (steady_renderNodes inner m.body hinner (hm.inside List.mem_cons_self))
  | content =>
    intro hcs _
    rw [renderNode]
    split
    · exact .result trivial
    · exact .result trivial
    · next body depth outer hpop =>
      -- The content was guarded at the place of its call, and is rendered as if there.
      obtain ⟨houter, hbody⟩ := hcs.pop hpop
      exact Steady.atDepth depth (steady_renderNodes outer body houter (hbody body rfl))
  | block name mode children =>
    intro hcs hn
    rw [renderNode]
    exact steady_renderNodes cs children hcs (hn.inside List.mem_cons_self)
  | filter name content options =>
    intro _ _
    rw [renderNode]
    split
    · exact .fail _
    · exact .write _
termination_by cs.rank (sizeOf n)
decreasing_by
  any_goals exact CallStack.rank_smaller (by simp +arith)
  · exact CallStack.rank_push ‹_› (by simp +arith)
  · exact CallStack.rank_pop ‹_› (by simp +arith)

theorem steady_renderNodes (cs : CallStack) (ns : List Node) :
    cs.Guarded x → Guarded x ns → Steady x (renderNodes w cs ns) := by
  cases ns with
  | nil =>
    intro _ _
    rw [renderNodes]
    exact .result trivial
  | cons n rest =>
    intro hcs hns
    rw [renderNodes]
    have hn : Guarded x [n] := hns.mono (List.cons_subset_cons n (List.nil_subset rest))
    have hrest : Guarded x rest := hns.mono (List.subset_cons_self n rest)
    exact (steady_renderNode cs n hcs hn).bind fun _ _ _ => steady_renderNodes cs rest hcs hrest
termination_by cs.rank (sizeOf ns)
decreasing_by
  all_goals exact CallStack.rank_smaller (by simp +arith)

theorem steady_renderOptional (cs : CallStack) (ns : Option (List Node)) :
    cs.Guarded x → (∀ inside ∈ ns, Guarded x inside) → Steady x (renderOptional w cs ns) := by
  cases ns with
  | none =>
    intro _ _
    rw [renderOptional]
    exact .result trivial
  | some ns =>
    intro hcs hns
    rw [renderOptional]
    exact steady_renderNodes cs ns hcs (hns ns rfl)
termination_by cs.rank (sizeOf ns)
decreasing_by
  all_goals exact CallStack.rank_smaller (by simp +arith)

theorem steady_renderCond (cs : CallStack) (branches : List Branch)
    (otherwise : Option (List Node)) :
    cs.Guarded x → (∀ b ∈ branches, b.test.Avoids x ∧ Guarded x b.body) →
      (∀ ns ∈ otherwise, Guarded x ns) → Steady x (renderCond w cs branches otherwise) := by
  cases branches with
  | nil =>
    intro hcs _ hotherwise
    rw [renderCond]
    exact steady_renderOptional cs otherwise hcs hotherwise
  | cons branch rest =>
    intro hcs hbranches hotherwise
    obtain ⟨test, negated, body⟩ := branch
    obtain ⟨⟨htest, hbody⟩, hrest⟩ := List.forall_mem_cons.mp hbranches
    rw [renderCond]
    refine Parallel.bind (Parallel.evaluate htest) ?_
    rintro v _ rfl
    split
    · exact steady_renderNodes cs body hcs hbody
    · exact steady_renderCond cs rest otherwise hcs hrest hotherwise
termination_by cs.rank (sizeOf branches + sizeOf otherwise)
decreasing_by
  all_goals exact CallStack.rank_smaller (by simp +arith)

theorem steady_renderCase (cs : CallStack) (subject : Value) (whens : List When)
    (default : Option (List Node)) :
    cs.Guarded x → (∀ a ∈ whens, a.value.Avoids x ∧ Guarded x a.body) →
      (∀ ns ∈ default, Guarded x ns) → Steady x (renderCase w cs subject whens default) := by
  cases whens with
  | nil =>
    intro hcs _ hdefault
    rw [renderCase]
    exact steady_renderOptional cs default hcs hdefault
  | cons alternative rest =>
    intro hcs hwhens hdefault
    obtain ⟨value, body⟩ := alternative
    obtain ⟨⟨hvalue, hbody⟩, hrest⟩ := List.forall_mem_cons.mp hwhens
    rw [renderCase]
    refine Parallel.bind (Parallel.evaluate hvalue) ?_
    rintro v _ rfl
    split
    · exact steady_renderNodes cs body hcs hbody
    · exact steady_renderCase cs subject rest default hcs hrest hdefault
termination_by cs.rank (sizeOf whens + sizeOf default)
decreasing_by
  all_goals exact CallStack.rank_smaller (by simp +arith)

end

end

/-! ### Templates -/

/-- **What is escaped cannot make markup.** Let a template put out values escaped only, and
let one variable occur in it as a whole expression that is put out, and nowhere be given
another value. Then two renderings for which the variable is two different texts, neither
of them empty, succeed or fail in the same way, and what they give has the same marks. This
holds in every mode, and whether the output is laid out or not. -/
theorem render_marks (t : Template) (filters : Table Filter) {x : String}
    (hescapes : ∀ n, t.document.Holds n → n.Escapes)
    (hshows : ∀ n, t.document.Holds n → n.ShowsWhole x)
    (hkeeps : ∀ n, t.document.Holds n → ¬n.Binds x) {vars vars' : Variables}
    (hvars : vars.Apart x vars') :
    Both (fun out out' => marks out = marks out') (t.render filters vars)
      (t.render filters vars') := by
  have hguards : ∀ n, t.document.Holds n → n.Guards x :=
    fun n hn => ⟨hescapes n hn, hshows n hn, hkeeps n hn⟩
  have hmixins : ∀ name m, (t.setting filters).mixins.find? name = some m →
      Guarded x [.mixin m] :=
    fun name m hfind n hn => hguards n (.inr ⟨(name, m), Table.mem_of_find? hfind, hn⟩)
  have hnodes : Guarded x t.document.nodes := fun n hn => hguards n (.inl hn)
  have hempty : CallStack.empty.Guarded x := fun c hc => absurd hc List.not_mem_nil
  have hstart : RenderState.Beside x ⟨.start vars, .unlimited, 0, false, false⟩
      ⟨.start vars', .unlimited, 0, false, false⟩ :=
    ⟨.start hvars, rfl, rfl, rfl, rfl, rfl, rfl⟩
  have hends := (steady_renderNodes hmixins .empty t.document.nodes hempty hnodes).ends _ _ hstart
  unfold Template.render Template.renderTo Trellis.render
  generalize renderNodes (t.setting filters) .empty t.document.nodes
    ⟨.start vars, .unlimited, 0, false, false⟩ = result,
    renderNodes (t.setting filters) .empty t.document.nodes
    ⟨.start vars', .unlimited, 0, false, false⟩ = result' at hends ⊢
  cases hends with
  | ok _ hst => exact .ok hst.marks
  | error e => exact .error _

/-- The variable `x` as an expression. -/
def nameExpression : Expression := ⟨"x", .variable "x", by cbv⟩

/-- A list of one item as an expression. -/
def listExpression : Expression := ⟨"[1]", .list [.literal (.int 1)], by cbv⟩

/-- A page that goes through a list and calls a mixin for each item, which shows the variable
in an attribute and in a text. -/
def linkPage (mode : Mode) (pretty : Bool) : Template where
  number := 0
  name := "page"
  version := ""
  document := {
    nodes := [.each "item" none listExpression [.call "link" [] none] none]
    mixins := [("link", ⟨"link", [], none, [.tag "a" [⟨"title", .expression nameExpression, true⟩]
      false [.text [.literal "to ", .escaped nameExpression]]]⟩)] }
  mode := mode
  pretty := pretty

/-- The five nodes of the page guard the variable. -/
theorem guards_linkPage {mode : Mode} {pretty : Bool} {n : Node}
    (h : (linkPage mode pretty).document.Holds n) : n.Guards "x" := by
  have hshows : nameExpression.ShowsWhole "x" := .inl rfl
  have havoids : listExpression.Avoids "x" := ⟨trivial, trivial⟩
  simp only [Document.Holds, linkPage, stands_cons_iff, Node.childLists, Option.toList,
    List.mem_singleton, exists_eq_left, not_stands_nil, or_false, List.not_mem_nil, false_and,
    exists_false] at h
  rcases h with (rfl | rfl) | rfl | rfl | rfl
  · exact ⟨trivial, havoids, by simp [Node.Binds]⟩
  · exact ⟨trivial, by simp [Node.ShowsWhole], id⟩
  · exact ⟨trivial, by simp [Node.ShowsWhole], by simp [Node.Binds]⟩
  · refine ⟨?_, ?_, id⟩
    · simp [Node.Escapes, AttributeValue.Escapes]
    · simpa [Node.ShowsWhole, AttributeValue.ShowsWhole] using hshows
  · refine ⟨?_, ?_, id⟩
    · simp [Node.Escapes, Span.Escapes]
    · simpa [Node.ShowsWhole, Span.ShowsWhole] using hshows

theorem render_linkPage_plain : (linkPage .html true).render [] [("x", .str "here")] =
    .ok "<a title=\"here\">to here</a>" := by cbv

theorem render_linkPage_tag : (linkPage .html true).render [] [("x", .str "<b>")] =
    .ok "<a title=\"&lt;b&gt;\">to &lt;b&gt;</a>" := by cbv

/-- With a text that looks like a tag, the page has the marks that it has with any other. -/
theorem render_marks_linkPage :
    ∃ out out', (linkPage .html true).render [] [("x", .str "here")] = .ok out ∧
      (linkPage .html true).render [] [("x", .str "<b>")] = .ok out' ∧ marks out = marks out' := by
  have hvars : Variables.Apart "x" [("x", .str "here")] [("x", .str "<b>")] := by
    refine ⟨⟨"here", by decide, rfl⟩, ⟨"<b>", by decide, rfl⟩, fun y hy => ?_⟩
    simp [Table.find?, hy.symm]
  have hboth := render_marks (linkPage .html true) [] (fun _ hn => (guards_linkPage hn).escapes)
    (fun _ hn => (guards_linkPage hn).showsWhole) (fun _ hn => (guards_linkPage hn).keeps) hvars
  rw [render_linkPage_plain, render_linkPage_tag] at hboth
  cases hboth with
  | ok hmarks => exact ⟨_, _, render_linkPage_plain, render_linkPage_tag, hmarks⟩

end Trellis
