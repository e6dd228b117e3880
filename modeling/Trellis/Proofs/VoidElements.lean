import Trellis.Proofs.ClosingTags
import Trellis.Proofs.Halting

/-!
# `Trellis.Proofs.VoidElements`: which void elements are closed

In HTML a void element has no closing tag. The renderer leaves the closing tag of such an element
out only if the element has nothing inside; with a text or other nodes inside, the element is closed
like any other. `closes_void` says that there is no other reason: in what a compiled template comes
to, there is a closing tag of a void element just when the rendering comes to such an element with
something inside (`Template.Fills`), if no other part of the template puts one together
(`Node.Forges`).

One direction looks ahead: a machine that has come to such an element has the closing tag among its
tasks, and then in its output (`closes_step`). The other looks back: every closing tag in the output
of a machine belongs to a tag that it came to (`settled_of_comes`).
-/

set_option autoImplicit false

namespace Trellis

open Markup Rendering

/-! ### Closing tags that are written -/

/-- A machine that has failed, still has the closing tag of an element to write, or has written it. -/
def Machine.Closes (name : String) (m : Machine) : Prop :=
  m.fault ≠ none ∨ (∃ outer, .work (.endTag name outer) ∈ m.tasks) ∨
    Occurs (closingTag name) m.state.sink.text

section
variable {w : RenderSetting} {name : String} {m next last : Machine}

/-- A piece that was written is in the text. -/
theorem text_of_write {piece : String} {s t : RenderState} (hpiece : piece ≠ "")
    (h : write piece s = .ok () t) : t.sink.text = s.sink.text ++ piece := by
  unfold Rendering.write at h
  rw [if_neg (by simpa using hpiece)] at h
  unfold Sink.offer at h
  cases hroom : s.sink.room with
  | none =>
    rw [hroom] at h
    cases h
    rfl
  | some room =>
    rw [hroom] at h
    dsimp only at h
    by_cases hfits : piece.utf8ByteSize ≤ room
    · rw [if_pos hfits] at h
      cases h
      rfl
    · rw [if_neg hfits] at h
      cases h

theorem occurs_of_leaveTag {outer : Bool} {s t : RenderState}
    (h : leaveTag w name outer s = .ok () t) : Occurs (closingTag name) t.sink.text := by
  have hend {s : RenderState} (h : (do
        write ("</" ++ name ++ ">")
        modify fun s => { s with blockEmitted := outer || !isInline name } : Rendering Unit) s =
      .ok () t) : Occurs (closingTag name) t.sink.text := by
    obtain ⟨_, between, hwrite, h⟩ := of_bind_eq_result h
    cases h
    show (closingTag name).toList <:+: between.sink.text.toList
    rw [text_of_write (by simp) hwrite, String.toList_append]
    exact (List.suffix_append _ _).isInfix
  obtain ⟨emitted, between, -, h⟩ := of_bind_eq_result h
  split at h
  · obtain ⟨_, _, -, h⟩ := of_bind_eq_result h
    exact hend h
  · exact hend h

/-- What occurs in the text goes on to occur. -/
theorem Machine.occurs_step {piece : String} (h : m.step w = some next)
    (hm : Occurs piece m.state.sink.text) : Occurs piece next.state.sink.text := by
  have habsorbs (s : String) : Absorbs (Occurs piece) s := fun _ hocc => hocc.append s
  exact Machine.text_step (fun _ => habsorbs _) h hm fun j _ _ =>
    (j.writes_true w).mono fun s _ => habsorbs s

/-- **A closing tag that is to be written is written**, unless something fails before. -/
theorem Machine.closes_step (h : m.step w = some next) (hm : m.Closes name) : next.Closes name := by
  rcases hm with hfault | ⟨outer, hmem⟩ | hocc
  · -- A fault stays.
    rcases Machine.step_cases h with ⟨u, rest, -, rfl⟩ | ⟨j, rest, e, -, -, rfl⟩ | ⟨j, rest, -, hnone, -⟩
    · exact .inl hfault
    · exact .inl (Option.some_ne_none e)
    · exact absurd hnone hfault
  · rcases Machine.step_cases h with ⟨u, rest, htasks, rfl⟩ | ⟨j, rest, e, -, -, rfl⟩ |
      ⟨j, rest, htasks, -, ⟨first, hopening, hfirst, -⟩ | ⟨e, -, -, -, he⟩⟩
    · -- An undoing is no closing tag, so that is among the other tasks.
      rw [htasks] at hmem
      exact .inr (.inl ⟨outer, List.mem_of_ne_of_mem (by simp) hmem⟩)
    · exact .inl (Option.some_ne_none e)
    · rw [htasks] at hmem
      rcases List.mem_cons.mp hmem with hj | hmem
      · -- The closing tag is what is written now.
        cases hj
        obtain ⟨_, between, hleave, hdone⟩ := of_bind_eq_result hopening
        have hstate : between = next.state := (EStateM.Result.ok.inj hdone).2
        exact .inr (.inr (hstate ▸ occurs_of_leaveTag hleave))
      · exact .inr (.inl ⟨outer, hfirst ▸ List.mem_append_right _ hmem⟩)
    · exact .inl (he ▸ Option.some_ne_none e)
  · -- What is written stays.
    exact .inr (.inr (Machine.occurs_step h hocc))

theorem Machine.closes_of_reaches (h : Machine.Reaches w m last) (hm : m.Closes name) :
    last.Closes name := by
  induction h with
  | refl => exact hm
  | tail _ hstep ih => exact Machine.closes_step hstep ih

/-- A tag that is not closed at once has its closing tag to be written. -/
theorem Machine.Enters.closes (hm : m.Enters w name) (h : m.step w = some next) : next.Closes name := by
  obtain ⟨attributes, selfClosing, children, rest, htasks, hopen, hnone⟩ := hm
  rcases Machine.step_cases h with ⟨u, rest', htasks', -⟩ | ⟨j, rest', e, -, hsome, -⟩ |
    ⟨j, rest', htasks', -, ⟨first, hopening, hfirst, -⟩ | ⟨e, -, -, -, he⟩⟩
  · cases htasks.symm.trans htasks'
  · cases hnone.symm.trans hsome
  · cases htasks.symm.trans htasks'
    obtain ⟨_, between, -, hinside⟩ := of_bind_eq_result hopening
    rw [if_neg (by simp [hopen])] at hinside
    obtain ⟨outer, _, -, hinside⟩ := of_bind_eq_result hinside
    have htags : nodeTasks children ++ [.undo .outdent] ++ [.work (.endTag name outer)] = first :=
      congrArg Prod.fst (EStateM.Result.ok.inj hinside).1
    refine .inr (.inl ⟨outer, ?_⟩)
    rw [hfirst, ← htags]
    simp
  · exact .inl (he ▸ Option.some_ne_none e)

/-- A machine without a next step is where all runs lead. -/
theorem Machine.reaches_last {start : Machine} (hm : Machine.Reaches w start m)
    (hlast : Machine.Reaches w start last) (hstop : last.step w = none) : Machine.Reaches w m last := by
  have hunique : Relator.RightUnique fun m next : Machine => m.step w = some next :=
    fun _ _ _ h h' => Option.some.inj (h.symm.trans h')
  rcases Relation.ReflTransGen.total_of_right_unique hunique hm hlast with h | h
  · exact h
  · rcases h.cases_head with rfl | ⟨next, hstep, -⟩
    · exact .refl
    · rw [hstop] at hstep
      cases hstep

end

/-! ### Templates -/

section
variable {t : Template} {filters : Table Filter} {vars : Variables} {name : String} {m : Machine}

/-- The rendering of a template comes to a moment. -/
abbrev Template.Comes (t : Template) (filters : Table Filter) (vars : Variables) (m : Machine) : Prop :=
  Machine.Reaches (t.setting filters) (.start t.document.nodes vars .unlimited) m

/-- The rendering comes to an element with something inside. -/
def Template.Fills (t : Template) (filters : Table Filter) (vars : Variables) (name : String) : Prop :=
  ∃ m, t.Comes filters vars m ∧ m.fault = none ∧ ∃ attributes children rest,
    m.tasks = .work (.node (.tag name attributes false children)) :: rest ∧ children ≠ []

/-- The rendering comes to a tag that is not closed at once. -/
def Template.Enters (t : Template) (filters : Table Filter) (vars : Variables) (name : String) : Prop :=
  ∃ m, t.Comes filters vars m ∧ m.Enters (t.setting filters) name

theorem Template.Fills.enters (h : t.Fills filters vars name) : t.Enters filters vars name := by
  obtain ⟨m, hm, hnone, attributes, children, rest, htasks, hchildren⟩ := h
  refine ⟨m, hm, attributes, false, children, rest, htasks, ?_, hnone⟩
  simp [closesAtOnce, hchildren]

/-- In HTML, only what is inside keeps a void element from being closed at once. -/
theorem Template.Enters.fills (h : t.Enters filters vars name) (hvoid : isVoid name = true) :
    t.Fills filters vars name := by
  obtain ⟨m, hm, attributes, selfClosing, children, rest, htasks, hopen, hnone⟩ := h
  simp only [closesAtOnce, hvoid, Bool.true_or, Bool.and_true, Bool.or_eq_false_iff] at hopen
  obtain ⟨rfl, hchildren⟩ := hopen
  exact ⟨m, hm, hnone, attributes, children, rest, htasks, by simpa using hchildren⟩

/-- Every closing tag that is to be written belongs to a tag that the rendering came to. -/
theorem Template.enters_of_endTag {outer : Bool} (h : t.Comes filters vars m)
    (hmem : .work (.endTag name outer) ∈ m.tasks) : t.Enters filters vars name := by
  induction h with
  | refl => simp [Machine.start, nodeTasks] at hmem
  | @tail m next hm hstep ih =>
    rcases Machine.endTag_step hstep hmem with hmem | henters
    · exact ih hmem
    · exact ⟨m, hm, henters⟩

/-- What a rendering comes to stands in the template. -/
theorem Template.holds_of_comes {n : Node} {rest : List Task} (h : t.Comes filters vars m)
    (htasks : m.tasks = .work (.node n) :: rest) : t.document.Holds n := by
  refine Template.holds_of_reaches h (.here ?_)
  rw [Machine.nodes, htasks]
  exact List.mem_append_left _ List.mem_cons_self

variable (hwords : ∀ name attributes selfClosing children,
  t.document.Holds (.tag name attributes selfClosing children) → IsTagWord name)
include hwords

theorem Template.Enters.isTagWord (h : t.Enters filters vars name) : IsTagWord name := by
  obtain ⟨m, hm, attributes, selfClosing, children, rest, htasks, -⟩ := h
  exact hwords _ _ _ _ (Template.holds_of_comes hm htasks)

/-- **All closing tags of the output belong to tags that the rendering came to**, at every moment
of it. -/
theorem Template.settled_of_comes (hmode : t.mode = .html)
    (hquiet : ∀ n, t.document.Holds n → n.Escapes ∧ n.HoldsNoClosing filters)
    (hforges : ∀ n, t.document.Holds n → ¬n.Forges filters) (h : t.Comes filters vars m) :
    Settled (t.Enters filters vars) m.state.sink.text := by
  induction h with
  | refl => exact Tagless.settled (by simp [Tagless, Machine.start, Sink.unlimited])
  | @tail m next hm hstep ih =>
    have habsorbs {piece : String} (hpiece : Settled (t.Enters filters vars) piece) :
        Absorbs (Settled (t.Enters filters vars)) piece := fun _ htext => htext.append hpiece
    refine Machine.text_step (fun indent => habsorbs (settled_lineStart indent)) hstep ih
      fun j rest htasks => Job.Writes.mono (fun _ => habsorbs) ?_
    cases j with
    | node n =>
      have hn := Template.holds_of_comes hm htasks
      refine Node.settled_writes hmode (hquiet n hn).1 (hquiet n hn).2 (hforges n hn) ?_
      rintro name attributes selfClosing children rfl
      exact hwords _ _ _ _ hn
    | passes item key length body index entries => trivial
    | endTag name outer =>
      have henters : t.Enters filters vars name :=
        Template.enters_of_endTag hm (htasks ▸ List.mem_cons_self)
      exact settled_closingTag henters ((henters.isTagWord hwords).notMem (by decide) (by decide))

omit hwords

/-- A rendering comes to a last moment, at which its output is what was rendered. -/
theorem Template.exists_last (t : Template) (filters : Table Filter) (vars : Variables) :
    ∃ last, t.Comes filters vars last ∧ last.tasks = [] ∧
      (t.renderTo filters vars .unlimited).2 = last.state.sink ∧
      ∀ out, t.render filters vars = .ok out → last.fault = none ∧ out = last.state.sink.text := by
  obtain ⟨last, hlast, hdone, -, hresult⟩ :=
    reaches_render (t.setting filters) t.document.nodes vars .unlimited
  unfold Template.render Template.renderTo
  rw [← hresult]
  unfold Machine.result
  cases hfault : last.fault with
  | some e => exact ⟨last, hlast, hdone, rfl, nofun⟩
  | none =>
    refine ⟨last, hlast, hdone, rfl, fun out hout => ?_⟩
    cases hout
    exact ⟨hfault, rfl⟩

/-- A rendering that succeeds has written the closing tags of all tags that it came to. -/
theorem Template.Enters.occurs (h : t.Enters filters vars name) {out : String}
    (hrender : t.render filters vars = .ok out) : Occurs (closingTag name) out := by
  obtain ⟨m, hm, henters⟩ := h
  obtain ⟨last, hlast, hdone, -, hsuccess⟩ := t.exists_last filters vars
  obtain ⟨hfault, rfl⟩ := hsuccess out hrender
  have hstop : last.step (t.setting filters) = none := by
    unfold Machine.step
    rw [hdone]
  obtain hsame | ⟨next, hstep, hreaches⟩ := (Machine.reaches_last hm hlast hstop).cases_head
  · -- At the last moment there is no tag to come to.
    obtain ⟨_, _, _, _, htasks, -⟩ := henters
    rw [hsame, hdone] at htasks
    cases htasks
  · have hcloses : last.Closes name := Machine.closes_of_reaches hreaches (henters.closes hstep)
    rcases hcloses with hsome | ⟨outer, hmem⟩ | hocc
    · exact absurd hfault hsome
    · rw [hdone] at hmem
      cases hmem
    · exact hocc

end

/-- **A void element is closed for what is inside it, and for nothing else.** Let a template in HTML
put out values escaped only, and let no closing tag begin in its fixed texts, its comments and what
its filters give. If a rendering succeeds, then every void element that it came to with something
inside has a closing tag in the output. If a closing tag of a void element is in the output, also in
that of a rendering that fails, then the rendering came to such an element with something inside,
or some node of the template may put a closing tag together. -/
theorem Template.closes_void {loader : Loader} {options : Options} {name version : String} {log : Log}
    {t : Template} (hcompile : (Template.compile loader options name version log).1 = .ok t)
    (hmode : t.mode = .html) {filters : Table Filter}
    (hquiet : ∀ n, t.document.Holds n → n.Escapes ∧ n.HoldsNoClosing filters) (vars : Variables)
    {element : String} (hvoid : element ∈ voidElements) :
    (∀ out, t.render filters vars = .ok out → t.Fills filters vars element →
      Occurs (closingTag element) out) ∧
    (Occurs (closingTag element) (t.renderTo filters vars .unlimited).2.text →
      t.Fills filters vars element ∨ ∃ n, t.document.Holds n ∧ n.Forges filters) := by
  refine ⟨fun out hrender hfills => hfills.enters.occurs hrender, fun hocc => ?_⟩
  by_cases hforges : ∃ n, t.document.Holds n ∧ n.Forges filters
  · exact .inr hforges
  · have hnone : ∀ n, t.document.Holds n → ¬n.Forges filters := fun n hn h => hforges ⟨n, hn, h⟩
    have hwords (tag : String) (attributes : List Attribute) (selfClosing : Bool) (children : List Node)
        (h : t.document.Holds (.tag tag attributes selfClosing children)) : IsTagWord tag :=
      Template.isTagWord_of_compile hcompile h
    obtain ⟨last, hlast, -, houtput, -⟩ := t.exists_last filters vars
    rw [houtput] at hocc
    have hsettled := Template.settled_of_comes hwords hmode hquiet hnone hlast
    have helement : '>' ∉ element.toList := by
      have hall : ∀ v ∈ voidElements, '>' ∉ v.toList := by decide +kernel
      exact hall element hvoid
    have henters : t.Enters filters vars element := by
      refine hsettled.closes.of_occurs (fun tag htag => ?_) helement hocc
      exact (htag.isTagWord hwords).notMem (by decide) (by decide)
    exact .inl (henters.fills (List.elem_iff.mpr hvoid))

/-- A page of one line: a line break with a text. -/
def breakPage : Memory := ⟨[("page", "br text")]⟩

namespace Source

theorem readStatement_breakPage :
    readStatement "br text".toList = .ok ⟨[.tag "br", .text "text"], .statements, []⟩ := by
  have hopening : opening "br text".toList = .ok (.tag "br text".toList) := by cbv
  have hname : tagNameFrom "br text".toList = "br".toList := by
    rw [tagNameFrom]
    split
    · next hcolon => cases hcolon
    · rfl
  have hparts : headParts " text".toList = .ok ([], " text".toList) := by
    rw [headParts]
    rfl
  have hhead : tagHead "br text".toList = .ok ([.tag "br"], " text".toList) := by
    have hletter : Text.headIs Text.isLetter "br text".toList = true := by cbv
    have hrest : "br text".toList.drop "br".toList.length = " text".toList := rfl
    rw [tagHead]
    simp only [hletter, hname, if_true, hrest, hparts]
    rfl
  rw [readStatement_eq, bind_eq_of_ok hopening, Opening.statement, bind_eq_of_ok hhead]
  cbv

theorem scan_breakPage :
    Layout.scan "br text" = .ok ⟨[⟨⟨1, 1⟩, 0, [.tag "br", .text "text"]⟩], ⟨1, 1⟩⟩ := by
  have hline : '\n' ∉ "br text".toList := by decide +kernel
  have hscan := scan_of_trimmed hline (by cbv) (by cbv) (by cbv) readStatement_breakPage
  rwa [String.ofList_toList] at hscan

end Source

/-- What the page is compiled to. -/
def breakTemplate : Template where
  number := 0
  name := "page"
  version := "1"
  document := ⟨[.tag "br" [] false [.text [.literal "text"]]], []⟩
  mode := .html
  pretty := true

theorem compile_breakPage :
    (Template.compile breakPage.loader ⟨true, true, .html, 1⟩ "page" "1" ⟨0, 0⟩).1 = .ok breakTemplate := by
  have hread : Head.read [.tag "br", .text "text"] = .ok (.tag "br" [] [.text [.literal "text"]]) := by
    cbv
  have hdocument : (breakPage.loader.document "page").1 = .ok breakTemplate.document := by
    refine Library.document_eq_ok_iff.mpr ⟨_, _, ["page"], by cbv, Source.scan_breakPage, ?_⟩
    rw [readDocument_lone hread]
    rfl
  show Except.map _ (breakPage.loader.document "page").1 = _
  rw [hdocument]
  rfl

/-- The two nodes of the page have fixed texts without closing tags, and put none together. -/
theorem quiet_breakPage {n : Node} (h : breakTemplate.document.Holds n) (filters : Table Filter) :
    (n.Escapes ∧ n.HoldsNoClosing filters) ∧ ¬n.Forges filters := by
  have htext : ¬Occurs "</" "text" := by decide +kernel
  simp only [Document.Holds, breakTemplate, stands_cons_iff, Node.childLists, List.mem_singleton,
    exists_eq_left, not_stands_nil, or_false, List.not_mem_nil, false_and, exists_false] at h
  rcases h with rfl | rfl
  · simp [Node.Escapes, Node.HoldsNoClosing, Node.Forges]
  · simp [Node.Escapes, Span.Escapes, Node.HoldsNoClosing, Node.Forges, htext]

/-- The line break is closed. -/
theorem closes_break :
    (Template.compile breakPage.loader ⟨true, true, .html, 1⟩ "page" "1" ⟨0, 0⟩).1 = .ok breakTemplate ∧
      breakTemplate.mode = .html ∧
      (∀ n, breakTemplate.document.Holds n → n.Escapes ∧ n.HoldsNoClosing []) ∧
      "br" ∈ voidElements ∧ breakTemplate.render [] [] = .ok "<br>text</br>" ∧
      Occurs (closingTag "br") "<br>text</br>" :=
  ⟨compile_breakPage, rfl, fun _ hn => (quiet_breakPage hn []).1, by decide, by cbv, by decide +kernel⟩

/-- It is closed because the rendering comes to it with the text inside. -/
theorem closes_void_break :
    (Template.compile breakPage.loader ⟨true, true, .html, 1⟩ "page" "1" ⟨0, 0⟩).1 = .ok breakTemplate ∧
      breakTemplate.mode = .html ∧
      (∀ n, breakTemplate.document.Holds n → n.Escapes ∧ n.HoldsNoClosing []) ∧
      "br" ∈ voidElements ∧ breakTemplate.Fills [] [] "br" := by
  have hquiet : ∀ n, breakTemplate.document.Holds n → n.Escapes ∧ n.HoldsNoClosing [] :=
    fun _ hn => (quiet_breakPage hn []).1
  refine ⟨compile_breakPage, rfl, hquiet, by decide, ?_⟩
  have hboth := Template.closes_void compile_breakPage rfl hquiet [] (by decide : "br" ∈ voidElements)
  have hocc : Occurs (closingTag "br") (breakTemplate.renderTo [] [] .unlimited).2.text := by
    have htext : (breakTemplate.renderTo [] [] .unlimited).2.text = "<br>text</br>" := by cbv
    rw [htext]
    decide +kernel
  refine (hboth.2 hocc).resolve_right ?_
  rintro ⟨n, hn, hforges⟩
  exact (quiet_breakPage hn []).2 hforges

end Trellis
