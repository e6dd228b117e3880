import Trellis.Proofs.Machine

/-!
# `Trellis.Proofs.Renderings`: two renderings of the same nodes

The renderer is put together from a few steps: to give something back, to fail, to ask the
variables, to write, to open a line with a tag, and to run a part inside a changed state. So a
relation between parts of two renderings that these steps respect (`RespectsRendering`) holds
between the renderings of the same nodes under two settings. That is `renderNodes_related`, an
induction along the renderer with one case for each of its functions.

The settings may differ in the layout only. A new line is a step together with what is written
behind it: `openLine`. A relation need not hold between the two new lines alone.

A property of the parts of one rendering is a relation that looks at one of the two only.
-/

set_option autoImplicit false

namespace Trellis

open Markup Rendering

/-- A relation between parts of two renderings that the steps of the renderer respect. -/
structure RespectsRendering (w w' : RenderSetting)
    (R : ∀ {α : Type}, Rendering α → Rendering α → Prop) : Prop where
  pure {α : Type} (a : α) : R (pure a) (pure a)
  fail {α : Type} (e : RenderFault) : R (throw e : Rendering α) (throw e)
  bind {α β : Type} {r r' : Rendering α} {k k' : α → Rendering β} :
    R r r' → (∀ a, R (k a) (k' a)) → R (r >>= k) (r' >>= k')
  ask {α : Type} (f : (String → Value) → Except ExpressionError α) : R (ask f) (ask f)
  write (piece : String) : R (write piece) (write piece)
  /-- A line that begins with a tag, of which a part may come from the variables. -/
  openLine {α : Type} (f : (String → Value) → Except ExpressionError α) (g : α → String)
    (h : ∀ a, ∃ rest, g a = "<" ++ rest) :
    R (do newline w.pretty; let a ← Rendering.ask f; Rendering.write (g a))
      (do newline w'.pretty; let a ← Rendering.ask f; Rendering.write (g a))
  blockEmitted {α : Type} {k k' : Bool → Rendering α} : (∀ b, R (k b) (k' b)) →
    R (do k (← get).blockEmitted) (do k' (← get).blockEmitted)
  setBlockEmitted (f : Bool → Bool) :
    R (modify fun s => { s with blockEmitted := f s.blockEmitted })
      (modify fun s => { s with blockEmitted := f s.blockEmitted })
  assign (name : String) (v : Value) : R (assign name v) (assign name v)
  depth : R depth depth
  indented {r r' : Rendering Unit} : R r r' → R (indented r) (indented r')
  underFrame (bindings : List (String × Value)) {r r' : Rendering Unit} :
    R r r' → R (underFrame bindings r) (underFrame bindings r')
  atDepth (depth : Nat) {r r' : Rendering Unit} : R r r' → R (atDepth depth r) (atDepth depth r')

/-- Every declaration has one bracket that opens, at its beginning, and no slash behind it. -/
theorem Markup.doctypes_opened : ∀ entry ∈ doctypes,
    ∃ c rest, entry.2 = "<" ++ String.ofList (c :: rest) ∧ c ≠ '/' ∧ '<' ∉ c :: rest := by
  have hchars : ∀ entry ∈ doctypes,
      ∃ c rest, entry.2 = String.ofList ('<' :: c :: rest) ∧ c ≠ '/' ∧ '<' ∉ c :: rest := by
    -- The characters are those of the literals, one declaration at a time.
    unfold doctypes
    simp only [List.forall_mem_cons]
    refine ⟨?_, ?_, ?_, ?_, ?_, ?_, ?_, ?_, ?_, ?_, ?_, List.forall_mem_nil _⟩
    all_goals exact ⟨_, _, rfl, by decide, by decide⟩
  intro entry hentry
  obtain ⟨c, rest, hlist, hbehind⟩ := hchars entry hentry
  refine ⟨c, rest, ?_, hbehind⟩
  rw [hlist, ← List.singleton_append, String.ofList_append]

theorem Markup.doctypes_eq :
    ∀ entry ∈ doctypes, ∃ rest, entry.2 = "<" ++ rest := by
  intro entry hentry
  obtain ⟨c, rest, heq, -⟩ := Markup.doctypes_opened entry hentry
  exact ⟨_, heq⟩

/-- Every declaration begins a tag. -/
theorem Markup.doctype_eq (name : String) : ∃ rest, Markup.doctype name = "<" ++ rest := by
  unfold Markup.doctype
  dsimp only
  split
  · next word declaration hfind => exact Markup.doctypes_eq _ (List.mem_of_find?_eq_some hfind)
  · exact ⟨"!DOCTYPE " ++ Text.trimmed name ++ ">", by
      rw [← String.append_assoc, ← String.append_assoc]; rfl⟩

section
variable {w w' : RenderSetting} {R : ∀ {α : Type}, Rendering α → Rendering α → Prop}
  (hR : RespectsRendering w w' @R)
include hR

/-- A line that begins with a text of its own. -/
theorem openLine_related (piece : String) (h : ∃ rest, piece = "<" ++ rest) :
    R (newline w.pretty >>= fun _ => Rendering.write piece)
      (newline w'.pretty >>= fun _ => Rendering.write piece) :=
  hR.openLine (fun _ => .ok ()) (fun _ => piece) fun _ => h

/-- A line of its own: a declaration or a comment. -/
theorem ownLine_related (piece : String) (h : ∃ rest, piece = "<" ++ rest) :
    R (do newline w.pretty; Rendering.write piece; markBlock)
      (do newline w'.pretty; Rendering.write piece; markBlock) := by
  have hline := hR.bind (openLine_related hR piece h) fun _ => hR.setBlockEmitted fun _ => true
  rwa [bind_assoc, bind_assoc] at hline

theorem beginTag_related (hmode : w'.mode = w.mode) (name : String)
    (attributes : List Attribute) :
    R (beginTag w name attributes) (beginTag w' name attributes) := by
  unfold beginTag
  rw [hmode]
  split
  · exact hR.bind (hR.ask _) fun text => hR.write _
  · exact hR.openLine _ _ fun text => ⟨name ++ text, String.append_assoc ..⟩

theorem closeAtOnce_related (hmode : w'.mode = w.mode) (name : String) (selfClosing : Bool) :
    R (closeAtOnce w name selfClosing) (closeAtOnce w' name selfClosing) := by
  unfold closeAtOnce
  rw [hmode]
  exact hR.bind (hR.write _) fun _ => hR.setBlockEmitted fun b => b || !isInline name

theorem enterTag_related : R enterTag enterTag :=
  hR.bind (hR.write ">") fun _ => hR.blockEmitted fun outer =>
    hR.bind (hR.setBlockEmitted fun _ => false) fun _ => hR.pure outer

theorem leaveTag_related (name : String) (outer : Bool) :
    R (leaveTag w name outer) (leaveTag w' name outer) := by
  have hclosing : ∃ rest, "</" ++ name ++ ">" = "<" ++ rest :=
    ⟨"/" ++ name ++ ">", by rw [← String.append_assoc, ← String.append_assoc]; rfl⟩
  have hnote := hR.setBlockEmitted fun _ => outer || !isInline name
  -- Whether the tag is closed on a line of its own is seen from the state, which is the same.
  have hparts (emitted : Bool) :
      R (do
          if emitted then newline w.pretty
          Rendering.write ("</" ++ name ++ ">")
          modify fun s => { s with blockEmitted := outer || !isInline name })
        (do
          if emitted then newline w'.pretty
          Rendering.write ("</" ++ name ++ ">")
          modify fun s => { s with blockEmitted := outer || !isInline name }) := by
    cases emitted with
    | false => exact hR.bind (hR.write _) fun _ => hnote
    | true =>
      have hline := hR.bind (openLine_related hR _ hclosing) fun _ => hnote
      rwa [bind_assoc, bind_assoc] at hline
  exact hR.blockEmitted hparts

theorem writeTag_related (hmode : w'.mode = w.mode) (name : String) (attributes : List Attribute)
    (selfClosing atOnce : Bool) {children children' : Rendering Unit} (h : R children children') :
    R (writeTag w name attributes selfClosing atOnce children)
      (writeTag w' name attributes selfClosing atOnce children') := by
  rw [writeTag_eq, writeTag_eq]
  refine hR.bind (beginTag_related hR hmode name attributes) fun _ => ?_
  cases atOnce with
  | true => exact closeAtOnce_related hR hmode name selfClosing
  | false =>
    exact hR.bind (enterTag_related hR) fun outer => hR.bind (hR.indented h) fun _ =>
      leaveTag_related hR name outer

theorem runLoop_related (item : String) (key : Option String) (length : Nat)
    {body body' : Rendering Unit} (h : R body body') (index : Nat)
    (entries : List (Value × Value)) :
    R (runLoop item key length body index entries) (runLoop item key length body' index entries) := by
  induction entries generalizing index with
  | nil => exact hR.pure ()
  | cons entry rest ih => exact hR.bind (hR.underFrame _ h) fun _ => ih (index + 1)

end

/-- Two settings that differ in the layout only. -/
structure RenderSetting.SameButLayout (w w' : RenderSetting) : Prop where
  mixins : w'.mixins = w.mixins
  filters : w'.filters = w.filters
  mode : w'.mode = w.mode

section
variable {w w' : RenderSetting} {R : ∀ {α : Type}, Rendering α → Rendering α → Prop}
  (hR : RespectsRendering w w' @R) (hw : w.SameButLayout w')
include hR hw

set_option linter.unusedSectionVars false in
mutual

/-- **The renderer respects the relation**, one statement for each of its functions. -/
theorem renderNode_related (cs : CallStack) (n : Node) :
    R (renderNode w cs n) (renderNode w' cs n) := by
  cases n with
  | doctype name =>
    rw [renderNode, renderNode]
    exact ownLine_related hR _ (Markup.doctype_eq name)
  | tag name attributes selfClosing children =>
    rw [renderNode, renderNode, hw.mode]
    exact writeTag_related hR hw.mode name attributes selfClosing _ (renderNodes_related cs children)
  | text spans =>
    rw [renderNode, renderNode]
    exact hR.bind (hR.ask _) fun text => hR.write text
  | output e escaped =>
    rw [renderNode, renderNode]
    exact hR.bind (hR.ask _) fun v => hR.write _
  | assign name e =>
    rw [renderNode, renderNode]
    exact hR.bind (hR.ask _) fun v => hR.assign name v
  | cond branches otherwise =>
    rw [renderNode, renderNode]
    exact renderCond_related cs branches otherwise
  | each item key collection body fallback =>
    rw [renderNode, renderNode]
    refine hR.bind (hR.ask _) fun v => ?_
    cases v.iterate? with
    | none => exact hR.fail _
    | some items =>
      cases items with
      | nil => exact renderOptional_related cs fallback
      | cons first rest =>
        exact runLoop_related hR item key _ (renderNodes_related cs body) 0 (first :: rest)
  | caseOf subject whens default =>
    rw [renderNode, renderNode]
    exact hR.bind (hR.ask _) fun v => renderCase_related cs v whens default
  | comment text =>
    rw [renderNode, renderNode]
    exact ownLine_related hR _ ⟨"!--" ++ text ++ "-->", by
      rw [← String.append_assoc, ← String.append_assoc]; rfl⟩
  | mixin m =>
    rw [renderNode, renderNode]
    exact hR.pure ()
  | call name arguments body =>
    rw [renderNode, renderNode, hw.mixins]
    refine hR.bind hR.depth fun depth => ?_
    cases w.mixins.find? name with
    | none => exact hR.fail _
    | some m =>
      dsimp only
      split
      · exact hR.fail _
      · next inner hpush =>
        exact hR.bind (hR.ask _) fun bindings =>
          hR.underFrame bindings (renderNodes_related inner m.body)
  | content =>
    rw [renderNode, renderNode]
    split
    · exact hR.pure ()
    · exact hR.pure ()
    · next body depth outer hpop => exact hR.atDepth depth (renderNodes_related outer body)
  | block name mode children =>
    rw [renderNode, renderNode]
    exact renderNodes_related cs children
  | filter name content options =>
    rw [renderNode, renderNode, hw.filters]
    cases w.filters.find? name with
    | none => exact hR.fail _
    | some filter => exact hR.write _
termination_by cs.rank (sizeOf n)
decreasing_by
  any_goals exact CallStack.rank_smaller (by simp +arith)
  · exact CallStack.rank_push ‹_› (by simp +arith)
  · exact CallStack.rank_pop ‹_› (by simp +arith)

theorem renderNodes_related (cs : CallStack) (ns : List Node) :
    R (renderNodes w cs ns) (renderNodes w' cs ns) := by
  cases ns with
  | nil =>
    rw [renderNodes, renderNodes]
    exact hR.pure ()
  | cons n rest =>
    rw [renderNodes, renderNodes]
    exact hR.bind (renderNode_related cs n) fun _ => renderNodes_related cs rest
termination_by cs.rank (sizeOf ns)
decreasing_by
  all_goals exact CallStack.rank_smaller (by simp +arith)

theorem renderOptional_related (cs : CallStack) (ns : Option (List Node)) :
    R (renderOptional w cs ns) (renderOptional w' cs ns) := by
  cases ns with
  | none =>
    rw [renderOptional, renderOptional]
    exact hR.pure ()
  | some ns =>
    rw [renderOptional, renderOptional]
    exact renderNodes_related cs ns
termination_by cs.rank (sizeOf ns)
decreasing_by
  all_goals exact CallStack.rank_smaller (by simp +arith)

theorem renderCond_related (cs : CallStack) (branches : List Branch)
    (otherwise : Option (List Node)) :
    R (renderCond w cs branches otherwise) (renderCond w' cs branches otherwise) := by
  cases branches with
  | nil =>
    rw [renderCond, renderCond]
    exact renderOptional_related cs otherwise
  | cons branch rest =>
    obtain ⟨test, negated, body⟩ := branch
    rw [renderCond, renderCond]
    refine hR.bind (hR.ask _) fun v => ?_
    split
    · exact renderNodes_related cs body
    · exact renderCond_related cs rest otherwise
termination_by cs.rank (sizeOf branches + sizeOf otherwise)
decreasing_by
  all_goals exact CallStack.rank_smaller (by simp +arith)

theorem renderCase_related (cs : CallStack) (subject : Value) (whens : List When)
    (default : Option (List Node)) :
    R (renderCase w cs subject whens default) (renderCase w' cs subject whens default) := by
  cases whens with
  | nil =>
    rw [renderCase, renderCase]
    exact renderOptional_related cs default
  | cons alternative rest =>
    obtain ⟨value, body⟩ := alternative
    rw [renderCase, renderCase]
    refine hR.bind (hR.ask _) fun v => ?_
    split
    · exact renderNodes_related cs body
    · exact renderCase_related cs subject rest default
termination_by cs.rank (sizeOf whens + sizeOf default)
decreasing_by
  all_goals exact CallStack.rank_smaller (by simp +arith)

end

end

end Trellis
