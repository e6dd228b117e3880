import Trellis.Document.Statement
import Trellis.Proofs.Steps

/-!
# `Trellis.Proofs.Wording`: what a line by itself can do

A statement is read from the tokens of its line, without a look at anything else. So two things
are known of what comes out before it is known what stands around the line.

* If the line cannot be read, then for its wording: the fault is `ParseFault.IsLocal`, which
  leaves out only that templates name each other in a circle.
* If it can be read, then what it includes is what a token of the line names (`Head.Targets`).

`Head.readsLocally_read` says both. It goes along the two functions that read a line, and the
parts of a line that can fail have one lemma each below it.
-/

set_option autoImplicit false

namespace Trellis

open Source Text

/-! ### Parts of a line -/

/-- A fault that one template has by itself. -/
def ParseFault.IsLocal (fault : ParseFault) : Prop := ∀ chain, fault ≠ .cycle chain

theorem ParseFault.isLocal_strayElse : ParseFault.strayElse.IsLocal := by
  intro chain h
  cases h

/-- What is read is refused for a local fault, if it is refused. -/
structure FailsLocally {α : Type} (x : Except ParseFault α) : Prop where
  faults : ∀ fault, x = .error fault → fault.IsLocal

namespace FailsLocally

variable {α β : Type} {x : Except ParseFault α}

theorem result (a : α) : FailsLocally (.ok a) where
  faults _ h := by cases h

theorem fault {f : ParseFault} (h : f.IsLocal) : FailsLocally (α := α) (.error f) where
  faults f' hf := by
    cases hf
    exact h

theorem bind {k : α → Except ParseFault β} (h : FailsLocally x) (hk : ∀ a, FailsLocally (k a)) :
    FailsLocally (x >>= k) := by
  cases x with
  | ok a => exact hk a
  | error f => exact .fault (h.faults f rfl)

theorem map (h : FailsLocally x) (f : α → β) : FailsLocally (x.map f) := by
  cases x with
  | ok a => exact .result (f a)
  | error e => exact .fault (h.faults e rfl)

theorem compileIn (cs : List Char) : FailsLocally (Trellis.compileIn cs) := by
  unfold Trellis.compileIn
  cases Expression.compile (String.ofList cs) with
  | ok e => exact .result e
  | error e => exact .fault nofun

theorem compileText (s : String) : FailsLocally (Trellis.compileText s) := compileIn s.toList

theorem endOfLine (ts : List Token) : FailsLocally (Trellis.endOfLine ts) := by
  cases ts with
  | nil => exact .result ()
  | cons t rest => exact .fault nofun

theorem interpolateFrom (text cs : List Char) : FailsLocally (Trellis.interpolateFrom text cs) := by
  fun_induction Trellis.interpolateFrom text cs with
  | case1 text => exact .result _
  | case2 text c rest hescaped ih => exact ih
  | case3 => exact .fault nofun
  | case4 text c rest _ _ inner after _ _ e he =>
    exact .fault ((compileIn (trim inner)).faults e he)
  | case5 text c rest _ _ inner after _ _ e _ e' he ih => exact .fault (ih.faults e' he)
  | case6 => exact .result _
  | case7 text c rest _ _ ih => exact ih

theorem interpolate (s : String) : FailsLocally (Trellis.interpolate s) :=
  (interpolateFrom [] s.toList).map _

theorem readEach {f : α → Except ParseFault β} (h : ∀ a, FailsLocally (f a)) (as : List α) :
    FailsLocally (Trellis.readEach f as) := by
  induction as with
  | nil => exact .result []
  | cons a rest ih => exact (h a).bind fun _ => ih.bind fun _ => .result _

theorem attributeOf (raw : RawAttribute) : FailsLocally (Trellis.attributeOf raw) := by
  unfold Trellis.attributeOf
  split
  · exact .result _
  · split
    · refine FailsLocally.map ?_ _
      unfold attributeOf.interpolateQuoted
      split
      · exact interpolate _
      · exact .result _
    · exact (compileText _).map _

theorem assignment (code : String) : FailsLocally (Trellis.assignment code) := by
  unfold Trellis.assignment
  dsimp only
  split
  · exact .fault nofun
  · split
    · exact (compileIn _).map _
    · exact .fault nofun

theorem parametersOf (parts : List (List Char)) : FailsLocally (Trellis.parametersOf parts) := by
  induction parts with
  | nil => exact .result _
  | cons part parts ih =>
    unfold Trellis.parametersOf
    split
    · split
      · exact .result _
      · exact .fault nofun
    · refine FailsLocally.bind ?_ fun first => ih.bind fun _ => .result _
      unfold parametersOf.parameterOf
      split
      · exact .result _
      · exact (compileIn _).map _

end FailsLocally

/-! ### Whole lines -/

/-- What a statement includes, if it or the statement on its line includes something. -/
def Head.Targets (Q : String → Prop) : Head → Prop
  | .including target => Q target
  | .tagAround _ _ inner => inner.Targets Q
  | .callAround _ _ inner => inner.Targets Q
  | _ => True

/-- What is read of a line fails for a local fault or includes only something of a kind. -/
structure ReadsLocally (Q : String → Prop) (x : Except ParseFault Head) : Prop where
  refusals : FailsLocally x
  targets : ∀ h, x = .ok h → h.Targets Q

namespace ReadsLocally

variable {Q Q' : String → Prop} {α : Type}

theorem fault {f : ParseFault} (h : f.IsLocal) : ReadsLocally Q (.error f) := ⟨.fault h, nofun⟩

/-- A part of the line is read, and then the rest. -/
theorem bind {x : Except ParseFault α} {k : α → Except ParseFault Head} (h : FailsLocally x)
    (hk : ∀ a, ReadsLocally Q (k a)) : ReadsLocally Q (x >>= k) := by
  cases x with
  | ok a => exact hk a
  | error f => exact .fault (h.faults f rfl)

/-- The line ends behind a statement. -/
theorem closed {x : Except ParseFault Head} (h : ReadsLocally Q x) (rest : List Token) :
    ReadsLocally Q (Head.read.closed x rest) := by
  unfold Head.read.closed
  cases x with
  | error f => exact .fault (h.refusals.faults f rfl)
  | ok head =>
    show ReadsLocally Q (endOfLine rest >>= fun _ => pure head)
    refine bind (FailsLocally.endOfLine rest) fun _ => ⟨.result head, ?_⟩
    intro head' hhead
    cases hhead
    exact h.targets head rfl

/-- A part of a line that becomes a statement without a target. -/
theorem map {x : Except ParseFault α} (h : FailsLocally x) {f : α → Head}
    (hf : ∀ a, (f a).Targets Q) : ReadsLocally Q (x.map f) := by
  refine ⟨h.map f, fun head hhead => ?_⟩
  cases x with
  | error e => cases hhead
  | ok a =>
    cases hhead
    exact hf a

theorem leaf {x : Except ParseFault Node} (h : FailsLocally x) (rest : List Token) :
    ReadsLocally Q (Head.read.leafHead x rest) :=
  (map (f := .leaf) h fun _ => trivial).closed rest

/-- A statement around the one that is read behind it on the line. -/
theorem around {x : Except ParseFault Head} (h : ReadsLocally Q x) {f : Head → Head}
    (hf : ∀ inner, inner.Targets Q → (f inner).Targets Q') :
    ReadsLocally Q' (do return f (← x)) := by
  cases x with
  | error e => exact .fault (h.refusals.faults e rfl)
  | ok inner =>
    refine ⟨.result _, fun head hhead => ?_⟩
    cases hhead
    exact hf inner (h.targets inner rfl)

/-- A statement without a target, behind which the line ends. -/
theorem last {head : Head} (h : head.Targets Q) (rest : List Token) :
    ReadsLocally Q (do
      endOfLine rest
      return head) := by
  refine bind (FailsLocally.endOfLine rest) fun _ => ⟨.result head, fun head' hhead => ?_⟩
  cases hhead
  exact h

end ReadsLocally

theorem Head.Targets.mono {Q Q' : String → Prop} (hQ : ∀ target, Q target → Q' target) {h : Head}
    (hh : h.Targets Q) : h.Targets Q' := by
  induction h with
  | including target => exact hQ target hh
  | tagAround name attributes inner ih => exact ih hh
  | callAround name arguments inner ih => exact ih hh
  | _ => trivial

/-- What is named on the rest of a line is named on the line. -/
theorem ReadsLocally.later {t : Token} {rest : List Token} {x : Except ParseFault Head}
    (h : ReadsLocally (fun target => .including target ∈ rest) x) :
    ReadsLocally (fun target => .including target ∈ t :: rest) x where
  refusals := h.refusals
  targets head hh := (h.targets head hh).mono fun _ => List.mem_cons_of_mem _

mutual

/-- **A line is read by itself.** It is refused for a local fault, and what it includes is named
on it. -/
theorem Head.readsLocally_read (ts : List Token) :
    ReadsLocally (fun target => .including target ∈ ts) (Head.read ts) := by
  rw [Head.read.eq_def]
  split
  case h_3 name rest => exact (Head.readsLocally_readTag name [] rest).later
  case h_14 name arguments rest =>
    have hinner := Head.readsLocally_read rest
    refine .bind (FailsLocally.readEach FailsLocally.compileIn _) fun args => ?_
    refine hinner.around fun inner h => Head.Targets.mono (fun target ht => ?_) h
    exact List.mem_cons_of_mem _ (List.mem_cons_of_mem _ ht)
  case h_16 mode name rest =>
    split
    · exact .leaf (.result _) rest
    · exact ReadsLocally.closed ⟨.result _, fun h hh => by cases hh; trivial⟩ rest
  case h_19 target rest =>
    refine ReadsLocally.closed ⟨.result _, fun h hh => ?_⟩ rest
    cases hh
    exact List.mem_cons_self
  -- Statements without children that hold an expression or a text.
  case h_4 s rest => exact .leaf ((FailsLocally.interpolate s).map _) rest
  case h_5 escaped source rest => exact .leaf ((FailsLocally.compileText source).map _) rest
  case h_6 code rest => exact .leaf (.assignment code) rest
  -- Statements with children that hold an expression.
  case h_9 test rest => exact .closed (.map (.compileText test) fun _ => by exact trivial) rest
  case h_10 test rest => exact .closed (.map (.compileText test) fun _ => by exact trivial) rest
  case h_11 collection rest =>
    exact .closed (.map (.compileText collection) fun _ => by exact trivial) rest
  case h_12 subject rest =>
    exact .closed (.map (.compileText subject) fun _ => by exact trivial) rest
  case h_13 name parameters rest =>
    exact .closed (.map (.parametersOf _) fun _ => by exact trivial) rest
  case h_15 name arguments rest _ =>
    have hargs := FailsLocally.readEach FailsLocally.compileIn (splitTopLevel arguments.toList)
    exact .closed (.map hargs fun _ => by exact trivial) rest
  -- Statements that hold nothing to be read.
  case h_2 | h_7 | h_8 | h_17 | h_18 => exact .leaf (.result _) _
  -- Lines that are no statements.
  all_goals exact .fault nofun
termination_by ts.length

/-- The same of a line from behind the name of a tag on. -/
theorem Head.readsLocally_readTag (name : String) (attributes : List Attribute) (ts : List Token) :
    ReadsLocally (fun target => .including target ∈ ts) (Head.readTag name attributes ts) := by
  rw [Head.readTag.eq_def]
  split
  case h_1 id rest => exact (Head.readsLocally_readTag name _ rest).later
  case h_2 c rest => exact (Head.readsLocally_readTag name _ rest).later
  case h_3 list rest =>
    refine .bind (FailsLocally.readEach FailsLocally.attributeOf list) fun more => ?_
    exact (Head.readsLocally_readTag name _ rest).later
  case h_4 rest => exact .last (by exact trivial) rest
  case h_5 rest =>
    refine (Head.readsLocally_read rest).around fun inner h => Head.Targets.mono (fun _ ht => ?_) h
    exact List.mem_cons_of_mem _ ht
  case h_6 s rest => exact .bind (.interpolate s) fun spans => .last (by exact trivial) rest
  case h_7 lines rest => exact .bind (.interpolate _) fun spans => .last (by exact trivial) rest
  case h_8 escaped source rest => exact .bind (.compileText source) fun e => .last (by exact trivial) rest
  case h_9 rest => exact .last (by exact trivial) _
termination_by ts.length

end

end Trellis
