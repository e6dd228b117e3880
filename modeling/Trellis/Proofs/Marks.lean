import Mathlib.Data.List.Forall2
import Trellis.Markup.Escape

/-!
# `Trellis.Proofs.Marks`: the characters that make markup

Four characters open and close tags and the values of attributes. The marks of a text are
those characters of it, in order. An escaped text has none (`marks_escape`), whatever it
was before.

`SameMarks` compares two texts as far as a reader of markup can tell where one element ends
and the next begins: they have the same marks, and neither is empty alone. It goes through
everything that puts texts together.
-/

set_option autoImplicit false

namespace Trellis.Markup

/-- Does the character open or close a tag or the value of an attribute? -/
def isMark (c : Char) : Bool := c = '<' ∨ c = '>' ∨ c = '"' ∨ c = '\''

/-- The characters of a text that make markup, in order. -/
def marks (s : String) : List Char := s.toList.filter isMark

@[simp] theorem marks_append (s t : String) : marks (s ++ t) = marks s ++ marks t := by
  rw [marks, String.toList_append, List.filter_append, marks, marks]

/-- No character has a mark among those that it is written as. -/
theorem filter_escapeChar (c : Char) : (escapeChar c).filter isMark = [] := by
  unfold escapeChar
  split
  case h_6 hamp hless hgreater hquote hapostrophe =>
    -- The character stands for itself, and it is none of the five.
    have hnone : isMark c = false := by
      refine decide_eq_false fun hmark => ?_
      rcases hmark with hc | hc | hc | hc
      · exact hless hc
      · exact hgreater hc
      · exact hquote hc
      · exact hapostrophe hc
    rw [List.filter_cons, hnone]
    rfl
  all_goals rfl

/-- An escaped text has no marks. -/
theorem marks_escape (s : String) : marks (escape s) = [] := by
  rw [marks, escape, String.toList_ofList, List.filter_flatMap, List.flatMap_eq_nil_iff]
  exact fun c _ => filter_escapeChar c

theorem escapeChar_ne_nil (c : Char) : escapeChar c ≠ [] := by
  unfold escapeChar
  split <;> exact List.cons_ne_nil _ _

/-- A text that is not empty is not empty when it is escaped. -/
theorem escape_eq_empty_iff {s : String} : escape s = "" ↔ s = "" := by
  rw [← String.toList_eq_nil_iff, ← String.toList_eq_nil_iff, escape, String.toList_ofList,
    List.flatMap_eq_nil_iff]
  constructor
  · intro h
    exact List.eq_nil_iff_forall_not_mem.mpr fun c hc => escapeChar_ne_nil c (h c hc)
  · intro h c hc
    rw [h] at hc
    cases hc

/-- Two texts with the same marks, both empty or neither. -/
structure SameMarks (s t : String) : Prop where
  marks : marks s = marks t
  empty : s = "" ↔ t = ""

namespace SameMarks

theorem refl (s : String) : SameMarks s s := ⟨rfl, Iff.rfl⟩

theorem append {s t s' t' : String} (h : SameMarks s t) (h' : SameMarks s' t') :
    SameMarks (s ++ s') (t ++ t') where
  marks := by rw [marks_append, marks_append, h.marks, h'.marks]
  empty := by rw [String.append_eq_empty_iff, String.append_eq_empty_iff, h.empty, h'.empty]

/-- Escaped texts have the same marks, namely none. -/
theorem escape {s t : String} (h : s = "" ↔ t = "") :
    SameMarks (Markup.escape s) (Markup.escape t) where
  marks := by rw [marks_escape, marks_escape]
  empty := by rw [escape_eq_empty_iff, escape_eq_empty_iff, h]

theorem join {ss ts : List String} (h : List.Forall₂ SameMarks ss ts) :
    SameMarks (String.join ss) (String.join ts) := by
  induction h with
  | nil => exact refl _
  | cons h _ ih =>
    rw [String.join_cons, String.join_cons]
    exact h.append ih

theorem intercalate (between : String) {ss ts : List String}
    (h : List.Forall₂ SameMarks ss ts) :
    SameMarks (between.intercalate ss) (between.intercalate ts) := by
  induction h with
  | nil => exact refl _
  | cons h htail ih =>
    cases htail with
    | nil =>
      rw [String.intercalate_singleton, String.intercalate_singleton]
      exact h
    | cons =>
      rw [String.intercalate_cons_cons, String.intercalate_cons_cons]
      exact (h.append (refl between)).append ih

end SameMarks

end Trellis.Markup
