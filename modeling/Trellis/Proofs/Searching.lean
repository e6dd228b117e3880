import Mathlib
import Trellis.Expr.Eval
import Trellis.Expr.Reader

/-!
# `Trellis.Proofs.Searching`: where a value stands in a list or a text

`indexOf`, `contains` and `split` all look for one thing in another. This module says where a value
stands (`StandsAt`) without saying how it is looked for: an item of a list that is loosely equal to
it, or a place of a text where the value's own text begins. Places of a text count characters, and
the empty text stands at each of them.

`find?_eq_some_iff` and `find?_eq_none_iff` say that the search in a text gives the least place. The
other half is about splitting: its parts lie between occurrences that do not overlap, and joined by the
separator they are the text again (`joinWith_splitOn`). Here the scan is read with a part under way and
with some characters of a separator still to be passed over.

`eval_search` puts this together for calls in expressions.
-/

set_option autoImplicit false

namespace Trellis

namespace Text

/-! ### Searching a text -/

theorem startsWith_iff {start cs : List Char} : startsWith start cs = true ↔ start <+: cs := by
  unfold startsWith
  constructor
  · intro h
    obtain ⟨rest, hrest⟩ := Option.isSome_iff_exists.mp h
    exact ⟨rest, (append_of_after? hrest).symm⟩
  · rintro ⟨rest, rfl⟩
    rw [after?_append]
    rfl

/-- A search that fails has looked at every place. -/
theorem find?_eq_none_iff {needle cs : List Char} :
    find? needle cs = none ↔ ∀ n, ¬needle <+: cs.drop n := by
  induction cs with
  | nil =>
    unfold find?
    simp
  | cons c cs ih =>
    unfold find?
    split
    · next h =>
      have hhere : needle <+: (c :: cs).drop 0 := startsWith_iff.mp h
      simp only [reduceCtorEq, false_iff, not_forall, not_not]
      exact ⟨0, hhere⟩
    · next h =>
      rw [Option.map_eq_none_iff, ih]
      constructor
      · intro hrest n
        cases n with
        | zero => exact fun hhere => h (startsWith_iff.mpr hhere)
        | succ n => exact hrest n
      · intro hall n
        exact hall (n + 1)

/-- A search that succeeds gives the least place. -/
theorem find?_eq_some_iff {needle cs : List Char} {n : Nat} :
    find? needle cs = some n ↔
      n ≤ cs.length ∧ needle <+: cs.drop n ∧ ∀ m < n, ¬needle <+: cs.drop m := by
  induction cs generalizing n with
  | nil =>
    unfold find?
    by_cases hempty : needle = []
    · subst hempty
      cases n <;> simp
    · simp [hempty]
  | cons c cs ih =>
    unfold find?
    split
    · next h =>
      have hhere : needle <+: (c :: cs).drop 0 := startsWith_iff.mp h
      constructor
      · intro hzero
        cases hzero
        exact ⟨Nat.zero_le _, hhere, nofun⟩
      · rintro ⟨-, -, hbefore⟩
        cases n with
        | zero => rfl
        | succ n => exact absurd hhere (hbefore 0 n.succ_pos)
    · next h =>
      have hnot : ¬needle <+: (c :: cs).drop 0 := fun hhere => h (startsWith_iff.mpr hhere)
      rw [Option.map_eq_some_iff]
      constructor
      · rintro ⟨k, hk, rfl⟩
        obtain ⟨hle, hthere, hbefore⟩ := ih.mp hk
        refine ⟨Nat.succ_le_succ hle, hthere, fun m hm => ?_⟩
        cases m with
        | zero => exact hnot
        | succ m => exact hbefore m (Nat.lt_of_succ_lt_succ hm)
      · rintro ⟨hle, hthere, hbefore⟩
        -- The place is not the first one, so it is one of the rest.
        cases n with
        | zero => exact absurd hthere hnot
        | succ n =>
          have hrest : ∀ m < n, ¬needle <+: cs.drop m := fun m hm =>
            hbefore (m + 1) (Nat.succ_lt_succ hm)
          exact ⟨n, ih.mpr ⟨Nat.le_of_succ_le_succ hle, hthere, hrest⟩, rfl⟩

/-! ### Splitting and joining -/

theorem splitFrom_ne_nil (sep part : List Char) (skip : Nat) (cs : List Char) :
    splitFrom sep part skip cs ≠ [] := by
  fun_induction splitFrom sep part skip cs with
  | case1 => simp
  | case2 _ _ _ _ ih => exact ih
  | case3 => simp
  | case4 _ _ _ _ ih => exact ih

theorem joinWith_cons_of_ne_nil (sep cs : List Char) {parts : List (List Char)} (h : parts ≠ []) :
    joinWith sep (cs :: parts) = cs ++ sep ++ joinWith sep parts := by
  cases parts with
  | nil => exact absurd rfl h
  | cons part parts => rfl

/-- The parts, joined, are the part under way and the text behind what is passed over. -/
theorem joinWith_splitFrom {sep : List Char} (hsep : sep ≠ []) (part : List Char) (skip : Nat)
    (cs : List Char) :
    joinWith sep (splitFrom sep part skip cs) = part.reverse ++ cs.drop skip := by
  fun_induction splitFrom sep part skip cs with
  | case1 => simp [joinWith]
  | case2 part c cs k ih => exact ih
  | case3 part c cs hstart ih =>
    rw [joinWith_cons_of_ne_nil _ _ (splitFrom_ne_nil _ _ _ _), ih]
    obtain ⟨rest, hrest⟩ := startsWith_iff.mp hstart
    -- The first character of the separator is this one, so the rest of it is passed over.
    obtain ⟨d, tail, rfl⟩ := List.exists_cons_of_ne_nil hsep
    rw [List.cons_append] at hrest
    obtain ⟨rfl, rfl⟩ := List.cons.inj hrest
    simp
  | case4 part c cs hnot ih =>
    rw [ih]
    simp

theorem joinWith_nil_singletons (cs : List Char) : joinWith [] (cs.map fun c => [c]) = cs := by
  induction cs with
  | nil => rfl
  | cons c cs ih =>
    cases cs with
    | nil => rfl
    | cons d cs =>
      show [c] ++ [] ++ joinWith [] ((d :: cs).map fun c => [c]) = _
      rw [ih]
      rfl

/-- **Splitting loses nothing**: the parts with the separator between each two are the text. -/
theorem joinWith_splitOn (sep cs : List Char) : joinWith sep (splitOn sep cs) = cs := by
  unfold splitOn
  split
  · next h =>
    rw [List.isEmpty_iff.mp h]
    exact joinWith_nil_singletons cs
  · next h =>
    have hsep : sep ≠ [] := fun hnil => h (List.isEmpty_iff.mpr hnil)
    rw [joinWith_splitFrom hsep]
    rfl

end Text

namespace Expr

open Text

namespace Builtin

theorem toList_joinTexts (sep : String) (texts : List String) :
    (joinTexts sep texts).toList = joinWith sep.toList (texts.map String.toList) := by
  fun_induction joinTexts sep texts with
  | case1 => rfl
  | case2 => rfl
  | case3 s t rest ih =>
    simp only [String.toList_append, ih]
    rfl

/-- A text that is split at a text and joined by it is itself. -/
theorem joinValues_splitText (s sep : String) :
    joinValues (splitText (.str s) (.str sep)) (.str sep) = .ok (.str s) := by
  show Except.ok (Value.str (joinTexts sep _)) = _
  congr 2
  rw [← String.toList_inj, toList_joinTexts, List.map_map, List.map_map]
  -- The items are texts, so the text of each is itself.
  have hitem : ∀ part : List Char,
      ((String.toList ∘ Value.text) ∘ fun cs => Value.str (String.ofList cs)) part = part := fun part =>
    String.toList_ofList
  rw [List.map_congr_left fun part _ => hitem part, List.map_id']
  exact joinWith_splitOn sep.toList s.toList

/-! ### Where a value stands -/

/-- A value stands where an item of a list is loosely equal to it, and where in a text its own text
begins. -/
def StandsAt (needle : Value) : Value → Nat → Prop
  | .list items, n => ∃ item, items[n]? = some item ∧ item.looseSame needle = true
  | .str s, n => n ≤ s.length ∧ needle.text.toList <+: s.toList.drop n
  | _, _ => False

/-- The least place where a value stands, and −1 if there is none. -/
inductive FirstPlace (needle v : Value) : Int → Prop
  | there {n : Nat} (there : StandsAt needle v n) (before : ∀ m < n, ¬StandsAt needle v m) :
    FirstPlace needle v n
  | nowhere (nowhere : ∀ n, ¬StandsAt needle v n) : FirstPlace needle v (-1)

/-- A list or a text, short enough for its positions to be whole numbers of 64 bits. No other can be
held in memory. -/
inductive Searchable : Value → Prop
  | list {items : List Value} (short : items.length < 2 ^ 63) : Searchable (.list items)
  | text {s : String} (short : s.length < 2 ^ 63) : Searchable (.str s)

variable {v needle : Value}

theorem position?_eq_some_iff (hv : Searchable v) {n : Nat} :
    position? v needle = some n ↔ StandsAt needle v n ∧ ∀ m < n, ¬StandsAt needle v m := by
  cases hv with
  | @list items _ =>
    unfold position? StandsAt
    rw [List.findIdx?_eq_some_iff_getElem]
    constructor
    · rintro ⟨hn, hhere, hbefore⟩
      refine ⟨⟨items[n], List.getElem?_eq_getElem hn, hhere⟩, ?_⟩
      rintro m hm ⟨item, hitem, hsame⟩
      obtain ⟨hlt, rfl⟩ := List.getElem?_eq_some_iff.mp hitem
      exact hbefore m hm hsame
    · rintro ⟨⟨item, hitem, hsame⟩, hbefore⟩
      obtain ⟨hn, rfl⟩ := List.getElem?_eq_some_iff.mp hitem
      refine ⟨hn, hsame, fun m hm hthere => hbefore m hm ?_⟩
      exact ⟨_, List.getElem?_eq_getElem (hm.trans hn), hthere⟩
  | @text s _ =>
    unfold position? StandsAt
    rw [find?_eq_some_iff, String.length_toList]
    constructor
    · rintro ⟨hle, hhere, hbefore⟩
      exact ⟨⟨hle, hhere⟩, fun m hm hthere => hbefore m hm hthere.2⟩
    · rintro ⟨⟨hle, hhere⟩, hbefore⟩
      exact ⟨hle, hhere, fun m hm hthere => hbefore m hm ⟨by omega, hthere⟩⟩

theorem standsAt_lt (hv : Searchable v) {n : Nat} (h : StandsAt needle v n) : n < 2 ^ 63 := by
  cases hv with
  | list short =>
    obtain ⟨item, hitem, -⟩ := h
    exact (List.getElem?_eq_some_iff.mp hitem).1.trans short
  | text short => exact h.1.trans_lt short

theorem position?_eq_none_iff (hv : Searchable v) :
    position? v needle = none ↔ ∀ n, ¬StandsAt needle v n := by
  constructor
  · intro hnone n hthere
    -- Among the places where the value stands there is a least one.
    classical
    have hex : ∃ n, StandsAt needle v n := ⟨n, hthere⟩
    have hleast := (position?_eq_some_iff hv).mpr ⟨Nat.find_spec hex, fun m hm => Nat.find_min hex hm⟩
    rw [hnone] at hleast
    cases hleast
  · intro hnowhere
    cases hposition : position? v needle with
    | none => rfl
    | some n => exact absurd ((position?_eq_some_iff hv).mp hposition).1 (hnowhere n)

theorem holds_eq_isSome (hv : Searchable v) : holds v needle = (position? v needle).isSome := by
  cases hv with
  | list => exact List.findIdx?_isSome.symm
  | text => rfl

/-- **A position is the least place**, and there is one exactly if the value is contained. -/
theorem firstPlace_ofPosition (needle : Value) (hv : Searchable v) :
    ∃ i : Int64, ofPosition (position? v needle) = .int i ∧ FirstPlace needle v i.toInt ∧
      holds v needle = decide (0 ≤ i) := by
  rw [holds_eq_isSome hv]
  cases hposition : position? v needle with
  | none =>
    exact ⟨-1, rfl, .nowhere ((position?_eq_none_iff hv).mp hposition), rfl⟩
  | some n =>
    obtain ⟨hthere, hbefore⟩ := (position?_eq_some_iff hv).mp hposition
    have hn : (Int64.ofNat n).toInt = n := Int64.toInt_ofNat_of_lt (standsAt_lt hv hthere)
    refine ⟨Int64.ofNat n, rfl, ?_, ?_⟩
    · rw [hn]
      exact .there hthere hbefore
    · have hle : (0 : Int64) ≤ Int64.ofNat n := by
        rw [Int64.le_iff_toInt_le, hn]
        exact Int.natCast_nonneg n
      rw [decide_eq_true hle]
      rfl

end Builtin

/-- A call of a method. -/
def method (receiver : Expr) (name : String) (arguments : List Expr) : Expr :=
  .call (.member receiver name) arguments

section
variable {vars : String → Value} {e a : Expr} {v w : Value}

theorem eval_method (he : eval vars e = .ok v) (ha : eval vars a = .ok w) (name : String) :
    eval vars (method e name [a]) = callMethod v name [w] := by
  unfold method
  rw [eval]
  simp only [evalAll, ha, he]
  rfl

theorem eval_function (he : eval vars e = .ok v) (ha : eval vars a = .ok w) (name : String) :
    eval vars (.call (.variable name) [e, a]) = callFunction name [v, w] := by
  rw [eval]
  simp only [evalAll, ha, he]
  rfl

/-- **Searching and splitting are coherent.** In a list or a text, `indexOf` is the least place of the
searched value, or −1, and the value is contained exactly if that is not negative, in whichever way it
is asked. A text that is split at a text and joined by it is itself. -/
theorem eval_search (he : eval vars e = .ok v) (ha : eval vars a = .ok w) :
    (Builtin.Searchable v →
      ∃ i : Int64, eval vars (method e "indexOf" [a]) = .ok (.int i) ∧
        Builtin.FirstPlace w v i.toInt ∧
        eval vars (method e "contains" [a]) = .ok (.bool (0 ≤ i)) ∧
        eval vars (method e "includes" [a]) = .ok (.bool (0 ≤ i)) ∧
        eval vars (.call (.variable "contains") [e, a]) = .ok (.bool (0 ≤ i))) ∧
    (∀ s sep, v = .str s → w = .str sep →
      eval vars (method (method e "split" [a]) "join" [a]) = .ok (.str s)) := by
  constructor
  · intro hv
    obtain ⟨i, hposition, hfirst, hholds⟩ := Builtin.firstPlace_ofPosition w hv
    have hcontains : Except.ok (Value.bool (Builtin.holds v w)) =
        (.ok (.bool (0 ≤ i)) : Except EvalFault Value) := by
      rw [hholds]
    refine ⟨i, ?_, hfirst, ?_, ?_, ?_⟩
    · rw [eval_method he ha, ← hposition]
      rfl
    · rw [eval_method he ha, ← hcontains]
      rfl
    · rw [eval_method he ha, ← hcontains]
      rfl
    · rw [eval_function he ha, ← hcontains]
      rfl
  · rintro s sep rfl rfl
    have hsplit : eval vars (method e "split" [a]) = .ok (Builtin.splitText (.str s) (.str sep)) :=
      eval_method he ha "split"
    rw [eval_method hsplit ha]
    exact Builtin.joinValues_splitText s sep

/-- A text with accents and a part of it. -/
def accents (name : String) : Value := if name = "s" then .str "añña" else .str "ña"

/-- A text with accents is searched for a part of it, and split and joined. -/
theorem eval_search_accents :
    read "s.split(sep).join(sep)".toList = .ok
        (method (method (.variable "s") "split" [.variable "sep"]) "join" [.variable "sep"]) ∧
      Builtin.Searchable (accents "s") ∧
      eval accents (method (.variable "s") "indexOf" [.variable "sep"]) = .ok (.int 2) ∧
      Builtin.FirstPlace (.str "ña") (.str "añña") 2 ∧
      eval accents (method (.variable "s") "contains" [.variable "sep"]) = .ok (.bool true) ∧
      eval accents (method (method (.variable "s") "split" [.variable "sep"]) "join" [.variable "sep"]) =
        .ok (.str "añña") := by
  have hs : eval accents (.variable "s") = .ok (.str "añña") := rfl
  have hsep : eval accents (.variable "sep") = .ok (.str "ña") := rfl
  have hsearchable : Builtin.Searchable (.str "añña") := .text (by decide)
  obtain ⟨hsearch, hjoin⟩ := eval_search hs hsep
  obtain ⟨i, hindex, hfirst, hcontains, -⟩ := hsearch hsearchable
  have htwo : eval accents (method (.variable "s") "indexOf" [.variable "sep"]) = .ok (.int 2) := by cbv
  have hi : i = 2 := by
    rw [htwo] at hindex
    cases hindex
    rfl
  subst hi
  exact ⟨by cbv, hsearchable, htwo, hfirst, hcontains, hjoin _ _ rfl rfl⟩

end

end Expr

end Trellis
