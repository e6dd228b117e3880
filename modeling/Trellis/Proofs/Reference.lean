import Trellis.Document.Reference

/-!
# `Trellis.Proofs.Reference`: the names that references resolve to

A reference is resolved by splitting a path at its slashes, going through the segments,
and joining those that are left. `Reference.IsSegment` is what each of them is: a piece
of a path that is not empty, holds no slash, and does not stand for a directory on the
way. `isSegment_of_mem_walk` says that only such segments are left, so the name never
begins with a slash (`head?_resolve_ne_slash`).
-/

set_option autoImplicit false

namespace Trellis

open Text

/-! ### Splitting and joining -/

theorem Text.splitAll_ne_nil (d : Char) (cs : List Char) : splitAll d cs ≠ [] := by
  cases cs with
  | nil => simp [splitAll]
  | cons c cs =>
    rw [splitAll]
    split
    · simp
    · split <;> simp

/-- No part of a text that is split at a character holds that character. -/
theorem Text.notMem_of_mem_splitAll {d : Char} {cs part : List Char}
    (h : part ∈ splitAll d cs) : d ∉ part := by
  induction cs generalizing part with
  | nil =>
    rw [splitAll, List.mem_singleton] at h
    simp [h]
  | cons c cs ih =>
    rw [splitAll] at h
    split at h
    · next hnil => exact absurd hnil (splitAll_ne_nil d cs)
    · next first parts hcons =>
      rw [hcons] at ih
      split at h
      · rcases List.mem_cons.mp h with rfl | h
        · simp
        · exact ih h
      · next hne =>
        rcases List.mem_cons.mp h with rfl | h
        · have := ih List.mem_cons_self
          simp [this, Ne.symm hne]
        · exact ih (List.mem_cons_of_mem _ h)

/-- A text without the character is one part. -/
theorem Text.splitAll_of_notMem {d : Char} {cs : List Char} (h : d ∉ cs) :
    splitAll d cs = [cs] := by
  induction cs with
  | nil => rfl
  | cons c cs ih =>
    rw [List.mem_cons, not_or] at h
    rw [splitAll, ih h.2]
    simp [Ne.symm h.1]

/-- Two texts with the character between them are split there. -/
theorem Text.splitAll_append (d : Char) (cs more : List Char) :
    splitAll d (cs ++ d :: more) = splitAll d cs ++ splitAll d more := by
  induction cs with
  | nil =>
    conv => lhs; rw [List.nil_append, splitAll]
    cases hmore : splitAll d more with
    | nil => exact absurd hmore (splitAll_ne_nil d more)
    | cons part parts => exact if_pos rfl
  | cons c cs ih =>
    rw [List.cons_append, splitAll, splitAll, ih]
    cases hcs : splitAll d cs with
    | nil => exact absurd hcs (splitAll_ne_nil d cs)
    | cons part parts =>
      rw [List.cons_append]
      dsimp only
      split <;> rfl

namespace Reference

/-- A piece of a path that names something. -/
structure IsSegment (part : List Char) : Prop where
  ne_nil : part ≠ []
  ne_dot : part ≠ ['.']
  ne_dots : part ≠ ['.', '.']
  slash_notMem : '/' ∉ part

/-- Going through slash-free pieces from segments leaves segments. -/
theorem isSegment_of_mem_walk {up parts : List (List Char)} (hup : ∀ p ∈ up, IsSegment p)
    (hparts : ∀ p ∈ parts, '/' ∉ p) : ∀ p ∈ walk up parts, IsSegment p := by
  induction parts generalizing up with
  | nil =>
    intro p hp
    rw [walk, List.mem_reverse] at hp
    exact hup p hp
  | cons part parts ih =>
    have hrest : ∀ p ∈ parts, '/' ∉ p := fun p hp => hparts p (List.mem_cons_of_mem _ hp)
    rw [walk]
    split
    · exact ih hup hrest
    · next hne =>
      split
      · exact ih (fun p hp => hup p (List.mem_of_mem_drop hp)) hrest
      · next hdots =>
        refine ih ?_ hrest
        intro p hp
        rcases List.mem_cons.mp hp with rfl | hp
        · exact ⟨fun h => hne (Or.inl h), fun h => hne (Or.inr h), hdots,
            hparts p List.mem_cons_self⟩
        · exact hup p hp

/-- A path of segments does not begin with a slash. -/
theorem head?_joinWith_ne_slash {parts : List (List Char)} (h : ∀ p ∈ parts, IsSegment p) :
    (joinWith ['/'] parts).head? ≠ some '/' := by
  -- Whatever follows the first segment, it begins the path and is not empty.
  have hfirst : ∀ (part rest : List Char), IsSegment part →
      (part ++ rest).head? ≠ some '/' := by
    intro part rest hp
    cases part with
    | nil => exact absurd rfl hp.ne_nil
    | cons c cs =>
      intro heq
      have hc : c = '/' := by simpa using heq
      exact hp.slash_notMem (hc ▸ List.mem_cons_self)
  match parts with
  | [] => simp [joinWith]
  | [part] => simpa [joinWith] using hfirst part [] (h part List.mem_cons_self)
  | part :: other :: rest =>
    rw [joinWith, List.append_assoc]
    · exact hfirst part _ (h part List.mem_cons_self)
    · simp

/-- Going through the pieces of two paths one after the other. -/
theorem walk_append (up parts more : List (List Char)) :
    walk up (parts ++ more) = walk (walk up parts).reverse more := by
  induction parts generalizing up with
  | nil =>
    rw [List.nil_append]
    simp [walk]
  | cons part parts ih =>
    rw [List.cons_append, walk, walk, ih, ih, ih]
    split
    · rfl
    · split <;> rfl

/-- The directories that a template stands in, the outermost first. -/
def folders (name : String) : List (List Char) :=
  walk [] (splitAll '/' ((directory? name.toList).getD []))

/-- A target that begins with a slash is a path from the root. -/
theorem resolve_of_root {target : String} {absolute : List Char}
    (h : bareTarget target.toList = '/' :: absolute) (name : String) :
    resolve name target = String.ofList (normalize absolute) := by
  simp only [resolve, h]

/-- Any other target is a path from the directory of the template. -/
theorem resolve_of_relative {target : String} (h : ∀ absolute, bareTarget target.toList ≠ '/' :: absolute)
    (name : String) :
    resolve name target = String.ofList
      (joinWith ['/'] (walk (folders name).reverse (splitAll '/' (bareTarget target.toList)))) := by
  unfold resolve normalize folders
  generalize bareTarget target.toList = path at h ⊢
  dsimp only
  split
  · exact (h _ rfl).elim
  · cases directory? name.toList with
    | none => rfl
    | some directory =>
      dsimp only [Option.getD_some]
      rw [splitAll_append, walk_append]

/-- Templates in the same directory name the same templates in the same way. -/
theorem resolve_congr {name name' : String} (h : folders name' = folders name) (target : String) :
    resolve name' target = resolve name target := by
  by_cases hroot : ∃ absolute, bareTarget target.toList = '/' :: absolute
  · obtain ⟨absolute, habsolute⟩ := hroot
    rw [resolve_of_root habsolute, resolve_of_root habsolute]
  · have hrelative : ∀ absolute, bareTarget target.toList ≠ '/' :: absolute := not_exists.mp hroot
    rw [resolve_of_relative hrelative, resolve_of_relative hrelative, h]

/-- The name that a reference resolves to does not begin with a slash. -/
theorem head?_resolve_ne_slash (current target : String) :
    (resolve current target).toList.head? ≠ some '/' := by
  rw [resolve, String.toList_ofList, normalize]
  refine head?_joinWith_ne_slash (isSegment_of_mem_walk ?_ ?_)
  · simp
  · exact fun p hp => notMem_of_mem_splitAll hp

end Reference

end Trellis
