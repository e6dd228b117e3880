import Trellis.Proofs.Pairing
import Trellis.Proofs.Searching

/-!
# `Trellis.Proofs.Joining`: lists put together and taken apart

The arguments of a call and the parameters of a mixin are one text with commas between them.
`splitTopLevel` takes it apart again. It counts brackets of all kinds alike and passes over quoted
texts. What a part may be is said here without counting: `Undivided` texts are made of plain
characters, of quoted texts, and of brackets around a nested text. A part may stand between blanks
(`Padded`).

A reader goes along a part as long as no comma divides it (`Nesting.through?`). Parts are `Separate`
if it gets to the end of each of them and stands outside all quotes and brackets between them.

* `splitTopLevelFrom_join`: separate parts are those that their text is taken apart into.
* `through?_of_undivided`: undivided texts are separate parts.
* `separate_splitTopLevelFrom`, `Separate.map_trim`: whatever a text is, the parts that come of it are
  separate, and they still are when they are trimmed.

`splitTopLevel_join` puts this together.
-/

set_option autoImplicit false

namespace Trellis.Source

open Text

/-! ### What a part is -/

/-- A nested text whose commas all stand in quotes or in brackets. -/
inductive Undivided : List Char → Prop
  | nil : Undivided []
  | plain {c : Char} {cs : List Char} (hc : isPlain c = true) (later : Undivided cs) :
    Undivided (c :: cs)
  | quoted {q : Char} {text cs : List Char} (hq : isQuote q = true) (inside : Quoted q text)
    (later : Undivided cs) : Undivided (q :: (text ++ q :: cs))
  | brackets {o d : Char} {inner cs : List Char} (pair : AnyKind o d)
    (inside : Nested AnyKind inner) (later : Undivided cs) : Undivided (o :: (inner ++ d :: cs))

/-- One part of a list. Which kind of bracket closes which does not matter to it. -/
structure IsPart (part : List Char) : Prop where
  trimmed : trim part = part
  ne_nil : part ≠ []
  undivided : Undivided part

/-- A part with any blanks around it. -/
inductive Padded (part : List Char) : List Char → Prop
  | mk {front behind : List Char} (hfront : isBlankText front = true)
    (hbehind : isBlankText behind = true) : Padded part (front ++ part ++ behind)

theorem padded_trim (cs : List Char) : Padded (trim cs) cs := by
  obtain ⟨front, behind, hfront, hbehind, hcs⟩ := exists_trim cs
  have hpadded : Padded (trim cs) (front ++ trim cs ++ behind) := .mk hfront hbehind
  rwa [← hcs] at hpadded

theorem Padded.trim_eq {part raw : List Char} (h : Padded part raw) : trim raw = trim part := by
  obtain ⟨hfront, hbehind⟩ := h
  rw [trim_append_blank hbehind, trim_blank_append hfront]

theorem trim_trim (cs : List Char) : trim (trim cs) = trim cs := (padded_trim cs).trim_eq.symm

/-! ### A reader along a part -/

namespace Nesting

/-- Where a reader stands behind some characters; none if a comma divides them. A bracket that
closes nothing does not stop it. -/
def through? (n : Nesting) : List Char → Option Nesting
  | [] => some n
  | c :: cs => if n.isOutside && c == ',' then none else (n.next c).through? cs

section
variable {n n' : Nesting} {c : Char} {cs : List Char}

theorem through?_cons (h : ¬(n.isOutside = true ∧ c = ',')) (cs : List Char) :
    n.through? (c :: cs) = (n.next c).through? cs := by
  rw [through?, if_neg (by simpa using h)]

theorem through?_append (n : Nesting) (cs ds : List Char) :
    n.through? (cs ++ ds) = (n.through? cs).bind fun n' => n'.through? ds := by
  induction cs generalizing n with
  | nil => rfl
  | cons c cs ih =>
    rw [List.cons_append, through?, through?]
    split
    · rfl
    · exact ih (n.next c)

/-- Outside quotes no character is hidden, and it is a quote that closes a quoted text. -/
structure Tidy (n : Nesting) : Prop where
  shown : n.quote = none → n.hidden = false
  quotes : ∀ q, n.quote = some q → isQuote q = true

theorem tidy_outside : outside.Tidy := ⟨fun _ => rfl, nofun⟩

theorem Tidy.next (h : n.Tidy) (c : Char) : (n.next c).Tidy := by
  obtain ⟨depth, quote, hidden⟩ := n
  obtain ⟨hshown, hquotes⟩ := h
  constructor <;> grind [Nesting.next, Nesting.insideQuote]

/-- A reader that starts tidily stays tidy. -/
theorem Tidy.through? (h : n.Tidy) (hrun : n.through? cs = some n') : n'.Tidy := by
  induction cs generalizing n with
  | nil =>
    cases hrun
    exact h
  | cons c cs ih =>
    rw [Nesting.through?] at hrun
    split at hrun
    · cases hrun
    · exact ih (h.next c) hrun

theorem Tidy.eq_outside (h : n.Tidy) (hout : n.isOutside = true) : n = outside := by
  obtain ⟨depth, quote, hidden⟩ := n
  simp only [isOutside, Bool.and_eq_true, beq_iff_eq, Option.isNone_iff_eq_none] at hout
  obtain ⟨rfl, rfl⟩ := hout
  have hhidden : hidden = false := h.shown rfl
  rw [hhidden]
  rfl

end

end Nesting

/-! ### Separate parts -/

/-- Parts that a reader gets through one after another. Between two of them it stands outside all
quotes and brackets. -/
inductive Separate : List (List Char) → Prop
  | last {part : List Char} (h : (Nesting.outside.through? part).isSome = true) : Separate [part]
  | next {part : List Char} {parts : List (List Char)}
    (h : Nesting.outside.through? part = some .outside) (later : Separate parts) :
    Separate (part :: parts)

theorem Separate.ne_nil {parts : List (List Char)} (h : Separate parts) : parts ≠ [] := by
  cases h <;> exact List.cons_ne_nil _ _

theorem splitTopLevelFrom_of_through? {n n' : Nesting} {cs : List Char}
    (h : n.through? cs = some n') (part rest : List Char) :
    splitTopLevelFrom n part (cs ++ rest) = splitTopLevelFrom n' (cs.reverse ++ part) rest := by
  induction cs generalizing n part with
  | nil =>
    cases h
    rfl
  | cons c cs ih =>
    rw [Nesting.through?] at h
    split at h
    · cases h
    · next hgo =>
      rw [List.cons_append, splitTopLevelFrom_next (by simpa using hgo), ih h]
      simp

/-- **The commas between separate parts** are those at which their text is taken apart. -/
theorem splitTopLevelFrom_join {parts : List (List Char)} (h : Separate parts) :
    splitTopLevelFrom .outside [] (joinWith [','] parts) = parts := by
  induction h with
  | @last part h =>
    -- It does not matter where the reader stands behind the last part.
    obtain ⟨n, hn⟩ := Option.isSome_iff_exists.mp h
    have hend := splitTopLevelFrom_of_through? hn [] []
    simpa [joinWith, splitTopLevelFrom] using hend
  | @next part parts h later ih =>
    have hcomma (front rest : List Char) : splitTopLevelFrom .outside front (',' :: rest) =
        front.reverse :: splitTopLevelFrom .outside [] rest := rfl
    rw [joinWith_cons_of_ne_nil _ _ later.ne_nil, List.append_assoc, List.singleton_append,
      splitTopLevelFrom_of_through? h, hcomma, ih]
    simp

/-- **What a text is taken apart into is separate**, whether or not its quotes and brackets are
closed. -/
theorem separate_splitTopLevelFrom {part cs : List Char} {n : Nesting}
    (h : Nesting.outside.through? part.reverse = some n) :
    Separate (splitTopLevelFrom n part cs) := by
  induction cs generalizing n part with
  | nil => exact .last (by rw [h]; rfl)
  | cons c cs ih =>
    by_cases hcomma : n.isOutside = true ∧ c = ','
    · -- The reader stands as at the start, so it begins the next part as it began the first one.
      obtain ⟨hout, rfl⟩ := hcomma
      obtain rfl := (Nesting.tidy_outside.through? h).eq_outside hout
      exact .next h (ih rfl)
    · rw [splitTopLevelFrom_next hcomma]
      refine ih ?_
      rw [List.reverse_cons, Nesting.through?_append, h, Option.bind_some,
        Nesting.through?_cons hcomma]
      rfl

/-! ### Blanks around a part -/

namespace Nesting

variable {n n' : Nesting} {bs : List Char}

theorem next_of_isLoose {c : Char} (hquote : n.quote = none) (hc : isLoose c = true) :
    n.next c = n := by
  simp only [isLoose, Bool.and_eq_true, Bool.not_eq_true'] at hc
  obtain ⟨⟨hmark, hopen⟩, hclose⟩ := hc
  simp [Nesting.next, hquote, hmark, hopen, hclose]

theorem through?_cons_of_isPlain {c : Char} (hc : isPlain c = true) (cs : List Char) :
    n.through? (c :: cs) = (n.next c).through? cs := by
  refine through?_cons ?_ cs
  rintro ⟨-, rfl⟩
  cases hc

/-- Outside quotes blanks leave a reader where it is. -/
theorem through?_blank (hquote : n.quote = none) (hbs : isBlankText bs = true) :
    n.through? bs = some n := by
  induction bs with
  | nil => rfl
  | cons b bs ih =>
    rw [isBlankText, List.all_cons, Bool.and_eq_true] at hbs
    rw [through?_cons_of_isPlain (isPlain_of_isBlank hbs.1),
      next_of_isLoose hquote (isLoose_of_isBlank hbs.1), ih hbs.2]

/-- Inside quotes they do not lead out. -/
theorem quote_of_through?_blank {q : Char} (hq : isQuote q = true) (hquote : n.quote = some q)
    (hbs : isBlankText bs = true) (h : n.through? bs = some n') : n'.quote = some q := by
  induction bs generalizing n with
  | nil =>
    cases h
    exact hquote
  | cons b bs ih =>
    rw [isBlankText, List.all_cons, Bool.and_eq_true] at hbs
    have hb := isPlain_of_isBlank hbs.1
    have hother : b ≠ q := by
      rintro rfl
      simp [isPlain, hq] at hb
    rw [through?_cons_of_isPlain hb] at h
    refine ih ?_ hbs.2 h
    grind [Nesting.next, Nesting.insideQuote]

/-- So a reader that is outside behind blanks was there in front of them. -/
theorem Tidy.eq_outside_of_blank (h : n.Tidy) (hbs : isBlankText bs = true)
    (hrun : n.through? bs = some outside) : n = outside := by
  cases hquote : n.quote with
  | none => exact Option.some.inj ((through?_blank hquote hbs).symm.trans hrun)
  | some q => cases quote_of_through?_blank (h.quotes q hquote) hquote hbs hrun

end Nesting

section
variable {part raw : List Char} (h : Padded part raw)
include h

/-- The blanks in front of a part have no effect at all. -/
theorem Padded.exists_behind : ∃ behind, isBlankText behind = true ∧
    Nesting.outside.through? raw =
      (Nesting.outside.through? part).bind fun n => n.through? behind := by
  obtain ⟨hfront, hbehind⟩ := h
  refine ⟨_, hbehind, ?_⟩
  rw [Nesting.through?_append, Nesting.through?_append, Nesting.through?_blank rfl hfront]
  rfl

theorem Padded.isSome_through? (hraw : (Nesting.outside.through? raw).isSome = true) :
    (Nesting.outside.through? part).isSome = true := by
  obtain ⟨behind, -, heq⟩ := h.exists_behind
  cases hpart : Nesting.outside.through? part with
  | none => simp [heq, hpart] at hraw
  | some n => rfl

theorem Padded.through?_eq_outside_iff : Nesting.outside.through? raw = some .outside ↔
    Nesting.outside.through? part = some .outside := by
  obtain ⟨behind, hbehind, heq⟩ := h.exists_behind
  rw [heq]
  constructor
  · intro hraw
    obtain ⟨n, hpart, hrun⟩ := Option.bind_eq_some_iff.mp hraw
    rw [hpart, (Nesting.tidy_outside.through? hpart).eq_outside_of_blank hbehind hrun]
  · intro hpart
    rw [hpart]
    exact Nesting.through?_blank rfl hbehind

end

theorem Separate.map_trim {raws : List (List Char)} (h : Separate raws) :
    Separate (raws.map trim) := by
  induction h with
  | last h => exact .last ((padded_trim _).isSome_through? h)
  | next h _ ih => exact .next ((padded_trim _).through?_eq_outside_iff.mp h) ih

/-! ### Undivided texts -/

theorem through?_of_quoted {q : Char} {text : List Char} (h : Quoted q text) (k : Nat) :
    Nesting.through? ⟨k, some q, false⟩ text = some ⟨k, some q, false⟩ := by
  have hinside (c : Char) (hidden : Bool) (cs : List Char) :
      Nesting.through? ⟨k, some q, hidden⟩ (c :: cs) =
        (Nesting.insideQuote ⟨k, some q, hidden⟩ q c).through? cs :=
    Nesting.through?_cons (fun hdivides => by simp [Nesting.isOutside] at hdivides) cs
  induction h with
  | nil => rfl
  | plain hquote hback _ ih =>
    rw [hinside, ← ih]
    simp [Nesting.insideQuote, hquote, hback]
  | hidden _ ih =>
    -- A backslash and the character that it hides.
    rw [hinside, ← ih]
    exact hinside _ true _

section
variable (k : Nat) (cs : List Char)

/-- A quoted text leaves a reader where it is. -/
theorem through?_quotation {q : Char} {text : List Char} (hq : isQuote q = true)
    (inside : Quoted q text) :
    Nesting.through? ⟨k, none, false⟩ (q :: (text ++ q :: cs)) =
      Nesting.through? ⟨k, none, false⟩ cs := by
  have hmark : q ≠ ',' ∧ q ≠ '\\' := by
    constructor <;> rintro rfl <;> cases hq
  have hopens : Nesting.next ⟨k, none, false⟩ q = ⟨k, some q, false⟩ := by
    simp [Nesting.next, hq]
  have hcloses : Nesting.next ⟨k, some q, false⟩ q = ⟨k, none, false⟩ := by
    simp [Nesting.next, Nesting.insideQuote, hmark.2]
  rw [Nesting.through?_cons (fun h => hmark.1 h.2), hopens, Nesting.through?_append,
    through?_of_quoted inside, Option.bind_some, Nesting.through?_cons (fun h => hmark.1 h.2),
    hcloses]

/-- So do brackets around a text that does. -/
theorem through?_brackets {o d : Char} {inner : List Char} (pair : AnyKind o d)
    (hinside : Nesting.through? ⟨k + 1, none, false⟩ inner = some ⟨k + 1, none, false⟩) :
    Nesting.through? ⟨k, none, false⟩ (o :: (inner ++ d :: cs)) =
      Nesting.through? ⟨k, none, false⟩ cs := by
  obtain ⟨hopen, hclose⟩ := pair
  have hmark : isQuote o = false ∧ o ≠ ',' := by
    simp only [opensBracket, Bool.or_eq_true, beq_iff_eq] at hopen
    rcases hopen with (rfl | rfl) | rfl <;> decide
  obtain ⟨hquote, hopens, hcomma⟩ := of_closesBracket hclose
  have hdown : Nesting.next ⟨k, none, false⟩ o = ⟨k + 1, none, false⟩ := by
    simp [Nesting.next, hmark.1, hopen]
  have hup : Nesting.next ⟨k + 1, none, false⟩ d = ⟨k, none, false⟩ := by
    simp [Nesting.next, hquote, hopens, hclose]
  rw [Nesting.through?_cons (fun h => hmark.2 h.2), hdown, Nesting.through?_append, hinside,
    Option.bind_some, Nesting.through?_cons (fun h => hcomma h.2), hup]

end

/-- Inside brackets a nested text may have commas anywhere. -/
theorem through?_of_nested {cs : List Char} (h : Nested AnyKind cs) (k : Nat) :
    Nesting.through? ⟨k + 1, none, false⟩ cs = some ⟨k + 1, none, false⟩ := by
  induction h generalizing k with
  | nil => rfl
  | loose hc _ ih =>
    have hdeep : ¬Nesting.isOutside ⟨k + 1, none, false⟩ = true := by simp [Nesting.isOutside]
    rw [Nesting.through?_cons (fun h => hdeep h.1), Nesting.next_of_isLoose rfl hc, ih]
  | quoted hq inside _ ih => rw [through?_quotation _ _ hq inside, ih]
  | brackets pair _ _ ihinside ih => rw [through?_brackets _ _ pair (ihinside (k + 1)), ih]

/-- **An undivided text** is one part, and leaves a reader outside all quotes and brackets. -/
theorem through?_of_undivided {cs : List Char} (h : Undivided cs) :
    Nesting.outside.through? cs = some .outside := by
  induction h with
  | nil => rfl
  | plain hc _ ih =>
    rw [Nesting.through?_cons_of_isPlain hc, Nesting.next_of_isLoose rfl (isLoose_of_isPlain hc), ih]
  | quoted hq inside _ ih => exact (through?_quotation 0 _ hq inside).trans ih
  | brackets pair inside _ ih =>
    exact (through?_brackets 0 _ pair (through?_of_nested inside 0)).trans ih

/-! ### Lists -/

section
variable {parts raws : List (List Char)} (hpadded : List.Forall₂ Padded parts raws)
  (hparts : ∀ part ∈ parts, IsPart part)
include hpadded hparts

theorem separate_of_isPart (hne : parts ≠ []) : Separate raws := by
  induction hpadded with
  | nil => exact absurd rfl hne
  | @cons part raw parts raws first later ih =>
    have hpart := through?_of_undivided (hparts part List.mem_cons_self).undivided
    have hraw := first.through?_eq_outside_iff.mpr hpart
    cases later with
    | nil => exact .last (by rw [hraw]; rfl)
    | cons second later =>
      exact .next hraw (ih (fun p hp => hparts p (List.mem_cons_of_mem _ hp)) (List.cons_ne_nil _ _))

/-- What was put around the parts is trimmed. -/
theorem map_trim_of_isPart : raws.map trim = parts := by
  induction hpadded with
  | nil => rfl
  | cons first _ ih =>
    rw [List.map_cons, first.trim_eq, (hparts _ List.mem_cons_self).trimmed,
      ih fun p hp => hparts p (List.mem_cons_of_mem _ hp)]

end

/-- A list that is one empty part is none. -/
theorem splitTopLevel_of_separate {raws : List (List Char)} (h : Separate raws)
    (hsome : raws.map trim ≠ [[]]) : splitTopLevel (joinWith [','] raws) = raws.map trim := by
  rw [splitTopLevel_eq, splitTopLevelFrom_join h, if_neg hsome]

/-- **Taking a list apart undoes putting it together.** Trimmed parts, of which none is empty and all
are undivided, come out of their text again, whatever blanks stand around the commas.

If any text is taken apart and its parts are put together again with commas, then this text is taken
apart into the same parts. Nothing needs to be closed for that. -/
theorem splitTopLevel_join :
    (∀ parts raws : List (List Char), parts ≠ [] → (∀ part ∈ parts, IsPart part) →
      List.Forall₂ Padded parts raws → splitTopLevel (joinWith [','] raws) = parts) ∧
    ∀ cs : List Char, splitTopLevel (joinWith [','] (splitTopLevel cs)) = splitTopLevel cs := by
  constructor
  · intro parts raws hne hparts hpadded
    have htrim : raws.map trim = parts := map_trim_of_isPart hpadded hparts
    have hsome : raws.map trim ≠ [[]] := by
      intro hempty
      rw [htrim] at hempty
      exact (hparts [] (by simp [hempty])).ne_nil rfl
    exact (splitTopLevel_of_separate (separate_of_isPart hpadded hparts hne) hsome).trans htrim
  · intro cs
    have hseparate : Separate (splitTopLevelFrom .outside [] cs) := separate_splitTopLevelFrom rfl
    rw [splitTopLevel_eq cs]
    split
    · rfl
    · next hsome =>
      have htrim : ((splitTopLevelFrom .outside [] cs).map trim).map trim =
          (splitTopLevelFrom .outside [] cs).map trim := by
        simp [trim_trim]
      rw [splitTopLevel_of_separate hseparate.map_trim (by rwa [htrim]), htrim]

/-- A call with a list among its arguments, and a text with a comma and a quote in it. -/
def twoArguments : List (List Char) := ["fn(b, [')', c])".toList, "'x\\', y'".toList]

/-- The same with blanks around them. -/
def twoPadded : List (List Char) := ["fn(b, [')', c]) ".toList, "\t 'x\\', y'".toList]

theorem splitTopLevel_join_twoArguments :
    (∀ part ∈ twoArguments, IsPart part) ∧ List.Forall₂ Padded twoArguments twoPadded ∧
      splitTopLevel "fn(b, [')', c]) ,\t 'x\\', y'".toList = twoArguments := by
  have hbracket : Quoted '\'' [')'] := .plain (by decide) (by decide) .nil
  have hlist : Nested AnyKind ('[' :: ('\'' :: ([')'] ++ '\'' :: ", c".toList) ++ [']'])) :=
    .brackets ⟨rfl, rfl⟩ (.quoted rfl hbracket (.of_loose (List.all_eq_true.mp rfl))) .nil
  have hcall : Undivided ('f' :: 'n' :: '(' :: ("b, [')', c]".toList ++ [')'])) :=
    .plain rfl (.plain rfl (.brackets ⟨rfl, rfl⟩
      (.loose rfl (.loose rfl (.loose rfl hlist))) .nil))
  have hinside : Quoted '\'' "x\\', y".toList :=
    .plain (by decide) (by decide) (.hidden (.plain (by decide) (by decide)
      (.plain (by decide) (by decide) (.plain (by decide) (by decide) .nil))))
  have htext : Undivided ('\'' :: ("x\\', y".toList ++ ['\''])) := .quoted rfl hinside .nil
  have hparts : ∀ part ∈ twoArguments, IsPart part := by
    intro part hpart
    rcases List.mem_pair.mp hpart with rfl | rfl
    · exact ⟨by decide, by decide, hcall⟩
    · exact ⟨by decide, by decide, htext⟩
  have hpadded : List.Forall₂ Padded twoArguments twoPadded := by
    have hfirst : Padded "fn(b, [')', c])".toList ([] ++ "fn(b, [')', c])".toList ++ [' ']) :=
      .mk rfl rfl
    have hsecond : Padded "'x\\', y'".toList (['\t', ' '] ++ "'x\\', y'".toList ++ []) := .mk rfl rfl
    exact .cons hfirst (.cons hsecond .nil)
  exact ⟨hparts, hpadded, splitTopLevel_join.1 _ _ (List.cons_ne_nil _ _) hparts hpadded⟩

end Trellis.Source
