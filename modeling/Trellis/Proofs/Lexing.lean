import Trellis.Proofs.Derivation
import Trellis.Proofs.Placement

/-!
# `Trellis.Proofs.Lexing`: texts and their tokens

`Lexes` says by rules what the tokens of a text are, without the offsets and without the count of
characters to pass over that `Lexeme.scan` goes by. With `Derives` it gives `read_eq_ok_iff_lexes`,
what a text is read as.

A token ends before a blank, whatever comes behind: `readToken_append`. The other way round, blanks
behind a text have no part in its tokens (`readToken_of_append`). So an expression is still read
when the blanks around it are taken away, which is `read_trim`.
-/

set_option autoImplicit false

namespace Trellis.Expr

open Text Source

/-! ### Characters -/

/-- A text that is empty or begins with a blank. -/
def HeadBlank (bs : List Char) : Prop := ∀ b ∈ bs.head?, isBlank b = true

theorem headBlank_nil : HeadBlank [] := nofun

theorem headBlank_space (cs : List Char) : HeadBlank (' ' :: cs) := by
  intro b hb
  cases hb
  rfl

/-- The characters of words are no blanks, and neither are those that begin other tokens. -/
theorem isBlank_of_isWordPart {c : Char} (h : isWordPart c = true) : isBlank c = false := by
  simp only [isWordPart, Bool.or_eq_true, beq_iff_eq] at h
  rcases h with (h | rfl) | rfl
  · have hrange : 65 ≤ c.toNat ∧ c.toNat ≤ 90 ∨ 97 ≤ c.toNat ∧ c.toNat ≤ 122 ∨
        48 ≤ c.toNat ∧ c.toNat ≤ 57 := by
      delta isAlphanumeric Char.isAlphanum Char.isAlpha Char.isUpper Char.isLower Char.isDigit at h
      simpa [UInt32.le_iff_toNat_le, or_assoc] using h
    simp [isBlank]
    omega
  · rfl
  · rfl

theorem isWordPart_of_isDigit {c : Char} (h : c.isDigit = true) : isWordPart c = true := by
  simp [isWordPart, isAlphanumeric, Char.isAlphanum, h]

theorem isWordPart_of_isWordStart {c : Char} (h : isWordStart c = true) : isWordPart c = true := by
  grind [isWordStart, isLetter, isWordPart, isAlphanumeric, Char.isAlphanum]

theorem isBlank_of_isSpace {c : Char} (h : isSpace c = true) : isBlank c = true := by
  simp only [isSpace, Bool.or_eq_true, beq_iff_eq] at h
  rcases h with (((rfl | rfl) | rfl) | rfl) | rfl <;> rfl

theorem isSpace_eq_false {c : Char} (h : isBlank c = false) : isSpace c = false := by
  refine eq_false_of_ne_true fun hspace => ?_
  rw [isBlank_of_isSpace hspace] at h
  cases h

theorem isBlank_of_isDigit {c : Char} (h : c.isDigit = true) : isBlank c = false :=
  isBlank_of_isWordPart (isWordPart_of_isDigit h)

/-- No mark has a blank in it. -/
theorem Mark.isBlank_of_mem (m : Mark) : ∀ c ∈ m.text.toList, isBlank c = false := by
  have hall : m.text.toList.all (fun c => !isBlank c) = true := by cases m <;> rfl
  simpa using hall

section
variable {p : Char → Bool} {bs : List Char}

/-- A run of characters ends before a blank, if blanks are not of its kind. -/
theorem takeWhile_append_blank (hp : ∀ c, p c = true → isBlank c = false) (hbs : HeadBlank bs)
    (cs : List Char) : (cs ++ bs).takeWhile p = cs.takeWhile p := by
  induction cs with
  | nil =>
    cases bs with
    | nil => rfl
    | cons b bs =>
      refine List.takeWhile_cons_of_neg fun hb => ?_
      exact absurd (hbs b rfl) (by simp [hp b hb])
  | cons c cs ih =>
    rw [List.cons_append, List.takeWhile_cons, List.takeWhile_cons, ih]

theorem dropWhile_append_blank (hp : ∀ c, p c = true → isBlank c = false) (hbs : HeadBlank bs)
    (cs : List Char) : (cs ++ bs).dropWhile p = cs.dropWhile p ++ bs := by
  suffices h : (cs ++ bs).takeWhile p ++ (cs ++ bs).dropWhile p =
      (cs ++ bs).takeWhile p ++ (cs.dropWhile p ++ bs) from List.append_cancel_left h
  rw [List.takeWhile_append_dropWhile, takeWhile_append_blank hp hbs, ← List.append_assoc,
    List.takeWhile_append_dropWhile]

/-- What a text begins with, without blanks, does not change with a blank behind the text. -/
theorem startsWith_append_blank {start : List Char} (hstart : ∀ c ∈ start, isBlank c = false)
    (hbs : HeadBlank bs) (cs : List Char) : startsWith start (cs ++ bs) = startsWith start cs := by
  induction start generalizing cs with
  | nil => rfl
  | cons a start ih =>
    obtain ⟨ha, hrest⟩ := List.forall_mem_cons.1 hstart
    unfold startsWith at ih ⊢
    cases cs with
    | cons c cs =>
      rw [List.cons_append, after?, after?]
      split
      · exact ih hrest cs
      · rfl
    | nil =>
      cases bs with
      | nil => rfl
      | cons b bs =>
        have hb : a ≠ b := by
          rintro rfl
          exact absurd (hbs a rfl) (by simp [ha])
        simp [after?, hb]

end

/-! ### One token -/

/-- The token at the front of a text does not depend on where the text stands. -/
theorem readToken_offset {offset : Nat} {c : Char} {cs : List Char} {r : Option Token × Nat}
    (h : readToken offset c cs = .ok r) (offset' : Nat) : readToken offset' c cs = .ok r := by
  grind [readToken]

section
variable {bs : List Char}

theorem readNumber_append_blank (hbs : HeadBlank bs) (cs : List Char) :
    readNumber (cs ++ bs) = readNumber cs := by
  have hdigit := fun c => isBlank_of_isDigit (c := c)
  unfold readNumber
  simp only [takeWhile_append_blank hdigit hbs, drop_takeWhile]
  have hdrop : (cs ++ bs).drop (cs.takeWhile Char.isDigit).length =
      cs.dropWhile Char.isDigit ++ bs := by
    rw [← takeWhile_append_blank hdigit hbs, drop_takeWhile, dropWhile_append_blank hdigit hbs]
  rw [hdrop]
  cases cs.dropWhile Char.isDigit with
  | cons d rest =>
    rw [List.cons_append]
    by_cases hd : d = '.'
    · subst hd
      simp only [takeWhile_append_blank hdigit hbs]
    · simp [hd]
  | nil =>
    -- A point is no blank.
    cases bs with
    | nil => rfl
    | cons b bs =>
      have hb : b ≠ '.' := by
        rintro rfl
        exact absurd (hbs _ rfl) (by decide)
      simp [hb]

theorem start?_append_blank (hbs : HeadBlank bs) (cs : List Char) :
    Mark.start? (cs ++ bs) = Mark.start? cs := by
  unfold Mark.start?
  congr 1
  funext m
  exact startsWith_append_blank m.isBlank_of_mem hbs cs

/-- A text is gone through by single characters, and by pairs of a backslash and the character
that it hides. -/
@[elab_as_elim]
theorem readStringInduction {motive : List Char → Prop} (nil : motive [])
    (pair : ∀ c cs, motive cs → motive ('\\' :: c :: cs)) (backslash : motive ['\\'])
    (plain : ∀ c cs, c ≠ '\\' → motive cs → motive (c :: cs)) : ∀ cs, motive cs
  | [] => nil
  | [c] => by
    by_cases hc : c = '\\'
    · exact hc ▸ backslash
    · exact plain c [] hc nil
  | c :: d :: cs => by
    by_cases hc : c = '\\'
    · exact hc ▸ pair d cs (readStringInduction nil pair backslash plain cs)
    · exact plain c (d :: cs) hc (readStringInduction nil pair backslash plain (d :: cs))

/-- A character that is no backslash closes a quoted text, or belongs to it. -/
theorem readString?_cons {q c : Char} (hc : c ≠ '\\') (cs : List Char) :
    readString? q (c :: cs) =
      if c = q then some ([], 1) else (readString? q cs).map fun (s, n) => (c :: s, n + 1) := by
  rw [readString?]
  · exact fun _ _ h => absurd h hc
  · exact fun h => absurd h hc

/-- A quoted text ends with its closing quote, whatever comes behind. -/
theorem readString?_append {q : Char} {cs : List Char} {r : List Char × Nat}
    (h : readString? q cs = some r) (bs : List Char) : readString? q (cs ++ bs) = some r := by
  induction cs using readStringInduction generalizing r with
  | nil => cases h
  | pair c cs ih =>
    obtain ⟨inner, hinner, rfl⟩ := Option.map_eq_some_iff.1 h
    simp only [List.cons_append, readString?, ih hinner, Option.map_some]
  | backslash => cases h
  | plain c cs hc ih =>
    rw [List.cons_append, readString?_cons hc]
    rw [readString?_cons hc] at h
    split at h
    · next hq => rwa [if_pos hq]
    · next hq =>
      obtain ⟨inner, hinner, rfl⟩ := Option.map_eq_some_iff.1 h
      rw [if_neg hq, ih hinner, Option.map_some]

/-- Without a quote there is no end. -/
theorem readString?_eq_none {q : Char} {cs : List Char} (h : q ∉ cs) : readString? q cs = none := by
  induction cs using readStringInduction with
  | nil => rfl
  | pair c cs ih =>
    have hcs : q ∉ cs := fun hmem => h (.tail _ (.tail _ hmem))
    rw [readString?, ih hcs, Option.map_none]
  | backslash => rfl
  | plain c cs hc ih =>
    have hq : c ≠ q := Ne.symm (List.ne_of_not_mem_cons h)
    rw [readString?_cons hc, if_neg hq, ih (List.not_mem_of_not_mem_cons h), Option.map_none]

/-- The closing quote is found in front of characters that are no quotes. -/
theorem readString?_of_append {q : Char} (hbs : q ∉ bs) {cs : List Char} {r : List Char × Nat}
    (h : readString? q (cs ++ bs) = some r) : readString? q cs = some r := by
  induction cs using readStringInduction generalizing r with
  | nil =>
    rw [List.nil_append, readString?_eq_none hbs] at h
    cases h
  | pair c cs ih =>
    rw [List.cons_append, List.cons_append, readString?] at h
    obtain ⟨inner, hinner, rfl⟩ := Option.map_eq_some_iff.1 h
    rw [readString?, ih hinner, Option.map_some]
  | backslash =>
    cases bs with
    | nil => exact h
    | cons b bs =>
      rw [List.singleton_append, readString?,
        readString?_eq_none (List.not_mem_of_not_mem_cons hbs)] at h
      cases h
  | plain c cs hc ih =>
    rw [List.cons_append, readString?_cons hc] at h
    rw [readString?_cons hc]
    split at h
    · next hq => rwa [if_pos hq]
    · next hq =>
      obtain ⟨inner, hinner, rfl⟩ := Option.map_eq_some_iff.1 h
      rw [if_neg hq, ih hinner, Option.map_some]

/-- What a quoted text takes is there. -/
theorem length_of_readString? {q : Char} {cs text : List Char} {n : Nat}
    (h : readString? q cs = some (text, n)) : n ≤ cs.length := by
  induction cs using readStringInduction generalizing text n with
  | nil => cases h
  | pair c cs ih =>
    obtain ⟨⟨s, m⟩, hinner, heq⟩ := Option.map_eq_some_iff.1 h
    cases heq
    exact Nat.add_le_add_right (ih hinner) 2
  | backslash => cases h
  | plain c cs hc ih =>
    rw [readString?_cons hc] at h
    split at h
    · cases h
      exact Nat.succ_le_succ (Nat.zero_le _)
    · obtain ⟨⟨s, m⟩, hinner, heq⟩ := Option.map_eq_some_iff.1 h
      cases heq
      exact Nat.succ_le_succ (ih hinner)

theorem isBlank_of_quote {c : Char} (h : (c == '"' || c == '\'') = true) : isBlank c = false := by
  rw [Bool.or_eq_true, beq_iff_eq, beq_iff_eq] at h
  rcases h with rfl | rfl <;> rfl

/-- A quote begins a quoted text. -/
theorem readToken_quote {c : Char} (h : (c == '"' || c == '\'') = true) (offset : Nat)
    (cs : List Char) :
    readToken offset c cs =
      match readString? c cs with
      | some (s, n) => .ok (some (.str (String.ofList s)), n + 1)
      | none => .error (.unterminatedString offset) := by
  rw [Bool.or_eq_true, beq_iff_eq, beq_iff_eq] at h
  rcases h with rfl | rfl <;> rfl

/-- A token that is no quoted text is the same when a blank comes behind. -/
theorem readToken_append_blank {c : Char} (hquote : (c == '"' || c == '\'') = false)
    (hbs : HeadBlank bs) (offset : Nat) (cs : List Char) :
    readToken offset c (cs ++ bs) = readToken offset c cs := by
  have hword : (c :: cs ++ bs).takeWhile isWordPart = (c :: cs).takeWhile isWordPart :=
    takeWhile_append_blank (fun c => isBlank_of_isWordPart) hbs (c :: cs)
  unfold readToken
  simp only [hquote, Bool.false_eq_true, if_false, ← List.cons_append, readNumber_append_blank hbs,
    start?_append_blank hbs, hword]

/-- A token is the same when a blank comes behind. -/
theorem readToken_append {offset : Nat} {c : Char} {cs : List Char} {r : Option Token × Nat}
    (h : readToken offset c cs = .ok r) (hbs : HeadBlank bs) :
    readToken offset c (cs ++ bs) = .ok r := by
  by_cases hquote : (c == '"' || c == '\'') = true
  · rw [readToken_quote hquote] at h ⊢
    split at h
    · next hstring => rw [readString?_append hstring]; exact h
    · cases h
  · rw [readToken_append_blank (eq_false_of_ne_true hquote) hbs, h]

/-- Blanks behind a text have no part in its first token. -/
theorem readToken_of_append {offset : Nat} {c : Char} {cs : List Char} {r : Option Token × Nat}
    (hbs : isBlankText bs = true) (h : readToken offset c (cs ++ bs) = .ok r) :
    readToken offset c cs = .ok r := by
  have hblank : ∀ b ∈ bs, isBlank b = true := List.all_eq_true.1 hbs
  by_cases hquote : (c == '"' || c == '\'') = true
  · have hnone : c ∉ bs := fun hmem =>
      absurd (hblank c hmem) (by simp [isBlank_of_quote hquote])
    rw [readToken_quote hquote] at h ⊢
    split at h
    · next hstring => rw [readString?_of_append hnone hstring]; exact h
    · cases h
  · rwa [readToken_append_blank (eq_false_of_ne_true hquote)] at h
    exact fun b hb => hblank b (List.mem_of_mem_head? hb)

end

/-- The text begins with the mark that it was found to begin with. -/
theorem append_of_start? {cs : List Char} {m : Mark} (h : Mark.start? cs = some m) :
    cs = m.text.toList ++ cs.drop m.text.length := by
  have hstart : startsWith m.text.toList cs = true := by simpa using List.find?_some h
  obtain ⟨rest, hrest⟩ := Option.isSome_iff_exists.mp hstart
  have hsplit := append_of_after? hrest
  have hdrop := congrArg (List.drop m.text.length) hsplit
  rw [← String.length_toList, List.drop_left, String.length_toList] at hdrop
  rw [hdrop]
  exact hsplit

/-- What a token takes is there. -/
theorem length_of_readToken {offset : Nat} {c : Char} {cs : List Char} {token? : Option Token}
    {n : Nat} (h : readToken offset c cs = .ok (token?, n)) : n - 1 ≤ cs.length := by
  have htake (p : Char → Bool) (ds : List Char) : (ds.takeWhile p).length ≤ ds.length :=
    (List.takeWhile_prefix p).length_le
  unfold readToken at h
  split at h
  · cases h
    exact Nat.zero_le _
  · split at h
    · cases h
      have hwhole := htake Char.isDigit (c :: cs)
      dsimp only
      split
      · next rest hrest =>
        have hlength := congrArg List.length hrest
        have hfraction := htake Char.isDigit rest
        rw [List.length_drop] at hlength
        simp only [List.length_cons] at hlength hwhole
        split <;> dsimp only <;> omega
      · simp only [List.length_cons] at hwhole
        omega
    · split at h
      · split at h
        · next hstring =>
          cases h
          exact length_of_readString? hstring
        · cases h
      · split at h
        · cases h
          have hword := htake isWordPart (c :: cs)
          simp only [List.length_cons] at hword
          omega
        · split at h
          · next m hm =>
            cases h
            have hlength := congrArg List.length (append_of_start? hm)
            simp only [List.length_append, String.length_toList, List.length_cons] at hlength
            omega
          · cases h

/-- A token does not begin with a blank. -/
theorem isBlank_of_readToken {offset : Nat} {c : Char} {cs : List Char} {t : Token} {n : Nat}
    (h : readToken offset c cs = .ok (some t, n)) : isBlank c = false := by
  unfold readToken at h
  split at h
  · cases h
  · split at h
    · next hdigit => exact isBlank_of_isDigit hdigit
    · split at h
      · next hquote => exact isBlank_of_quote hquote
      · split at h
        · next hword => exact isBlank_of_isWordPart (isWordPart_of_isWordStart hword)
        · split at h
          · next m hm =>
            obtain ⟨d, ds, hds⟩ : ∃ d ds, m.text.toList = d :: ds := by cases m <;> exact ⟨_, _, rfl⟩
            have hsplit := append_of_start? hm
            rw [hds] at hsplit
            obtain ⟨rfl, -⟩ := List.cons.inj hsplit
            exact m.isBlank_of_mem c (by simp [hds])
          · cases h

/-! ### All tokens -/

/-- The tokens of a text: between them are blanks of the expression language. -/
inductive Lexes : List Char → List Token → Prop
  | nil : Lexes [] []
  | space {c : Char} {cs : List Char} {ts : List Token} (space : isSpace c = true)
    (later : Lexes cs ts) : Lexes (c :: cs) ts
  | token {c : Char} {cs : List Char} {t : Token} {n : Nat} {ts : List Token}
    (first : readToken 0 c cs = .ok (some t, n)) (later : Lexes (cs.drop (n - 1)) ts) :
    Lexes (c :: cs) (t :: ts)

/-- What is scanned are the tokens. -/
theorem lexes_of_scan {offset skip : Nat} {cs : List Char} {ls : List Lexeme}
    (h : Lexeme.scan offset skip cs = .ok ls) : Lexes (cs.drop skip) (tokensOf ls) := by
  induction cs generalizing offset skip ls with
  | nil =>
    cases h
    rw [List.drop_nil]
    exact .nil
  | cons c cs ih =>
    cases skip with
    | succ skip => exact ih h
    | zero =>
      rw [Lexeme.scan] at h
      split at h
      · cases h
      · next token? n hread =>
        split at h
        · cases h
        · next rest hrest =>
          cases token? with
          | some t =>
            cases h
            exact .token (readToken_offset hread 0) (ih hrest)
          | none =>
            cases h
            obtain ⟨hspace, rfl⟩ : isSpace c = true ∧ n = 1 := by grind [readToken]
            exact .space hspace (ih hrest)

/-- To pass over characters is to scan what is behind them. -/
theorem scan_drop (offset skip : Nat) (cs : List Char) :
    ∃ offset', Lexeme.scan offset skip cs = Lexeme.scan offset' 0 (cs.drop skip) := by
  induction cs generalizing offset skip with
  | nil => exact ⟨0, by rw [List.drop_nil]; rfl⟩
  | cons c cs ih =>
    cases skip with
    | zero => exact ⟨offset, rfl⟩
    | succ skip => exact ih (offset + c.utf8Size) skip

/-- The tokens are scanned. -/
theorem Lexes.scan {cs : List Char} {ts : List Token} (h : Lexes cs ts) (offset : Nat) :
    ∃ ls, Lexeme.scan offset 0 cs = .ok ls ∧ tokensOf ls = ts := by
  induction h generalizing offset with
  | nil => exact ⟨[], rfl, rfl⟩
  | @space c cs ts space _ ih =>
    obtain ⟨ls, hls, rfl⟩ := ih (offset + c.utf8Size)
    refine ⟨ls, ?_, rfl⟩
    rw [Lexeme.scan, readToken, if_pos space]
    dsimp only
    rw [hls]
  | @token c cs t n ts first _ ih =>
    obtain ⟨offset', hoffset'⟩ := scan_drop (offset + c.utf8Size) (n - 1) cs
    obtain ⟨ls, hls, rfl⟩ := ih offset'
    refine ⟨⟨t, offset⟩ :: ls, ?_, rfl⟩
    rw [Lexeme.scan, readToken_offset first offset]
    dsimp only
    rw [hoffset', hls]

/-- **What a text is read as**: what is derived from its tokens. -/
theorem read_eq_ok_iff_lexes {cs : List Char} {e : Expr} :
    read cs = .ok e ↔ ∃ ts, Lexes cs ts ∧ Derives .choice ts e [] := by
  rw [read_eq_ok_iff]
  constructor
  · rintro ⟨ls, hls, hderives⟩
    exact ⟨tokensOf ls, lexes_of_scan hls, hderives⟩
  · rintro ⟨ts, hts, hderives⟩
    obtain ⟨ls, hls, rfl⟩ := hts.scan 0
    exact ⟨ls, hls, hderives⟩

/-! ### Blanks around a text -/

theorem Lexes.trimStart {cs : List Char} {ts : List Token} (h : Lexes cs ts) :
    Lexes (trimStart cs) ts := by
  induction h with
  | nil => exact .nil
  | space space _ ih =>
    unfold Text.trimStart at ih ⊢
    rwa [List.dropWhile_cons_of_pos (isBlank_of_isSpace space)]
  | token first later _ =>
    have hc := isBlank_of_readToken first
    unfold Text.trimStart
    rw [List.dropWhile_cons_of_neg (by simp [hc])]
    exact .token first later

/-- Blanks behind a text have no part in its tokens. -/
theorem Lexes.of_append_blank {cs bs : List Char} {ts : List Token} (h : Lexes (cs ++ bs) ts)
    (hbs : isBlankText bs = true) : Lexes cs ts := by
  generalize hall : cs ++ bs = all at h
  induction h generalizing cs bs with
  | nil =>
    obtain ⟨rfl, -⟩ := List.append_eq_nil_iff.1 hall
    exact .nil
  | @space c rest _ space later ih =>
    cases cs with
    | cons d cs =>
      obtain ⟨rfl, rfl⟩ := List.cons.inj hall
      exact .space space (ih hbs rfl)
    | nil =>
      subst hall
      rw [isBlankText, List.all_cons, Bool.and_eq_true] at hbs
      exact ih hbs.2 (List.nil_append _)
  | @token c rest t n _ first later ih =>
    cases cs with
    | cons d cs =>
      obtain ⟨rfl, rfl⟩ := List.cons.inj hall
      have hfirst := readToken_of_append hbs first
      refine .token hfirst (ih hbs ?_)
      exact (List.drop_append_of_le_length (length_of_readToken hfirst)).symm
    | nil =>
      subst hall
      rw [isBlankText, List.all_cons, isBlank_of_readToken first] at hbs
      cases hbs

theorem Lexes.trim {cs : List Char} {ts : List Token} (h : Lexes cs ts) : Lexes (trim cs) ts := by
  obtain ⟨blanks, hsplit, hblanks⟩ := exists_trimEnd (Text.trimStart cs)
  have hstart := h.trimStart
  rw [hsplit] at hstart
  exact hstart.of_append_blank hblanks

/-- An expression is read in the same way without the blanks around it. -/
theorem read_trim {cs : List Char} {e : Expr} (h : read cs = .ok e) : read (trim cs) = .ok e := by
  obtain ⟨ts, hts, hderives⟩ := read_eq_ok_iff_lexes.1 h
  exact read_eq_ok_iff_lexes.2 ⟨ts, hts.trim, hderives⟩

end Trellis.Expr
