import Trellis.Proofs.Laying
import Trellis.Proofs.Phases
import Trellis.Proofs.Silence
import Trellis.Proofs.Transclusion

/-!
# `Trellis.Proofs.Comments`: where silent comments are transparent

A silent comment in front of a statement is a line without tokens (`SilentComment.Adds.scan`). What the
source is read as then depends on the statement only.

* `beginsWithElse_of_takes`: its line tells whether it begins with `else`.
* `parse_matches`: in front of all other statements, the comment is read as nothing.
* `parse_ne_ok`: in front of an `else` line nothing can be read any more, as that line would have to
  belong to the comment.
* `parse_commented`: so a comment is transparent in front of all statements that do not begin with
  `else`, and only there. This also holds for templates that extend or include the one with the comment
  (`Library.Replaced.document_iff`).
-/

set_option autoImplicit false

namespace Trellis

open Text

namespace Source

/-! ### Lines that begin with `else` -/

/-- Does a text begin with the word `else`, and with nothing or a blank behind it? -/
def isElseText (text : List Char) : Bool :=
  nameOf text == ['e', 'l', 's', 'e'] && ((text.drop 4).isEmpty || headIs isBlank (text.drop 4))

/-- Is the line an `else` line? -/
def isElseLine (line : List Char) : Bool := isElseText (trimEnd (line.drop (indentOf line).length))

theorem beginsWithElse_singleton {t : Token} :
    beginsWithElse [t] = true ↔ t = .otherwise ∨ ∃ test, t = .elseCond test := by
  cases t <;> simp [beginsWithElse]

theorem beginsWithElse_of_elseToken {argument : List Char} {t : Token} (h : elseToken argument = .ok t) :
    beginsWithElse [t] = true := by
  unfold elseToken at h
  grind [beginsWithElse_singleton]

/-- What the word makes of its line. -/
theorem opening_of_isElseText {cs : List Char} (h : isElseText (currentLine cs) = true) :
    opening cs = (elseToken (trim ((currentLine cs).drop 4))).map fun t =>
      .whole ⟨[t], .statements, belowLine cs⟩ := by
  unfold isElseText at h
  rw [Bool.and_eq_true, beq_iff_eq] at h
  obtain ⟨hname, hbehind⟩ := h
  have hsplit := nameOf_append_drop (currentLine cs)
  rw [hname] at hsplit
  -- The text begins with a letter, so it is no sign that tells what kind of statement it is.
  have hopening : opening cs = openingWord cs := by
    unfold opening
    dsimp only
    rw [← hsplit]
    rfl
  rw [hopening, openingWord]
  simp only [hname, List.isEmpty_cons, Bool.false_eq_true, if_false, List.length_cons, List.length_nil]
  rw [if_pos hbehind]
  unfold keywordToken?
  cases elseToken (trim ((currentLine cs).drop 4)) <;> rfl

/-- No other keyword makes a token of an `else` line. -/
theorem eq_of_keywordToken? {word argument below rest : List Char} {t : Token}
    (h : keywordToken? word argument below = .ok (some (t, rest))) (helse : beginsWithElse [t] = true) :
    word = ['e', 'l', 's', 'e'] := by
  -- Every keyword makes a token of its own kind, if any.
  have hchecked {x : Except ScanFault Token} (hx : ∀ t, x = .ok t → beginsWithElse [t] = false)
      (h : (x.map fun t => some (t, below)) = .ok (some (t, rest))) : False := by
    obtain ⟨a, ha, hpair⟩ := of_map_eq_ok h
    cases hpair
    rw [hx _ ha] at helse
    cases helse
  have hrequired {keyword : String} {token : String → Token}
      (htoken : ∀ a, beginsWithElse [token a] = false) (t : Token)
      (h : (requireArgument keyword argument).map token = .ok t) : beginsWithElse [t] = false := by
    obtain ⟨a, -, rfl⟩ := of_map_eq_ok h
    exact htoken a
  have hblock (t : Token) (h : blockToken argument = .ok t) : beginsWithElse [t] = false := by
    unfold blockToken at h
    grind [beginsWithElse_singleton]
  have hloop (t : Token) (h : loopToken argument = .ok t) : beginsWithElse [t] = false := by
    unfold loopToken at h
    grind [beginsWithElse_singleton]
  unfold keywordToken? at h
  dsimp only at h
  split at h
  case h_12 hword =>
    have hword := congrArg String.toList hword
    rwa [String.toList_ofList] at hword
  case h_4 => exact (hchecked hblock h).elim
  case h_8 | h_9 => exact (hchecked hloop h).elim
  case h_7 =>
    obtain ⟨r, hmixin, hpair⟩ := of_map_eq_ok h
    cases hpair
    unfold mixinToken at hmixin
    grind [beginsWithElse_singleton]
  case h_5 | h_6 | h_15 =>
    split at h <;> cases h
    cases helse
  case h_1 =>
    cases h
    cases helse
  case h_16 => cases h
  all_goals exact (hchecked (hrequired fun _ => rfl) h).elim

/-- No other statement begins with `else`. -/
theorem isElseText_of_opening {cs : List Char} {s : Statement} (h : opening cs = .ok (.whole s))
    (helse : beginsWithElse s.tokens = true) : isElseText (currentLine cs) = true := by
  have hcode {token : String → Token} {code : List Char} (htoken : ∀ a, beginsWithElse [token a] = false)
      (h : ((codeToken token code).map fun t => Opening.whole ⟨[t], .statements, belowLine cs⟩) =
        .ok (.whole s)) : False := by
    obtain ⟨t, hcode, hwhole⟩ := of_map_eq_ok h
    cases hwhole
    unfold codeToken at hcode
    dsimp only at hcode
    split at hcode <;> cases hcode
    rw [htoken] at helse
    cases helse
  unfold opening at h
  dsimp only at h
  split at h
  case h_14 =>
    unfold openingWord at h
    dsimp only at h
    split at h
    · cases h
    split at h
    · next hbehind =>
      split at h
      · cases h
      · next hkeyword =>
        cases h
        have hword := eq_of_keywordToken? hkeyword helse
        rw [hword] at hbehind
        rw [isElseText, hword]
        exact hbehind
      · cases h
    · cases h
  case h_7 | h_8 | h_9 => exact (hcode (fun _ => rfl) h).elim
  case h_10 =>
    obtain ⟨f, hfilter, hwhole⟩ := of_map_eq_ok h
    cases hwhole
    unfold filterStatement at hfilter
    grind [beginsWithElse_singleton]
  all_goals
    cases h
    try cases helse

/-- What a statement with a head says begins with what is made of the head. -/
theorem tokens_of_behindHead {wrap : List Token → List Token}
    {line : List Char → Except ScanFault (List Token × Below)} {rest : List Char} {s : Statement}
    (h : behindHead wrap line rest = .ok s) :
    (∃ tokens, s.tokens = wrap tokens) ∨ ∃ text r, line text = .ok r ∧ s.tokens = r.1 := by
  unfold behindHead at h
  split at h
  · obtain ⟨inner, -, rfl⟩ := of_map_eq_ok h
    exact .inl ⟨inner.tokens, rfl⟩
  · obtain ⟨r, hline, rfl⟩ := of_map_eq_ok h
    exact .inr ⟨currentLine rest, r, hline, rfl⟩

theorem beginsWithElse_of_call {text : List Char} {s : Statement}
    (h : (Opening.call text).statement = .ok s) : beginsWithElse s.tokens = false := by
  obtain ⟨⟨token, rest⟩, hcall, hbehind⟩ := of_bind_eq_ok h
  have htoken : ∃ name arguments, token = .call name arguments := by
    unfold callHead at hcall
    grind
  obtain ⟨name, arguments, rfl⟩ := htoken
  rcases tokens_of_behindHead hbehind with ⟨tokens, htokens⟩ | ⟨line, r, hline, htokens⟩
  · rw [htokens]
    rfl
  · unfold callEnd at hline
    split at hline <;> cases hline
    rw [htokens]
    rfl

theorem beginsWithElse_of_tag {text : List Char} {s : Statement}
    (h : (Opening.tag text).statement = .ok s) : beginsWithElse s.tokens = false := by
  obtain ⟨⟨head, rest⟩, htag, hbehind⟩ := of_bind_eq_ok h
  have hhead : ∃ name parts, head = .tag name :: parts := by
    unfold tagHead at htag
    grind
  obtain ⟨name, parts, rfl⟩ := hhead
  rcases tokens_of_behindHead hbehind with ⟨tokens, htokens⟩ | ⟨line, r, hline, htokens⟩
  · rw [htokens]
    rfl
  · obtain ⟨tail, -, rfl⟩ := of_map_eq_ok hline
    rw [htokens]
    rfl

theorem beginsWithElse_of_readStatement {cs : List Char} {s : Statement} (h : readStatement cs = .ok s) :
    beginsWithElse s.tokens = isElseText (currentLine cs) := by
  rw [readStatement_eq] at h
  obtain ⟨opened, hopening, hopened⟩ := of_bind_eq_ok h
  cases hisElse : isElseText (currentLine cs) with
  | true =>
    rw [opening_of_isElseText hisElse] at hopening
    obtain ⟨t, htoken, rfl⟩ := of_map_eq_ok hopening
    cases hopened
    exact beginsWithElse_of_elseToken htoken
  | false =>
    cases opened with
    | whole s' =>
      cases hopened
      refine Bool.eq_false_iff.mpr fun helse => ?_
      rw [isElseText_of_opening hopening helse] at hisElse
      cases hisElse
    | call text => exact beginsWithElse_of_call hopened
    | tag text => exact beginsWithElse_of_tag hopened

/-- **Whether a statement begins with `else`** can be told from its line. -/
theorem beginsWithElse_of_takes {raw : List Char} {below : List (List Char)} {tokens : List Token}
    {used : Nat} (hraw : '\n' ∉ raw) (h : Takes raw below tokens used) :
    beginsWithElse tokens = isElseLine raw := by
  obtain ⟨s, hs, joined, block, -, -, rfl, -⟩ := h
  have hline : '\n' ∉ trimEnd (raw.drop (indentOf raw).length) := fun hmem =>
    hraw (List.mem_of_mem_drop ((trimEnd_isPrefix _).subset hmem))
  have helse := beginsWithElse_of_readStatement hs
  rw [currentLine_append_of_ends hline (currentLine_textBelow _ _)] at helse
  rw [isElseLine, ← helse]
  -- A block of text comes behind the other tokens. Where there are none, there is no such block, since
  -- the lines below a silent comment are discarded.
  unfold Statement.withBlock
  split
  · next htext =>
    cases htokens : s.tokens with
    | nil =>
      rw [below_of_readStatement hs htokens] at htext
      cases htext.1
    | cons t rest => cases t <;> rfl
  · rfl

/-! ### Sources with a comment -/

/-- A source, and the same one with a silent comment in front of one of its statements. -/
structure SilentComment.Adds (c : SilentComment) (source source' : String) : Prop where
  plain : lines source.toList = c.before ++ c.line :: c.after
  commented : lines source'.toList = c.before ++ c.text :: c.line :: c.after
  ink : isBlankText c.line = false
  free : StandsFree (c.line :: c.after) 0 c.before

/-- **Both sources can be scanned or neither can**, and then the one has one line more. -/
theorem SilentComment.Adds.scan {c : SilentComment} {source source' : String}
    (h : c.Adds source source') :
    (∃ layout layout' front depth tokens back, Layout.scan source = .ok layout ∧
      Layout.scan source' = .ok layout' ∧ beginsWithElse tokens = isElseLine c.line ∧
      layout.lines.map Line.shape = front ++ (depth, tokens) :: back ∧
      layout'.lines.map Line.shape = front ++ (depth, []) :: (depth, tokens) :: back) ∨
    (∀ layout, Layout.scan source ≠ .ok layout) ∧ ∀ layout, Layout.scan source' ≠ .ok layout := by
  have hlines := areLines_lines source.toList
  have hlines' := areLines_lines source'.toList
  rw [h.plain] at hlines
  rw [h.commented] at hlines'
  have hbefore : AreLines c.before := fun line hline => hlines line (List.mem_append_left _ hline)
  have hline : '\n' ∉ c.line := hlines _ (by simp)
  have hnote : '\n' ∉ c.note := fun hmem => hlines' c.text (by simp) (by simp [SilentComment.text, hmem])
  cases c.lays hnote h.ink hbefore h.free .start with
  | @placed front back depth used tokens htakes hlaid hlaid' =>
    rw [← h.plain] at hlaid
    rw [← h.commented] at hlaid'
    obtain ⟨layout, hscan, hshape⟩ := laid_iff.mp hlaid
    obtain ⟨layout', hscan', hshape'⟩ := laid_iff.mp hlaid'
    exact .inl ⟨layout, layout', front, depth, tokens, back, hscan, hscan',
      beginsWithElse_of_takes hline htakes, hshape, hshape'⟩
  | fails hnone hnone' =>
    rw [← h.plain] at hnone
    rw [← h.commented] at hnone'
    exact .inr ⟨fun layout hscan => hnone _ (laid_iff.mpr ⟨layout, hscan, rfl⟩),
      fun layout hscan => hnone' _ (laid_iff.mpr ⟨layout, hscan, rfl⟩)⟩

end Source

open Source

/-! ### Templates with a comment -/

/-- What the source of a template is read as in its surroundings. -/
def Surroundings.parse (s : Surroundings) (source : String) : Asking Document :=
  match Layout.scan source with
  | .error e => throw (.scan s.template e)
  | .ok layout => readDocument s layout

section
variable {s s' : Surroundings} {source source' : String}

theorem parse_eq_ok_iff {asked asked' : List String} {d : Document} :
    s.parse source asked = .ok d asked' ↔
      ∃ layout, Layout.scan source = .ok layout ∧ readDocument s layout asked = .ok d asked' := by
  unfold Surroundings.parse
  cases hscan : Layout.scan source with
  | error e => exact ⟨nofun, nofun⟩
  | ok layout => simp

theorem parse_matches_refl (hs : s.Matches s') (source : String) :
    Matches (s.parse source) (s'.parse source) where
  iff asked d asked' := by
    have hread (layout : Layout) := (readDocument_matches hs rfl
      (PaddedLevels.of_shape_eq layout.finish.line layout.finish.line rfl).entries).iff asked d asked'
    rw [parse_eq_ok_iff, parse_eq_ok_iff]
    exact exists_congr fun layout => and_congr_right fun _ => hread layout

/-- **In front of a statement that does not begin with `else`**, the comment changes nothing that is
read. -/
theorem parse_matches {c : SilentComment} (h : c.Adds source source') (helse : isElseLine c.line = false)
    (hs : s.Matches s') : Matches (s.parse source) (s'.parse source') where
  iff asked d asked' := by
    rw [parse_eq_ok_iff, parse_eq_ok_iff]
    rcases h.scan with
      ⟨layout, layout', front, depth, tokens, back, hscan, hscan', htokens, hshape, hshape'⟩ |
        ⟨hnone, hnone'⟩
    · have hfirst : layout'.lines.head?.map Line.depth = layout.lines.head?.map Line.depth := by
        have hdepth (lines : List Line) :
            lines.head?.map Line.depth = (lines.map Line.shape).head?.map Prod.fst := by
          cases lines <;> rfl
        rw [hdepth, hdepth, hshape, hshape']
        cases front <;> rfl
      have hforest := (paddedLevels_arrange layout.finish.line layout'.finish.line (htokens.trans helse)
        hshape hshape').entries
      have hread := (readDocument_matches hs hfirst hforest).iff asked d asked'
      constructor
      · rintro ⟨_, hscanned, hd⟩
        cases hscan.symm.trans hscanned
        exact ⟨layout', hscan', hread.mp hd⟩
      · rintro ⟨_, hscanned, hd⟩
        cases hscan'.symm.trans hscanned
        exact ⟨layout, hscan, hread.mpr hd⟩
    · exact ⟨fun ⟨layout, hscan, _⟩ => (hnone layout hscan).elim,
        fun ⟨layout, hscan, _⟩ => (hnone' layout hscan).elim⟩

/-- **In front of an `else` line**, the comment leaves nothing that can be read. -/
theorem parse_ne_ok {c : SilentComment} (h : c.Adds source source') (helse : isElseLine c.line = true)
    (asked asked' : List String) (d : Document) : s.parse source' asked ≠ .ok d asked' := by
  intro hd
  obtain ⟨layout, hscanned, hread⟩ := parse_eq_ok_iff.mp hd
  rcases h.scan with ⟨-, _, front, depth, tokens, back, -, hscan', htokens, -, hshape'⟩ | ⟨-, hnone'⟩
  · cases hscan'.symm.trans hscanned
    obtain ⟨⟨k, e⟩, hmem, hstray⟩ :=
      exists_stray_of_run layout.finish.line (run_of_scan hscanned) (htokens.trans helse) hshape'
    exact readDocument_ne_ok_of_stray (List.mem_map_of_mem hmem) hstray _ _ _ hread
  · exact hnone' _ hscanned

end

/-! ### Libraries with a comment -/

/-- Two libraries that are the same, but the second one has another source in place of one source, maybe
under several names. None of them is included as raw text. -/
structure Library.Replaced (l : Library) (source source' : String) (l' : Library) : Prop where
  names : l'.names = l.names
  source (name : String) : l'.source name = l.source name ∨
    Reference.isRaw name = false ∧ l.source name = .ok source ∧ l'.source name = .ok source'

namespace Library

/-- A template is resolved by asking for its source and parsing it. -/
theorem resolve_eq_parse (l : Library) (unused chain : List String) (name : String) :
    l.resolve unused chain name = (do
      let source ← l.ask name
      (Surroundings.mk name l.ask (l.load unused (chain ++ [name]))).parse source) :=
  l.resolve_eq unused chain name

theorem resolve_eq_ok_iff_parse {l : Library} {unused chain : List String} {name : String} {d : Document}
    {asked asked' : List String} : l.resolve unused chain name asked = .ok d asked' ↔
      ∃ text, l.source name = .ok text ∧
        (Surroundings.mk name l.ask (l.load unused (chain ++ [name]))).parse text (name :: asked) =
          .ok d asked' := by
  simp only [resolve_eq_ok_iff, parse_eq_ok_iff, exists_and_left]

/-- A document was parsed from the source of its template. -/
theorem exists_parse_of_document {l : Library} {name source : String} {d : Document}
    (hsource : l.source name = .ok source) (h : (l.document name).1 = .ok d) :
    ∃ (s : Surroundings) (asked asked' : List String), s.parse source asked = .ok d asked' := by
  obtain ⟨asked, hresolve⟩ := document_eq_ok_iff_resolve.mp h
  obtain ⟨text, htext, hparse⟩ := resolve_eq_ok_iff_parse.mp hresolve
  cases hsource.symm.trans htext
  exact ⟨_, _, _, hparse⟩

namespace Replaced

variable {l l' : Library} {source source' : String} (h : l.Replaced source source' l')
include h

theorem ask_matches {name : String} (hraw : Reference.isRaw name = true) :
    Matches (l.ask name) (l'.ask name) := by
  rcases h.source name with hsame | ⟨hnotRaw, -⟩
  · unfold ask
    rw [hsame]
    exact .refl _
  · rw [hraw] at hnotRaw
    cases hnotRaw

variable (hparse : ∀ s s' : Surroundings, s.Matches s' → Matches (s.parse source) (s'.parse source'))
include hparse

/-- A template is resolved alike in both libraries if what it refers to is loaded alike. -/
theorem resolve_matches {unused chain : List String} {name : String}
    (hload : ∀ target, Matches (l.load unused (chain ++ [name]) target)
      (l'.load unused (chain ++ [name]) target)) :
    Matches (l.resolve unused chain name) (l'.resolve unused chain name) where
  iff asked d asked' := by
    have hs : Surroundings.Matches ⟨name, l.ask, l.load unused (chain ++ [name])⟩
        ⟨name, l'.ask, l'.load unused (chain ++ [name])⟩ :=
      ⟨rfl, fun _ hraw => h.ask_matches hraw, hload⟩
    rw [resolve_eq_ok_iff_parse, resolve_eq_ok_iff_parse]
    rcases h.source name with hsame | ⟨-, hsource, hsource'⟩
    · rw [hsame]
      exact exists_congr fun text =>
        and_congr_right fun _ => (parse_matches_refl hs text).iff _ _ _
    · rw [hsource, hsource']
      simpa using (hparse _ _ hs).iff (name :: asked) d asked'

/-- **What can be loaded from both libraries is the same**, by induction on the names that are left. -/
theorem load_matches (unused under : List String) (name : String) :
    Matches (l.load unused under name) (l'.load unused under name) := by
  induction hn : unused.length using Nat.strongRecOn generalizing unused under name with
  | ind n ih =>
  refine ⟨fun asked d asked' => ?_⟩
  rw [load_eq_ok_iff, load_eq_ok_iff]
  refine and_congr_right fun _ => and_congr_right fun hmem => ?_
  have hshorter : (unused.erase name).length < n := hn ▸ length_erase_lt hmem
  exact (h.resolve_matches hparse fun target => ih _ hshorter _ _ target rfl).iff _ _ _

theorem document_iff (name : String) (d : Document) :
    (l'.document name).1 = .ok d ↔ (l.document name).1 = .ok d := by
  rw [document_eq_ok_iff_resolve, document_eq_ok_iff_resolve, h.names]
  exact exists_congr fun asked =>
    ((h.resolve_matches hparse fun target => h.load_matches hparse _ _ target).iff _ _ _).symm

end Replaced

end Library

/-- **A silent comment is transparent, unless it stands in front of an `else` line.** It is put in front
of a statement, at the same indentation.

If the statement does not begin with `else`, then the source is read as the same document with the
comment and without it, the same nodes and the same mixins, or in both cases it cannot be read. This
holds whatever the template is called and refers to, and also for the templates that refer to it.

In front of an `else` line, the source with the comment cannot be read at all. -/
theorem parse_commented (c : SilentComment) (source source' : String) (h : c.Adds source source') :
    (isElseLine c.line = false →
      (∀ (s : Surroundings) (asked : List String) (d : Document) (asked' : List String),
        s.parse source' asked = .ok d asked' ↔ s.parse source asked = .ok d asked') ∧
      ∀ l l' : Library, l.Replaced source source' l' →
        ∀ name d, (l'.document name).1 = .ok d ↔ (l.document name).1 = .ok d) ∧
    (isElseLine c.line = true →
      (∀ (s : Surroundings) (asked : List String) (d : Document) (asked' : List String),
        s.parse source' asked ≠ .ok d asked') ∧
      ∀ (l : Library) (name : String), l.source name = .ok source' →
        ∀ d, (l.document name).1 ≠ .ok d) := by
  constructor
  · intro helse
    refine ⟨fun s asked d asked' => ?_, fun l l' hl name d => ?_⟩
    · exact ((parse_matches h helse ⟨rfl, fun _ _ => .refl _, fun _ => .refl _⟩).iff _ _ _).symm
    · exact hl.document_iff (fun s s' hs => parse_matches h helse hs) name d
  · intro helse
    refine ⟨fun s asked d asked' => parse_ne_ok h helse asked asked' d, fun l name hsource d hd => ?_⟩
    obtain ⟨s, asked, asked', hparse⟩ := Library.exists_parse_of_document hsource hd
    exact parse_ne_ok h helse asked asked' d hparse

/-- A library with one page. -/
def indexPage (source : String) : Library :=
  ⟨fun name => if name = "index" then .ok source else .error (.notFound name), ["index"]⟩

/-- A page with two branches. -/
def branchesPage : String := "if a\n  | x\nelse\n  | y"

/-- No line of the page uses up another one. -/
theorem takes_branchesPage :
    (∀ rest, Takes "if a".toList ("  | x".toList :: rest) [.cond "a"] 0) ∧
      (∀ rest, Takes "  | x".toList ("else".toList :: rest) [.text "x"] 0) ∧
      ∀ rest, Takes "else".toList ("  | y".toList :: rest) [.otherwise] 0 :=
  ⟨fun _ => ⟨_, by cbv, _, _, rfl, rfl, by cbv, by cbv⟩,
    fun _ => ⟨_, by cbv, _, _, rfl, rfl, by cbv, by cbv⟩,
    fun _ => ⟨_, by cbv, _, _, rfl, rfl, by cbv, by cbv⟩⟩

/-- The test of the page. -/
def branchesTest : Expression := ⟨"a", .variable "a", by cbv⟩

/-- What the page is read as. -/
def branchesDocument : Document :=
  ⟨[.cond [⟨branchesTest, false, [.text [.literal "x"]]⟩] (some [.text [.literal "y"]])], []⟩

theorem document_branchesPage : ((indexPage branchesPage).document "index").1 = .ok branchesDocument := by
  have hscan : Layout.scan branchesPage =
      .ok ⟨[⟨⟨1, 1⟩, 0, [.cond "a"]⟩, ⟨⟨2, 3⟩, 1, [.text "x"]⟩, ⟨⟨3, 1⟩, 0, [.otherwise]⟩,
        ⟨⟨4, 3⟩, 1, [.text "y"]⟩], ⟨4, 3⟩⟩ := by cbv
  have htest : Head.read [.cond "a"] = .ok (.cond branchesTest false) := by
    have hcompile : Expression.compile "a" = .ok branchesTest := branchesTest.compile_source
    simp [Head.read, Head.read.closed, compileText, compileIn, hcompile, Except.map, Except.mapError,
      endOfLine, bind, Except.bind, pure, Except.pure]
  have hx : Head.read [.text "x"] = .ok (.leaf (.text [.literal "x"])) := by cbv
  have hy : Head.read [.text "y"] = .ok (.leaf (.text [.literal "y"])) := by cbv
  refine Library.document_eq_ok_iff.mpr ⟨_, _, ["index"], rfl, hscan, ?_⟩
  simp [readDocument, Entry.forest, Entry.arrange, Entry.isVacant, Entry.isElse, Entry.tokens,
    readEntries, readEntry, readBranches, htest, hx, hy, Head.nodes, collecting, refuseChildren,
    refuseElse, Surroundings.check, endOfLine, bind, EStateM.bind, pure, EStateM.pure, Node.join,
    Node.cons, branchesDocument]

/-- A comment in front of the text of the second branch. -/
def branchComment : SilentComment :=
  ⟨["if a".toList, "  | x".toList, "else".toList], "  | y".toList, [], " z".toList⟩

/-- A comment in front of the `else` line. -/
def elseComment : SilentComment :=
  ⟨["if a".toList, "  | x".toList], "else".toList, ["  | y".toList], " z".toList⟩

theorem adds_branchComment : branchComment.Adds branchesPage "if a\n  | x\nelse\n  //- z\n  | y" where
  plain := by cbv
  commented := by cbv
  ink := by cbv
  free :=
    have ⟨hif, hx, helse⟩ := takes_branchesPage
    .line (by cbv) (hif _) (.line (by cbv) (hx _) (.line (by cbv) (helse _) .here))

theorem adds_elseComment : elseComment.Adds branchesPage "if a\n  | x\n//- z\nelse\n  | y" where
  plain := by cbv
  commented := by cbv
  ink := by cbv
  free :=
    have ⟨hif, hx, _⟩ := takes_branchesPage
    .line (by cbv) (hif _) (.line (by cbv) (hx _) .here)

/-- The page with a comment in its second branch is read as the page. -/
theorem parse_commented_branch :
    branchComment.Adds branchesPage "if a\n  | x\nelse\n  //- z\n  | y" ∧
      ((indexPage "if a\n  | x\nelse\n  //- z\n  | y").document "index").1 = .ok branchesDocument := by
  have hreplaced : (indexPage branchesPage).Replaced branchesPage "if a\n  | x\nelse\n  //- z\n  | y"
      (indexPage "if a\n  | x\nelse\n  //- z\n  | y") :=
    { names := rfl
      source := fun name => by
        by_cases hname : name = "index"
        · subst hname
          exact .inr ⟨by cbv, rfl, rfl⟩
        · exact .inl (by simp [indexPage, hname]) }
  have htransparent := (parse_commented branchComment _ _ adds_branchComment).1 (by cbv)
  exact ⟨adds_branchComment, (htransparent.2 _ _ hreplaced "index" _).mpr document_branchesPage⟩

/-- The page can be read, and with a comment in front of the `else` line it cannot. -/
theorem comment_before_else_fails :
    elseComment.Adds branchesPage "if a\n  | x\n//- z\nelse\n  | y" ∧
      ((indexPage branchesPage).document "index").1 = .ok branchesDocument ∧
      ∀ d, ((indexPage "if a\n  | x\n//- z\nelse\n  | y").document "index").1 ≠ .ok d := by
  refine ⟨adds_elseComment, document_branchesPage, fun d hd => ?_⟩
  obtain ⟨s, asked, asked', hparse⟩ := Library.exists_parse_of_document rfl hd
  exact parse_ne_ok adds_elseComment (by cbv) asked asked' d hparse

end Trellis
