import Trellis.Proofs.Comments
import Trellis.Proofs.InnerLevels
import Trellis.Proofs.TagHeads

/-!
# `Trellis.Proofs.Expansion`: tags in one line and tags in levels

A tag that holds nothing but another tag can hold it on its own line, behind a colon. `Nest` is a row of
such tags, with the statement of the innermost one and the lines below that. `Nest.expanded` writes the
tags in one line, `Nest.nested` writes each of them one level deeper than the one that holds it.

Both are read as the same nodes and mixins, or neither can be read (`parse_expanded`).

* `laid_expanded_iff`, `laid_stairs_iff`: the lines below are scanned alike, so many levels deeper. The
  second one is an induction on the tags in front.
* `exists_arrange_stairs`: the entries of the levels hold each other (`Entry.Stairs`).
* `readEntry_stairs`: the statement behind a colon is read as if it were the only child of its tag. The
  induction is on the tags again, and `readEntry_colon_iff` is its step.
-/

set_option autoImplicit false

namespace Trellis

open Source Text

/-! ### Tags that hold each other -/

/-- Tags that hold nothing but the next one: the heads of those around a statement, the outermost first,
the statement of the innermost, and the lines below that. A level is so many of one character. -/
structure Nest where
  heads : List (List Char)
  statement : List Char
  block : List (List Char)
  unit : Char
  size : Nat
  areHeads : ∀ head ∈ heads, ∃ tokens, IsTagHead head tokens
  isTag : ∃ s, IsTagStatement statement s
  indents : isIndent unit = true
  deeper : 0 < size

namespace Nest

/-- Heads in front of a statement, each with a colon behind it. -/
def chained (statement : List Char) : List (List Char) → List Char
  | [] => statement
  | head :: heads => head ++ ':' :: ' ' :: chained statement heads

variable (x : Nest)

/-- The indentation of a level. -/
def indent (level : Nat) : List Char := List.replicate (level * x.size) x.unit

/-- All tags on one line, and the lines below one level deeper. -/
def expanded : List (List Char) :=
  chained x.statement x.heads :: x.block.map (indentedBy (x.indent 1))

/-- The tags from a level on, each one level deeper than the one before. -/
def stairs (level : Nat) : List (List Char) → List (List Char)
  | [] => (x.indent level ++ x.statement) :: x.block.map (indentedBy (x.indent (level + 1)))
  | head :: heads => (x.indent level ++ head) :: stairs (level + 1) heads

/-- Each tag on its own line, and the lines below one level deeper than the last one. -/
def nested : List (List Char) := x.stairs 0 x.heads

/-- The tokens of a line with some heads in front. -/
def chainedTokens (tokens : List Token) : List (List Token) → List Token
  | [] => tokens
  | head :: heads => head ++ .colon :: chainedTokens tokens heads

/-! ### What the lines are read as -/

theorem isIndent_indent (level : Nat) : ∀ c ∈ x.indent level, isIndent c = true := fun _ hc =>
  List.eq_of_mem_replicate hc ▸ x.indents

/-- The heads are read as some tokens. -/
theorem exists_tokens : ∃ tokens, List.Forall₂ IsTagHead x.heads tokens := by
  have hheads := x.areHeads
  generalize x.heads = heads at hheads ⊢
  induction heads with
  | nil => exact ⟨[], .nil⟩
  | cons head heads ih =>
    obtain ⟨⟨first, hfirst⟩, hlater⟩ := List.forall_mem_cons.mp hheads
    obtain ⟨tokens, htokens⟩ := ih hlater
    exact ⟨first :: tokens, .cons hfirst htokens⟩

/-- **All heads are read in front of the statement.** -/
theorem isTagStatement_chained {line : List Char} {s : Statement} (h : IsTagStatement line s)
    {heads : List (List Char)} {tokens : List (List Token)} (hheads : List.Forall₂ IsTagHead heads tokens) :
    IsTagStatement (chained line heads) { s with tokens := chainedTokens s.tokens tokens } := by
  induction hheads with
  | nil => exact h
  | cons hfirst _ ih => exact hfirst.behind ih

/-- The lines of a text stand behind all tokens. -/
theorem withBlock_chained (s : Statement) (block : List (List Char)) (tokens : List (List Token)) :
    Statement.withBlock { s with tokens := chainedTokens s.tokens tokens } block =
      chainedTokens (s.withBlock block) tokens := by
  induction tokens with
  | nil => rfl
  | cons head tokens ih =>
    unfold Statement.withBlock at ih ⊢
    dsimp only [chainedTokens] at ih ⊢
    rw [← ih]
    split <;> simp

/-! ### The scanner -/

/-- The margin behind a line at a level. -/
def margin : Nat → Margin
  | 0 => .start
  | level + 1 => ⟨(level + 1) * x.size :: (margin level).widths, some x.unit⟩

theorem length_widths (level : Nat) : (x.margin level).widths.length = level := by
  induction level with
  | zero => rfl
  | succ level ih => exact congrArg Nat.succ ih

theorem headD_widths (level : Nat) : (x.margin level).widths.headD 0 = level * x.size := by
  cases level with
  | zero => exact (Nat.zero_mul _).symm
  | succ level => rfl

theorem indents_margin (level : Nat) : (x.margin level).Indents x.unit := by
  cases level with
  | zero => nofun
  | succ level =>
    intro unit hunit
    cases hunit
    rfl

/-- **A line one level deeper** is admitted, and so is the first line. -/
theorem admits_indent (level : Nat) : (x.margin (level - 1)).Admits (x.indent level) (x.margin level) := by
  cases level with
  | zero =>
    refine ⟨.start, ?_, ?_⟩
    · rw [indent, Nat.zero_mul]
      rfl
    · rw [indent, Nat.zero_mul]
      rfl
  | succ level =>
    have hwidth : (level + 1) * x.size > (x.margin level).width := by
      have := x.deeper
      rw [Margin.width_eq_headD, headD_widths, Nat.add_mul]
      omega
    obtain ⟨n, hn⟩ := Nat.exists_eq_succ_of_ne_zero (Nat.ne_of_gt (Nat.mul_pos level.succ_pos x.deeper))
    -- One character is no mixture, however often it stands there.
    have hmixed : isMixed (List.replicate (n + 1) x.unit) = false := by
      rw [List.replicate_succ']
      refine (isMixed_replicate n x.unit []).trans ?_
      by_cases htab : x.unit = '\t'
      · rw [htab]
        rfl
      · simp [isMixed, Ne.symm htab]
    refine ⟨⟨(x.margin level).widths, some x.unit⟩, ?_, ?_⟩
    · rw [indent, hn, List.replicate_succ, Nat.add_sub_cancel, Margin.checkUnit_cons (x.indents_margin level),
        ← List.replicate_succ, if_neg (by simp [hmixed])]
    · unfold Margin.moveTo
      rw [indent, List.length_replicate]
      exact if_pos hwidth

/-- The lines below, as they stand below the tags in one line. -/
def below : List (List Char) := x.block.map (indentedBy (x.indent 1))

/-- The lines below that belong to the statement. -/
def taken (s : Statement) : List (List Char) := s.takenFrom 0 x.below

/-- One level deeper than a level, each line is so much further indented. -/
theorem map_indentedBy_below (level : Nat) :
    x.below.map (indentedBy (x.indent level)) = x.block.map (indentedBy (x.indent (level + 1))) := by
  have hindent : x.indent level ++ x.indent 1 = x.indent (level + 1) := by
    unfold indent
    rw [← List.replicate_add, ← Nat.add_mul]
  rw [below, List.map_map]
  refine List.map_congr_left fun line _ => ?_
  have hblank := (shifts_indentedBy (x.isIndent_indent 1)).blank line
  show indentedBy (x.indent level) (indentedBy (x.indent 1) line) = _
  rw [indentedBy, hblank]
  unfold indentedBy
  split
  · rfl
  · rw [← List.append_assoc, hindent]

theorem indentedWith_below : IndentedWith x.unit x.below := by
  obtain ⟨n, hn⟩ := Nat.exists_eq_succ_of_ne_zero (Nat.ne_of_gt x.deeper)
  refine indentedWith_map x.block ?_ x.indents
  rw [indent, Nat.one_mul, hn]
  rfl

/-- What the statements of nested tags are, and how deep: the last one, and what stands below. -/
def placed (last : List Token) (later : List (Nat × List Token)) (level : Nat) :
    List (List Token) → List (Nat × List Token)
  | [] => (level, last) :: later.map fun s => (s.1 + level, s.2)
  | head :: tokens => (level, head) :: placed last later (level + 1) tokens

theorem takenFrom_below (s : Statement) (level : Nat) :
    s.takenFrom (x.indent level).length (x.below.map (indentedBy (x.indent level))) =
      (x.taken s).map (indentedBy (x.indent level)) := by
  unfold taken Statement.takenFrom
  split
  · rfl
  · rw [← (shifts_indentedBy (x.isIndent_indent level)).deeperLines, Nat.zero_add]

/-- A head on a level has no lines of its own, so the next level follows. -/
theorem laid_head_iff {head : List Char} {first : List Token} (h : IsTagHead head first) (level : Nat)
    {below : List (List Char)} {ss : List (Nat × List Token)} :
    Laid (x.margin (level - 1)) 0 ((x.indent level ++ head) :: below) ss ↔
      ∃ later, Laid (x.margin level) 0 below later ∧ ss = (level, first) :: later := by
  have hw := x.isIndent_indent level
  have hhead := h.isTagStatement
  have hadmits := x.admits_indent level
  rw [← hhead.indentOf_append hw] at hadmits
  have htakes : Takes (x.indent level ++ head) below first 0 := hhead.takes hw below
  rw [laid_admitted_iff (hhead.isBlankText_append _) hadmits htakes, length_widths]
  rfl

section
variable {s : Statement} (hstatement : IsTagStatement x.statement s) {tokens : List (List Token)}
  {ss : List (Nat × List Token)}
include hstatement

/-- The statements of the tags in one line. -/
theorem laid_expanded_iff (htokens : List.Forall₂ IsTagHead x.heads tokens) :
    Laid .start 0 x.expanded ss ↔ ∃ later, Laid .start (x.taken s).length x.below later ∧
      ss = (0, chainedTokens (s.withBlock (x.taken s)) tokens) :: later := by
  have hline := isTagStatement_chained hstatement htokens
  have htakes := hline.takes (w := []) nofun x.below
  rw [withBlock_chained] at htakes
  have hadmits : Margin.start.Admits (indentOf ([] ++ chained x.statement x.heads)) .start := by
    rw [hline.indentOf_append (w := []) nofun]
    exact ⟨.start, rfl, rfl⟩
  exact laid_admitted_iff (hline.isBlankText_append []) hadmits htakes

/-- The statement takes the same lines on every level, and what is left of them stands inside of the levels
that are open. -/
theorem laid_statement_iff (level : Nat) : Laid (x.margin (level - 1)) 0 (x.stairs level []) ss ↔
    ∃ later, Laid .start (x.taken s).length x.below later ∧
      ss = placed (s.withBlock (x.taken s)) later level [] := by
  have hw := x.isIndent_indent level
  have hshifts := shifts_indentedBy hw
  have hadmits := x.admits_indent level
  rw [← hstatement.indentOf_append hw] at hadmits
  have htakes := hstatement.takes hw (x.below.map (indentedBy (x.indent level)))
  rw [takenFrom_below, hshifts.withBlock, List.length_map] at htakes
  have hmap : x.below.map (indentedBy (x.indent level)) =
      x.below.map (indentedBy (List.replicate ((x.margin level).widths.headD 0) x.unit)) := by
    rw [headD_widths]
    rfl
  rw [stairs, ← map_indentedBy_below, laid_admitted_iff (hstatement.isBlankText_append _) hadmits htakes,
    hmap]
  simp only [laid_inside_iff (m := .start) x.indents nofun (x.indents_margin level)
    (List.nil_append _).symm x.indentedWith_below, length_widths]
  constructor
  · rintro ⟨_, ⟨later, hlater, rfl⟩, rfl⟩
    exact ⟨later, hlater, rfl⟩
  · rintro ⟨later, hlater, rfl⟩
    exact ⟨_, ⟨later, hlater, rfl⟩, rfl⟩

/-- **The statements of the tags from a level on.** The induction is on the tags in front. -/
theorem laid_stairs_iff {heads : List (List Char)} (htokens : List.Forall₂ IsTagHead heads tokens)
    (level : Nat) : Laid (x.margin (level - 1)) 0 (x.stairs level heads) ss ↔
      ∃ later, Laid .start (x.taken s).length x.below later ∧
        ss = placed (s.withBlock (x.taken s)) later level tokens := by
  induction htokens generalizing level ss with
  | nil => exact x.laid_statement_iff hstatement level
  | @cons head first heads tokens hfirst _ ih =>
    have hstairs {ss : List (Nat × List Token)} : Laid (x.margin level) 0 (x.stairs (level + 1) heads) ss ↔ _ :=
      ih (level + 1)
    rw [stairs, x.laid_head_iff hfirst]
    simp only [hstairs]
    constructor
    · rintro ⟨_, ⟨later, hlater, rfl⟩, rfl⟩
      exact ⟨later, hlater, rfl⟩
    · rintro ⟨later, hlater, rfl⟩
      exact ⟨_, ⟨later, hlater, rfl⟩, rfl⟩

end

/-! ### The entries -/

/-- From a level on, all is deeper than what is less deep than that. -/
theorem lt_of_mem_placed (last : List Token) (later : List (Nat × List Token)) (tokens : List (List Token))
    {level k : Nat} (hlevel : k < level) : ∀ a ∈ placed last later level tokens, k < a.1 := by
  induction tokens generalizing level with
  | nil =>
    refine List.forall_mem_cons.mpr ⟨hlevel, fun a ha => ?_⟩
    obtain ⟨b, -, rfl⟩ := List.mem_map.mp ha
    exact Nat.lt_add_left _ hlevel
  | cons head tokens ih => exact List.forall_mem_cons.mpr ⟨hlevel, ih (Nat.lt_succ_of_lt hlevel)⟩

end Nest

/-- Entries that hold nothing but the next one, one for each head. The last one has some tokens, and
children that are entries up to silent ones. -/
inductive Entry.Stairs (last : List Token) (children : List Entry) : List (List Token) → Entry → Prop
  | last {line next : Nat} {children' : List Entry} (inside : PaddedEntries children children') :
    Entry.Stairs last children [] (.mk line next last children' none)
  | head {line next : Nat} {head : List Token} {tokens : List (List Token)} {e : Entry}
    (inside : e.Stairs last children tokens) :
    Entry.Stairs last children (head :: tokens) (.mk line next head [e] none)

/-- **The entries of nested tags hold each other.** -/
theorem exists_arrange_stairs (finish finish' : Nat) {last : List Token} {rest lines : List Line}
    (hrest : ∀ l ∈ rest, 0 < l.depth) (tokens : List (List Token)) (level : Nat)
    (hlines : lines.map Line.shape = Nest.placed last (rest.map Line.shape) level tokens) :
    ∃ e, Entry.arrange finish' lines = [(level, e)] ∧
      e.Stairs last ((Entry.arrange finish rest).map (·.2)) tokens := by
  induction tokens generalizing level lines with
  | nil =>
    obtain ⟨l, below, rfl, hl, hbelow⟩ := List.map_eq_cons_iff.mp hlines
    cases hl
    rw [List.map_map] at hbelow
    -- All that stands below is deeper, as it was below the one line.
    have hdeeper : ∀ l' ∈ below, l.depth < l'.depth := by
      intro l' hl'
      have hmem : l'.shape ∈ below.map Line.shape := List.mem_map_of_mem hl'
      rw [hbelow] at hmem
      obtain ⟨l'', hl'', heq⟩ := List.mem_map.mp hmem
      have hdepth : l''.depth + l.depth = l'.depth := congrArg Prod.fst heq
      have := hrest l'' hl''
      omega
    obtain ⟨next, heq⟩ := exists_arrange_of_deeper finish' hdeeper
    exact ⟨_, heq, .last (paddedEntries_of_deepen l.depth finish finish' hbelow)⟩
  | cons head tokens ih =>
    obtain ⟨l, below, rfl, hl, hbelow⟩ := List.map_eq_cons_iff.mp hlines
    cases hl
    have hdeeper : ∀ l' ∈ below, l.depth < l'.depth := by
      intro l' hl'
      have hmem : l'.shape ∈ below.map Line.shape := List.mem_map_of_mem hl'
      rw [hbelow] at hmem
      exact Nest.lt_of_mem_placed _ _ tokens (Nat.lt_succ_self _) _ hmem
    obtain ⟨next, heq⟩ := exists_arrange_of_deeper finish' hdeeper
    obtain ⟨e, he, hstairs⟩ := ih _ hbelow
    rw [he] at heq
    exact ⟨_, heq, .head hstairs⟩

/-! ### The reader -/

/-- The parts of a head give attributes, or they are faulty, whatever stands behind them. -/
theorem exists_readTag_append (name : String) {parts : List Token} (h : ∀ t ∈ parts, t.IsPart)
    (attributes : List Attribute) : ∃ r : Except ParseFault (List Attribute),
      ∀ rest, Head.readTag name attributes (parts ++ rest) = r >>= fun all => Head.readTag name all rest := by
  induction parts generalizing attributes with
  | nil => exact ⟨.ok attributes, fun _ => rfl⟩
  | cons t parts ih =>
    obtain ⟨hpart, hparts⟩ := List.forall_mem_cons.mp h
    cases hpart with
    | idName id =>
      obtain ⟨r, hr⟩ := ih hparts (attributes ++ [fixedAttribute "id" id])
      exact ⟨r, fun rest => by rw [List.cons_append, Head.readTag, hr]⟩
    | className c =>
      obtain ⟨r, hr⟩ := ih hparts (attributes ++ [fixedAttribute "class" c])
      exact ⟨r, fun rest => by rw [List.cons_append, Head.readTag, hr]⟩
    | attributes list =>
      cases hlist : readEach attributeOf list with
      | error fault =>
        refine ⟨.error fault, fun rest => ?_⟩
        rw [List.cons_append, Head.readTag, hlist]
        rfl
      | ok more =>
        obtain ⟨r, hr⟩ := ih hparts (attributes ++ more)
        refine ⟨r, fun rest => ?_⟩
        rw [List.cons_append, Head.readTag, hlist, ← hr]
        rfl

/-- The statement gives one node, if any. -/
def Head.GivesOne (h : Head) : Prop :=
  ∀ (s : Surroundings) (line : Nat) (parts : Parts) (p q : Progress) (ns : List Node),
    h.nodes s line parts p = .ok ns q → ∃ n, ns = [n]

theorem givesOne_leaf (n : Node) : (Head.leaf n).GivesOne := by
  intro s line parts p q ns hns
  rw [Head.nodes] at hns
  obtain ⟨_, _, -, hns⟩ := of_bind_eq_result hns
  obtain ⟨_, _, -, hns⟩ := of_bind_eq_result hns
  cases hns
  exact ⟨n, rfl⟩

theorem givesOne_tag (name : String) (attributes : List Attribute) (content : List Node) :
    (Head.tag name attributes content).GivesOne := by
  intro s line parts p q ns hns
  rw [Head.nodes] at hns
  obtain ⟨_, _, -, hns⟩ := of_bind_eq_result hns
  obtain ⟨_, _, -, hns⟩ := of_bind_eq_result hns
  cases hns
  exact ⟨_, rfl⟩

theorem givesOne_tagAround (name : String) (attributes : List Attribute) (inner : Head) :
    (Head.tagAround name attributes inner).GivesOne := by
  intro s line parts p q ns hns
  rw [Head.nodes] at hns
  obtain ⟨_, _, -, hns⟩ := of_bind_eq_result hns
  cases hns
  exact ⟨_, rfl⟩

/-- **A tag is one node**, whatever stands behind its name. -/
theorem givesOne_of_readTag {name : String} {attributes : List Attribute} {tokens : List Token} {h : Head}
    (hread : Head.readTag name attributes tokens = .ok h) : h.GivesOne := by
  induction tokens generalizing attributes with
  | nil =>
    cases hread
    exact givesOne_tag _ _ _
  | cons t tokens ih =>
    cases t with
    | idName id => exact ih hread
    | className c => exact ih hread
    | attributes list =>
      rw [Head.readTag] at hread
      obtain ⟨more, -, hread⟩ := of_bind_eq_ok hread
      exact ih hread
    | selfClose =>
      rw [Head.readTag] at hread
      obtain ⟨_, -, hread⟩ := of_bind_eq_ok hread
      cases hread
      exact givesOne_leaf _
    | colon =>
      rw [Head.readTag] at hread
      obtain ⟨inner, -, hread⟩ := of_bind_eq_ok hread
      cases hread
      exact givesOne_tagAround _ _ _
    | text | textBlock | output =>
      rw [Head.readTag] at hread
      obtain ⟨_, -, hread⟩ := of_bind_eq_ok hread
      obtain ⟨_, -, hread⟩ := of_bind_eq_ok hread
      cases hread
      exact givesOne_tag _ _ _
    | _ => cases hread

section
variable {s : Surroundings} {p q : Progress} {ns : List Node}

theorem readEntry_eq_ok_iff {line next : Nat} {t : Token} {rest : List Token} {children : List Entry}
    {alternative : Option Entry} : readEntry s (.mk line next (t :: rest) children alternative) p = .ok ns q ↔
      ∃ h, Head.read (t :: rest) = .ok h ∧ h.nodes s line (partsOf s children alternative) p = .ok ns q := by
  refine ⟨of_readEntry, ?_⟩
  rintro ⟨h, hread, hns⟩
  rw [readEntry, hread]
  · exact hns
  · exact nofun

/-- The statement of a tag gives one node, so there is nothing to join. -/
theorem readEntries_tag (s : Surroundings) {e : Entry} (he : ∃ name rest, e.tokens = .tag name :: rest) :
    readEntries s [e] = readEntry s e := by
  obtain ⟨line, next, tokens, children, alternative⟩ := e
  obtain ⟨name, rest, rfl⟩ := he
  funext p
  rw [readEntries]
  show EStateM.bind (readEntry s _) (fun ns => EStateM.bind (readEntries s []) fun more => _) p = _
  unfold EStateM.bind
  cases hns : readEntry s (.mk line next (.tag name :: rest) children alternative) p with
  | error e q => rfl
  | ok ns q =>
    obtain ⟨h, hread, hns⟩ := readEntry_eq_ok_iff.mp hns
    rw [Head.read] at hread
    obtain ⟨n, rfl⟩ := givesOne_of_readTag hread _ _ _ _ _ _ hns
    cases n <;> rfl

variable {line next : Nat} {name : String} {parts : List Token} {r : Except ParseFault (List Attribute)}
  (hr : ∀ rest, Head.readTag name [] (parts ++ rest) = r >>= fun all => Head.readTag name all rest)
include hr

/-- **A statement behind a colon** is what the tag in front holds. -/
theorem readEntry_colon_iff {t : Token} {rest : List Token} {children : List Entry}
    {alternative : Option Entry} :
    readEntry s (.mk line next (.tag name :: parts ++ .colon :: t :: rest) children alternative) p =
        .ok ns q ↔
      ∃ all inner, r = .ok all ∧ readEntry s (.mk line next (t :: rest) children alternative) p = .ok inner q ∧
        ns = [.tag name all false inner] := by
  rw [List.cons_append, readEntry_eq_ok_iff, Head.read, hr]
  constructor
  · rintro ⟨h, hread, hns⟩
    obtain ⟨all, hall, hread⟩ := of_bind_eq_ok hread
    rw [Head.readTag] at hread
    obtain ⟨inner, hinner, hread⟩ := of_bind_eq_ok hread
    cases hread
    rw [Head.nodes] at hns
    obtain ⟨held, between, hheld, hns⟩ := of_bind_eq_result hns
    cases hns
    exact ⟨all, held, hall, readEntry_eq_ok_iff.mpr ⟨inner, hinner, hheld⟩, rfl⟩
  · rintro ⟨all, held, rfl, hheld, rfl⟩
    obtain ⟨inner, hinner, hheld⟩ := readEntry_eq_ok_iff.mp hheld
    refine ⟨.tagAround name all inner, ?_, ?_⟩
    · show Head.readTag name all (.colon :: t :: rest) = _
      rw [Head.readTag, hinner]
      rfl
    · rw [Head.nodes]
      exact bind_eq_result hheld rfl

/-- A tag without anything behind its head holds its children. -/
theorem readEntry_alone_iff {children : List Entry} :
    readEntry s (.mk line next (.tag name :: parts) children none) p = .ok ns q ↔
      ∃ all inner, r = .ok all ∧ readEntries s children p = .ok inner q ∧
        ns = [.tag name all false inner] := by
  have hparts := hr []
  rw [List.append_nil] at hparts
  rw [readEntry_eq_ok_iff, Head.read, hparts]
  constructor
  · rintro ⟨h, hread, hns⟩
    obtain ⟨all, hall, hread⟩ := of_bind_eq_ok hread
    cases hread
    rw [Head.nodes] at hns
    obtain ⟨held, between, hheld, hns⟩ := of_bind_eq_result hns
    cases hns
    exact ⟨all, held, hall, hheld, rfl⟩
  · rintro ⟨all, held, rfl, hheld, rfl⟩
    refine ⟨.tag name all [], rfl, ?_⟩
    rw [Head.nodes]
    exact bind_eq_result hheld rfl

end

section
variable {s s' : Surroundings} {heads : List (List Char)} {tokens : List (List Token)}
  (htokens : List.Forall₂ IsTagHead heads tokens) {name : String} {last : List Token}
include htokens

/-- The line of the tags begins with a tag. -/
theorem exists_chainedTokens :
    ∃ first rest, Nest.chainedTokens (.tag name :: last) tokens = .tag first :: rest := by
  cases htokens with
  | nil => exact ⟨name, last, rfl⟩
  | cons hfirst =>
    obtain ⟨first, parts, rfl, -⟩ := exists_parts_of_tagHead hfirst.reads
    exact ⟨first, _, rfl⟩

variable {children : List Entry} {e : Entry} (he : e.Stairs (.tag name :: last) children tokens)
include he

/-- The entries that hold each other are those of tags. -/
theorem Entry.Stairs.exists_tag : ∃ first rest, e.tokens = .tag first :: rest := by
  cases he with
  | last => exact ⟨name, last, rfl⟩
  | head =>
    cases htokens with
    | cons hfirst =>
      obtain ⟨first, parts, rfl, -⟩ := exists_parts_of_tagHead hfirst.reads
      exact ⟨first, parts, rfl⟩

/-- **Tags in one line are read as the tags that hold each other.** The induction is on the tags in
front. -/
theorem readEntry_stairs (hs : s.Matches s') (line next : Nat) :
    Matches (readEntry s (.mk line next (Nest.chainedTokens (.tag name :: last) tokens) children none))
      (readEntry s' e) := by
  induction he generalizing heads with
  | last inside => exact readEntry_matches hs _ _ (.mk inside .none)
  | @head line' next' head tokens e inside ih =>
    cases htokens with
    | cons hfirst hlater =>
      obtain ⟨first, parts, rfl, hparts⟩ := exists_parts_of_tagHead hfirst.reads
      obtain ⟨r, hr⟩ := exists_readTag_append first hparts []
      obtain ⟨second, rest, hrest⟩ : ∃ second rest,
          Nest.chainedTokens (.tag name :: last) tokens = .tag second :: rest := exists_chainedTokens hlater
      have hinner := ih hlater
      rw [hrest] at hinner
      -- The parts of the head are read first on both sides, and then what the tag holds.
      refine ⟨fun p ns q => ?_⟩
      rw [Nest.chainedTokens, hrest, readEntry_colon_iff hr, readEntry_alone_iff hr,
        readEntries_tag s' (inside.exists_tag hlater)]
      simp only [hinner.iff]

end

/-! ### Whole templates -/

/-- A template of one tag is read as the entry of that. -/
theorem readDocument_tag (s : Surroundings) {layout : Layout} {e : Entry}
    (h : Entry.arrange layout.finish.line layout.lines = [(0, e)])
    (he : ∃ name rest, e.tokens = .tag name :: rest) :
    readDocument s layout = collecting (readEntry s e) := by
  rw [← readEntries_tag s he]
  obtain ⟨line, next, tokens, children, alternative⟩ := e
  obtain ⟨name, rest, rfl⟩ := he
  have hforest : Entry.forest layout = [.mk line next (.tag name :: rest) children alternative] :=
    congrArg _ h
  unfold readDocument
  rw [hforest]
  cases hlines : layout.lines with
  | nil =>
    rw [hlines] at h
    cases h
  | cons l below =>
    obtain ⟨_, _, siblings, heq, -⟩ := arrange_cons layout.finish.line l below
    rw [hlines, heq] at h
    have hdepth : l.depth = 0 := congrArg Prod.fst (List.cons.inj h).1
    exact if_neg (by omega)

/-- The statements of a source. -/
theorem laid_source_iff {source : String} {ss : List (Nat × List Token)} :
    Laid .start 0 (Text.lines source.toList) ss ↔
      ∃ layout, Layout.scan source = .ok layout ∧ layout.lines.map Line.shape = ss :=
  laid_iff

namespace Nest

variable (x : Nest) {source source' : String} (h : Text.lines source.toList = x.expanded)
  (h' : Text.lines source'.toList = x.nested)
include h h'

/-- **Tags in one line and nested tags are scanned alike**: the lines below have the same statements, or
neither can be scanned. -/
theorem scan_cases {s : Statement} (hstatement : IsTagStatement x.statement s) {tokens : List (List Token)}
    (htokens : List.Forall₂ IsTagHead x.heads tokens) :
    (∃ layout layout' later, Layout.scan source = .ok layout ∧ Layout.scan source' = .ok layout' ∧
      (∀ a ∈ later, 0 < a.1) ∧
      layout.lines.map Line.shape = (0, chainedTokens (s.withBlock (x.taken s)) tokens) :: later ∧
      layout'.lines.map Line.shape = placed (s.withBlock (x.taken s)) later 0 tokens) ∨
    (∀ layout, Layout.scan source ≠ .ok layout) ∧ ∀ layout, Layout.scan source' ≠ .ok layout := by
  have hscan {ss : List (Nat × List Token)} : Laid .start 0 x.expanded ss ↔ _ :=
    x.laid_expanded_iff hstatement htokens
  have hscan' {ss : List (Nat × List Token)} : Laid .start 0 x.nested ss ↔ _ :=
    x.laid_stairs_iff hstatement htokens 0
  simp only [← h, ← h', laid_source_iff] at hscan hscan'
  -- Whether the source is scanned is told by the lines below, in both places.
  by_cases hbelow : ∃ later, Laid .start (x.taken s).length x.below later
  · obtain ⟨later, hlater⟩ := hbelow
    obtain ⟨layout, hlayout, hshape⟩ := hscan.mpr ⟨later, hlater, rfl⟩
    obtain ⟨layout', hlayout', hshape'⟩ := hscan'.mpr ⟨later, hlater, rfl⟩
    exact .inl ⟨layout, layout', later, hlayout, hlayout', hlater.depth_pos x.indentedWith_below,
      hshape, hshape'⟩
  · refine .inr ⟨fun layout hlayout => ?_, fun layout hlayout => ?_⟩
    · obtain ⟨later, hlater, -⟩ := hscan.mp ⟨layout, hlayout, rfl⟩
      exact hbelow ⟨later, hlater⟩
    · obtain ⟨later, hlater, -⟩ := hscan'.mp ⟨layout, hlayout, rfl⟩
      exact hbelow ⟨later, hlater⟩

/-- **Tags in one line and nested tags are read alike.** -/
theorem parse_nested_matches {s s' : Surroundings} (hs : s.Matches s') :
    Matches (s.parse source) (s'.parse source') where
  iff asked d asked' := by
    rw [parse_eq_ok_iff, parse_eq_ok_iff]
    obtain ⟨statement, hstatement⟩ := x.isTag
    obtain ⟨tokens, htokens⟩ := x.exists_tokens
    obtain ⟨name, last, hlast⟩ := hstatement.exists_tag (x.taken statement)
    rcases x.scan_cases h h' hstatement htokens with
      ⟨layout, layout', later, hscan, hscan', hlater, hshape, hshape'⟩ | ⟨hnone, hnone'⟩
    · obtain ⟨l, rest, hlines, hl, rfl⟩ := List.map_eq_cons_iff.mp hshape
      obtain ⟨hdepth, htokensLine⟩ := Prod.mk.inj hl
      have hdeeper : ∀ l' ∈ rest, 0 < l'.depth := fun l' hl' => hlater _ (List.mem_map_of_mem hl')
      obtain ⟨next, harrange⟩ := exists_arrange_of_deeper layout.finish.line (hdepth ▸ hdeeper)
      obtain ⟨e, harrange', hstairs⟩ :=
        exists_arrange_stairs layout.finish.line layout'.finish.line hdeeper tokens 0 hshape'
      rw [hlast] at htokensLine hstairs
      rw [htokensLine, hdepth, ← hlines] at harrange
      have hread := readDocument_tag s harrange (exists_chainedTokens htokens)
      have hread' := readDocument_tag s' harrange' (hstairs.exists_tag htokens)
      have hmatches := (collecting_matches
        (readEntry_stairs htokens hstairs hs l.position.line next)).iff asked d asked'
      constructor
      · rintro ⟨_, hscanned, hd⟩
        cases hscan.symm.trans hscanned
        rw [hread] at hd
        exact ⟨layout', hscan', hread' ▸ hmatches.mp hd⟩
      · rintro ⟨_, hscanned, hd⟩
        cases hscan'.symm.trans hscanned
        rw [hread'] at hd
        exact ⟨layout, hscan, hread ▸ hmatches.mpr hd⟩
    · exact ⟨fun ⟨layout, hscan, _⟩ => (hnone layout hscan).elim,
        fun ⟨layout, hscan, _⟩ => (hnone' layout hscan).elim⟩

end Nest

/-- **Tags in one line are read as nested tags.** For a row of tags, of which each but the last one is
alone on its line when they are nested, the source that has all tags in one line and the source that
nests them are read as the same document, the same nodes and the same mixins, or neither can be read.
This holds for whatever lines stand below the last tag, and also for the templates that refer to it. -/
theorem parse_expanded (x : Nest) (source source' : String) (h : Text.lines source.toList = x.expanded)
    (h' : Text.lines source'.toList = x.nested) :
    (∀ (s : Surroundings) (asked : List String) (d : Document) (asked' : List String),
      s.parse source asked = .ok d asked' ↔ s.parse source' asked = .ok d asked') ∧
    ∀ l l' : Library, l.Replaced source source' l' →
      ∀ name d, (l'.document name).1 = .ok d ↔ (l.document name).1 = .ok d := by
  refine ⟨fun s asked d asked' => ?_, fun l l' hl name d => ?_⟩
  · exact (x.parse_nested_matches h h' ⟨rfl, fun _ _ => .refl _, fun _ => .refl _⟩).iff _ _ _
  · exact hl.document_iff (fun s s' hs => x.parse_nested_matches h h' hs) name d

theorem isTagHead_ul : IsTagHead "ul".toList [.tag "ul"] where
  line := by decide
  opens := by cbv
  reads := by
    have hname : tagNameFrom "ul".toList = ['u', 'l'] := tagNameFrom_of_not fun _ h => by cases h
    exact tagHead_of_name rfl hname (List.cons_ne_nil _ _) headParts_nil

theorem isTagHead_li : IsTagHead "li.menu".toList [.tag "li", .className "menu"] where
  line := by decide
  opens := by cbv
  reads := by
    have hname : tagNameFrom "li.menu".toList = ['l', 'i'] := tagNameFrom_of_not fun _ h => by cases h
    exact tagHead_of_name rfl hname (List.cons_ne_nil _ _) (headParts_of_part rfl headParts_nil)

theorem isTagStatement_p : IsTagStatement "p.".toList ⟨[.tag "p"], .text, []⟩ where
  oneLine := by decide
  opens := by cbv
  reads := by
    have hopens : OpensText (['p'] ++ ['.']) [.tag "p"] :=
      .tag rfl (tagNameFrom_of_not fun _ h => by cases h)
    exact hopens.readStatement

/-- An item of a menu with a text. -/
def menuItem : Nest where
  heads := ["ul".toList, "li.menu".toList]
  statement := "p.".toList
  block := ["some".toList, "  text".toList]
  unit := ' '
  size := 2
  areHeads := List.forall_mem_cons.mpr ⟨⟨_, isTagHead_ul⟩, List.forall_mem_singleton.mpr ⟨_, isTagHead_li⟩⟩
  isTag := ⟨_, isTagStatement_p⟩
  indents := rfl
  deeper := Nat.two_pos

/-- What the item is read as. The tag around its text is the innermost one. -/
def menuNodes : List Node :=
  [.tag "ul" [] false [.tag "li" [fixedAttribute "class" "menu"] false
    [.tag "p" [] false [.text [.literal "some\n  text"]]]]]

theorem document_menuItem :
    ((indexPage "ul: li.menu: p.\n  some\n    text").document "index").1 = .ok ⟨menuNodes, []⟩ := by
  have hlines : Text.lines "ul: li.menu: p.\n  some\n    text".toList = menuItem.expanded := by cbv
  have htokens : List.Forall₂ IsTagHead menuItem.heads [[.tag "ul"], [.tag "li", .className "menu"]] :=
    .cons isTagHead_ul (.cons isTagHead_li .nil)
  have htaken : menuItem.taken ⟨[.tag "p"], .text, []⟩ = menuItem.below := by cbv
  have hbelow : Laid .start (menuItem.taken ⟨[.tag "p"], .text, []⟩).length menuItem.below [] := by
    rw [htaken]
    exact .used (.used .done)
  have hlaid := (menuItem.laid_expanded_iff isTagStatement_p htokens).mpr ⟨[], hbelow, rfl⟩
  rw [← hlines] at hlaid
  obtain ⟨layout, hscan, hshape⟩ := laid_source_iff.mp hlaid
  have hblock : Statement.withBlock ⟨[.tag "p"], .text, []⟩ menuItem.below =
      [.tag "p", .textBlock ["some", "  text"]] := by cbv
  rw [htaken, hblock] at hshape
  obtain ⟨l, rest, hline, hl, hrest⟩ := List.map_eq_cons_iff.mp hshape
  obtain rfl := List.map_eq_nil_iff.mp hrest
  obtain ⟨hdepth, hwords⟩ := Prod.mk.inj hl
  have harrange : Entry.arrange layout.finish.line layout.lines =
      [(0, .mk l.position.line layout.finish.line l.tokens [] none)] := by
    rw [hline, ← hdepth]
    rfl
  rw [hwords] at harrange
  refine Library.document_eq_ok_iff.mpr ⟨_, layout, ["index"], rfl, hscan, ?_⟩
  have hread : Head.read (Nest.chainedTokens [.tag "p", .textBlock ["some", "  text"]]
      [[.tag "ul"], [.tag "li", .className "menu"]]) =
      .ok (.tagAround "ul" [] (.tagAround "li" [fixedAttribute "class" "menu"]
        (.tag "p" [] [.text [.literal "some\n  text"]]))) := by cbv
  rw [readDocument_tag _ harrange ⟨_, _, rfl⟩, collecting_eq]
  have hnodes (s : Surroundings) (p : Progress) : readEntry s (.mk l.position.line layout.finish.line
      (Nest.chainedTokens [.tag "p", .textBlock ["some", "  text"]]
        [[.tag "ul"], [.tag "li", .className "menu"]]) [] none) p = .ok menuNodes p :=
    readEntry_eq_ok_iff.mpr ⟨_, hread, rfl⟩
  dsimp only
  rw [hnodes]
  rfl

/-- Two libraries of one page. -/
theorem replaced_indexPage (source source' : String) :
    (indexPage source).Replaced source source' (indexPage source') where
  names := rfl
  source name := by
    by_cases hname : name = "index"
    · subst hname
      exact .inr ⟨by cbv, rfl, rfl⟩
    · exact .inl (by simp [indexPage, hname])

/-- The item in three lines is read as the item in one line. -/
theorem parse_expanded_menuItem :
    Text.lines "ul: li.menu: p.\n  some\n    text".toList = menuItem.expanded ∧
      Text.lines "ul\n  li.menu\n    p.\n      some\n        text".toList = menuItem.nested ∧
      ((indexPage "ul\n  li.menu\n    p.\n      some\n        text").document "index").1 =
        .ok ⟨menuNodes, []⟩ := by
  have hexpanded : Text.lines "ul: li.menu: p.\n  some\n    text".toList = menuItem.expanded := by cbv
  have hnested : Text.lines "ul\n  li.menu\n    p.\n      some\n        text".toList = menuItem.nested := by
    cbv
  have hdocument := (parse_expanded menuItem _ _ hexpanded hnested).2 _ _ (replaced_indexPage _ _) "index"
  exact ⟨hexpanded, hnested, (hdocument _).mpr document_menuItem⟩

end Trellis
