import Trellis.Source.Layout

/-!
# `Trellis.Proofs.Levels`: the levels that the lines of a template open and close

The scanner keeps the widths of the open levels, the innermost first. A line opens one
more level inside them, or closes some of the inner ones and stands on what is left:
`Moves` says so of one line, and `Run` of all lines from some open levels on. `Run` also
says that nothing stands deeper than a silent comment, which is a line without tokens: what
stands deeper was discarded with it. `run_of_scan` states that every scan is such a run.

In the stream of tokens the levels show as indents and outdents. `openColumns?` reads a
stream from the left and keeps the columns of the open levels. It gets stuck where an
outdent has no level to close, and where an item of a line does not stand at the column of
the innermost level. `openColumns?_items` states that the stream of a run does not get
stuck and leaves no level open. All that is to be said of levels follows from this:

* `balanced_items`: indents and outdents are balanced;
* `column_of_openColumns?`: between an indent and its outdent, whatever stands directly in
  that level has the column of the indent.
-/

set_option autoImplicit false

namespace Trellis.Source

open Text

/-! ### What one line does -/

/-- The levels that a line leads to: one more inside those that are open, or the outer part
of those. -/
inductive Moves : List Nat → List Nat → Prop
  | deeper {widths : List Nat} {width : Nat} (h : widths.headD 0 < width) :
    Moves widths (width :: widths)
  | back {widths kept : List Nat} (h : kept <:+ widths) : Moves widths kept

/-- A line opens one level at most. -/
theorem Moves.length_le {widths inside : List Nat} (h : Moves widths inside) :
    inside.length ≤ widths.length + 1 := by
  cases h with
  | deeper => simp
  | back h => exact Nat.le_succ_of_le h.length_le

theorem Margin.width_eq_headD (m : Margin) : m.width = m.widths.headD 0 := by
  unfold Margin.width
  cases m.widths <;> rfl

/-- Moving to a width opens a level of that width, or closes all that are wider and leaves
one of that width. -/
theorem Margin.moveTo_cases {m after : Margin} {width : Nat} (h : m.moveTo width = .ok after) :
    (m.width < width ∧ after = { m with widths := width :: m.widths }) ∨
      (width ≤ m.width ∧ after.width = width ∧
        after = { m with widths := m.widths.dropWhile (· > width) }) := by
  unfold Margin.moveTo at h
  split at h
  · next hdeeper =>
    cases h
    exact .inl ⟨hdeeper, rfl⟩
  · next hnot =>
    dsimp only at h
    split at h
    · next hwidth =>
      cases h
      exact .inr ⟨Nat.le_of_not_gt hnot, hwidth, rfl⟩
    · cases h

/-- Moving to a width changes the levels only, and the innermost of them is then that
width. -/
theorem Margin.moves_of_moveTo {m after : Margin} {width : Nat}
    (h : m.moveTo width = .ok after) :
    Moves m.widths after.widths ∧ after.width = width ∧ after.unit = m.unit := by
  rcases Margin.moveTo_cases h with ⟨hdeeper, rfl⟩ | ⟨-, hwidth, rfl⟩
  · rw [Margin.width_eq_headD] at hdeeper
    exact ⟨.deeper hdeeper, rfl, rfl⟩
  · exact ⟨.back (List.dropWhile_suffix _), hwidth, rfl⟩

/-- Taking note of the character that indents leaves the levels alone. -/
theorem Margin.widths_of_checkUnit {m after : Margin} {indent : List Char}
    (h : m.checkUnit indent = .ok after) : after.widths = m.widths := by
  unfold Margin.checkUnit at h
  grind

/-! ### Silent comments -/

/-- Only a silent comment begins a statement that says nothing. -/
theorem below_of_opening {cs : List Char} {s : Statement} (h : opening cs = .ok (.whole s))
    (htokens : s.tokens = []) : s.below = .discarded := by
  -- Every other way to read a statement to its end gives it a token.
  have single (x : Except ScanFault Token) (rest : List Char)
      (hx : (x.map fun t => Opening.whole ⟨[t], .statements, rest⟩) = .ok (.whole s)) :
      s.below = .discarded := by
    cases x with
    | error => cases hx
    | ok t => cases hx; cases htokens
  have hfilter (text : List Char)
      (hx : (filterStatement text).map Opening.whole = .ok (.whole s)) : s.below = .discarded := by
    cases hf : filterStatement text with
    | error => rw [hf] at hx; cases hx
    | ok f =>
      rw [hf] at hx
      cases hx
      unfold filterStatement at hf
      grind
  have hword (hx : openingWord cs = .ok (.whole s)) : s.below = .discarded := by
    unfold openingWord at hx
    grind
  unfold opening at h
  dsimp only at h
  split at h
  all_goals first
    | exact single _ _ h
    | exact hfilter _ h
    | exact hword h
    | grind

/-- Only a silent comment is a statement that says nothing. -/
theorem below_of_readStatement {cs : List Char} {s : Statement} (h : readStatement cs = .ok s)
    (htokens : s.tokens = []) : s.below = .discarded := by
  rw [readStatement] at h
  split at h
  · cases h
  · next hopening =>
    cases h
    exact below_of_opening hopening htokens
  · split at h
    · cases h
    · split at h
      · next child _ =>
        cases hchild : readStatement child with
        | error => rw [hchild] at h; cases h
        | ok s' => rw [hchild] at h; cases h; cases htokens
      · split at h
        · cases h; cases htokens
        · cases h
  · split at h
    · cases h
    · next tokens rest hhead =>
      -- The name of the tag is there in any case.
      have hne : tokens ≠ [] := by
        unfold tagHead at hhead
        grind
      split at h
      · next child _ =>
        cases hchild : readStatement child with
        | error => rw [hchild] at h; cases h
        | ok s' =>
          rw [hchild] at h
          cases h
          exact absurd (List.append_eq_nil_iff.mp htokens).1 hne
      · cases htail : tagTail (currentLine rest) with
        | error => rw [htail] at h; cases h
        | ok tail =>
          rw [htail] at h
          cases h
          exact absurd (List.append_eq_nil_iff.mp htokens).1 hne

/-- A block of text is a token of its own, so a line that says nothing has none. -/
theorem tokens_of_withBlock {s : Statement} {lines : List (List Char)}
    (h : s.withBlock lines = []) : s.tokens = [] := by
  unfold Statement.withBlock at h
  split at h
  · exact (List.append_eq_nil_iff.mp h).1
  · exact h

/-! ### Deeper lines -/

/-- The first line that is not blank. -/
def firstStatement? (lines : List (List Char)) : Option (List Char) :=
  lines.find? fun line => !isBlankText line

/-- Only blank lines are left out at the end. -/
theorem append_of_dropLastBlank (lines : List (List Char)) :
    ∃ blank, lines = dropLastBlank lines ++ blank ∧ ∀ line ∈ blank, isBlankText line = true := by
  induction lines with
  | nil => exact ⟨[], rfl, by simp⟩
  | cons line rest ih =>
    obtain ⟨blank, hrest, hblank⟩ := ih
    rw [dropLastBlank]
    split
    · next hnil =>
      rw [hnil, List.nil_append] at hrest
      subst hrest
      split
      · next hline =>
        refine ⟨line :: rest, rfl, ?_⟩
        simpa [hline] using hblank
      · exact ⟨rest, rfl, hblank⟩
    · exact ⟨blank, by rw [List.cons_append, ← hrest], hblank⟩

/-- Behind the deeper lines, the next line that is not blank is not deeper. -/
theorem indent_of_firstStatement? {width : Nat} {below : List (List Char)} {line : List Char}
    (h : firstStatement? (below.drop (deeperLines width below).length) = some line) :
    (indentOf line).length ≤ width := by
  let deep : List Char → Bool := fun line => isBlankText line || width < (indentOf line).length
  obtain ⟨blank, hdeep, hblank⟩ := append_of_dropLastBlank (below.takeWhile deep)
  have hbelow : below = deeperLines width below ++ (blank ++ below.dropWhile deep) := by
    rw [← List.append_assoc]
    show below = dropLastBlank (below.takeWhile deep) ++ blank ++ below.dropWhile deep
    rw [← hdeep, List.takeWhile_append_dropWhile]
  have hdrop : below.drop (deeperLines width below).length = blank ++ below.dropWhile deep :=
    calc below.drop (deeperLines width below).length
        = (deeperLines width below ++ (blank ++ below.dropWhile deep)).drop
            (deeperLines width below).length := by rw [← hbelow]
      _ = blank ++ below.dropWhile deep := List.drop_left
  have hnone : blank.find? (fun line => !isBlankText line) = none := by
    rw [List.find?_eq_none]
    intro line hline
    simp [hblank line hline]
  rw [firstStatement?, hdrop, List.find?_append, hnone, Option.none_or] at h
  cases hrest : below.dropWhile deep with
  | nil => rw [hrest] at h; cases h
  | cons first rest =>
    -- The first line that is neither blank nor deeper is what is found.
    have hfirst : deep first = false := by
      have := List.head?_dropWhile_not deep below
      rw [hrest] at this
      simpa using this
    obtain ⟨hink, hindent⟩ := Bool.or_eq_false_iff.mp hfirst
    rw [hrest, List.find?_cons, hink] at h
    cases h
    simpa using hindent

/-! ### What all lines do -/

/-- Lines that begin when the levels `widths` are open. -/
inductive Run : List Nat → List Line → Prop
  | done {widths : List Nat} : Run widths []
  | line {widths inside : List Nat} {l : Line} {rest : List Line} (moves : Moves widths inside)
    (depth : l.depth = inside.length) (column : l.position.column = inside.headD 0 + 1)
    (silent : l.tokens = [] → ∀ n ∈ rest.head?, n.position.column ≤ l.position.column)
    (later : Run inside rest) : Run widths (l :: rest)

/-- A statement that could be placed: its line stands on the levels to which it moves, and
if it says nothing, the next line behind what it uses up is not deeper. -/
theorem run_of_placeStatement {m : Margin} {number : Nat} {raw : List Char}
    {below : List (List Char)} {p : Placed} (h : placeStatement m number raw below = .ok p) :
    Moves m.widths p.margin.widths ∧ p.line.depth = p.margin.widths.length ∧
      p.line.position = ⟨number, p.margin.widths.headD 0 + 1⟩ ∧
      p.line.position.column = (indentOf raw).length + 1 ∧
      (p.line.tokens = [] → ∀ line, firstStatement? (below.drop p.used) = some line →
        (indentOf line).length + 1 ≤ p.line.position.column) := by
  unfold placeStatement at h
  dsimp only at h
  split at h
  · cases h
  next unit hunit =>
  split at h
  · cases h
  next margin hmove =>
  split at h
  · cases h
  next s hstatement =>
  cases h
  obtain ⟨hmoves, hwidth, -⟩ := Margin.moves_of_moveTo hmove
  rw [Margin.widths_of_checkUnit hunit] at hmoves
  rw [Margin.width_eq_headD] at hwidth
  refine ⟨hmoves, rfl, by rw [hwidth], rfl, ?_⟩
  intro htokens line hline
  have hdiscarded := below_of_readStatement hstatement (tokens_of_withBlock htokens)
  rw [if_neg (by simp [hdiscarded]), ← List.drop_drop] at hline
  exact Nat.succ_le_succ (indent_of_firstStatement? hline)

/-- The first line that is scanned is the first one that is not blank among those that are
not used up. -/
theorem column_of_scanFrom {m : Margin} {number skip : Nat} {last : Position}
    {lines : List (List Char)} {l : Layout} (h : Layout.scanFrom m number last skip lines = .ok l) :
    ∀ n ∈ l.lines.head?, ∃ raw, firstStatement? (lines.drop skip) = some raw ∧
      n.position.column = (indentOf raw).length + 1 := by
  induction lines generalizing m number last skip l with
  | nil =>
    rw [Layout.scanFrom] at h
    cases h
    intro n hn
    cases hn
  | cons raw below ih =>
    cases skip with
    | succ k =>
      rw [Layout.scanFrom] at h
      exact ih h
    | zero =>
      rw [Layout.scanFrom] at h
      split at h
      · next hblank =>
        rw [List.drop_zero, firstStatement?, List.find?_cons_of_neg (by simp [hblank])]
        exact ih h
      · next hink =>
        split at h
        · cases h
        next p hp =>
        split at h
        · cases h
        cases h
        intro n hn
        cases hn
        refine ⟨raw, ?_, (run_of_placeStatement hp).2.2.2.1⟩
        rw [List.drop_zero, firstStatement?, List.find?_cons_of_pos (by simpa using hink)]

/-- **Every scan is a run.** -/
theorem run_of_scanFrom {m : Margin} {number skip : Nat} {last : Position}
    {lines : List (List Char)} {l : Layout} (h : Layout.scanFrom m number last skip lines = .ok l) :
    Run m.widths l.lines := by
  induction lines generalizing m number last skip l with
  | nil =>
    rw [Layout.scanFrom] at h
    cases h
    exact .done
  | cons raw below ih =>
    cases skip with
    | succ k =>
      rw [Layout.scanFrom] at h
      exact ih h
    | zero =>
      rw [Layout.scanFrom] at h
      split at h
      · exact ih h
      split at h
      · cases h
      next p hp =>
      split at h
      · cases h
      next rest hrest =>
      cases h
      obtain ⟨hmoves, hdepth, hposition, -, hsilent⟩ := run_of_placeStatement hp
      refine .line hmoves hdepth (by rw [hposition]) ?_ (ih hrest)
      intro htokens n hn
      obtain ⟨line, hline, hcolumn⟩ := column_of_scanFrom hrest n hn
      rw [hcolumn]
      exact hsilent htokens line hline

theorem run_of_scan {source : String} {l : Layout} (h : Layout.scan source = .ok l) :
    Run [] l.lines :=
  run_of_scanFrom h

/-! ### Levels in the stream -/

/-- Reads a stream when levels with the given columns are open, the innermost first. Gives
the columns of the levels that are open behind it, unless an outdent closes no level or an
item of a line does not stand at the column of the innermost level. -/
def openColumns? (columns : List Nat) : List (Position × Item) → Option (List Nat)
  | [] => some columns
  | (p, .indent) :: rest => openColumns? (p.column :: columns) rest
  | (_, .outdent) :: rest =>
    match columns with
    | [] => none
    | _ :: outer => openColumns? outer rest
  | (_, .finish) :: rest => openColumns? columns rest
  | (p, .newline) :: rest =>
    if p.column = columns.headD 1 then openColumns? columns rest else none
  | (p, .token _) :: rest =>
    if p.column = columns.headD 1 then openColumns? columns rest else none

theorem openColumns?_append (columns : List Nat) (is more : List (Position × Item)) :
    openColumns? columns (is ++ more) =
      (openColumns? columns is).bind fun inside => openColumns? inside more := by
  fun_induction openColumns? columns is with
  | case1 => rfl
  | case2 _ p rest ih => simpa only [List.cons_append, openColumns?] using ih
  | case3 p rest => rfl
  | case4 _ rest c outer ih => simpa only [List.cons_append, openColumns?] using ih
  | case5 _ _ rest ih => simpa only [List.cons_append, openColumns?] using ih
  | case6 _ p rest h ih => simpa only [List.cons_append, openColumns?, if_pos h] using ih
  | case7 _ p rest h => simp only [List.cons_append, openColumns?, if_neg h, Option.bind_none]
  | case8 _ p _ rest h ih => simpa only [List.cons_append, openColumns?, if_pos h] using ih
  | case9 _ p _ rest h => simp only [List.cons_append, openColumns?, if_neg h, Option.bind_none]

/-- What was read in front of more can be read. -/
theorem openColumns?_of_append {columns inside : List Nat} {is more : List (Position × Item)}
    (h : openColumns? columns (is ++ more) = some inside) :
    ∃ between, openColumns? columns is = some between ∧ openColumns? between more = some inside := by
  rw [openColumns?_append] at h
  exact Option.bind_eq_some_iff.mp h

/-- The column of a width. -/
def columnsOf (widths : List Nat) : List Nat := widths.map (· + 1)

theorem headD_columnsOf (widths : List Nat) : (columnsOf widths).headD 1 = widths.headD 0 + 1 := by
  cases widths <;> rfl

/-- Outdents close the inner levels. -/
theorem openColumns?_outdents (p : Position) (inner outer : List Nat) :
    openColumns? (inner ++ outer)
      ((List.replicate inner.length Item.outdent).map fun i => (p, i)) = some outer := by
  induction inner with
  | nil => rfl
  | cons c inner ih => exact ih

/-- The items that lead to a line leave the levels of the line open. -/
theorem openColumns?_levelItems {widths inside : List Nat} (h : Moves widths inside)
    {p : Position} (hp : p.column = inside.headD 0 + 1) :
    openColumns? (columnsOf widths)
        ((levelItems widths.length inside.length).map fun i => (p, i)) =
      some (columnsOf inside) := by
  cases h with
  | @deeper width h =>
    rw [levelItems, if_pos (by simp)]
    show some (p.column :: columnsOf widths) = _
    rw [hp]
    rfl
  | back h =>
    obtain ⟨inner, rfl⟩ := h
    have hclosed : (inner ++ inside).length - inside.length = (columnsOf inner).length := by
      simp [columnsOf]
    rw [levelItems, if_neg (by simp), hclosed, columnsOf, List.map_append]
    exact openColumns?_outdents p _ _

/-- The items of a line, tokens and the line end, stand at its column. -/
theorem openColumns?_line {columns : List Nat} {p : Position} (hp : p.column = columns.headD 1)
    (ts : List Token) :
    openColumns? columns ((ts.map Item.token ++ [Item.newline]).map fun i => (p, i)) =
      some columns := by
  induction ts with
  | nil =>
    show (if p.column = columns.headD 1 then some columns else none) = _
    rw [if_pos hp]
  | cons t ts ih =>
    show (if p.column = columns.headD 1 then _ else none) = _
    rw [if_pos hp]
    exact ih

/-- The stream of a run can be read to its end, where no level is open. -/
theorem openColumns?_itemsFrom {widths : List Nat} {lines : List Line} (h : Run widths lines)
    (finish : Position) :
    openColumns? (columnsOf widths) (itemsFrom finish widths.length lines) = some [] := by
  induction h with
  | @done widths =>
    have hclosed : levelItems widths.length 0 = List.replicate (columnsOf widths).length .outdent := by
      rw [levelItems, if_neg (Nat.not_lt_zero _), columnsOf, List.length_map]
      rfl
    have houtdents := openColumns?_outdents finish (columnsOf widths) []
    rw [List.append_nil] at houtdents
    rw [itemsFrom, hclosed, List.map_append, openColumns?_append, houtdents]
    rfl
  | @line widths inside l rest moves depth column silent later ih =>
    have hlevels := openColumns?_levelItems moves column
    have hline :
        openColumns? (columnsOf inside)
          ((l.tokens.map Item.token ++ [Item.newline]).map fun i => (l.position, i)) =
            some (columnsOf inside) :=
      openColumns?_line (by rw [headD_columnsOf, column]) l.tokens
    rw [itemsFrom, Line.items, depth, List.append_assoc, List.map_append, List.append_assoc,
      openColumns?_append, hlevels, Option.bind_some, openColumns?_append, hline, Option.bind_some]
    exact ih

/-- **The stream of a template can be read to its end, where no level is open.** -/
theorem openColumns?_items {source : String} {l : Layout} (h : Layout.scan source = .ok l) :
    openColumns? [] l.items = some [] :=
  openColumns?_itemsFrom (run_of_scan h) l.finish

/-! ### What follows for the stream -/

/-- No beginning of the stream has more outdents than indents, and in total there are as
many of one as of the other. -/
structure Balanced (is : List Item) : Prop where
  covered : ∀ start, start <+: is → start.count .outdent ≤ start.count .indent
  settled : is.count .outdent = is.count .indent

/-- Reading a stream opens a level with every indent and closes one with every outdent. -/
theorem length_of_openColumns? {columns inside : List Nat} {is : List (Position × Item)}
    (h : openColumns? columns is = some inside) :
    inside.length + (is.map Prod.snd).count .outdent =
      columns.length + (is.map Prod.snd).count .indent := by
  fun_induction openColumns? columns is with
  | case1 => cases h; rfl
  | case2 _ p rest ih =>
    have := ih h
    simp at this ⊢
    omega
  | case3 => cases h
  | case4 _ rest c outer ih =>
    have := ih h
    simp
    omega
  | case5 _ _ rest ih => simpa using ih h
  | case6 _ p rest _ ih => simpa using ih h
  | case7 => cases h
  | case8 _ p t rest _ ih => simpa using ih h
  | case9 => cases h

/-- **Indents and outdents are balanced.** -/
theorem balanced_items {source : String} {l : Layout} (h : Layout.scan source = .ok l) :
    Balanced (l.items.map Prod.snd) := by
  have hread := openColumns?_items h
  constructor
  · intro start hstart
    -- A beginning of the stream can be read, too.
    obtain ⟨is, his, rfl⟩ := List.prefix_map_iff.mp hstart
    obtain ⟨more, hmore⟩ := his
    rw [← hmore] at hread
    obtain ⟨between, hbetween, -⟩ := openColumns?_of_append hread
    have hlength := length_of_openColumns? hbetween
    simp only [List.length_nil] at hlength
    omega
  · have hlength := length_of_openColumns? hread
    simpa using hlength

/-- As long as no beginning of a stream closes more than it opens, the levels that were open
before stay open. -/
theorem openColumns?_of_covered {inner outer inside : List Nat} {is : List (Position × Item)}
    (hread : openColumns? (inner ++ outer) is = some inside)
    (hcovered : ∀ start, start <+: is.map Prod.snd →
      start.count .outdent ≤ inner.length + start.count .indent) :
    ∃ kept, inside = kept ++ outer := by
  induction is generalizing inner with
  | nil =>
    cases hread
    exact ⟨inner, rfl⟩
  | cons item rest ih =>
    obtain ⟨p, i⟩ := item
    -- What holds of the beginnings of the whole stream holds behind its first item.
    have hlater (start : List Item) (hstart : start <+: rest.map Prod.snd) :
        (i :: start).count .outdent ≤ inner.length + (i :: start).count .indent :=
      hcovered (i :: start) (by simpa using hstart)
    cases i with
    | indent =>
      have hopened : openColumns? ((p.column :: inner) ++ outer) rest = some inside := hread
      refine ih hopened fun start hstart => ?_
      have := hlater start hstart
      simp at this ⊢
      omega
    | outdent =>
      cases inner with
      | nil =>
        have := hlater [] List.nil_prefix
        simp at this
      | cons c inner =>
        have hclosed : openColumns? (inner ++ outer) rest = some inside := hread
        refine ih hclosed fun start hstart => ?_
        have := hlater start hstart
        simp at this
        omega
    | newline =>
      simp only [openColumns?, Option.ite_none_right_eq_some] at hread
      exact ih hread.2 fun start hstart => by simpa using hlater start hstart
    | token t =>
      simp only [openColumns?, Option.ite_none_right_eq_some] at hread
      exact ih hread.2 fun start hstart => by simpa using hlater start hstart
    | finish => exact ih hread fun start hstart => by simpa using hlater start hstart

/-- A balanced stream leaves the levels as they were. -/
theorem openColumns?_of_balanced {columns inside : List Nat} {is : List (Position × Item)}
    (hread : openColumns? columns is = some inside) (h : Balanced (is.map Prod.snd)) :
    inside = columns := by
  have hnone : openColumns? ([] ++ columns) is = some inside := hread
  obtain ⟨kept, rfl⟩ := openColumns?_of_covered hnone
    fun start hstart => by simpa using h.covered start hstart
  have hlength := length_of_openColumns? hread
  have hsettled := h.settled
  simp only [List.length_append] at hlength
  cases kept with
  | nil => rfl
  | cons c kept =>
    simp only [List.length_cons] at hlength
    omega

/-- Is the item one of a line, a token or the line end? -/
def Item.isOfLine : Item → Bool
  | .newline => true
  | .token _ => true
  | _ => false

/-- **What stands directly in a level has the column of the indent that opened it.** -/
theorem column_of_openColumns? {columns inside : List Nat} {before between after : List (Position × Item)}
    {p q : Position} {i : Item}
    (hread : openColumns? columns
      (before ++ (p, .indent) :: (between ++ (q, i) :: after)) = some inside)
    (hbetween : Balanced (between.map Prod.snd)) (hi : i.isOfLine = true) :
    q.column = p.column := by
  obtain ⟨outer, -, hread⟩ := openColumns?_of_append hread
  have hinside : openColumns? (p.column :: outer) (between ++ (q, i) :: after) = some inside := hread
  obtain ⟨levels, hlevels, hread⟩ := openColumns?_of_append hinside
  rw [openColumns?_of_balanced hlevels hbetween] at hread
  cases i with
  | newline =>
    simp only [openColumns?, Option.ite_none_right_eq_some] at hread
    exact hread.1
  | token t =>
    simp only [openColumns?, Option.ite_none_right_eq_some] at hread
    exact hread.1
  | indent => cases hi
  | outdent => cases hi
  | finish => cases hi

/-! ### Line numbers -/

/-- No line number is less than one before it: those of the lines, and that of the end. -/
theorem lines_of_scanFrom {m : Margin} {number skip : Nat} {last : Position}
    {lines : List (List Char)} {l : Layout} (h : Layout.scanFrom m number last skip lines = .ok l)
    (hlast : last.line ≤ number) :
    (last.line :: (l.lines.map (·.position.line) ++ [l.finish.line])).Pairwise (· ≤ ·) := by
  induction lines generalizing m number last skip l with
  | nil =>
    rw [Layout.scanFrom] at h
    cases h
    simp
  | cons raw below ih =>
    cases skip with
    | succ k =>
      rw [Layout.scanFrom] at h
      exact ih h (by omega)
    | zero =>
      rw [Layout.scanFrom] at h
      -- What follows is not less than the number of this line, and so than the last one.
      have behind {ns : List Nat} (hns : (number :: ns).Pairwise (· ≤ ·)) :
          (last.line :: number :: ns).Pairwise (· ≤ ·) := by
        refine List.pairwise_cons.mpr ⟨fun n hn => ?_, hns⟩
        rcases List.mem_cons.mp hn with rfl | hn
        · exact hlast
        · exact Nat.le_trans hlast ((List.pairwise_cons.mp hns).1 n hn)
      split at h
      · have hrest := behind (ih h (Nat.le_succ number))
        exact hrest.sublist (.cons_cons _ (.cons _ (.refl _)))
      split at h
      · cases h
      next p hp =>
      split at h
      · cases h
      next rest hrest =>
      cases h
      have hnumber : p.line.position.line = number := by rw [(run_of_placeStatement hp).2.2.1]
      have := ih hrest (by omega)
      rw [hnumber] at this
      rw [List.map_cons, hnumber]
      exact behind this

theorem pairwise_of_eq {k : Nat} {ns : List Nat} (h : ∀ n ∈ ns, n = k) :
    ns.Pairwise (· ≤ ·) := by
  refine List.pairwise_iff_forall_sublist.mpr fun {a b} hab => ?_
  have ha := h a (hab.subset (by simp))
  have hb := h b (hab.subset (by simp))
  omega

/-- The items of the lines have the numbers of their lines. -/
theorem lines_of_itemsFrom {finish : Position} {before : Nat} {lines : List Line}
    (h : (lines.map (·.position.line) ++ [finish.line]).Pairwise (· ≤ ·)) :
    ((itemsFrom finish before lines).map (·.1.line)).Pairwise (· ≤ ·) ∧
      ∀ n ∈ (itemsFrom finish before lines).map (·.1.line),
        n ∈ lines.map (·.position.line) ++ [finish.line] := by
  induction lines generalizing before with
  | nil =>
    have hend : ∀ n ∈ (itemsFrom finish before []).map (·.1.line), n = finish.line := by
      intro n hn
      rw [itemsFrom, List.map_map] at hn
      obtain ⟨i, -, rfl⟩ := List.mem_map.mp hn
      rfl
    exact ⟨pairwise_of_eq hend, fun n hn => by simp [hend n hn]⟩
  | cons l rest ih =>
    rw [List.map_cons, List.cons_append, List.pairwise_cons] at h
    obtain ⟨hrest, hmem⟩ := @ih l.depth h.2
    have hline : ∀ n ∈ (l.items before).map (·.1.line), n = l.position.line := by
      intro n hn
      rw [Line.items, List.map_map] at hn
      obtain ⟨i, -, rfl⟩ := List.mem_map.mp hn
      rfl
    rw [itemsFrom, List.map_append]
    refine ⟨List.pairwise_append.mpr ⟨?_, hrest, ?_⟩, ?_⟩
    · exact pairwise_of_eq hline
    · intro a ha b hb
      rw [hline a ha]
      exact h.1 b (hmem b hb)
    · intro n hn
      rcases List.mem_append.mp hn with hn | hn
      · rw [hline n hn]
        simp
      · exact List.mem_cons_of_mem _ (hmem n hn)

/-- **Line numbers never decrease in the stream.** -/
theorem pairwise_line_items {source : String} {l : Layout} (h : Layout.scan source = .ok l) :
    (l.items.map (·.1.line)).Pairwise (· ≤ ·) :=
  (lines_of_itemsFrom (List.pairwise_cons.mp (lines_of_scanFrom h (Nat.zero_le 1))).2).1

end Trellis.Source
