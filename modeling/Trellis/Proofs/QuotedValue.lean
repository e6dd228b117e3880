import Trellis.Proofs.Embedding
import Trellis.Proofs.Printing
import Trellis.Proofs.StringLiterals
import Trellis.Proofs.Verbatim

/-!
# `Trellis.Proofs.QuotedValue`: quoted texts as values of attributes

Any text can be given to an attribute: with the signs of interpolations escaped, and written in double
quotes as in an expression. Five readers and writers take part, and each has one lemma here:

* `attributeValue_quotedText`: the reader of attribute lists finds the quote that ends the text.
* `quotedText?_quotedText`: the characters inside the quotes are those that were written.
* `interpolateQuoted_escapeSigns`: whether the text is searched for interpolations or not, it is fixed
  text. If it is not searched, then there was no sign to escape (`escapeSigns_of_find?`).
* `read_quotedAttribute`: the tag has one attribute, whose value is that text.
* `render_quotedTag`: the text is escaped once, as it is written.
-/

set_option autoImplicit false

namespace Trellis

open Source Text

/-! ### The end of the text -/

namespace Source

theorem newline_notMem_escapeChar (c : Char) : '\n' ∉ Expr.escapeChar c := by
  unfold Expr.escapeChar
  split
  case h_6 hline _ _ => simpa using Ne.symm hline
  all_goals decide

theorem newline_notMem_quotedText (s : String) : '\n' ∉ Expr.quotedText s := by
  simp [Expr.quotedText, newline_notMem_escapeChar]

/-- A character, as it is written inside quotes, leaves the reader inside them. -/
theorem readValue_escapeChar (c : Char) (last : Option Char) (value cs : List Char) :
    ∃ last', readValue ⟨0, some '"', false⟩ last value (Expr.escapeChar c ++ cs) =
      readValue ⟨0, some '"', false⟩ last' ((Expr.escapeChar c).reverse ++ value) cs := by
  unfold Expr.escapeChar
  split
  case h_6 hslash hquote hline _ _ =>
    refine ⟨if isBlank c then last else some c, ?_⟩
    have hc : c ≠ '\\' ∧ c ≠ '"' ∧ c ≠ '\n' := ⟨hslash, hquote, hline⟩
    rw [List.singleton_append, readValue]
    simp [Nesting.insideQuote, hc]
  all_goals exact ⟨_, by simp only [List.cons_append, List.nil_append]; rw [readValue, readValue]; rfl⟩

theorem readValue_flatMap_escapeChar (text : List Char) (last : Option Char) (value cs : List Char) :
    ∃ last', readValue ⟨0, some '"', false⟩ last value (text.flatMap Expr.escapeChar ++ cs) =
      readValue ⟨0, some '"', false⟩ last' ((text.flatMap Expr.escapeChar).reverse ++ value) cs := by
  induction text generalizing last value with
  | nil => exact ⟨last, rfl⟩
  | cons c text ih =>
    obtain ⟨between, hfirst⟩ := readValue_escapeChar c last value (text.flatMap Expr.escapeChar ++ cs)
    obtain ⟨last', hlater⟩ := ih between ((Expr.escapeChar c).reverse ++ value)
    refine ⟨last', ?_⟩
    rw [List.flatMap_cons, List.append_assoc, hfirst, hlater, List.reverse_append, List.append_assoc]

/-- **A quoted text in front of the closing parenthesis is read as a whole.** -/
theorem attributeValue_quotedText (s : String) (tail : List Char) :
    attributeValue (Expr.quotedText s ++ ')' :: tail) = .ok (Expr.quotedText s, ')' :: tail) := by
  let inner := s.toList.flatMap Expr.escapeChar
  have hquoted : Expr.quotedText s = ('"' :: inner) ++ ['"'] := rfl
  have hstart : (Expr.quotedText s ++ ')' :: tail).dropWhile (fun c => isIndent c || c == '\n') =
      '"' :: (inner ++ '"' :: ')' :: tail) := by
    rw [hquoted, List.append_assoc]
    rfl
  have htrim : trim (Expr.quotedText s) = Expr.quotedText s :=
    trimEnd_append_singleton rfl ('"' :: inner)
  obtain ⟨last, hinside⟩ := readValue_flatMap_escapeChar s.toList (some '"') ['"'] ('"' :: ')' :: tail)
  have hvalue : readValue .outside none [] ('"' :: (inner ++ '"' :: ')' :: tail)) =
      .ok (Expr.quotedText s, ')' :: tail) := by
    have hopen : readValue .outside none [] ('"' :: (inner ++ '"' :: ')' :: tail)) =
        readValue ⟨0, some '"', false⟩ (some '"') ['"'] (inner ++ '"' :: ')' :: tail) := by
      rw [readValue]
      rfl
    rw [hopen, hinside, hquoted]
    simp [readValue, Nesting.insideQuote, isQuote, opensBracket, closesBracket, inner]
  rw [attributeValue, hstart]
  dsimp only
  rw [hvalue]
  dsimp only
  rw [htrim, hquoted]
  rfl

end Source

/-! ### The text -/

/-- **The characters inside the quotes are those that were written.** -/
theorem quotedText?_quotedText (s : String) : quotedText? (Expr.quotedText s) = some s.toList := by
  unfold Expr.quotedText
  rw [List.cons_append, quotedText?_cons_eq_some_iff rfl, Expr.readString?_flatMap_escapeChar]

theorem find?_of_cons {needle : List Char} {c : Char} {cs : List Char}
    (h : find? needle (c :: cs) = none) : find? needle cs = none := by
  rw [find?] at h
  split at h
  · cases h
  · exact Option.map_eq_none_iff.mp h

/-- A text without signs that open an interpolation has nothing to be escaped. -/
theorem escapeSigns_of_find? {cs : List Char} (hescaped : find? ['#', '{'] (escapeSigns cs) = none)
    (hraw : find? ['!', '{'] (escapeSigns cs) = none) : escapeSigns cs = cs := by
  induction cs with
  | nil => rfl
  | cons c cs ih =>
    rw [escapeSigns] at hescaped hraw ⊢
    split at hescaped
    · -- The sign is found behind its backslash.
      next hopens =>
      rw [if_pos hopens] at hraw
      simp only [opensInterpolation, Bool.and_eq_true, Bool.or_eq_true, beq_iff_eq] at hopens
      obtain ⟨hc, hbrace⟩ := hopens
      rw [← headIs_escapeSigns] at hbrace
      cases hrest : escapeSigns cs with
      | nil =>
        rw [hrest] at hbrace
        cases hbrace
      | cons d rest =>
        obtain rfl : d = '{' := by simpa [hrest, headIs] using hbrace
        rw [hrest] at hescaped hraw
        rcases hc with rfl | rfl
        · simp [find?, startsWith, after?] at hescaped
        · simp [find?, startsWith, after?] at hraw
    · next hopens =>
      rw [if_neg hopens] at hraw ⊢
      rw [ih (find?_of_cons hescaped) (find?_of_cons hraw)]

theorem interpolateQuoted_escapeSigns (s : String) :
    attributeOf.interpolateQuoted (escapeSigns s.toList) = .ok [.literal s] := by
  unfold attributeOf.interpolateQuoted
  split
  · exact interpolate_escapeSigns s
  · next hnone =>
    rw [Bool.or_eq_true, not_or, Bool.not_eq_true, Bool.not_eq_true, Option.isSome_eq_false_iff,
      Option.isSome_eq_false_iff, Option.isNone_iff_eq_none, Option.isNone_iff_eq_none] at hnone
    rw [escapeSigns_of_find? hnone.1 hnone.2, String.ofList_toList]

/-! ### The tag -/

/-- The title of a tag. -/
def titleOf (s : String) : Attribute := ⟨"title", .spans [.literal s], true⟩

/-- **The value of the attribute is the text.** -/
theorem read_quotedAttribute (s : String) :
    Head.read [.tag "a", .attributes
        [⟨"title", some (String.ofList (Expr.quotedText (String.ofList (escapeSigns s.toList)))), true⟩]] =
      .ok (.tag "a" [titleOf s] []) := by
  have hattribute : attributeOf
      ⟨"title", some (String.ofList (Expr.quotedText (String.ofList (escapeSigns s.toList)))), true⟩ =
        .ok (titleOf s) := by
    unfold attributeOf
    dsimp only
    rw [String.toList_ofList, quotedText?_quotedText]
    dsimp only
    rw [String.toList_ofList, interpolateQuoted_escapeSigns]
    rfl
  rw [Head.read, Head.readTag, readEach, hattribute]
  rfl

/-- The template that is one tag with a title. -/
def titled (s : String) : String :=
  "a(title=" ++ String.ofList (Expr.quotedText (String.ofList (escapeSigns s.toList))) ++ ")"

theorem scan_titled (s : String) : Layout.scan (titled s) =
    .ok ⟨[⟨⟨1, 1⟩, 0, [.tag "a", .attributes
      [⟨"title", some (String.ofList (Expr.quotedText (String.ofList (escapeSigns s.toList)))), true⟩]]⟩],
      ⟨1, 1⟩⟩ := by
  unfold titled
  generalize String.ofList (escapeSigns s.toList) = text
  have hsource : "a(title=" ++ String.ofList (Expr.quotedText text) ++ ")" =
      String.ofList (("a(title=".toList ++ Expr.quotedText text) ++ [')']) := by
    apply String.toList_inj.mp
    simp
  have hline : '\n' ∉ "a(title=".toList ++ Expr.quotedText text := by
    simp [newline_notMem_quotedText]
  have hlist : attributeList ("title".toList ++ '=' :: (Expr.quotedText text ++ [')'])) =
      .ok ([⟨"title", some (String.ofList (Expr.quotedText text)), true⟩], []) := by
    have hletters : ∀ c ∈ "title".toList, isLetter c = true := List.all_eq_true.mp rfl
    simpa using attributeList_of_value (by simp) hletters (attributeValue_quotedText text [])
  have hread : readStatement (("a(title=".toList ++ Expr.quotedText text) ++ [')']) =
      .ok ⟨[.tag "a", .attributes [⟨"title", some (String.ofList (Expr.quotedText text)), true⟩]],
        .statements, []⟩ := by
    simpa using readStatement_of_attributes hlist
  rw [hsource]
  exact scan_of_line hline (by simp [indentOf, isIndent]) hread

/-- The document of that template. -/
theorem Library.document_titled (l : Library) {name s : String} (hsource : l.source name = .ok (titled s)) :
    (l.document name).1 = .ok ⟨[.tag "a" [titleOf s] false []], []⟩ := by
  refine document_eq_ok_iff.mpr ⟨_, _, [name], hsource, scan_titled s, ?_⟩
  rw [readDocument_lone (read_quotedAttribute s)]
  rfl

/-! ### The output -/

theorem attributesText_titleOf (mode : Markup.Mode) (vars : String → Value) (s : String) :
    attributesText mode vars [titleOf s] = .ok (" title=\"" ++ Markup.escape s ++ "\"") := by
  have hcontribution : (titleOf s).contribution mode vars =
      .ok (.attribute "title" (some (Markup.escape s))) := by
    simp [Attribute.contribution, Attribute.evaluate, titleOf, spansText, bind, Except.bind, pure,
      Except.pure, Except.map, plainContribution, escapeIf, Value.text]
  simp [attributesText, contributions, hcontribution, bind, Except.bind, pure, Except.pure,
    arrangeAttributes, writeAttribute, String.join]

/-- How a tag without content ends. -/
def emptyEnd (mode : Markup.Mode) : String := if mode = .xml then "/>" else "></a>"

/-- A tag of one line without content, in front of which nothing was written. -/
theorem writeTag_alone (w : RenderSetting) {name text : String} {attributes : List Attribute}
    (hinline : Markup.isInline name = true)
    (htext : ∀ vars, attributesText w.mode vars attributes = .ok text) (atOnce : Bool) (vars : Variables) :
    ∃ s, writeTag w name attributes false atOnce (pure ()) ⟨.start vars, .unlimited, 0, false, false⟩ =
        .ok () s ∧
      s.sink.text =
        "<" ++ name ++ text ++ if atOnce then closedAtOnce w.mode false else ">" ++ ("</" ++ name ++ ">") := by
  have hclosed : closedAtOnce w.mode false ≠ "" := by
    unfold closedAtOnce
    split <;> decide
  cases atOnce <;>
    simp [writeTag, hinline, htext, hclosed, Rendering.ask, Rendering.write,
      Rendering.indented, Rendering.within, Sink.offer, Sink.unlimited, bind, EStateM.bind, pure,
      EStateM.pure, get, getThe, MonadStateOf.get, EStateM.get, modify, modifyGet,
      MonadStateOf.modifyGet, EStateM.modifyGet, String.append_assoc]

/-- **The text is escaped once.** -/
theorem render_quotedTag (w : RenderSetting) (s : String) (vars : Variables) :
    ∃ sink, render w [.tag "a" [titleOf s] false []] vars .unlimited = (.ok (), sink) ∧
      sink.text = "<a title=\"" ++ Markup.escape s ++ "\"" ++ emptyEnd w.mode := by
  have hvoid : Markup.isVoid "a" = false := by decide
  obtain ⟨t, hwrite, htext⟩ := writeTag_alone w (by decide : Markup.isInline "a" = true)
    (fun vars => attributesText_titleOf w.mode vars s) (closesAtOnce w.mode "a" false []) vars
  have hrender : render w [.tag "a" [titleOf s] false []] vars .unlimited = (.ok (), t.sink) := by
    unfold render
    rw [renderNodes, renderNode, renderNodes]
    simp only [bind, EStateM.bind]
    rw [hwrite]
    rfl
  refine ⟨t.sink, hrender, ?_⟩
  rw [htext]
  apply String.toList_inj.mp
  cases hmode : w.mode <;> simp [closesAtOnce, closedAtOnce, emptyEnd, hvoid]

/-- **A text given to an attribute comes out as it is**, escaped for markup, whatever the options are
and the variables that the template is rendered with. -/
theorem render_titled (loader : Loader) (options : Options) (name version : String) (log : Log) (s : String)
    (hsource : loader.source name = .ok (titled s)) :
    ∃ t, (Template.compile loader options name version log).1 = .ok t ∧
      ∀ filters vars, t.render filters vars =
        .ok ("<a title=\"" ++ Markup.escape s ++ "\"" ++ emptyEnd options.mode) :=
  Template.render_of_document (loader.toLibrary.document_titled hsource)
    (fun _ vars => render_quotedTag _ s vars) version log

/-- A page of one tag. Its title has a backslash in front of a sign, a quote and a line feed. -/
def titledPage : Memory := Memory.empty.insert "page" "a(title=\"\\\\\\\\#\x7b\\\"\\n<\")"

theorem render_titled_page :
    titledPage.loader.source "page" = .ok (titled "\\#\x7b\"\n<") ∧
    ∃ t, (Template.compile titledPage.loader ⟨true, true, .xhtml, 1⟩ "page" "1" ⟨0, 0⟩).1 = .ok t ∧
      ∀ filters vars, t.render filters vars = .ok "<a title=\"\\#\x7b&quot;\n&lt;\"></a>" := by
  have hsource : titledPage.loader.source "page" = .ok (titled "\\#\x7b\"\n<") := by cbv
  have houtput : "<a title=\"\\#\x7b&quot;\n&lt;\"></a>" =
      "<a title=\"" ++ Markup.escape "\\#\x7b\"\n<" ++ "\"" ++ emptyEnd .xhtml := by cbv
  rw [houtput]
  exact ⟨hsource, render_titled titledPage.loader _ "page" "1" _ _ hsource⟩

end Trellis
