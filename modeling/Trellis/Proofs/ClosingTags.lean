import Trellis.Proofs.OpenTags
import Trellis.Proofs.Openings
import Trellis.Proofs.Renderings
import Trellis.Proofs.TagWords

/-!
# `Trellis.Proofs.ClosingTags`: where a closing tag can begin

The output of a rendering is put together from pieces, so a closing tag in it may stand across the
seam of two. Here is what keeps closing tags to the places where the renderer writes one. All closing
tags in a text have names of a kind (`ClosesOnly`), and the text does not end where one may begin;
both together (`Settled`) go on to hold with any piece that has the same two properties
(`Settled.append`).

So each piece that a node writes at once can be looked at by itself. In HTML, with values escaped and
no closing tag in the fixed texts, there is none in what the node writes either (`settled_writes`). The
name of a tag is written as it is, which is why it has to be known what tags are called. Some pieces
are not safe for all that, and `Node.Forges` says which.
-/

set_option autoImplicit false

namespace Trellis

open Markup Rendering

/-! ### Closing tags in a text -/

/-- The text has the piece in it. -/
def Occurs (piece s : String) : Prop := piece.toList <:+: s.toList

instance (piece s : String) : Decidable (Occurs piece s) :=
  inferInstanceAs (Decidable (piece.toList <:+: s.toList))

/-- The closing tag of an element. -/
def closingTag (name : String) : String := "</" ++ name ++ ">"

/-- All closing tags in a text have names of a kind. -/
def ClosesOnly (P : String → Prop) (s : String) : Prop :=
  ∀ before after, s.toList = before ++ '<' :: '/' :: after →
    ∃ name, P name ∧ name.toList ++ ['>'] <+: after

/-- All closing tags have names of a kind, and none begins at the end of the text. -/
structure Settled (P : String → Prop) (s : String) : Prop where
  closes : ClosesOnly P s
  ends : s.toList.getLast? ≠ some '<'

/-- No tag begins in the text. -/
def Tagless (s : String) : Prop := '<' ∉ s.toList

/-- No closing tag begins in the text or at its end. -/
structure Shut (s : String) : Prop where
  closes : ¬Occurs "</" s
  ends : s.toList.getLast? ≠ some '<'

theorem Occurs.append {piece s : String} (h : Occurs piece s) (t : String) : Occurs piece (s ++ t) := by
  unfold Occurs
  rw [String.toList_append]
  exact h.trans (List.prefix_append _ _).isInfix

section
variable {P : String → Prop} {s t : String}

theorem Tagless.shut (h : Tagless s) : Shut s where
  closes hocc := h (hocc.subset (by simp))
  ends hlast := h (List.mem_of_getLast? hlast)

theorem closesOnly_of_not_occurs (h : ¬Occurs "</" s) : ClosesOnly P s := by
  intro before after hsplit
  refine absurd ?_ h
  show "</".toList <:+: s.toList
  exact ⟨before, after, by simp [hsplit]⟩

theorem Shut.settled (h : Shut s) : Settled P s := ⟨closesOnly_of_not_occurs h.closes, h.ends⟩

theorem Tagless.settled (h : Tagless s) : Settled P s := h.shut.settled

/-- A closing tag in two texts is in one of them, if it does not begin with the last character of the
first and go on with the first character of the second. -/
theorem ClosesOnly.append (hs : ClosesOnly P s) (ht : ClosesOnly P t)
    (hseam : s.toList.getLast? ≠ some '<' ∨ t.toList.head? ≠ some '/') : ClosesOnly P (s ++ t) := by
  intro before after hsplit
  rw [String.toList_append, List.append_eq_append_iff] at hsplit
  rcases hsplit with ⟨between, rfl, hsecond⟩ | ⟨beginning, hfirst, hrest⟩
  · exact ht between after hsecond
  · rcases List.cons_eq_append_iff.mp hrest with ⟨rfl, hsecond⟩ | ⟨behind, rfl, hbehind⟩
    · exact ht [] after hsecond
    · rcases List.cons_eq_append_iff.mp hbehind with ⟨rfl, hsecond⟩ | ⟨inside, rfl, rfl⟩
      · rcases hseam with hend | hbegin
        · rw [hfirst, List.getLast?_append] at hend
          exact absurd rfl hend
        · rw [hsecond] at hbegin
          exact absurd rfl hbegin
      · obtain ⟨name, hname, hprefix⟩ := hs before inside hfirst
        exact ⟨name, hname, hprefix.trans (List.prefix_append _ _)⟩

theorem Settled.append (hs : Settled P s) (ht : Settled P t) : Settled P (s ++ t) where
  closes := hs.closes.append ht.closes (.inl hs.ends)
  ends := by
    rw [String.toList_append, List.getLast?_append]
    cases hlast : t.toList.getLast? with
    | none => exact hs.ends
    | some c =>
      intro heq
      exact ht.ends (hlast.trans heq)

/-- What begins with another character than a slash may follow any text. -/
theorem ClosesOnly.settled {c : Char} {rest : List Char} (hs : ClosesOnly P s) (h : Settled P t)
    (ht : t.toList = c :: rest) (hc : c ≠ '/') : Settled P (s ++ t) where
  closes := by
    refine hs.append h.closes (.inr ?_)
    rw [ht]
    simpa using hc
  ends := by
    have hlast := h.ends
    rw [ht] at hlast
    simpa [ht, List.getLast?_append] using hlast

theorem Settled.join {ss : List String} (h : ∀ s ∈ ss, Settled P s) : Settled P (String.join ss) := by
  induction ss with
  | nil => exact Tagless.settled (by simp [Tagless])
  | cons s rest ih =>
    obtain ⟨hs, hrest⟩ := List.forall_mem_cons.mp h
    rw [String.join_cons]
    exact hs.append (ih hrest)

/-- A closing tag by itself. -/
theorem settled_closingTag {name : String} (hP : P name) (hname : Tagless name) :
    Settled P (closingTag name) where
  closes before after hsplit := by
    have hlist : '<' :: '/' :: (name.toList ++ ['>']) = before ++ '<' :: '/' :: after := by
      simpa [closingTag] using hsplit
    rcases List.cons_eq_append_iff.mp hlist with ⟨rfl, hbehind⟩ | ⟨inside, rfl, hinside⟩
    · cases hbehind
      exact ⟨name, hP, List.prefix_refl _⟩
    · -- There is only one bracket that opens.
      have hmem : '<' ∈ '/' :: (name.toList ++ ['>']) := by
        rw [hinside]
        exact List.mem_append_right _ List.mem_cons_self
      have hnot : '<' ∉ name.toList := hname
      simp [hnot] at hmem
  ends := by
    rw [closingTag, String.toList_append, List.getLast?_append]
    simp

/-- If no name has a bracket in it, then a closing tag in the text has a name of the kind. -/
theorem ClosesOnly.of_occurs (h : ClosesOnly P s) (hP : ∀ name, P name → '>' ∉ name.toList)
    {name : String} (hname : '>' ∉ name.toList) (hocc : Occurs (closingTag name) s) : P name := by
  obtain ⟨before, after, hsplit⟩ := hocc
  obtain ⟨other, hother, behind, heq⟩ := h before (name.toList ++ '>' :: after) (by
    simpa [closingTag] using hsplit.symm)
  -- Both names go up to the first bracket.
  have hupto {cs : List Char} (hcs : '>' ∉ cs) (rest : List Char) :
      (cs ++ '>' :: rest).takeWhile (· != '>') = cs := by
    rw [List.takeWhile_append_of_pos fun c hc => by
      simpa using ne_of_mem_of_not_mem hc hcs]
    simp
  have hsame : other.toList = name.toList := by
    have hlist : other.toList ++ '>' :: behind = name.toList ++ '>' :: after := by simpa using heq
    rw [← hupto (hP other hother) behind, hlist, hupto hname]
  rwa [String.toList_inj.mp hsame] at hother

end

/-! ### Texts and attributes -/

theorem tagless_append {s t : String} : Tagless (s ++ t) ↔ Tagless s ∧ Tagless t := by
  simp [Tagless]

/-- What is escaped has no marks, and so no tag. -/
theorem tagless_escape (s : String) : Tagless (escape s) := by
  intro hmem
  have hmark : '<' ∈ marks (escape s) := List.mem_filter.mpr ⟨hmem, rfl⟩
  rw [marks_escape] at hmark
  cases hmark

theorem tagless_intercalate {between : String} (hbetween : Tagless between) {ss : List String}
    (h : ∀ s ∈ ss, Tagless s) : Tagless (between.intercalate ss) := by
  induction ss with
  | nil => simp [Tagless]
  | cons s rest ih =>
    obtain ⟨hs, hrest⟩ := List.forall_mem_cons.mp h
    cases rest with
    | nil =>
      rw [String.intercalate_singleton]
      exact hs
    | cons next rest =>
      rw [String.intercalate_cons_cons, tagless_append, tagless_append]
      exact ⟨⟨hs, hbetween⟩, ih hrest⟩

/-- If the pieces of a text are of a kind that goes through putting together, so is the text. -/
theorem spansText_of_pieces {Q : String → Prop} (hempty : Q "")
    (happend : ∀ s t, Q s → Q t → Q (s ++ t)) (hescape : ∀ s, Q (escape s))
    {vars : String → Value} {literals : Bool} {spans : List Span} (hspans : ∀ s ∈ spans, s.Escapes)
    (hliterals : ∀ s, .literal s ∈ spans → Q (if literals then escape s else s)) {text : String}
    (h : spansText vars literals spans = .ok text) : Q text := by
  induction spans generalizing text with
  | nil =>
    cases h
    exact hempty
  | cons first rest ih =>
    obtain ⟨hfirst, hrest⟩ := List.forall_mem_cons.mp hspans
    have hmore {more : String} (h : spansText vars literals rest = .ok more) : Q more :=
      ih hrest (fun s hs => hliterals s (List.mem_cons_of_mem _ hs)) h
    cases first with
    | literal s =>
      obtain ⟨more, hright, h⟩ := of_bind_eq_ok h
      cases h
      exact happend _ _ (hliterals s List.mem_cons_self) (hmore hright)
    | escaped e =>
      obtain ⟨v, -, h⟩ := of_bind_eq_ok h
      obtain ⟨more, hright, h⟩ := of_bind_eq_ok h
      cases h
      exact happend _ _ (hescape _) (hmore hright)
    | raw e => exact absurd hfirst id

/-- What an attribute is given is escaped, or still to be escaped. -/
def GivenAttribute.Escapes (g : GivenAttribute) : Prop :=
  match g.content with
  | .text s => Tagless s
  | _ => g.escaped = true

theorem Attribute.escapes_of_give {vars : String → Value} {a : Attribute} {g : GivenAttribute}
    (h : a.give vars = .ok g) (hescaped : a.escaped = true) (hvalue : a.value.Escapes) : g.Escapes := by
  obtain ⟨name, value, escaped⟩ := a
  cases hescaped
  cases value with
  | implicit =>
    cases h
    rfl
  | expression e =>
    obtain ⟨v, -, rfl⟩ := of_map_eq_ok h
    rfl
  | spans parts =>
    obtain ⟨s, hs, rfl⟩ := of_map_eq_ok h
    -- The literals of a quoted text are escaped with the rest.
    have hempty : Tagless "" := by simp [Tagless]
    have happend (s t : String) (hs : Tagless s) (ht : Tagless t) : Tagless (s ++ t) :=
      tagless_append.mpr ⟨hs, ht⟩
    refine spansText_of_pieces hempty happend tagless_escape hvalue (fun s _ => ?_) hs
    rw [if_pos rfl]
    exact tagless_escape s

namespace GivenAttribute

variable {g : GivenAttribute}

theorem tagless_value (h : g.Escapes) {s : String} (hs : g.value? .html = some s) : Tagless s := by
  obtain ⟨name, escaped, content⟩ := g
  cases content with
  | flag => cases hs
  | text text =>
    cases hs
    exact h
  | computed v =>
    have hescaped : escaped = true := h
    subst hescaped
    cases v with
    | bool b =>
      cases b with
      | true => cases hs
      | false => exact Option.some.inj hs ▸ tagless_escape _
    | _ => exact Option.some.inj hs ▸ tagless_escape _

theorem tagless_classes (h : g.Escapes) {s : String} (hs : s ∈ g.classes) : Tagless s := by
  obtain ⟨name, escaped, content⟩ := g
  unfold GivenAttribute.classes at hs
  split at hs
  · cases content with
    | flag => cases hs
    | text text =>
      dsimp only at hs
      split at hs
      · cases hs
      · cases List.mem_singleton.mp hs
        exact h
    | computed v =>
      have hescaped : escaped = true := h
      subst hescaped
      cases v with
      | null => cases hs
      | bool b => cases hs
      | list items =>
        obtain ⟨v, -, rfl⟩ := List.mem_map.mp hs
        exact tagless_escape _
      | _ =>
        dsimp only at hs
        split at hs
        · cases hs
        · cases List.mem_singleton.mp hs
          exact tagless_escape _
  · cases hs

end GivenAttribute

/-- What is given to some attributes is given to one of them. -/
theorem mem_of_mapM_give {vars : String → Value} {attributes : List Attribute}
    {given : List GivenAttribute} (h : attributes.mapM (Attribute.give vars) = .ok given)
    {g : GivenAttribute} (hg : g ∈ given) : ∃ a ∈ attributes, a.give vars = .ok g := by
  induction attributes generalizing given with
  | nil =>
    cases h
    cases hg
  | cons a rest ih =>
    rw [List.mapM_cons] at h
    obtain ⟨first, hfirst, h⟩ := of_bind_eq_ok h
    obtain ⟨others, hothers, h⟩ := of_bind_eq_ok h
    cases h
    rcases List.mem_cons.mp hg with rfl | hg
    · exact ⟨a, List.mem_cons_self, hfirst⟩
    · obtain ⟨b, hb, hgive⟩ := ih hothers hg
      exact ⟨b, List.mem_cons_of_mem _ hb, hgive⟩

/-- An attribute of a tag is one that is contributed, or has the classes. -/
theorem mem_arrangeAttributes {classes : List String} {placed : Bool} {cs : List Contribution}
    {p : String × Option String} (h : p ∈ arrangeAttributes classes placed cs) :
    .attribute p.1 p.2 ∈ cs ∨ p = ("class", some (" ".intercalate classes)) := by
  induction cs generalizing placed with
  | nil => cases h
  | cons c rest ih =>
    have hrest {placed : Bool} (h : p ∈ arrangeAttributes classes placed rest) :
        .attribute p.1 p.2 ∈ c :: rest ∨ p = ("class", some (" ".intercalate classes)) :=
      (ih h).imp (List.mem_cons_of_mem c) id
    cases c with
    | nothing => exact hrest h
    | «attribute» name value =>
      rcases List.mem_cons.mp h with rfl | h
      · exact .inl List.mem_cons_self
      · exact hrest h
    | classes texts =>
      rw [arrangeAttributes] at h
      split at h
      · exact hrest h
      · rcases List.mem_cons.mp h with rfl | h
        · exact .inr rfl
        · exact hrest h

/-- An attribute that is written has its own name, and its value is what it is given. -/
theorem GivenAttribute.of_contribution {mode : Mode} {g : GivenAttribute} {name : String}
    {value : Option String} (h : g.contribution mode = .attribute name value) :
    name = g.name ∧ value = g.value? mode := by
  unfold GivenAttribute.contribution GivenAttribute.written? at h
  cases hclass : g.isClass with
  | true =>
    rw [hclass] at h
    cases h
  | false =>
    cases hpresent : g.isPresent with
    | false =>
      rw [hclass, hpresent] at h
      cases h
    | true =>
      rw [hclass, hpresent] at h
      cases h
      exact ⟨rfl, rfl⟩

/-- **In the attributes of a tag no closing tag begins**, if none begins in their names. -/
theorem settled_attributesText {P : String → Prop} {vars : String → Value} {attributes : List Attribute}
    (hescapes : ∀ a ∈ attributes, a.escaped = true ∧ a.value.Escapes)
    (hnames : ∀ a ∈ attributes, Shut a.name) {text : String}
    (h : attributesText .html vars attributes = .ok text) : Settled P text := by
  rw [attributesText, contributions_eq_give] at h
  obtain ⟨cs, hcs, h⟩ := of_bind_eq_ok h
  cases h
  obtain ⟨given, hgiven, rfl⟩ := of_map_eq_ok hcs
  have hgive : ∀ g ∈ given, g.Escapes ∧ Shut g.name := by
    intro g hg
    obtain ⟨a, ha, hag⟩ := mem_of_mapM_give hgiven hg
    exact ⟨a.escapes_of_give hag (hescapes a ha).1 (hescapes a ha).2,
      Attribute.name_of_give hag ▸ hnames a ha⟩
  have hclasses : Tagless (" ".intercalate (gatherClasses (given.map (·.contribution .html)))) := by
    refine tagless_intercalate (by simp [Tagless]) fun s hs => ?_
    rw [gatherClasses_eq] at hs
    obtain ⟨g, hg, hs⟩ := List.mem_flatMap.mp hs
    exact GivenAttribute.tagless_classes (hgive g hg).1 hs
  -- An attribute is written as a name, with a value in quotes or without one.
  have hwritten (name : String) (hname : Shut name) (value : Option String)
      (hvalue : ∀ s, value = some s → Tagless s) : Settled P (writeAttribute (name, value)) := by
    have hfixed {s : String} (h : '<' ∉ s.toList) : Settled P s := Tagless.settled h
    cases value with
    | none => exact (hfixed (by simp)).append hname.settled
    | some s =>
      have hvalue : Settled P s := (hvalue s rfl).settled
      exact ((((hfixed (by simp)).append hname.settled).append (hfixed (by simp))).append hvalue).append
        (hfixed (by simp))
  refine .join fun piece hpiece => ?_
  obtain ⟨⟨name, value⟩, hp, rfl⟩ := List.mem_map.mp hpiece
  rcases mem_arrangeAttributes hp with hcontributed | hclass
  · obtain ⟨g, hg, hcontribution⟩ := List.mem_map.mp hcontributed
    obtain ⟨rfl, rfl⟩ := GivenAttribute.of_contribution hcontribution
    exact hwritten _ (hgive g hg).2 _ fun s hs =>
      GivenAttribute.tagless_value (hgive g hg).1 hs
  · cases hclass
    have hname : Tagless "class" := by simp [Tagless]
    refine hwritten _ hname.shut _ fun s hs => ?_
    cases hs
    exact hclasses

/-! ### What a node writes -/

/-- No closing tag begins in the fixed texts and the comment of a node, nor in what a filter gives. -/
def Node.HoldsNoClosing (filters : Table Filter) : Node → Prop
  | .text spans => ∀ s, .literal s ∈ spans → ¬Occurs "</" s
  | .comment remark => ¬Occurs "</" remark
  | .filter name input options => ∀ f, filters.find? name = some f → ¬Occurs "</" (f input options)
  | _ => True

/-- The node may put a closing tag together: in a name that is written as it is, or from a text that
ends with a bracket and what follows it. -/
def Node.Forges (filters : Table Filter) : Node → Prop
  | .doctype name => Occurs "</" name
  | .tag _ attributes _ _ => ∃ a ∈ attributes, ¬Shut a.name
  | .text spans => ∃ s, .literal s ∈ spans ∧ s.toList.getLast? = some '<'
  | .filter name input options =>
    ∃ f, filters.find? name = some f ∧ (f input options).toList.getLast? = some '<'
  | _ => False

section
variable {P : String → Prop}

theorem settled_lineStart (indent : Nat) : Settled P (lineStart indent) := by
  refine Tagless.settled ?_
  simp [Tagless, lineStart]

/-- A text between two others, of which the second does not begin with a slash. -/
theorem settled_between {front s back : String} {c : Char} {rest : List Char} (hfront : Settled P front)
    (hs : ¬Occurs "</" s) (hback : Settled P back) (hhead : back.toList = c :: rest) (hc : c ≠ '/') :
    Settled P (front ++ s ++ back) :=
  (hfront.closes.append (closesOnly_of_not_occurs hs) (.inl hfront.ends)).settled hback hhead hc

/-- What is opened by a bracket that no slash follows. -/
theorem settled_opened {c : Char} {rest : List Char} {s : String} (hs : s.toList = c :: rest) (hc : c ≠ '/')
    (htagless : Tagless s) : Settled P ("<" ++ s) := by
  have hbracket : ClosesOnly P "<" := closesOnly_of_not_occurs (by decide +kernel)
  exact hbracket.settled htagless.settled hs hc

theorem settled_doctype {name : String} (h : ¬Occurs "</" name) : Settled P (Markup.doctype name) := by
  have htrimmed : ¬Occurs "</" (Text.trimmed name) := by
    intro hocc
    refine h (List.IsInfix.trans hocc ?_)
    rw [Text.trimmed, String.toList_ofList]
    exact (Source.trimEnd_isPrefix _).isInfix.trans (List.dropWhile_suffix _).isInfix
  unfold Markup.doctype
  dsimp only
  split
  · next word declaration hfind =>
    obtain ⟨c, rest, heq, hc, htagless⟩ := Markup.doctypes_opened _ (List.mem_of_find?_eq_some hfind)
    have hlist : (String.ofList (c :: rest)).toList = c :: rest := String.toList_ofList
    have hbehind : Tagless (String.ofList (c :: rest)) := by
      unfold Tagless
      rwa [hlist]
    have hdeclaration : declaration = "<" ++ String.ofList (c :: rest) := heq
    rw [hdeclaration]
    exact settled_opened hlist hc hbehind
  · have hfront : Shut "<!DOCTYPE " := ⟨by decide +kernel, by decide +kernel⟩
    have hback : Tagless ">" := by simp [Tagless]
    have hhead : ">".toList = '>' :: [] := rfl
    exact settled_between hfront.settled htrimmed hback.settled hhead (by decide)

theorem settled_comment {remark : String} (h : ¬Occurs "</" remark) :
    Settled P ("<!--" ++ remark ++ "-->") := by
  have hfront : Shut "<!--" := ⟨by decide +kernel, by decide +kernel⟩
  have hback : Tagless "-->" := by simp [Tagless]
  have hhead : "-->".toList = '-' :: ['-', '>'] := rfl
  exact settled_between hfront.settled h hback.settled hhead (by decide)

theorem IsTagWord.notMem {name : String} (h : IsTagWord name) {c : Char} (hname : Source.isNameChar c = false)
    (hcolon : c ≠ ':') : c ∉ name.toList := by
  intro hmem
  rcases h.chars c hmem with hc | hc
  · rw [hname] at hc
    cases hc
  · exact hcolon hc

/-- The name of a tag does not begin with a slash, so no closing tag begins in front of it. -/
theorem settled_tagBegin {name : String} (h : IsTagWord name) : Settled P ("<" ++ name) := by
  have htagless : Tagless name := h.notMem (by decide) (by decide)
  obtain ⟨c, rest, hlist⟩ := List.exists_cons_of_ne_nil h.nonempty
  have hslash : '/' ∉ name.toList := h.notMem (by decide) (by decide)
  have hc : c ≠ '/' := by
    rintro rfl
    exact hslash (hlist ▸ List.mem_cons_self)
  exact settled_opened hlist hc htagless

/-- **In what a node writes at once no closing tag begins**, and none at its end. -/
theorem Node.settled_writes {w : RenderSetting} (hmode : w.mode = .html) {n : Node}
    (hescapes : n.Escapes) (hquiet : n.HoldsNoClosing w.filters) (hforges : ¬n.Forges w.filters)
    (hname : ∀ name attributes selfClosing children,
      n = .tag name attributes selfClosing children → IsTagWord name) :
    n.Writes w (Settled P) := by
  cases n with
  | doctype name => exact settled_doctype hforges
  | tag name attributes selfClosing children =>
    have hnames : ∀ a ∈ attributes, Shut a.name := by
      intro a ha
      by_contra hopen
      exact hforges ⟨a, ha, hopen⟩
    refine ⟨fun vars text htext => ?_, ?_, Tagless.settled (by simp [Tagless])⟩
    · rw [hmode] at htext
      exact (settled_tagBegin (hname _ _ _ _ rfl)).append (settled_attributesText hescapes hnames htext)
    · refine Tagless.settled ?_
      unfold closedAtOnce
      split <;> simp [Tagless]
  | text spans =>
    intro vars text htext
    have hempty : Settled P "" := Tagless.settled (by simp [Tagless])
    refine spansText_of_pieces hempty (fun _ _ => Settled.append) (fun s => (tagless_escape s).settled)
      hescapes (fun s hs => ?_) htext
    exact Shut.settled ⟨hquiet s hs, fun hend => hforges ⟨s, hs, hend⟩⟩
  | output e escaped =>
    intro v
    have hescaped : escaped = true := hescapes
    subst hescaped
    exact (tagless_escape _).settled
  | comment remark => exact settled_comment hquiet
  | filter name input options =>
    exact fun f hf => Shut.settled ⟨hquiet f hf, fun hend => hforges ⟨f, hf, hend⟩⟩
  | _ => trivial

end

/-- The end of a closing tag as an expression. -/
def slashExpression : Expression := ⟨"'/br'", .literal (.str "/br"), by cbv⟩

/-- A text that ends with a bracket makes a closing tag with what is put out behind it. -/
example : spansText (fun _ => .null) false [.literal "<", .escaped slashExpression, .literal ">"] =
    .ok (closingTag "br") := by cbv

end Trellis
