import Mathlib
import Trellis.Proofs.AttributeValue
import Trellis.Proofs.Escaping

/-!
# `Trellis.Proofs.OpenTags`: what an open tag says

The attributes of a tag come from shorthand and from lists, and the renderer decides for
each whether and how it is written. Here that is said without the renderer's two passes over
contributions. First comes what each attribute is given (`Attribute.give`); then
`writtenAttributes` has all attributes that are no class in their order, and one attribute
with all classes at the place of the first source of classes. The text of the attributes is
the text of those (`attributesText_merged`).

Names need a second look. Classes are the only attributes that are brought together, so
`class` is written once or not at all. Any other name is written as often as the tag has a
present attribute of that name (`attributesText_names`), and two of them are two.
-/

set_option autoImplicit false

namespace Trellis

open Markup

/-! ### What attributes come to -/

/-- What an attribute is given: no value at all, a computed value, or a text with its
interpolations filled in. -/
inductive Content where
  | flag
  | computed (v : Value)
  | text (s : String)

/-- An attribute with what it is given. -/
structure GivenAttribute where
  name : String
  escaped : Bool
  content : Content

/-- What an attribute is given under some variables. -/
def Attribute.give (vars : String → Value) (a : Attribute) :
    Except ExpressionError GivenAttribute :=
  match a.value with
  | .implicit => .ok ⟨a.name, a.escaped, .flag⟩
  | .expression e => (e.evaluate vars).map fun v => ⟨a.name, a.escaped, .computed v⟩
  | .spans parts => (spansText vars a.escaped parts).map fun s => ⟨a.name, a.escaped, .text s⟩

namespace GivenAttribute

/-- Is the attribute a source of classes? -/
def isClass (g : GivenAttribute) : Bool := g.name == "class"

/-- Nothing and `false` are not present. -/
def isPresent (g : GivenAttribute) : Bool :=
  match g.content with
  | .computed .null => false
  | .computed (.bool false) => false
  | _ => true

/-- The classes that a source gives. -/
def classes (g : GivenAttribute) : List String :=
  if g.isClass then
    match g.content with
    | .flag => []
    | .text s => if s = "" then [] else [s]
    | .computed .null => []
    | .computed (.bool _) => []
    | .computed (.list items) => (items.filter Value.isTruthy).map fun v => escapeIf g.escaped v.text
    | .computed v => if v.text = "" then [] else [escapeIf g.escaped v.text]
  else []

/-- The value that an attribute which is no class is written with, if it has one. -/
def value? (mode : Mode) (g : GivenAttribute) : Option String :=
  match g.content with
  | .flag => flagValue?
  | .text s => some s
  | .computed (.bool true) => flagValue?
  | .computed (.map entries) =>
    some (escapeIf g.escaped (if g.name = "style" then styleText entries else (Value.map entries).text))
  | .computed v => some (escapeIf g.escaped v.text)
where
  /-- In HTML the name alone says that an attribute is true. -/
  flagValue? : Option String := if mode = .html then none else some g.name

/-- How an attribute that is no class is written, if it is. -/
def written? (mode : Mode) (g : GivenAttribute) : Option (String × Option String) :=
  if g.isClass then none
  else if g.isPresent then some (g.name, g.value? mode)
  else none

/-- The value of the attribute, and whether its text is still to be escaped. -/
def evaluated (g : GivenAttribute) : Value × Bool :=
  match g.content with
  | .flag => (.bool true, g.escaped)
  | .computed v => (v, g.escaped)
  | .text s => (.str s, false)

/-- What an attribute contributes to its tag. -/
def contribution (mode : Mode) (g : GivenAttribute) : Contribution :=
  if g.isClass then .classes g.classes
  else
    match g.written? mode with
    | some p => .attribute p.1 p.2
    | none => .nothing

end GivenAttribute

/-- The attribute that all classes together make, if there are any. -/
def classAttribute (classes : List String) : List (String × Option String) :=
  if classes = [] then [] else [("class", some (" ".intercalate classes))]

/-- The attributes of a tag as they are written: in order, without those that are not present, and
with all classes in one attribute in front of those behind the first source of classes. -/
def writtenAttributes (mode : Mode) (given : List GivenAttribute) : List (String × Option String) :=
  (given.takeWhile fun g => !g.isClass).filterMap (·.written? mode) ++
    classAttribute (given.flatMap (·.classes)) ++
    (given.dropWhile fun g => !g.isClass).filterMap (·.written? mode)

/-! ### From attributes to contributions -/

/-- The renderer decides by the value of an attribute what `GivenAttribute` says by what it is
given: a text is a value that is escaped already. -/
theorem contributionOf_evaluated (mode : Mode) (g : GivenAttribute) :
    contributionOf mode g.name g.evaluated.2 g.evaluated.1 = g.contribution mode := by
  obtain ⟨name, escaped, content⟩ := g
  by_cases hname : name = "class"
  · subst hname
    show Contribution.classes _ = Contribution.classes _
    congr 1
    cases content with
    | flag => rfl
    | text s =>
      simp [GivenAttribute.evaluated, classesOf, GivenAttribute.classes, GivenAttribute.isClass,
        Value.text, escapeIf]
    | computed v =>
      cases v <;> simp [GivenAttribute.evaluated, classesOf, GivenAttribute.classes, GivenAttribute.isClass]
  · have hclass : (name == "class") = false := by simpa using hname
    simp only [contributionOf, hname, GivenAttribute.contribution, GivenAttribute.isClass, hclass, if_false,
      GivenAttribute.written?, GivenAttribute.isPresent, GivenAttribute.value?, GivenAttribute.value?.flagValue?,
      GivenAttribute.evaluated]
    cases content with
    | flag => cases mode <;> rfl
    | text s => rfl
    | computed v =>
      cases v with
      | bool b => cases b <;> cases mode <;> rfl
      | map entries => by_cases h : name = "style" <;> simp [plainContribution, h]
      | _ => rfl

theorem Attribute.evaluate_eq_give (vars : String → Value) (a : Attribute) :
    a.evaluate vars = (a.give vars).map (·.evaluated) := by
  obtain ⟨name, value, escaped⟩ := a
  cases value with
  | implicit => rfl
  | expression e =>
    show (e.evaluate vars).map _ = ((e.evaluate vars).map _).map _
    cases e.evaluate vars <;> rfl
  | spans parts =>
    show (spansText vars escaped parts).map _ = ((spansText vars escaped parts).map _).map _
    cases spansText vars escaped parts <;> rfl

theorem Attribute.name_of_give {vars : String → Value} {a : Attribute} {g : GivenAttribute}
    (h : a.give vars = .ok g) : g.name = a.name := by
  unfold Attribute.give at h
  split at h
  · cases h; rfl
  · obtain ⟨v, -, rfl⟩ := of_map_eq_ok h
    rfl
  · obtain ⟨s, -, rfl⟩ := of_map_eq_ok h
    rfl

theorem Attribute.contribution_eq_give (mode : Mode) (vars : String → Value) (a : Attribute) :
    a.contribution mode vars = (a.give vars).map (·.contribution mode) := by
  rw [Attribute.contribution_eq, Attribute.evaluate_eq_give]
  cases h : a.give vars with
  | error e => rfl
  | ok g =>
    show Except.ok (contributionOf mode a.name g.evaluated.2 g.evaluated.1) =
      Except.ok (g.contribution mode)
    rw [← contributionOf_evaluated, Attribute.name_of_give h]

theorem contributions_eq_give (mode : Mode) (vars : String → Value) (attributes : List Attribute) :
    contributions mode vars attributes =
      (attributes.mapM (Attribute.give vars)).map fun given => given.map (·.contribution mode) := by
  induction attributes with
  | nil => rfl
  | cons a rest ih =>
    rw [contributions, a.contribution_eq_give, ih, List.mapM_cons]
    cases a.give vars with
    | error e => rfl
    | ok g =>
      cases rest.mapM (Attribute.give vars) with
      | error e => rfl
      | ok given => rfl

/-! ### The arrangement -/

section
variable (mode : Mode) (given : List GivenAttribute)

/-- All classes that the attributes of a tag contribute. -/
theorem gatherClasses_eq :
    gatherClasses (given.map (·.contribution mode)) = given.flatMap (·.classes) := by
  induction given with
  | nil => rfl
  | cons g rest ih =>
    rw [List.map_cons, List.flatMap_cons, ← ih, GivenAttribute.contribution]
    cases hclass : g.isClass with
    | true => rfl
    | false =>
      have hnone : g.classes = [] := by simp [GivenAttribute.classes, hclass]
      rw [hnone]
      cases g.written? mode <;> rfl

/-- Behind the classes, attributes are written as they come. -/
theorem arrangeAttributes_placed (classes : List String) :
    arrangeAttributes classes true (given.map (·.contribution mode)) =
      given.filterMap (·.written? mode) := by
  induction given with
  | nil => rfl
  | cons g rest ih =>
    rw [List.map_cons, List.filterMap_cons, ← ih, GivenAttribute.contribution]
    cases hclass : g.isClass with
    | true =>
      have hnone : g.written? mode = none := by simp [GivenAttribute.written?, hclass]
      rw [hnone]
      rfl
    | false => cases g.written? mode <;> rfl

/-- The attribute with the classes comes in front of those behind the first source of classes.
Without a source there are no classes to put anywhere. -/
theorem arrangeAttributes_eq (classes : List String)
    (h : (∀ g ∈ given, g.isClass = false) → classes = []) :
    arrangeAttributes classes false (given.map (·.contribution mode)) =
      (given.takeWhile fun g => !g.isClass).filterMap (·.written? mode) ++ classAttribute classes ++
        (given.dropWhile fun g => !g.isClass).filterMap (·.written? mode) := by
  induction given with
  | nil =>
    rw [h (List.forall_mem_nil _)]
    rfl
  | cons g rest ih =>
    cases hclass : g.isClass with
    | true =>
      -- The first source of classes: nothing is in front of it.
      have hnone : g.written? mode = none := by simp [GivenAttribute.written?, hclass]
      have hcontribution : g.contribution mode = .classes g.classes := by
        simp [GivenAttribute.contribution, hclass]
      simp only [List.map_cons, hcontribution, arrangeAttributes, arrangeAttributes_placed,
        List.takeWhile_cons, List.dropWhile_cons, hclass, Bool.not_true, Bool.false_or, classAttribute]
      cases classes <;> simp [hnone]
    | false =>
      -- The attribute stays in front, so the sources of classes are those of the rest.
      have hrest : (∀ g ∈ rest, g.isClass = false) → classes = [] :=
        fun hall => h (List.forall_mem_cons.mpr ⟨hclass, hall⟩)
      have hcontribution : g.contribution mode =
          match g.written? mode with
          | some p => .attribute p.1 p.2
          | none => .nothing := by
        simp [GivenAttribute.contribution, hclass]
      simp only [List.map_cons, hcontribution, List.takeWhile_cons, List.dropWhile_cons, hclass,
        Bool.not_false, if_true, List.filterMap_cons]
      cases g.written? mode with
      | none => exact ih hrest
      | some p =>
        show _ :: arrangeAttributes classes false _ = _ :: _
        rw [ih hrest]
        rfl

end

/-- **All classes go into one attribute, and the others stay as they are.** If what an attribute
is given cannot be computed, neither can the text. -/
theorem attributesText_merged (mode : Mode) (vars : String → Value) (attributes : List Attribute) :
    attributesText mode vars attributes =
      (attributes.mapM (Attribute.give vars)).map fun given =>
        String.join ((writtenAttributes mode given).map writeAttribute) := by
  rw [attributesText, contributions_eq_give]
  cases attributes.mapM (Attribute.give vars) with
  | error e => rfl
  | ok given =>
    have hnone : (∀ g ∈ given, g.isClass = false) → given.flatMap (·.classes) = [] := by
      intro hall
      refine List.flatMap_eq_nil_iff.mpr fun g hg => ?_
      simp [GivenAttribute.classes, hall g hg]
    show Except.ok _ = Except.ok _
    rw [gatherClasses_eq, arrangeAttributes_eq mode given _ hnone]
    rfl

/-! ### Names -/

section
variable (mode : Mode) (given : List GivenAttribute)

/-- Any name but `class` is written for each present attribute of that name. -/
theorem count_written {name : String} (hname : name ≠ "class") :
    ((given.filterMap (·.written? mode)).map Prod.fst).count name =
      given.countP fun g => g.name = name && g.isPresent := by
  induction given with
  | nil => rfl
  | cons g rest ih =>
    rw [List.filterMap_cons, List.countP_cons, ← ih]
    by_cases hg : g.name = name
    · -- An attribute of that name is written just when it is present.
      have hclass : g.isClass = false := by simpa [GivenAttribute.isClass, hg] using hname
      cases hpresent : g.isPresent with
      | true => simp [GivenAttribute.written?, hclass, hpresent, hg]
      | false => simp [GivenAttribute.written?, hclass, hpresent]
    · have hnot : ∀ p, g.written? mode = some p → p.1 ≠ name := by
        intro p hp
        unfold GivenAttribute.written? at hp
        split at hp
        · cases hp
        · split at hp
          · cases hp
            exact hg
          · cases hp
      cases hw : g.written? mode with
      | none => simp [hg]
      | some p => simp [hg, hnot p hw]

theorem class_notMem_written : "class" ∉ (given.filterMap (·.written? mode)).map Prod.fst := by
  intro hmem
  obtain ⟨p, hp, hname⟩ := List.mem_map.mp hmem
  obtain ⟨g, -, hg⟩ := List.mem_filterMap.mp hp
  unfold GivenAttribute.written? at hg
  split at hg
  · cases hg
  · next hclass =>
    split at hg
    · cases hg
      exact hclass (by simpa [GivenAttribute.isClass] using hname)
    · cases hg

end

/-- The names that are written. -/
def writtenNames (mode : Mode) (given : List GivenAttribute) : List String :=
  (writtenAttributes mode given).map Prod.fst

section
variable (mode : Mode) (given : List GivenAttribute)

theorem count_writtenNames {name : String} (hname : name ≠ "class") :
    (writtenNames mode given).count name = given.countP fun g => g.name = name && g.isPresent := by
  have hclasses : ((classAttribute (given.flatMap (·.classes))).map Prod.fst).count name = 0 := by
    unfold classAttribute
    split
    · rfl
    · simp [Ne.symm hname]
  have hsplit := congrArg (List.countP fun g => g.name = name && g.isPresent)
    (given.takeWhile_append_dropWhile (p := fun g => !g.isClass))
  rw [List.countP_append] at hsplit
  rw [writtenNames, writtenAttributes, List.map_append, List.map_append, List.count_append,
    List.count_append, count_written mode _ hname, count_written mode _ hname, hclasses]
  omega

theorem count_class_writtenNames :
    (writtenNames mode given).count "class" = if given.flatMap (·.classes) = [] then 0 else 1 := by
  have hnone : ∀ given : List GivenAttribute,
      ((given.filterMap (·.written? mode)).map Prod.fst).count "class" = 0 :=
    fun given => List.count_eq_zero.mpr (class_notMem_written mode given)
  rw [writtenNames, writtenAttributes, List.map_append, List.map_append, List.count_append,
    List.count_append, hnone, hnone]
  unfold classAttribute
  split <;> rfl

theorem nodup_writtenNames :
    (writtenNames mode given).Nodup ↔
      ∀ name ≠ "class", (given.countP fun g => g.name = name && g.isPresent) ≤ 1 := by
  rw [List.nodup_iff_count_le_one]
  constructor
  · intro h name hname
    have hcount := h name
    rwa [count_writtenNames mode given hname] at hcount
  · intro h name
    by_cases hname : name = "class"
    · rw [hname, count_class_writtenNames]
      split <;> omega
    · rw [count_writtenNames mode given hname]
      exact h name hname

end

/-- **How often a name is written**: `class` once or not at all, and any other as often as the tag
has an attribute of that name that is neither nothing nor false. Thus all names are written once
just when there are no two such attributes of one name. -/
theorem attributesText_names {mode : Mode} {vars : String → Value} {attributes : List Attribute}
    {text : String} (h : attributesText mode vars attributes = .ok text) :
    ∃ given, attributes.mapM (Attribute.give vars) = .ok given ∧
      text = String.join ((writtenAttributes mode given).map writeAttribute) ∧
      ((writtenNames mode given).count "class" = if given.flatMap (·.classes) = [] then 0 else 1) ∧
      (∀ name ≠ "class", (writtenNames mode given).count name =
        given.countP fun g => g.name = name && g.isPresent) ∧
      ((writtenNames mode given).Nodup ↔
        ∀ name ≠ "class", (given.countP fun g => g.name = name && g.isPresent) ≤ 1) := by
  rw [attributesText_merged] at h
  obtain ⟨given, hgiven, rfl⟩ := of_map_eq_ok h
  exact ⟨given, hgiven, rfl, count_class_writtenNames mode given,
    fun _ hname => count_writtenNames mode given hname, nodup_writtenNames mode given⟩

/-- The attributes of a link with classes from two sources and two targets. -/
def linkAttributes : List Attribute :=
  [fixedAttribute "class" "nav", ⟨"href", .spans [.literal "x"], true⟩,
    ⟨"class", .spans [.literal "wide"], true⟩, ⟨"href", .spans [.literal "y"], true⟩]

theorem attributesText_names_link :
    attributesText .html (fun _ => .null) linkAttributes =
        .ok " class=\"nav wide\" href=\"x\" href=\"y\"" ∧
      ∃ given, linkAttributes.mapM (Attribute.give fun _ => .null) = .ok given ∧
        (writtenNames .html given).count "class" = 1 ∧ (writtenNames .html given).count "href" = 2 := by
  have htext : attributesText .html (fun _ => .null) linkAttributes =
      .ok " class=\"nav wide\" href=\"x\" href=\"y\"" := by cbv
  obtain ⟨given, hgiven, -, hclass, hother, -⟩ := attributesText_names htext
  have hlink : linkAttributes.mapM (Attribute.give fun _ => .null) =
      .ok [⟨"class", true, .text "nav"⟩, ⟨"href", true, .text "x"⟩, ⟨"class", true, .text "wide"⟩,
        ⟨"href", true, .text "y"⟩] := by cbv
  cases hlink.symm.trans hgiven
  refine ⟨htext, _, hgiven, ?_, ?_⟩
  · rw [hclass]
    rfl
  · rw [hother "href" (by decide)]
    rfl

/-- The attributes of a link with two targets. -/
def twoTargets : List Attribute :=
  [⟨"href", .spans [.literal "x"], true⟩, ⟨"href", .spans [.literal "y"], true⟩]

open Source in
/-- Not all names are written once: a list may give a tag two attributes of one name. -/
theorem names_twoTargets :
    Layout.scan "a(href='x' href='y')" = .ok ⟨[⟨⟨1, 1⟩, 0,
        [.tag "a", .attributes [⟨"href", some "'x'", true⟩, ⟨"href", some "'y'", true⟩]]⟩], ⟨1, 1⟩⟩ ∧
      Head.read [.tag "a", .attributes [⟨"href", some "'x'", true⟩, ⟨"href", some "'y'", true⟩]] =
        .ok (.tag "a" twoTargets []) ∧
      attributesText .html (fun _ => .null) twoTargets = .ok " href=\"x\" href=\"y\"" ∧
      ¬∀ given, twoTargets.mapM (Attribute.give fun _ => .null) = .ok given →
        (writtenNames .html given).Nodup := by
  refine ⟨?_, by cbv, by cbv, ?_⟩
  · have hsecond : attributeList " href='y')".toList = .ok ([⟨"href", some "'y'", true⟩], []) :=
      attributeList_of_attribute (show _ = 'h' :: "ref='y')".toList from rfl) (by decide) rfl rfl
        (attributeList_closed [])
    have hlist : attributeList "href='x' href='y')".toList =
        .ok ([⟨"href", some "'x'", true⟩, ⟨"href", some "'y'", true⟩], []) :=
      attributeList_of_attribute (show _ = 'h' :: "ref='x' href='y')".toList from rfl) (by decide) rfl
        rfl hsecond
    have hsource : "a(href='x' href='y')" = String.ofList ("a(href='x' href='y'".toList ++ [')']) := by
      decide
    rw [hsource]
    exact scan_of_line (by decide) rfl (readStatement_of_attributes hlist)
  · intro h
    have hgiven : twoTargets.mapM (Attribute.give fun _ => .null) =
        .ok [⟨"href", true, .text "x"⟩, ⟨"href", true, .text "y"⟩] := by cbv
    exact absurd (h _ hgiven) (by decide)

end Trellis
