import Trellis.Proofs.Coinciding
import Trellis.Proofs.Confinement

/-!
# `Trellis.Proofs.FileTrees`: what stands where in a tree of files

A tree of files is a finite map from paths to files. `Leads` says what stands at the end of a path,
one name after the other, and this module relates the two views of a tree to it: the list of the paths
of all files (`mem_paths_iff`), and the walk along the text of a path (`locate_of_leads`).

Both need that the tree is one that there can be (`Sound`). The entries of a directory are a table in
order, or a file would be listed that no walk finds. And no name is one that a walk takes for something
else: empty, dots, with a slash in it, or too long. Putting a file into a tree keeps this (`sound_put`),
so the trees that come from a list of files are sound.
-/

set_option autoImplicit false

namespace Trellis

open Text

/-- What stands in a table in order is found. -/
theorem Table.Ordered.find?_eq_some_iff {α : Type} {t : Table α} (h : t.Ordered) {key : String} {x : α} :
    t.find? key = some x ↔ (key, x) ∈ t := by
  refine ⟨mem_of_find?, fun hmem => ?_⟩
  induction t with
  | nil => cases hmem
  | cons p rest ih =>
    obtain ⟨k, y⟩ := p
    obtain ⟨hfirst, hrest⟩ := List.pairwise_cons.mp h
    rw [Table.find?]
    rcases List.mem_cons.mp hmem with heq | hmem
    · cases heq
      exact if_pos rfl
    · -- The key stands behind the first one, so it is another one.
      have hlt : k < key := hfirst key (List.mem_map_of_mem hmem)
      have hne : k ≠ key := by
        rintro rfl
        exact String.lt_irrefl k hlt
      rw [if_neg hne]
      exact ih hrest hmem

/-! ### The text of a path -/

/-- A path as it is spelled. -/
def spelled (path : List String) : String := "/".intercalate path

theorem toList_spelled (path : List String) :
    (spelled path).toList = joinWith ['/'] (path.map String.toList) := by
  unfold spelled
  rw [String.toList_intercalate]
  generalize path.map String.toList = parts
  induction parts with
  | nil => rfl
  | cons part parts ih =>
    cases parts with
    | nil => simp [List.intercalate, joinWith]
    | cons next parts =>
      rw [joinWith.eq_3 _ _ _ (List.cons_ne_nil _ _), ← ih]
      simp [List.intercalate]

theorem splitAll_spelled {path : List String} (hne : path ≠ []) (h : ∀ name ∈ path, '/' ∉ name.toList) :
    splitAll '/' (spelled path).toList = path.map String.toList := by
  rw [toList_spelled]
  refine splitAll_joinWith ?_ ?_
  · simpa using hne
  · intro part hpart
    obtain ⟨name, hname, rfl⟩ := List.mem_map.mp hpart
    exact h name hname

/-- Paths that are spelled alike are the same. -/
theorem spelled_inj {path path' : List String} (hne : path ≠ []) (hne' : path' ≠ [])
    (h : ∀ name ∈ path, '/' ∉ name.toList) (h' : ∀ name ∈ path', '/' ∉ name.toList)
    (heq : spelled path = spelled path') : path = path' := by
  have hsplit := congrArg (fun s => splitAll '/' s.toList) heq
  simp only [splitAll_spelled hne h, splitAll_spelled hne' h'] at hsplit
  exact (List.map_inj_right fun _ _ => String.toList_inj.mp).mp hsplit

theorem mem_joinWith {d c : Char} {parts : List (List Char)} (h : c ∈ joinWith [d] parts) :
    c = d ∨ ∃ part ∈ parts, c ∈ part := by
  induction parts with
  | nil => cases h
  | cons part rest ih =>
    cases rest with
    | nil => exact .inr ⟨part, List.mem_cons_self, h⟩
    | cons next rest =>
      rw [joinWith.eq_3 _ _ _ (List.cons_ne_nil _ _)] at h
      rcases List.mem_append.mp h with h | h
      · rcases List.mem_append.mp h with h | h
        · exact .inr ⟨part, List.mem_cons_self, h⟩
        · exact .inl (List.mem_singleton.mp h)
      · rcases ih h with h | ⟨part', hpart', h⟩
        · exact .inl h
        · exact .inr ⟨part', List.mem_cons_of_mem _ hpart', h⟩

namespace FileTree

/-! ### Trees that there can be -/

/-- A name that an entry of a directory can have. -/
structure IsName (name : String) : Prop where
  segment : Reference.IsSegment name.toList
  short : name.utf8ByteSize ≤ maxName
  noNull : Char.ofNat 0 ∉ name.toList

/-- A tree that there can be. -/
inductive Sound : FileTree → Prop
  | file (bytes : ByteArray) (modified : Nat) : Sound (.file bytes modified)
  | directory {entries : Table FileTree} {modified : Nat} (names : ∀ e ∈ entries, IsName e.1)
    (ordered : entries.Ordered) (inner : ∀ e ∈ entries, Sound e.2) :
    Sound (.directory entries modified)

theorem sound_empty : Sound empty := .directory nofun .nil nofun

/-- **Putting something into a tree** under names that there can be gives a tree that there can be. -/
theorem sound_put {tree t : FileTree} (htree : Sound tree) (ht : Sound t) {path : List String}
    (hpath : ∀ name ∈ path, IsName name) : Sound (put tree path t) := by
  induction path generalizing t with
  | nil => exact htree
  | cons name path ih =>
    obtain ⟨hname, hpath⟩ := List.forall_mem_cons.mp hpath
    cases ht with
    | file =>
      refine .directory ?_ (List.pairwise_singleton _ _) ?_
      · exact List.forall_mem_singleton.mpr hname
      · exact List.forall_mem_singleton.mpr (ih sound_empty hpath)
    | @directory entries _ names ordered inner =>
      have hinner : Sound ((entries.find? name).getD empty) := by
        cases hfind : entries.find? name with
        | none => exact sound_empty
        | some inside => exact inner _ (Table.mem_of_find? hfind)
      refine .directory (fun e he => ?_) (Table.ordered_insert _ _ ordered) (fun e he => ?_)
      · rcases Table.mem_insert he with rfl | he
        · exact hname
        · exact names e he
      · rcases Table.mem_insert he with rfl | he
        · exact ih hinner hpath
        · exact inner e he

/-! ### Where a path leads -/

/-- What stands at the end of a path that goes down from a tree. -/
inductive Leads : FileTree → List String → FileTree → Prop
  | here (tree : FileTree) : Leads tree [] tree
  | into {entries : Table FileTree} {modified : Nat} {name : String} {path : List String}
    {inner tree : FileTree} (entry : entries.find? name = some inner) (leads : Leads inner path tree) :
    Leads (.directory entries modified) (name :: path) tree

/-- What is put at the end of a path is what the path leads to. -/
theorem leads_put (tree t : FileTree) (path : List String) : Leads (put tree path t) path tree := by
  induction path generalizing t with
  | nil => exact .here tree
  | cons name path ih =>
    cases t with
    | file => exact .into (if_pos rfl) (ih empty)
    | directory entries modified => exact .into (Table.find?_insert_self _ _ _) (ih _)

theorem Leads.names {t tree : FileTree} {path : List String} (h : Leads t path tree) (ht : Sound t) :
    ∀ name ∈ path, IsName name := by
  induction h with
  | here => nofun
  | into entry _ ih =>
    cases ht with
    | directory names _ inner =>
      have hmem := Table.mem_of_find? entry
      exact List.forall_mem_cons.mpr ⟨names _ hmem, ih (inner _ hmem)⟩

theorem mem_entryPaths_iff {entries : Table FileTree} {path : List String} :
    path ∈ entryPaths entries ↔
      ∃ name tree rest, (name, tree) ∈ entries ∧ path = name :: rest ∧ rest ∈ tree.paths := by
  induction entries with
  | nil => simp [entryPaths]
  | cons e entries ih =>
    obtain ⟨name, tree⟩ := e
    rw [entryPaths, List.mem_append, ih]
    constructor
    · rintro (h | ⟨name', tree', rest, hmem, hpath⟩)
      · obtain ⟨rest, hrest, rfl⟩ := List.mem_map.mp h
        exact ⟨name, tree, rest, List.mem_cons_self, rfl, hrest⟩
      · exact ⟨name', tree', rest, List.mem_cons_of_mem _ hmem, hpath⟩
    · rintro ⟨name', tree', rest, hmem, rfl, hrest⟩
      rcases List.mem_cons.mp hmem with heq | hmem
      · cases heq
        exact .inl (List.mem_map_of_mem hrest)
      · exact .inr ⟨name', tree', rest, hmem, rfl, hrest⟩

/-- **The paths of a tree are those that lead to its files.** -/
theorem mem_paths_iff {t : FileTree} (ht : Sound t) {path : List String} :
    path ∈ t.paths ↔ ∃ bytes modified, Leads t path (.file bytes modified) := by
  induction path generalizing t with
  | nil =>
    cases t with
    | file bytes modified => exact ⟨fun _ => ⟨bytes, modified, .here _⟩, fun _ => by simp [paths]⟩
    | directory entries modified =>
      constructor
      · intro h
        rw [paths, mem_entryPaths_iff] at h
        obtain ⟨_, _, _, -, hpath, -⟩ := h
        cases hpath
      · rintro ⟨_, _, h⟩
        cases h
  | cons name path ih =>
    cases ht with
    | file =>
      constructor
      · intro h
        simp [paths] at h
      · rintro ⟨_, _, h⟩
        cases h
    | directory names ordered inner =>
      rw [paths, mem_entryPaths_iff]
      constructor
      · rintro ⟨_, tree, _, hmem, hpath, hrest⟩
        cases hpath
        obtain ⟨bytes, modified, hleads⟩ := (ih (inner _ hmem)).mp hrest
        exact ⟨bytes, modified, .into (ordered.find?_eq_some_iff.mpr hmem) hleads⟩
      · rintro ⟨bytes, modified, hleads⟩
        cases hleads with
        | into entry hleads =>
          have hmem := Table.mem_of_find? entry
          exact ⟨name, _, path, hmem, rfl, (ih (inner _ hmem)).mpr ⟨bytes, modified, hleads⟩⟩

/-! ### Walking along a path -/

/-- One name leads one step down. -/
theorem step_of_find? {entries : Table FileTree} {modified : Nat} {name : String} {inner : FileTree}
    (hname : IsName name) (hfind : entries.find? name = some inner) (around : Trail) :
    step name.toList (.directory entries modified :: around) =
      .ok (inner :: .directory entries modified :: around) := by
  have hshort : ¬name.utf8ByteSize > maxName := Nat.not_lt.mpr hname.short
  rw [step]
  simp only [String.ofList_toList]
  rw [if_neg (by simp [hname.segment.ne_nil, hname.segment.ne_dot]), if_neg hname.segment.ne_dots,
    if_neg hshort, hfind]

theorem Leads.foldlM_step {t tree : FileTree} {path : List String} (h : Leads t path tree)
    (hnames : ∀ name ∈ path, IsName name) (around : Trail) :
    ∃ around', (path.map String.toList).foldlM (fun trail segment => step segment trail) (t :: around) =
      (.ok (tree :: around') : Except Obstacle Trail) := by
  induction h generalizing around with
  | here => exact ⟨around, rfl⟩
  | @into entries modified name path inner tree entry _ ih =>
    obtain ⟨hname, hrest⟩ := List.forall_mem_cons.mp hnames
    obtain ⟨around', hfold⟩ := ih hrest (.directory entries modified :: around)
    refine ⟨around', ?_⟩
    rw [List.map_cons, List.foldlM_cons, step_of_find? hname entry]
    exact hfold

/-- **A walk finds what its path leads to.** -/
theorem locate_of_leads {t tree : FileTree} (ht : Sound t) {path : List String} (hne : path ≠ [])
    (h : Leads t path tree) (hshort : isTooLong (spelled path) = false) (around : Trail) :
    locate (spelled path) (t :: around) = .ok tree := by
  have hnames := h.names ht
  have hnull : (spelled path).toList.contains (Char.ofNat 0) = false := by
    refine eq_false_of_ne_true fun hmem => ?_
    rw [List.contains_iff_mem, toList_spelled] at hmem
    rcases mem_joinWith hmem with hslash | ⟨part, hpart, hmem⟩
    · exact absurd hslash (by decide)
    · obtain ⟨name, hname, rfl⟩ := List.mem_map.mp hpart
      exact (hnames name hname).noNull hmem
  obtain ⟨around', hfold⟩ := h.foldlM_step hnames around
  have hwalk : walk (spelled path) (t :: around) = .ok (tree :: around') := by
    unfold walk
    rw [hnull, hshort, splitAll_spelled hne fun name hname => (hnames name hname).segment.slash_notMem]
    exact hfold
  unfold locate
  rw [hwalk]
  rfl

/-- A step along a name goes to the entry with this name, or nowhere. -/
theorem find?_of_step {t : FileTree} {name : String} (hname : Reference.IsSegment name.toList)
    {around trail : Trail} (h : step name.toList (t :: around) = .ok trail) :
    ∃ entries modified inner, t = .directory entries modified ∧
      Table.find? name entries = some inner ∧ trail = inner :: t :: around := by
  cases t with
  | file => cases h
  | directory entries modified =>
    rw [step] at h
    simp only [String.ofList_toList] at h
    rw [if_neg (by simp [hname.ne_nil, hname.ne_dot]), if_neg hname.ne_dots] at h
    split at h
    · cases h
    · cases hfind : Table.find? name entries with
      | none =>
        rw [hfind] at h
        cases h
      | some inner =>
        rw [hfind] at h
        cases h
        exact ⟨entries, modified, inner, rfl, hfind, rfl⟩

/-- What a walk along names comes to is where they lead. -/
theorem leads_of_foldlM {path : List String} (hpath : ∀ name ∈ path, Reference.IsSegment name.toList)
    {t : FileTree} {around trail : Trail}
    (h : (path.map String.toList).foldlM (fun trail segment => step segment trail) (t :: around) =
      (.ok trail : Except Obstacle Trail)) :
    ∃ tree around', trail = tree :: around' ∧ Leads t path tree := by
  induction path generalizing t around with
  | nil =>
    cases h
    exact ⟨t, around, rfl, .here t⟩
  | cons name path ih =>
    obtain ⟨hname, hpath⟩ := List.forall_mem_cons.mp hpath
    rw [List.map_cons, List.foldlM_cons] at h
    cases hstep : step name.toList (t :: around) with
    | error obstacle =>
      rw [hstep] at h
      cases h
    | ok next =>
      rw [hstep] at h
      obtain ⟨entries, modified, inner, rfl, hfind, rfl⟩ := find?_of_step hname hstep
      obtain ⟨tree, around', htrail, hleads⟩ := ih hpath h
      exact ⟨tree, around', htrail, .into hfind hleads⟩

/-- A walk along names that lead nowhere fails. -/
theorem locate_of_not_leads {t : FileTree} {path : List String} (hne : path ≠ [])
    (hpath : ∀ name ∈ path, Reference.IsSegment name.toList) (hmissing : ∀ tree, ¬Leads t path tree)
    (around : Trail) : ∃ obstacle, locate (spelled path) (t :: around) = .error obstacle := by
  have hwalk : ∃ obstacle, walk (spelled path) (t :: around) = .error obstacle := by
    unfold walk
    split
    · exact ⟨_, rfl⟩
    · rw [splitAll_spelled hne fun name hname => (hpath name hname).slash_notMem]
      cases hfold : (path.map String.toList).foldlM (fun trail segment => step segment trail)
          (t :: around) with
      | error obstacle => exact ⟨obstacle, rfl⟩
      | ok trail =>
        obtain ⟨tree, _, -, hleads⟩ := leads_of_foldlM hpath hfold
        exact absurd hleads (hmissing tree)
  obtain ⟨obstacle, hwalk⟩ := hwalk
  refine ⟨obstacle, ?_⟩
  unfold locate
  rw [hwalk]
  rfl

end FileTree

end Trellis
