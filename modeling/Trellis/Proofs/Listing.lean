import Trellis.Proofs.Building
import Trellis.Proofs.FileTrees
import Trellis.Proofs.Verbatim

/-!
# `Trellis.Proofs.Listing`: the names under which the files of a directory are listed

A template file is listed under its path without the ending. A name means a file in two ways: with the
ending, unless the name has an extension already. So the two undo each other exactly for the files whose
stem, the file name without the ending, has no extension of its own (`Plain`):

* `path_name` gives the file that a listed name means, for every stem. A stem with a dot in its middle
  is taken for a whole file name. The stem that is a single dot would mean the directory, so the file is
  listed with another dot, and that name means the file with one dot more.
* `name_inj` says which files are listed under one name: only those two.

`listed_loads_iff` adds what follows for loading, and for the engine that asks for all listed names in
advance. `dottedPage_lost` is a directory with a file that is listed and cannot be loaded.
-/

set_option autoImplicit false

namespace Trellis

open Text

/-! ### Extensions -/

namespace Text.Path

/-- A segment is cut at its last dot, if that is not its first character. -/
theorem cutExtension?_eq_some_iff {segment stem extension : List Char} :
    cutExtension? segment = some (stem, extension) ↔
      segment = stem ++ '.' :: extension ∧ stem ≠ [] ∧ '.' ∉ extension := by
  have hnot {cs : List Char} (h : '.' ∉ cs) : ∀ c ∈ cs, (c != '.') = true := by
    intro c hc
    simpa using fun heq : c = '.' => h (heq ▸ hc)
  constructor
  · intro h
    unfold cutExtension? at h
    have hsplit := List.takeWhile_append_dropWhile (p := (· != '.')) (l := segment.reverse)
    have hdot : '.' ∉ segment.reverse.takeWhile (· != '.') := fun hmem => by
      simpa using List.mem_takeWhile_imp hmem
    have hhead := List.head?_dropWhile_not (· != '.') segment.reverse
    cases hrest : segment.reverse.dropWhile (· != '.') with
    | nil =>
      rw [hrest] at h
      cases h
    | cons c before =>
      rw [hrest] at h hsplit hhead
      have hc : c = '.' := by simpa using hhead
      subst hc
      dsimp only at h
      split at h
      · cases h
      · next hne =>
        cases h
        have hsegment : segment =
            (segment.reverse.takeWhile (· != '.') ++ '.' :: before).reverse := by
          rw [hsplit, List.reverse_reverse]
        refine ⟨hsegment.trans ?_, by simpa using hne, by simpa using hdot⟩
        simp
  · rintro ⟨rfl, hne, hdot⟩
    have hreverse : (stem ++ '.' :: extension).reverse = extension.reverse ++ '.' :: stem.reverse := by
      simp
    have hbehind : ∀ c ∈ extension.reverse, (c != '.') = true := hnot (by simpa using hdot)
    unfold cutExtension?
    rw [hreverse, List.takeWhile_append_of_pos hbehind, List.dropWhile_append_of_pos hbehind]
    simp [hne]

theorem cutExtension?_eq_none_iff {segment : List Char} :
    cutExtension? segment = none ↔ '.' ∉ segment.tail := by
  rw [← not_iff_not, not_not, ← ne_eq, Option.ne_none_iff_exists']
  constructor
  · rintro ⟨⟨stem, extension⟩, h⟩
    obtain ⟨rfl, hne, -⟩ := cutExtension?_eq_some_iff.mp h
    obtain ⟨c, stem, rfl⟩ := List.exists_cons_of_ne_nil hne
    simp
  · intro hmem
    -- The last dot is the first one from behind.
    obtain ⟨behind, before, hsplit, hnot⟩ := List.eq_append_cons_of_mem (List.mem_reverse.mpr hmem)
    have htail : segment.tail = before.reverse ++ '.' :: behind.reverse := by
      rw [← List.reverse_reverse segment.tail, hsplit]
      simp
    cases segment with
    | nil => cases hmem
    | cons c rest =>
      rw [List.tail_cons] at htail
      refine ⟨(c :: before.reverse, behind.reverse), cutExtension?_eq_some_iff.mpr ⟨?_, ?_, ?_⟩⟩
      · rw [htail]
        rfl
      · exact List.cons_ne_nil _ _
      · simpa using hnot

/-- Only the last segment of a path matters for its extension. -/
theorem extension?_joinWith {front : List (List Char)} {last : List Char}
    (hfront : ∀ s ∈ front, '/' ∉ s) (hslash : '/' ∉ last) (hne : last ≠ []) (hdot : last ≠ ['.']) :
    extension? (joinWith ['/'] (front ++ [last])) =
      if last = ['.', '.'] then none else (cutExtension? last).map (·.2) := by
  have hsplit : splitAll '/' (joinWith ['/'] (front ++ [last])) = front ++ [last] := by
    refine splitAll_joinWith (by simp) ?_
    exact List.forall_mem_append.mpr ⟨hfront, List.forall_mem_singleton.mpr hslash⟩
  have hlast : (segments (joinWith ['/'] (front ++ [last]))).getLast? = some last := by
    unfold segments
    rw [hsplit, List.filter_append, List.filter_cons_of_pos (by simp [hne, hdot])]
    exact List.getLast?_concat
  unfold extension?
  rw [hlast]

theorem extension?_joinWith_eq_none_iff {front : List (List Char)} {last : List Char}
    (hfront : ∀ s ∈ front, '/' ∉ s) (hslash : '/' ∉ last) (hne : last ≠ []) (hdot : last ≠ ['.']) :
    extension? (joinWith ['/'] (front ++ [last])) = none ↔ last = ['.', '.'] ∨ '.' ∉ last.tail := by
  rw [extension?_joinWith hfront hslash hne hdot, ← cutExtension?_eq_none_iff]
  by_cases htwo : last = ['.', '.'] <;> simp [htwo]

/-- Segments with something in them, joined, do not begin with a slash. -/
theorem relative_joinWith {parts : List (List Char)} (h : ∀ s ∈ parts, s ≠ [] ∧ '/' ∉ s) :
    relative (joinWith ['/'] parts) = joinWith ['/'] parts := by
  cases parts with
  | nil => rfl
  | cons first rest =>
    obtain ⟨hne, hslash⟩ := h first List.mem_cons_self
    obtain ⟨c, cs, rfl⟩ := List.exists_cons_of_ne_nil hne
    have hc : ¬(c == '/') = true := fun heq => hslash (by simp [beq_iff_eq.mp heq])
    unfold relative
    cases rest with
    | nil => exact List.dropWhile_cons_of_neg hc
    | cons next rest =>
      rw [joinWith.eq_3 _ _ _ (List.cons_ne_nil _ _), List.cons_append, List.cons_append]
      exact List.dropWhile_cons_of_neg hc

end Text.Path

namespace Directory

/-! ### Listed names -/

/-- A template file: the directory that it is in, and its name without the ending. -/
structure TemplateFile where
  folder : List String
  stem : List Char
  ne_nil : stem ≠ []

namespace TemplateFile

/-- The name of the file itself. -/
def file (t : TemplateFile) : String := String.ofList (t.stem ++ '.' :: templateExtension)

def path (t : TemplateFile) : List String := t.folder ++ [t.file]

/-- The name under which it is listed. -/
def name (t : TemplateFile) : String := spelled (t.folder ++ [fileName t.stem])

/-- The stem has no extension of its own, and is no single dot. Two dots mean the directory above, and
have none. -/
def Plain (t : TemplateFile) : Prop :=
  t.stem = ['.', '.'] ∨ '.' ∉ t.stem.tail ∧ t.stem ≠ ['.']

/-- The file in the same directory that the listed name means. -/
def meant (t : TemplateFile) : String :=
  if t.stem = ['.'] then "...jade"
  else if t.stem = ['.', '.'] ∨ '.' ∉ t.stem.tail then t.file
  else String.ofList t.stem

end TemplateFile

theorem TemplateFile.path_inj {t t' : TemplateFile} (h : t.path = t'.path) : t = t' := by
  obtain ⟨hfolder, hfile⟩ := List.append_inj' h rfl
  have hstem := congrArg String.toList (List.singleton_inj.mp hfile)
  rw [file, file, String.toList_ofList, String.toList_ofList] at hstem
  cases t
  cases t'
  cases hfolder
  cases List.append_cancel_right hstem
  rfl

theorem templateName?_eq_some_iff {path : List String} {name : String} :
    templateName? path = some name ↔ ∃ t : TemplateFile, t.path = path ∧ t.name = name := by
  unfold templateName?
  constructor
  · intro h
    cases hlast : path.getLast? with
    | none =>
      rw [hlast] at h
      cases h
    | some file =>
      rw [hlast] at h
      dsimp only at h
      cases hcut : Text.Path.cutExtension? file.toList with
      | none =>
        rw [hcut] at h
        cases h
      | some p =>
        obtain ⟨stem, extension⟩ := p
        rw [hcut] at h
        dsimp only at h
        split at h
        · next heq =>
          subst heq
          cases h
          obtain ⟨hfile, hne, -⟩ := Text.Path.cutExtension?_eq_some_iff.mp hcut
          refine ⟨⟨path.dropLast, stem, hne⟩, ?_, rfl⟩
          have hname : String.ofList (stem ++ '.' :: templateExtension) = file := by
            rw [← hfile, String.ofList_toList]
          show path.dropLast ++ [String.ofList (stem ++ '.' :: templateExtension)] = path
          rw [hname]
          exact List.dropLast_append_getLast? _ hlast
        · cases h
  · rintro ⟨t, rfl, rfl⟩
    have hcut : Text.Path.cutExtension? t.file.toList = some (t.stem, templateExtension) := by
      refine Text.Path.cutExtension?_eq_some_iff.mpr ⟨?_, t.ne_nil, by decide⟩
      exact String.toList_ofList
    have hlast : t.path.getLast? = some t.file := List.getLast?_concat
    rw [hlast]
    dsimp only
    rw [hcut]
    simp [TemplateFile.path, TemplateFile.name, spelled]

/-! ### What a listed name means -/

/-- **The file that a path of segments means.** The ending is put behind a last segment without an
extension. -/
theorem path_spelled {folder : List String} {last : List Char}
    (hfolder : ∀ name ∈ folder, Reference.IsSegment name.toList) (hslash : '/' ∉ last) (hne : last ≠ [])
    (hdot : last ≠ ['.']) : path (spelled (folder ++ [String.ofList last])) =
      spelled (folder ++ [String.ofList
        (if last = ['.', '.'] ∨ '.' ∉ last.tail then last ++ '.' :: templateExtension else last)]) := by
  have hspelled (file : List Char) : (spelled (folder ++ [String.ofList file])).toList =
      joinWith ['/'] (folder.map String.toList ++ [file]) := by
    rw [toList_spelled, List.map_append, List.map_singleton, String.toList_ofList]
  have hfront : ∀ s ∈ folder.map String.toList, Reference.IsSegment s := List.forall_mem_map.mpr hfolder
  have hparts : ∀ s ∈ folder.map String.toList ++ [last], s ≠ [] ∧ '/' ∉ s :=
    List.forall_mem_append.mpr ⟨fun s hs => ⟨(hfront s hs).ne_nil, (hfront s hs).slash_notMem⟩,
      List.forall_mem_singleton.mpr ⟨hne, hslash⟩⟩
  have hextension := Text.Path.extension?_joinWith_eq_none_iff
    (fun s hs => (hfront s hs).slash_notMem) hslash hne hdot
  rw [← String.toList_inj, hspelled]
  unfold path
  dsimp only
  rw [hspelled, Text.Path.relative_joinWith hparts, String.toList_ofList]
  by_cases hplain : last = ['.', '.'] ∨ '.' ∉ last.tail
  · rw [if_pos hplain, joinWith_append_last, hextension.mpr hplain]
    rfl
  · rw [if_neg hplain, if_pos]
    exact Option.isSome_iff_ne_none.mpr fun hnone => hplain (hextension.mp hnone)

namespace TemplateFile

/-- The path of the file is one that there can be. -/
def Named (t : TemplateFile) : Prop := ∀ name ∈ t.path, FileTree.IsName name

variable {t t' : TemplateFile}

theorem Named.folder (h : t.Named) : ∀ name ∈ t.folder, Reference.IsSegment name.toList :=
  fun name hname => (h name (List.mem_append_left _ hname)).segment

theorem Named.slash_notMem (h : t.Named) : '/' ∉ t.stem := by
  intro hmem
  have hfile := (h t.file (List.mem_append_right _ List.mem_cons_self)).segment.slash_notMem
  refine hfile ?_
  rw [file, String.toList_ofList]
  exact List.mem_append_left _ hmem

theorem toList_fileName (stem : List Char) :
    (fileName stem).toList = if stem = ['.'] then ['.', '.'] else stem := by
  unfold fileName
  split
  · rfl
  · exact String.toList_ofList

/-- **The file that a listed name means.** -/
theorem path_name (h : t.Named) : Directory.path t.name = spelled (t.folder ++ [t.meant]) := by
  unfold name meant fileName
  by_cases hone : t.stem = ['.']
  · rw [if_pos hone, if_pos hone]
    exact path_spelled h.folder (by decide : '/' ∉ ['.', '.']) (by decide) (by decide)
  · rw [if_neg hone, if_neg hone, path_spelled h.folder h.slash_notMem t.ne_nil hone]
    split <;> rfl

theorem isSegment_meant (h : t.Named) : Reference.IsSegment t.meant.toList := by
  have hfile := (h t.file (List.mem_append_right _ List.mem_cons_self)).segment
  unfold meant
  by_cases hone : t.stem = ['.']
  · rw [if_pos hone]
    exact ⟨by decide, by decide, by decide, by decide⟩
  · rw [if_neg hone]
    split
    · exact hfile
    · next hplain =>
      rw [String.toList_ofList]
      exact ⟨t.ne_nil, hone, fun htwo => hplain (.inl htwo), h.slash_notMem⟩

/-- The name means the file exactly if the stem is plain. -/
theorem meant_eq_file_iff : t.meant = t.file ↔ t.Plain := by
  have hfile : t.file.toList = t.stem ++ '.' :: templateExtension := String.toList_ofList
  unfold meant
  by_cases hone : t.stem = ['.']
  · rw [if_pos hone, ← String.toList_inj, hfile, hone]
    simp [templateExtension, Plain, hone]
  · rw [if_neg hone]
    by_cases hplain : t.stem = ['.', '.'] ∨ '.' ∉ t.stem.tail
    · rw [if_pos hplain, eq_self_iff_true, true_iff]
      exact hplain.imp_right fun hmem => ⟨hmem, hone⟩
    · rw [if_neg hplain, ← String.toList_inj, hfile, String.toList_ofList]
      refine iff_of_false (fun heq => ?_) fun h => hplain (h.imp_right And.left)
      have := congrArg List.length heq
      simp at this

/-- **A listed name means the file that it comes from** exactly if the stem of the file is plain. -/
theorem path_name_eq_iff (h : t.Named) : Directory.path t.name = spelled t.path ↔ t.Plain := by
  rw [path_name h, ← meant_eq_file_iff]
  have hfolder : ∀ name ∈ t.folder, '/' ∉ name.toList := fun name hname =>
    (h.folder name hname).slash_notMem
  have hfile := (h t.file (List.mem_append_right _ List.mem_cons_self)).segment.slash_notMem
  constructor
  · intro heq
    have hpaths := spelled_inj (by simp) (List.append_ne_nil_of_right_ne_nil _ (List.cons_ne_nil _ _))
      (List.forall_mem_append.mpr ⟨hfolder, List.forall_mem_singleton.mpr (isSegment_meant h).slash_notMem⟩)
      (List.forall_mem_append.mpr ⟨hfolder, List.forall_mem_singleton.mpr hfile⟩) heq
    exact List.singleton_inj.mp (List.append_cancel_left hpaths)
  · intro heq
    rw [heq]
    rfl

/-- **Files that are listed under one name** are the same, or those whose stems are one dot and two
dots, side by side. -/
theorem name_inj (h : t.Named) (h' : t'.Named) (heq : t.name = t'.name) :
    t.path = t'.path ∨ t.folder = t'.folder ∧
      (t.stem = ['.'] ∧ t'.stem = ['.', '.'] ∨ t.stem = ['.', '.'] ∧ t'.stem = ['.']) := by
  have hslash {t : TemplateFile} (h : t.Named) :
      ∀ name ∈ t.folder ++ [fileName t.stem], '/' ∉ name.toList := by
    refine List.forall_mem_append.mpr
      ⟨fun name hname => (h.folder name hname).slash_notMem, List.forall_mem_singleton.mpr ?_⟩
    rw [toList_fileName]
    split
    · decide
    · exact h.slash_notMem
  have hpaths := spelled_inj (by simp) (by simp) (hslash h) (hslash h') heq
  obtain ⟨hfolder, hfile⟩ := List.append_inj' hpaths rfl
  have hstem := congrArg String.toList (List.singleton_inj.mp hfile)
  rw [toList_fileName, toList_fileName] at hstem
  by_cases hone : t.stem = ['.']
  · by_cases hone' : t'.stem = ['.']
    · exact .inl (by simp [path, file, hfolder, hone, hone'])
    · rw [if_pos hone, if_neg hone'] at hstem
      exact .inr ⟨hfolder, .inl ⟨hone, hstem.symm⟩⟩
  · by_cases hone' : t'.stem = ['.']
    · rw [if_neg hone, if_pos hone'] at hstem
      exact .inr ⟨hfolder, .inr ⟨hstem, hone'⟩⟩
    · rw [if_neg hone, if_neg hone'] at hstem
      exact .inl (by simp [path, file, hfolder, hstem])

end TemplateFile

/-! ### Loading what is listed -/

/-- A directory that there can be: its base is one, and the path of no file in it is too long. -/
structure Sound (d : Directory) : Prop where
  base : ∃ entries modified around, d.trail = .ok (.directory entries modified :: around) ∧
    FileTree.Sound (.directory entries modified)
  short : ∀ path ∈ d.files,
    FileTree.isTooLong (String.ofList (Text.Path.join d.place.toList (spelled path).toList)) = false

/-- At a path below the base there is a file with some bytes. -/
def Has (d : Directory) (path : List String) (bytes : ByteArray) : Prop :=
  ∃ base around modified, d.trail = .ok (base :: around) ∧ base.Leads path (.file bytes modified)

/-- Nothing stands at a path below the base. -/
def Lacks (d : Directory) (path : List String) : Prop :=
  ∀ base around, d.trail = .ok (base :: around) → ∀ tree, ¬base.Leads path tree

/-- The text that some bytes are, if they are one. -/
def readText (bytes : ByteArray) : Except Error String :=
  match String.fromUTF8? bytes with
  | some text => .ok text
  | none => .error .unreadable

theorem readText_toUTF8 (text : String) : readText text.toUTF8 = .ok text := by
  have htext : String.fromUTF8? text.toUTF8 = some text := by
    rw [String.fromUTF8?]
    exact dif_pos text.isValidUTF8
  rw [readText, htext]

section
variable (d : Directory)

theorem loader_source : d.loader.source = d.source := by rw [loader]

theorem loader_version : d.loader.version = d.version := by rw [loader]

theorem loader_holds : d.loader.holds = d.holds := by rw [loader]

theorem loader_list : d.loader.list = d.templates := by rw [loader]

variable {d}

theorem loads_of_locate {name : String} {bytes : ByteArray} {modified : Nat}
    (h : d.locate name = .ok (.file bytes modified)) : d.loader.holds name = true ∧
      d.loader.source name = readText bytes ∧ d.loader.version name = .ok (toString modified) := by
  refine ⟨?_, ?_, ?_⟩
  · rw [loader_holds]
    unfold holds
    rw [h]
  · rw [loader_source]
    unfold source
    rw [h]
    rfl
  · rw [loader_version]
    unfold version
    rw [h]
    rfl

theorem fails_of_locate {name : String} {obstacle : Obstacle} (h : d.locate name = .error obstacle) :
    d.loader.holds name = false ∧ d.loader.source name = .error (failure name obstacle) ∧
      d.loader.version name = .error (failure name obstacle) := by
  refine ⟨?_, ?_, ?_⟩
  · rw [loader_holds]
    unfold holds
    rw [h]
  · rw [loader_source]
    unfold source
    rw [h]
  · rw [loader_version]
    unfold version
    rw [h]

end

section
variable {d : Directory} (h : d.Sound)
include h

theorem mem_files_iff {path : List String} : path ∈ d.files ↔ ∃ bytes, d.Has path bytes := by
  obtain ⟨entries, modified, around, htrail, hsound⟩ := h.base
  have hfiles : d.files = (FileTree.directory entries modified).paths := by
    unfold files
    rw [htrail, FileTree.paths]
  rw [hfiles, FileTree.mem_paths_iff hsound]
  unfold Has
  rw [htrail]
  constructor
  · rintro ⟨bytes, changed, hleads⟩
    exact ⟨bytes, _, _, changed, rfl, hleads⟩
  · rintro ⟨bytes, _, _, changed, heq, hleads⟩
    cases heq
    exact ⟨bytes, changed, hleads⟩

theorem named_of_mem {t : TemplateFile} (hmem : t.path ∈ d.files) : t.Named := by
  obtain ⟨bytes, base, around, modified, htrail, hleads⟩ := (mem_files_iff h).mp hmem
  obtain ⟨entries, changed, around', htrail', hsound⟩ := h.base
  cases htrail'.symm.trans htrail
  exact hleads.names hsound

theorem mem_list_iff {name : String} :
    name ∈ d.loader.list ↔ ∃ t : TemplateFile, t.path ∈ d.files ∧ t.name = name := by
  obtain ⟨entries, modified, around, htrail, -⟩ := h.base
  have htemplates : d.templates = (d.files.filterMap templateName?).mergeSort fun a b => a ≤ b := by
    unfold templates
    rw [htrail]
  rw [loader_list, htemplates, List.mem_mergeSort, List.mem_filterMap]
  constructor
  · rintro ⟨path, hpath, hname⟩
    obtain ⟨t, rfl, rfl⟩ := templateName?_eq_some_iff.mp hname
    exact ⟨t, hpath, rfl⟩
  · rintro ⟨t, hpath, rfl⟩
    exact ⟨t.path, hpath, templateName?_eq_some_iff.mpr ⟨t, rfl, rfl⟩⟩

/-- A name that means a file finds it. -/
theorem locate_of_has {name : String} {path : List String} {bytes : ByteArray} (hhas : d.Has path bytes)
    (hname : Directory.path name = spelled path) :
    ∃ modified, d.locate name = .ok (.file bytes modified) := by
  have hmem := (mem_files_iff h).mpr ⟨bytes, hhas⟩
  obtain ⟨base, around, modified, htrail, hleads⟩ := hhas
  obtain ⟨entries, changed, around', htrail', hsound⟩ := h.base
  cases htrail'.symm.trans htrail
  have hne : path ≠ [] := by
    rintro rfl
    cases hleads
  have hlong := h.short path hmem
  have hshort : FileTree.isTooLong (spelled path) = false := by
    unfold FileTree.isTooLong at hlong ⊢
    rw [decide_eq_false_iff_not] at hlong ⊢
    refine fun hle => hlong (Nat.le_trans hle ?_)
    -- The path from the base on is the end of the whole path.
    have hends (front : List Char) :
        (spelled path).utf8ByteSize ≤
          (String.ofList (front ++ (spelled path).toList)).utf8ByteSize := by
      rw [String.ofList_append, String.ofList_toList, String.utf8ByteSize_append]
      exact Nat.le_add_left _ _
    unfold Text.Path.join
    split
    · exact hends _
    · have := hends (d.place.toList ++ ['/'])
      rwa [List.append_assoc] at this
  refine ⟨modified, ?_⟩
  unfold locate
  rw [hname, hlong, htrail]
  exact FileTree.locate_of_leads hsound hne hleads hshort around

/-- **A name loads the file that it means.** -/
theorem loads_of_has {name : String} {path : List String} {bytes : ByteArray} (hhas : d.Has path bytes)
    (hname : Directory.path name = spelled path) :
    d.loader.holds name = true ∧ d.loader.source name = readText bytes ∧
      ∃ version, d.loader.version name = .ok version := by
  obtain ⟨modified, hlocate⟩ := locate_of_has h hhas hname
  obtain ⟨hholds, hsource, hversion⟩ := loads_of_locate hlocate
  exact ⟨hholds, hsource, _, hversion⟩

/-- A name that means a place where nothing stands loads nothing. -/
theorem fails_of_lacks {t : TemplateFile} (hmem : t.path ∈ d.files)
    (hlacks : d.Lacks (t.folder ++ [t.meant])) :
    d.loader.holds t.name = false ∧ ∃ error, d.loader.version t.name = .error error := by
  obtain ⟨entries, modified, around, htrail, hsound⟩ := h.base
  have hnamed := named_of_mem h hmem
  have hpath : ∀ name ∈ t.folder ++ [t.meant], Reference.IsSegment name.toList :=
    List.forall_mem_append.mpr ⟨fun name hname => hnamed.folder name hname,
      List.forall_mem_singleton.mpr (TemplateFile.isSegment_meant hnamed)⟩
  obtain ⟨obstacle, hlocate⟩ : ∃ obstacle, d.locate t.name = .error obstacle := by
    unfold locate
    split
    · exact ⟨_, rfl⟩
    · rw [TemplateFile.path_name hnamed, htrail]
      exact FileTree.locate_of_not_leads (by simp) hpath (hlacks _ _ htrail) around
  obtain ⟨hholds, -, hversion⟩ := fails_of_locate hlocate
  exact ⟨hholds, _, hversion⟩

end

end Directory

/-! ### Asking for all listed names in advance -/

namespace Engine

variable (e : Engine)

theorem template_ok {name version : String} {document : Document}
    (hversion : e.loader.version name = .ok version)
    (hdocument : (e.loader.document name).1 = .ok document) : ∃ t, (e.template name).1 = .ok t := by
  rcases e.template_cases name with ⟨error, herror, -⟩ | ⟨version', -, ⟨t, -, -, heq⟩ | ⟨t, log, -, heq⟩ |
    ⟨error, log, hmake, -⟩⟩
  · rw [hversion] at herror
    cases herror
  · exact ⟨t, by rw [heq]⟩
  · exact ⟨t, by rw [heq]⟩
  · -- A name with a document compiles.
    have hcompile := Template.compile_of_document hdocument e.options version' e.log
    rw [hmake] at hcompile
    cases hcompile

theorem prepare_ok {names : List String}
    (h : ∀ name ∈ names, (∃ version, e.loader.version name = .ok version) ∧
      ∃ document, (e.loader.document name).1 = .ok document) : (e.prepare names).1 = .ok () := by
  induction names generalizing e with
  | nil => rfl
  | cons name rest ih =>
    obtain ⟨⟨⟨version, hversion⟩, document, hdocument⟩, hrest⟩ := List.forall_mem_cons.mp h
    obtain ⟨t, ht⟩ := e.template_ok hversion hdocument
    have hloader := (e.template_builds name).loader
    rw [prepare]
    -- What is asked for first changes the cache and the log, but not the loader.
    split
    · next f hf =>
      rw [hf] at hloader
      refine ih f ?_
      rw [hloader]
      exact hrest
    · next error f hf =>
      rw [hf] at ht
      cases ht

theorem prepare_error {names : List String} {name : String} (hmem : name ∈ names) {error : Error}
    (h : e.loader.version name = .error error) : ∃ error, (e.prepare names).1 = .error error := by
  induction names generalizing e with
  | nil => cases hmem
  | cons first rest ih =>
    have hloader := (e.template_builds first).loader
    rw [prepare]
    split
    · next t f hf =>
      rw [hf] at hloader
      rcases List.mem_cons.mp hmem with rfl | hmem
      · -- The name itself has no template.
        rw [template, h] at hf
        cases hf
      · exact ih f hmem (by rw [hloader, h])
    · next error f hf => exact ⟨error, rfl⟩

end Engine

namespace Directory

/-- **What is listed, and what of it can be loaded.** Take a directory that there can be.

* Listed are the names of its template files.
* A name means the file that it comes from if and only if the stem of the file is plain, and then it
  loads the text of the file.
* Files with the same name are the same, or `..jade` and `...jade` side by side.
* If every template file has a plain stem and a document, all names can be asked for in advance. They
  cannot if nothing stands at the place that one of them means. -/
theorem listed_loads_iff (d : Directory) (h : d.Sound) :
    (∀ name, name ∈ d.loader.list ↔ ∃ t : TemplateFile, t.path ∈ d.files ∧ t.name = name) ∧
    (∀ t : TemplateFile, t.path ∈ d.files →
      (path t.name = spelled t.path ↔ t.Plain) ∧
      (t.Plain → ∃ bytes, d.Has t.path bytes ∧ d.loader.holds t.name = true ∧
        d.loader.source t.name = readText bytes)) ∧
    (∀ t t' : TemplateFile, t.path ∈ d.files → t'.path ∈ d.files → t.name = t'.name →
      t.path = t'.path ∨ t.folder = t'.folder ∧
        (t.stem = ['.'] ∧ t'.stem = ['.', '.'] ∨ t.stem = ['.', '.'] ∧ t'.stem = ['.'])) ∧
    ∀ e : Engine, e.loader = d.loader →
      ((∀ t : TemplateFile, t.path ∈ d.files →
        t.Plain ∧ ∃ document, (d.loader.document t.name).1 = .ok document) →
        e.precompile.1 = .ok d.loader.list.length) ∧
      ∀ t : TemplateFile, t.path ∈ d.files → d.Lacks (t.folder ++ [t.meant]) →
        d.loader.holds t.name = false ∧ ∃ error, e.precompile.1 = .error error := by
  have hloads (t : TemplateFile) (hmem : t.path ∈ d.files) (hplain : t.Plain) :
      ∃ bytes, d.Has t.path bytes ∧ d.loader.holds t.name = true ∧
        d.loader.source t.name = readText bytes ∧ ∃ version, d.loader.version t.name = .ok version := by
    obtain ⟨bytes, hhas⟩ := (mem_files_iff h).mp hmem
    have hname := (TemplateFile.path_name_eq_iff (named_of_mem h hmem)).mpr hplain
    exact ⟨bytes, hhas, loads_of_has h hhas hname⟩
  refine ⟨fun name => mem_list_iff h, fun t hmem => ⟨?_, fun hplain => ?_⟩, ?_, fun e he => ⟨?_, ?_⟩⟩
  · exact TemplateFile.path_name_eq_iff (named_of_mem h hmem)
  · obtain ⟨bytes, hhas, hholds, hsource, -⟩ := hloads t hmem hplain
    exact ⟨bytes, hhas, hholds, hsource⟩
  · intro t t' hmem hmem'
    exact TemplateFile.name_inj (named_of_mem h hmem) (named_of_mem h hmem')
  · intro hall
    have hprepare : (e.prepare e.loader.list).1 = .ok () := by
      refine e.prepare_ok fun name hname => ?_
      rw [he] at hname ⊢
      obtain ⟨t, hmem, rfl⟩ := (mem_list_iff h).mp hname
      obtain ⟨hplain, hdocument⟩ := hall t hmem
      obtain ⟨-, -, -, -, hversion⟩ := hloads t hmem hplain
      exact ⟨hversion, hdocument⟩
    show (e.prepare e.loader.list).1.map _ = _
    rw [hprepare, he]
    rfl
  · intro t hmem hlacks
    obtain ⟨hholds, error, hversion⟩ := fails_of_lacks h hmem hlacks
    refine ⟨hholds, ?_⟩
    have hlisted := (mem_list_iff h).mpr ⟨t, hmem, rfl⟩
    rw [← he] at hlisted hversion
    obtain ⟨error, hprepare⟩ := e.prepare_error hlisted hversion
    refine ⟨error, ?_⟩
    show (e.prepare e.loader.list).1.map _ = _
    rw [hprepare]
    rfl

/-- A directory with one file in it, a template of one line of text. -/
def pageDirectory (path : List String) : Directory :=
  ⟨"", .ok [FileTree.put (.file "| x".toUTF8 0) path .empty]⟩

theorem paths_put_file (bytes : ByteArray) (modified : Nat) (path : List String) :
    (FileTree.put (.file bytes modified) path .empty).paths = [path] := by
  induction path with
  | nil => rfl
  | cons name path ih =>
    show (FileTree.put (.file bytes modified) path .empty).paths.map (name :: ·) ++ [] = _
    rw [ih]
    rfl

section
variable {name : String} {path : List String}

theorem files_pageDirectory : (pageDirectory (name :: path)).files = [name :: path] := by
  rw [← paths_put_file "| x".toUTF8 0 (name :: path)]
  rfl

theorem list_pageDirectory {listed : String} (h : templateName? (name :: path) = some listed) :
    (pageDirectory (name :: path)).loader.list = [listed] := by
  show ((pageDirectory (name :: path)).files.filterMap templateName?).mergeSort _ = _
  rw [files_pageDirectory, List.filterMap_cons_some h]
  exact List.mergeSort_singleton _

theorem has_pageDirectory : (pageDirectory (name :: path)).Has (name :: path) "| x".toUTF8 :=
  ⟨_, _, _, rfl, FileTree.leads_put _ _ _⟩

theorem sound_pageDirectory (hnames : ∀ segment ∈ name :: path, FileTree.IsName segment)
    (hshort : FileTree.isTooLong (spelled (name :: path)) = false) : (pageDirectory (name :: path)).Sound := by
  refine ⟨⟨_, _, _, rfl, FileTree.sound_put (.file _ _) FileTree.sound_empty hnames⟩, ?_⟩
  intro path' hpath
  rw [files_pageDirectory] at hpath
  obtain rfl := List.mem_singleton.mp hpath
  show FileTree.isTooLong (String.ofList (spelled (name :: path)).toList) = false
  rwa [String.ofList_toList]

end

/-- A line of text is a document. -/
theorem document_of_line (l : Library) {name : String} (h : l.source name = .ok "| x") :
    (l.document name).1 = .ok ⟨[.text (verbatimSpans ["x"])], []⟩ := by
  refine l.document_textLines (List.cons_ne_nil _ _) ?_ h (by decide)
  intro line hline
  obtain rfl := List.mem_singleton.mp hline
  simp [EndsWithInk, isBlank]

/-- The dot in the name of a directory is no extension. -/
theorem listed_loads_versionFolder :
    (Engine.start (pageDirectory ["v1.0", "page.jade"]).loader {}).precompile.1 = .ok 1 := by
  have hnames : ∀ name ∈ ["v1.0", "page.jade"], FileTree.IsName name := by
    intro name hname
    fin_cases hname <;> exact ⟨⟨by decide, by decide, by decide, by decide⟩, by decide, by decide⟩
  have hsound := sound_pageDirectory hnames (by decide)
  obtain ⟨-, -, -, hengine⟩ := listed_loads_iff _ hsound
  obtain ⟨hall, -⟩ := hengine (Engine.start _ {}) rfl
  have hlist : (pageDirectory ["v1.0", "page.jade"]).loader.list = ["v1.0/page"] :=
    list_pageDirectory (by cbv)
  refine (hall fun t hmem => ?_).trans (by rw [hlist]; rfl)
  rw [files_pageDirectory] at hmem
  obtain rfl : t = ⟨["v1.0"], "page".toList, by decide⟩ :=
    TemplateFile.path_inj (List.mem_singleton.mp hmem)
  obtain ⟨-, hsource, -⟩ := loads_of_has hsound has_pageDirectory (by decide : path "v1.0/page" = _)
  rw [readText_toUTF8] at hsource
  exact ⟨.inr ⟨by decide, by decide⟩, _, document_of_line _ hsource⟩

/-- A template file that is listed and means another file, which is not there. -/
theorem dottedPage_lost :
    (pageDirectory ["a.b.jade"]).Sound ∧ (pageDirectory ["a.b.jade"]).loader.list = ["a.b"] ∧
      path "a.b" ≠ "a.b.jade" ∧ (pageDirectory ["a.b.jade"]).loader.holds "a.b" = false ∧
      (pageDirectory ["a.b.jade"]).loader.source "a.b" = .error (.notFound "a.b") ∧
      (∀ l : Library, l.source "a.b" = .ok "| x" → ∃ document, (l.document "a.b").1 = .ok document) ∧
      (Engine.start (pageDirectory ["a.b.jade"]).loader {}).precompile.1 = .error (.notFound "a.b") := by
  have hnames : ∀ name ∈ ["a.b.jade"], FileTree.IsName name := by
    intro name hname
    fin_cases hname
    exact ⟨⟨by decide, by decide, by decide, by decide⟩, by decide, by decide⟩
  have hlist : (pageDirectory ["a.b.jade"]).loader.list = ["a.b"] := list_pageDirectory (by cbv)
  have hlocate : (pageDirectory ["a.b.jade"]).locate "a.b" = .error .missing := rfl
  obtain ⟨hholds, hsource, hversion⟩ := fails_of_locate hlocate
  refine ⟨sound_pageDirectory hnames (by decide), hlist, by decide, hholds, hsource,
    fun l h => ⟨_, document_of_line l h⟩, ?_⟩
  · -- The name is the only one that is asked for.
    show (Engine.prepare _ (pageDirectory ["a.b.jade"]).loader.list).1.map _ = _
    rw [hlist, Engine.prepare, Engine.template, Engine.start, hversion]
    rfl

end Directory

end Trellis
