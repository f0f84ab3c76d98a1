import SemanticSidecar.Package.Exact
import SemanticSidecar.Prepare.Names

/-!
# The names in an inventory

An inventory lists the files of a flat directory, so every path in it has to be a plain name.
`validateRelativePath` counts the components of a path, as Unix has them, and the order of the list
is that of the texts.  Components do not show the separators at the end of a path, nor a dot behind
one, so there are paths of one component that are not names, and two of them can be one file.

`paths_arePlain_iff` says that these ends are all that goes wrong.

An inventory that has been read has `AcceptedPaths`, and `PlainPaths` is what it should have.  The
condition of the theorem is on each text by itself: it does not end with a separator, nor with a
separator and a dot.  Two names that are not the same text are not the same file either.
`respelledFiles` are two entries for one file that are accepted.

The packager itself never writes such a path, since it takes the names from the directory.  They
come from an inventory that was written by someone else.
-/

set_option autoImplicit false

namespace SemanticSidecar

open Fallible

/-- The path is a name, which has no separator and is its own last component. -/
def PlainName (path : String) : Prop :=
  '/' ∉ path.toList ∧ (pathComponents path).getLast? = some (.normal path)

/-- A list of files, as its paths and their order are checked. -/
structure AcceptedPaths (packaging : Packaging) (files : List PackageFile) : Prop where
  /-- Every path has been checked. -/
  paths : ∀ file ∈ files, validateRelativePath packaging file.path = .ok ()
  /-- The paths are in order, without duplicates. -/
  sorted : files.IsChain fun left right => left.path < right.path

/-- The paths are plain names, and those of distinct entries denote distinct files. -/
structure PlainPaths (files : List PackageFile) : Prop where
  /-- Every path is a name. -/
  plain : ∀ file ∈ files, PlainName file.path
  /-- Two paths never denote one file. -/
  distinct : files.Pairwise fun left right => pathComponents left.path ≠ pathComponents right.path

/-- What is read of an inventory is accepted. -/
theorem acceptedPaths_of_read {packaging : Packaging} {root : Directory} {raw : List UInt8}
    {package : PackageManifest} (h : readManifest packaging root = .ok (raw, package)) :
    AcceptedPaths packaging package.files := by
  obtain ⟨-, -, hpaths, hmetadata, -⟩ := readManifest_eq_ok.mp h
  obtain ⟨-, -, -, -, hsorted⟩ := validateManifestMetadata_eq_ok.mp hmetadata
  exact ⟨hpaths, hsorted.isChain⟩

/-! ## Components -/

/-- The component that a segment is. -/
def segmentComponent (segment : List Char) : Option PathComponent :=
  if segment = [] ∨ segment = ['.'] then none
  else if segment = ['.', '.'] then some .parentDir
  else some (.normal (String.ofList segment))

variable {path name : String} {packaging : Packaging} {files : List PackageFile}

theorem pathComponents_relative (h : startsWith path "/" = false) :
    pathComponents path =
      (if (path.toList.splitOn '/').head? = some ['.'] then [.curDir] else []) ++
        (path.toList.splitOn '/').filterMap segmentComponent := by
  rw [pathComponents, h, if_neg Bool.false_ne_true]
  rfl

theorem isSingleName_iff : isSingleName path = true ↔ ∃ name, pathComponents path = [.normal name] := by
  constructor
  · intro h
    unfold isSingleName at h
    split at h
    · exact ⟨_, ‹_›⟩
    · cases h
  · rintro ⟨name, hname⟩
    rw [isSingleName, hname]

theorem validateRelativePath_eq_ok :
    validateRelativePath packaging path = .ok () ↔
      path ≠ "" ∧ contains path "\\" = false ∧ startsWith path "/" = false ∧
        ∃ name, pathComponents path = [.normal name] := by
  rw [validateRelativePath, check_eq_ok, isSingleName_iff, Bool.not_eq_true, Bool.not_eq_true]

theorem segmentComponent_eq_none {segment : List Char} :
    segmentComponent segment = none ↔ segment = [] ∨ segment = ['.'] := by
  rw [segmentComponent]
  split
  · exact iff_of_true rfl ‹_›
  · split
    · exact iff_of_false (Option.some_ne_none _) ‹_›
    · exact iff_of_false (Option.some_ne_none _) ‹_›

theorem segmentComponent_eq_normal {segment : List Char}
    (h : segmentComponent segment = some (.normal name)) : name = String.ofList segment := by
  rw [segmentComponent] at h
  split at h
  · cases h
  · split at h
    · cases h
    · exact (PathComponent.normal.inj (Option.some.inj h)).symm

/-- Without a separator, the only component is the path. -/
theorem eq_of_pathComponents (hslash : '/' ∉ path.toList)
    (h : pathComponents path = [.normal name]) : name = path := by
  have hrelative : startsWith path "/" = false := by
    rw [← Bool.not_eq_true, startsWith, List.isPrefixOf_iff_prefix]
    exact fun hstart => hslash (hstart.subset (by decide))
  rw [pathComponents_relative hrelative, List.splitOn_eq_singleton hslash, List.head?_cons] at h
  split at h
  · cases (List.cons.inj h).1
  · rw [List.nil_append, List.filterMap_cons] at h
    split at h
    · cases h
    · rename_i hcomponent
      obtain rfl := (List.cons.inj h).1
      rw [segmentComponent_eq_normal hcomponent, String.ofList_toList]

/-- A relative path has a component before every separator. -/
theorem exists_component {before : List Char} (hne : before ≠ []) (hslash : before.head? ≠ some '/') :
    (before.splitOn '/').head? = some ['.'] ∨
      (before.splitOn '/').filterMap segmentComponent ≠ [] := by
  obtain ⟨c, rest, rfl⟩ := List.exists_cons_of_ne_nil hne
  have hc : (c == '/') = false := beq_eq_false_iff_ne.mpr fun heq => hslash (heq ▸ rfl)
  rw [List.splitOn_cons_eq_if_modifyHead, hc, if_neg Bool.false_ne_true]
  obtain ⟨first, others, hsplit⟩ := List.exists_cons_of_ne_nil (List.splitOn_ne_nil '/' rest)
  rw [hsplit, List.modifyHead_cons]
  by_cases hdot : c :: first = ['.']
  · exact .inl (congrArg some hdot)
  · right
    rw [List.filterMap_cons]
    split
    · rename_i hnone
      exact absurd (segmentComponent_eq_none.mp hnone) (not_or.mpr ⟨List.cons_ne_nil _ _, hdot⟩)
    · exact List.cons_ne_nil _ _

/-- What stands behind the last separator. -/
theorem exists_append_last {α : Type} {sep : α} {l : List α} (h : sep ∈ l) :
    ∃ before last, l = before ++ sep :: last ∧ sep ∉ last := by
  obtain ⟨last, before, heq, hlast⟩ := List.eq_append_cons_of_mem (List.mem_reverse.mpr h)
  refine ⟨before.reverse, last.reverse, ?_, List.mem_reverse.not.mpr hlast⟩
  rw [← List.reverse_reverse l, heq, List.reverse_append, List.reverse_cons, List.append_assoc,
    List.singleton_append]

/-- A path of one component has nothing behind its last separator, or a dot. -/
theorem endsWith_of_slash (hrelative : startsWith path "/" = false)
    (h : pathComponents path = [.normal name]) (hslash : '/' ∈ path.toList) :
    endsWith path "/" = true ∨ endsWith path "/." = true := by
  obtain ⟨before, last, hpath, hlast⟩ := exists_append_last hslash
  have hne : before ≠ [] ∧ before.head? ≠ some '/' := by
    rw [startsWith, ← Bool.not_eq_true, List.isPrefixOf_iff_prefix, hpath] at hrelative
    refine ⟨?_, fun hhead => ?_⟩
    · rintro rfl
      exact hrelative ⟨last, rfl⟩
    · obtain ⟨rest, rfl⟩ := List.head?_eq_some_iff.mp hhead
      exact hrelative ⟨rest ++ '/' :: last, rfl⟩
  rw [pathComponents_relative hrelative, hpath, List.splitOn_append_cons_self,
    List.splitOn_eq_singleton hlast, List.head?_append, List.filterMap_append] at h
  -- Something of what stands before is a component, so what stands behind is none.
  have hnone : segmentComponent last = none := by
    rcases hcomponent : segmentComponent last with _ | component
    · rfl
    · exfalso
      rw [List.filterMap_cons, hcomponent] at h
      have hlength := congrArg List.length h
      rcases exists_component hne.1 hne.2 with hdot | hsome
      · rw [hdot] at h
        cases (List.cons.inj h).1
      · have hpos := List.length_pos_iff.mpr hsome
        simp only [List.length_append, List.length_cons, List.length_nil, List.filterMap_nil]
          at hlength
        omega
  rcases segmentComponent_eq_none.mp hnone with rfl | rfl
  · exact .inl (endsWith_iff.mpr ⟨before, hpath⟩)
  · exact .inr (endsWith_iff.mpr ⟨before, hpath⟩)

/-! ## Which paths are names -/

theorem plainName_of_notMem (hslash : '/' ∉ path.toList)
    (h : pathComponents path = [.normal name]) : PlainName path := by
  refine ⟨hslash, ?_⟩
  rw [h, eq_of_pathComponents hslash h]
  rfl

/-- **A path is a name as long as it does not end with a separator**, or with one and a dot. -/
theorem plainName_iff (h : validateRelativePath packaging path = .ok ()) :
    PlainName path ↔ endsWith path "/" = false ∧ endsWith path "/." = false := by
  obtain ⟨-, -, hrelative, name, hname⟩ := validateRelativePath_eq_ok.mp h
  constructor
  · rintro ⟨hslash, -⟩
    constructor
    · rw [← Bool.not_eq_true, endsWith_iff]
      rintro ⟨before, heq⟩
      exact hslash (heq ▸ List.mem_append_right _ (by decide))
    · rw [← Bool.not_eq_true, endsWith_iff]
      rintro ⟨before, heq⟩
      exact hslash (heq ▸ List.mem_append_right _ (by decide))
  · rintro ⟨hslash, hdot⟩
    refine plainName_of_notMem (fun hmem => ?_) hname
    rcases endsWith_of_slash hrelative hname hmem with hend | hend
    · exact Bool.false_ne_true (hslash.symm.trans hend)
    · exact Bool.false_ne_true (hdot.symm.trans hend)

/-- Plain names are different files. -/
theorem plainPaths_iff (h : AcceptedPaths packaging files) :
    PlainPaths files ↔ ∀ file ∈ files, PlainName file.path := by
  refine ⟨PlainPaths.plain, fun hplain => ⟨hplain, ?_⟩⟩
  have htrans : IsTrans PackageFile fun left right => left.path < right.path :=
    ⟨fun _ _ _ => lt_trans⟩
  have hsorted := List.isChain_iff_pairwise.mp h.sorted
  refine hsorted.imp_of_mem fun {left right} hleft hright hlt heq => ?_
  have hname := (hplain left hleft).2
  rw [heq, (hplain right hright).2] at hname
  exact hlt.ne (PathComponent.normal.inj (Option.some.inj hname)).symm

/-- **An accepted path is a plain name, and those of a list are names of distinct files**, exactly
if none of them ends with a separator, or with one and a dot. -/
theorem paths_arePlain_iff (packaging : Packaging) :
    (∀ path, validateRelativePath packaging path = .ok () →
      (PlainName path ↔ endsWith path "/" = false ∧ endsWith path "/." = false)) ∧
    ∀ files, AcceptedPaths packaging files →
      (PlainPaths files ↔
        ∀ file ∈ files, endsWith file.path "/" = false ∧ endsWith file.path "/." = false) := by
  refine ⟨fun path h => plainName_iff h, fun files h => ?_⟩
  rw [plainPaths_iff h]
  exact forall₂_congr fun file hfile => plainName_iff (h.paths file hfile)

theorem acceptedPaths_metal : AcceptedPaths (plainPackaging metalPackage) metalPackage.files where
  paths := by decide
  sorted := by decide

/-- A package without native modules has plain names. -/
theorem paths_arePlain_iff_metal : PlainName "LICENSE" ∧ PlainPaths metalPackage.files :=
  ⟨((paths_arePlain_iff (plainPackaging metalPackage)).1 "LICENSE" (by decide)).mpr (by decide),
    ((paths_arePlain_iff _).2 _ acceptedPaths_metal).mpr (by decide)⟩

/-- Two spellings of one file. -/
def respelledFiles : List PackageFile :=
  [emptyPackageFile "LICENSE" .license, emptyPackageFile "LICENSE/" .license]

/-- **They are accepted**, though one of them is not a name, and both are one file. -/
theorem not_arePlain_respelled :
    AcceptedPaths (plainPackaging metalPackage) respelledFiles ∧
      ¬ PlainName "LICENSE/" ∧ pathComponents "LICENSE" = pathComponents "LICENSE/" ∧
      ¬ PlainPaths respelledFiles := by
  have hplain : ¬ PlainName "LICENSE/" := fun h => h.1 (by decide)
  refine ⟨⟨by decide, by decide⟩, hplain, by decide, ?_⟩
  exact fun h => hplain (h.plain (emptyPackageFile "LICENSE/" .license)
    (List.mem_cons_of_mem _ (List.mem_singleton_self _)))

end SemanticSidecar
