import SemanticSidecar.Package.Inventory
import SemanticSidecar.Package.Modules

/-!
# The inventory is exact

`create` goes from the directory to the inventory and `verify` from the inventory to the directory,
and each of them checks on its way what it comes across.  Both come to the same: `Accurate` says
what an accurate inventory of a directory is, in terms of the set of its entries, and an inventory
is created exactly if it is accurate (`create_eq_ok`), and verified exactly if it is accurate and
parses (`verify_eq_ok`).  The order in which a directory is listed drops out there.

An accurate inventory determines the payload, as far as SHA-256 does, which is
`Accurate.holds_iff`.

`Accurate` has one field for every check of the two programs, and no more than one: what a check on
one side has to do with a loop on the other is what the section on the steps is about.
`verify_isExact` puts it together for a package that is written and then verified.  Verification
succeeds exactly on an inventory that creation would make of the same entries, in whatever order
they are listed; a package that has been written verifies; two directories that verify with one
inventory hold the same files, as far as no two contents of theirs have one digest (`NoCollision`);
and every file in them is regular, has a role, and is neither a model nor a module of an accelerator
that is not advertised.
-/

set_option autoImplicit false

namespace SemanticSidecar

open Fallible

/-- The entries of a package, the inventory apart. -/
def Directory.payload (root : Directory) : List DirEntry :=
  root.entries.filter fun entry => entry.name ≠ Text.toUtf8 manifestFile

/-- An accurate inventory. -/
structure Accurate (packaging : Packaging) (root : Directory) (package : PackageManifest) :
    Prop where
  /-- It has the one schema there is. -/
  schema : package.schemaVersion = schemaVersion
  /-- It is of this version of the sidecar. -/
  version : package.sidecarVersion = sidecarVersion
  /-- It is of a profile that is supported. -/
  profile : validateProfile package.profile = .ok ()
  /-- It has the models of the manifest. -/
  policy : package.modelPolicy = modelPolicy
  /-- Its paths are sorted, and no path is there twice. -/
  sorted : package.files.Pairwise fun left right => left.path < right.path
  /-- It has the roles that a package needs. -/
  shape : validateShape package = .ok ()
  /-- What is in the directory beside it is a regular file. -/
  regular : ∀ entry ∈ root.payload, entry.isRegular = true
  /-- It has every file of the directory. -/
  listed : ∀ entry ∈ root.payload, ∃ file ∈ package.files, Text.toUtf8 file.path = entry.name
  /-- The directory has every file of it. -/
  present : ∀ file ∈ package.files, ∃ entry ∈ root.payload, entry.name = Text.toUtf8 file.path
  /-- Size, digest and role of each file are what the directory has. -/
  described : ∀ file ∈ package.files,
    describeFile packaging root (Text.toUtf8 file.path) package.profile = .ok file

variable {packaging : Packaging} {root root' : Directory} {profile : PackageProfile}
  {package : PackageManifest}

/-! ## The steps of the two -/

theorem payloadNames_eq_ok {entries : List DirEntry} {names : List (List UInt8)} :
    payloadNames packaging entries = .ok names ↔
      (∀ entry ∈ entries.filter fun entry => entry.name ≠ Text.toUtf8 manifestFile,
        entry.isRegular = true) ∧
      names = (entries.filter fun entry => entry.name ≠ Text.toUtf8 manifestFile).map
        DirEntry.name := by
  induction entries generalizing names with
  | nil =>
    rw [payloadNames]
    exact ⟨fun h => ⟨fun _ hmem => absurd hmem List.not_mem_nil, (Except.ok.inj h).symm⟩,
      fun h => congrArg _ h.2.symm⟩
  | cons entry rest ih =>
    rw [payloadNames]
    by_cases hmanifest : entry.name = Text.toUtf8 manifestFile
    · rw [if_pos hmanifest, List.filter_cons_of_neg (by simpa using hmanifest)]
      exact ih
    rw [if_neg hmanifest, List.filter_cons_of_pos (by simpa using hmanifest),
      List.forall_mem_cons, List.map_cons]
    by_cases hregular : entry.isRegular = true
    · rw [if_pos hregular, bind_eq_ok]
      refine ⟨?_, ?_⟩
      · rintro ⟨others, hothers, heq⟩
        obtain ⟨hrest, rfl⟩ := ih.mp hothers
        exact ⟨⟨hregular, hrest⟩, (Except.ok.inj heq).symm⟩
      · rintro ⟨⟨-, hrest⟩, rfl⟩
        exact ⟨_, ih.mpr ⟨hrest, rfl⟩, rfl⟩
    · rw [if_neg hregular]
      exact iff_of_false nofun fun h => hregular h.1.1

theorem payloadFiles_eq_ok {names : List (List UInt8)} :
    payloadFiles packaging root = .ok names ↔
      (∀ entry ∈ root.payload, entry.isRegular = true) ∧
      names = root.payload.map DirEntry.name :=
  payloadNames_eq_ok

theorem relativeName_eq_ok {name : List UInt8} {text : String} :
    relativeName name = .ok text ↔ Text.fromUtf8 name = some text := by
  rw [relativeName]
  rcases Text.fromUtf8 name with _ | text'
  · exact iff_of_false nofun nofun
  · exact ⟨fun h => congrArg some (Except.ok.inj h), fun h => congrArg _ (Option.some.inj h)⟩

/-- What a description says. -/
theorem describeFile_eq_ok {name : List UInt8} {file : PackageFile} :
    describeFile packaging root name profile = .ok file ↔
      Text.fromUtf8 name = some file.path ∧ validateRelativePath packaging file.path = .ok () ∧
      isModelWeight file.path = false ∧ classify file.path profile = .ok file.role ∧
      (∃ node, metadata root name = .ok node ∧ node.len = file.size) ∧
      fileSha256 packaging root name = .ok file.sha256 := by
  rw [describeFile, bind_eq_ok]
  refine ⟨?_, ?_⟩
  · rintro ⟨relative, hrelative, h⟩
    obtain ⟨hvalid, h⟩ := then_eq_ok.mp h
    obtain ⟨hweight, h⟩ := then_eq_ok.mp h
    obtain ⟨role, hrole, h⟩ := bind_eq_ok.mp h
    obtain ⟨node, hnode, h⟩ := bind_eq_ok.mp h
    obtain ⟨digest, hdigest, h⟩ := bind_eq_ok.mp h
    obtain rfl := Except.ok.inj h
    exact ⟨relativeName_eq_ok.mp hrelative, hvalid, Bool.not_eq_true _ ▸ check_eq_ok.mp hweight,
      hrole, ⟨node, mapError_eq_ok.mp hnode, rfl⟩, hdigest⟩
  · rintro ⟨hrelative, hvalid, hweight, hrole, ⟨node, hnode, hlen⟩, hdigest⟩
    refine ⟨file.path, relativeName_eq_ok.mpr hrelative, then_eq_ok.mpr ⟨hvalid,
      then_eq_ok.mpr ⟨check_eq_ok.mpr (Bool.eq_false_iff.mp hweight), bind_eq_ok.mpr ⟨file.role,
        hrole, bind_eq_ok.mpr ⟨node, mapError_eq_ok.mpr hnode, bind_eq_ok.mpr ⟨file.sha256,
          hdigest, ?_⟩⟩⟩⟩⟩⟩
    rw [hlen]
    rfl

/-- A file holds against its entry if the entry is what it is described as. -/
theorem verifyFile_eq_ok {declared : PackageFile} :
    verifyFile packaging root profile declared = .ok () ↔
      describeFile packaging root (Text.toUtf8 declared.path) profile = .ok declared := by
  rw [verifyFile, bind_eq_ok]
  refine ⟨?_, fun h => ⟨declared, h, then_eq_ok.mpr ⟨check_eq_ok.mpr rfl,
    then_eq_ok.mpr ⟨check_eq_ok.mpr rfl, check_eq_ok.mpr rfl⟩⟩⟩⟩
  rintro ⟨observed, hobserved, h⟩
  obtain ⟨hrole, h⟩ := then_eq_ok.mp h
  obtain ⟨hsize, hdigest⟩ := then_eq_ok.mp h
  have hpath : declared.path = observed.path := Option.some.inj
    ((Text.fromUtf8_toUtf8 _).symm.trans (describeFile_eq_ok.mp hobserved).1)
  have heq : observed = declared := by
    obtain ⟨path, digest, size, role⟩ := observed
    obtain ⟨path', digest', size', role'⟩ := declared
    obtain rfl : role = role' := check_eq_ok.mp hrole
    obtain rfl : size = size' := check_eq_ok.mp hsize
    obtain rfl : digest = digest' := check_eq_ok.mp hdigest
    obtain rfl : path' = path := hpath
    rfl
  exact heq ▸ hobserved

theorem validateManifestMetadata_eq_ok :
    validateManifestMetadata package = .ok () ↔
      package.schemaVersion = schemaVersion ∧ package.sidecarVersion = sidecarVersion ∧
      validateProfile package.profile = .ok () ∧ package.modelPolicy = modelPolicy ∧
      package.files.Pairwise fun left right => left.path < right.path := by
  have htrans : IsTrans PackageFile fun left right => left.path < right.path :=
    ⟨fun _ _ _ => lt_trans⟩
  rw [validateManifestMetadata, then_eq_ok, then_eq_ok, then_eq_ok, then_eq_ok, check_eq_ok,
    check_eq_ok, check_eq_ok, check_eq_ok, List.isChain_iff_pairwise]

/-- What is known of a manifest that has been read. -/
theorem readManifest_eq_ok {raw : List UInt8} :
    readManifest packaging root = .ok (raw, package) ↔
      readFile root (Text.toUtf8 manifestFile) = .ok raw ∧ packaging.fromSlice raw = .ok package ∧
      (∀ file ∈ package.files, validateRelativePath packaging file.path = .ok ()) ∧
      validateManifestMetadata package = .ok () ∧ validateShape package = .ok () := by
  rw [readManifest, bind_eq_ok]
  refine ⟨?_, ?_⟩
  · rintro ⟨raw', hraw, h⟩
    obtain ⟨package', hpackage, h⟩ := bind_eq_ok.mp h
    obtain ⟨hpaths, h⟩ := then_eq_ok.mp h
    obtain ⟨hmetadata, h⟩ := then_eq_ok.mp h
    obtain ⟨hshape, h⟩ := then_eq_ok.mp h
    obtain ⟨rfl, rfl⟩ := Prod.mk.inj (Except.ok.inj h)
    exact ⟨mapError_eq_ok.mp hraw, mapError_eq_ok.mp hpackage, forM_eq_ok.mp hpaths, hmetadata,
      hshape⟩
  · rintro ⟨hraw, hpackage, hpaths, hmetadata, hshape⟩
    exact ⟨raw, mapError_eq_ok.mpr hraw, bind_eq_ok.mpr ⟨package, mapError_eq_ok.mpr hpackage,
      then_eq_ok.mpr ⟨forM_eq_ok.mpr hpaths, then_eq_ok.mpr ⟨hmetadata,
        then_eq_ok.mpr ⟨hshape, rfl⟩⟩⟩⟩⟩

/-! ## Both come to the same -/

theorem payload_nodup (root : Directory) : (root.payload.map DirEntry.name).Nodup :=
  root.nodup.sublist (List.filter_sublist.map _)

theorem find?_notMem_eq_none (paths others : List String) :
    (paths.find? fun path => path ∉ others) = none ↔ ∀ path ∈ paths, path ∈ others := by
  rw [List.find?_eq_none]
  exact forall₂_congr fun path _ => by rw [decide_eq_true_iff, not_not]

theorem compareNames_eq_ok {actual declared : List String} :
    compareNames actual declared = .ok () ↔
      (∀ path ∈ actual, path ∈ declared) ∧ ∀ path ∈ declared, path ∈ actual := by
  have hsorted : (∀ path ∈ sortNames actual, path ∈ declared) ↔ ∀ path ∈ actual, path ∈ declared :=
    forall_congr' fun path => imp_congr_left (sortNames_perm actual).mem_iff
  rw [← find?_notMem_eq_none declared, ← hsorted, ← find?_notMem_eq_none, compareNames]
  rcases (sortNames actual).find? fun path => path ∉ declared with _ | path
  · rcases declared.find? fun path => path ∉ actual with _ | path
    · exact iff_of_true rfl ⟨rfl, rfl⟩
    · exact iff_of_false nofun nofun
  · exact iff_of_false nofun nofun

/-- The names of the payload, against those of an inventory. -/
theorem names_agree_iff {actual : List String}
    (hactual : (root.payload.map DirEntry.name).mapM relativeName = .ok actual) :
    compareNames actual (package.files.map PackageFile.path) = .ok () ↔
      (∀ entry ∈ root.payload, ∃ file ∈ package.files, Text.toUtf8 file.path = entry.name) ∧
      ∀ file ∈ package.files, ∃ entry ∈ root.payload, entry.name = Text.toUtf8 file.path := by
  have hmem : ∀ path, path ∈ actual ↔ ∃ entry ∈ root.payload, entry.name = Text.toUtf8 path := by
    intro path
    rw [mem_of_mapM hactual]
    refine ⟨?_, ?_⟩
    · rintro ⟨_, hname, htext⟩
      obtain ⟨entry, hentry, rfl⟩ := List.mem_map.mp hname
      exact ⟨entry, hentry, (Text.toUtf8_of_fromUtf8 (relativeName_eq_ok.mp htext)).symm⟩
    · rintro ⟨entry, hentry, hname⟩
      refine ⟨entry.name, List.mem_map_of_mem hentry, relativeName_eq_ok.mpr ?_⟩
      rw [hname, Text.fromUtf8_toUtf8]
  rw [compareNames_eq_ok]
  refine and_congr ⟨fun h entry hentry => ?_, fun h path hpath => ?_⟩
    ⟨fun h file hfile => ?_, fun h path hpath => ?_⟩
  · obtain ⟨text, htext, hname⟩ := ok_of_mapM hactual (List.mem_map_of_mem hentry)
    obtain ⟨file, hfile, rfl⟩ := List.mem_map.mp (h text htext)
    exact ⟨file, hfile, Text.toUtf8_of_fromUtf8 (relativeName_eq_ok.mp hname)⟩
  · obtain ⟨entry, hentry, hname⟩ := (hmem path).mp hpath
    obtain ⟨file, hfile, hfileName⟩ := h entry hentry
    exact List.mem_map.mpr ⟨file, hfile, Text.toUtf8_inj (hfileName.trans hname)⟩
  · exact (hmem file.path).mp (h file.path (List.mem_map_of_mem hfile))
  · obtain ⟨file, hfile, rfl⟩ := List.mem_map.mp hpath
    exact (hmem file.path).mpr (h file hfile)

/-- **A package verifies exactly if its inventory parses and is accurate.** -/
theorem verify_eq_ok :
    verify packaging root = .ok package ↔
      (∃ raw, readFile root (Text.toUtf8 manifestFile) = .ok raw ∧
        packaging.fromSlice raw = .ok package) ∧ Accurate packaging root package := by
  rw [verify, bind_eq_ok]
  refine ⟨?_, ?_⟩
  · rintro ⟨⟨raw, package'⟩, hread, hrest⟩
    obtain ⟨names, hnames, hrest⟩ := bind_eq_ok.mp hrest
    obtain ⟨actual, hactual, hrest⟩ := bind_eq_ok.mp hrest
    obtain ⟨hcompared, hrest⟩ := then_eq_ok.mp hrest
    obtain ⟨hfiles, heq⟩ := then_eq_ok.mp hrest
    obtain rfl : package' = package := Except.ok.inj heq
    obtain ⟨hraw, hparse, -, hmetadata, hshape⟩ := readManifest_eq_ok.mp hread
    obtain ⟨hregular, rfl⟩ := payloadFiles_eq_ok.mp hnames
    obtain ⟨hschema, hversion, hprofile, hpolicy, hsorted⟩ :=
      validateManifestMetadata_eq_ok.mp hmetadata
    obtain ⟨hlisted, hpresent⟩ := (names_agree_iff hactual).mp hcompared
    exact ⟨⟨raw, hraw, hparse⟩, hschema, hversion, hprofile, hpolicy, hsorted, hshape, hregular,
      hlisted, hpresent, fun file hfile => verifyFile_eq_ok.mp (forM_eq_ok.mp hfiles file hfile)⟩
  · rintro ⟨⟨raw, hraw, hparse⟩, h⟩
    have hmetadata := validateManifestMetadata_eq_ok.mpr
      ⟨h.schema, h.version, h.profile, h.policy, h.sorted⟩
    have hpaths : ∀ file ∈ package.files, validateRelativePath packaging file.path = .ok () :=
      fun file hfile => (describeFile_eq_ok.mp (h.described file hfile)).2.1
    obtain ⟨actual, hactual⟩ : ∃ actual,
        (root.payload.map DirEntry.name).mapM relativeName = .ok actual := by
      refine mapM_isOk fun name hname => ?_
      obtain ⟨entry, hentry, rfl⟩ := List.mem_map.mp hname
      obtain ⟨file, -, hpath⟩ := h.listed entry hentry
      exact ⟨file.path, relativeName_eq_ok.mpr (hpath ▸ Text.fromUtf8_toUtf8 _)⟩
    refine ⟨(raw, package), readManifest_eq_ok.mpr ⟨hraw, hparse, hpaths, hmetadata, h.shape⟩,
      bind_eq_ok.mpr ⟨_, payloadFiles_eq_ok.mpr ⟨h.regular, rfl⟩, bind_eq_ok.mpr ⟨actual, hactual,
        then_eq_ok.mpr ⟨(names_agree_iff hactual).mpr ⟨h.listed, h.present⟩,
          then_eq_ok.mpr ⟨forM_eq_ok.mpr fun file hfile => ?_, rfl⟩⟩⟩⟩⟩
    exact verifyFile_eq_ok.mpr (h.described file hfile)

/-! ### Creating -/

theorem sortFiles_perm (files : List PackageFile) : (sortFiles files).Perm files :=
  List.mergeSort_perm _ _

theorem sortFiles_pairwise (files : List PackageFile) :
    (sortFiles files).Pairwise fun left right => left.path ≤ right.path := by
  have h := @List.pairwise_mergeSort PackageFile
    (fun left right => decide (left.path ≤ right.path))
    (fun _ _ _ hab hbc => decide_eq_true ((of_decide_eq_true hab).trans (of_decide_eq_true hbc)))
    (fun left right => by
      rw [Bool.or_eq_true, decide_eq_true_iff, decide_eq_true_iff]
      exact le_total left.path right.path) files
  exact h.imp fun hle => of_decide_eq_true hle

theorem paths_nodup {files : List PackageFile}
    (h : files.Pairwise fun left right => left.path < right.path) :
    (files.map PackageFile.path).Nodup :=
  List.pairwise_map.mpr (h.imp fun hlt => hlt.ne)

/-- Sorting distinct paths gives the one sorted list there is. -/
theorem sortFiles_eq {files sorted : List PackageFile} (hperm : files.Perm sorted)
    (hsorted : sorted.Pairwise fun left right => left.path < right.path) :
    sortFiles files = sorted := by
  have hall := (sortFiles_perm files).trans hperm
  refine hall.eq_of_pairwise (fun left right hleft hright hle hge => ?_)
    (sortFiles_pairwise files) (hsorted.imp fun hlt => le_of_lt hlt)
  exact List.inj_on_of_nodup_map (paths_nodup hsorted) (hall.mem_iff.mp hleft) hright
    (le_antisymm hle hge)

/-- The descriptions of the payload have its names. -/
theorem map_described {names : List (List UInt8)} {files : List PackageFile}
    (h : (names.mapM fun name => describeFile packaging root name profile) = .ok files) :
    (files.map fun file => Text.toUtf8 file.path) = names :=
  map_of_mapM h fun _ _ hdescribed =>
    Text.toUtf8_of_fromUtf8 (describeFile_eq_ok.mp hdescribed).1

theorem sortFiles_described {files : List PackageFile}
    (h : ((root.payload.map DirEntry.name).mapM fun name =>
      describeFile packaging root name profile) = .ok files) :
    (sortFiles files).Pairwise fun left right => left.path < right.path := by
  have hnodup : (files.map fun file => Text.toUtf8 file.path).Nodup :=
    (map_described h).symm ▸ payload_nodup root
  have hdistinct := List.pairwise_map.mp (((sortFiles_perm files).map _).nodup_iff.mpr hnodup)
  exact (sortFiles_pairwise files).imp₂ (fun _ _ hle hne =>
    lt_of_le_of_ne hle fun heq => hne (congrArg Text.toUtf8 heq)) hdistinct

/-- **An inventory is created exactly if it is accurate.** -/
theorem create_eq_ok :
    create packaging root profile = .ok package ↔
      profile = package.profile ∧ Accurate packaging root package := by
  rw [create, then_eq_ok]
  refine ⟨?_, ?_⟩
  · rintro ⟨hprofile, hrest⟩
    obtain ⟨names, hnames, hrest⟩ := bind_eq_ok.mp hrest
    obtain ⟨files, hfiles, hrest⟩ := bind_eq_ok.mp hrest
    obtain ⟨hshape, heq⟩ := then_eq_ok.mp hrest
    obtain rfl := Except.ok.inj heq
    obtain ⟨hregular, rfl⟩ := payloadFiles_eq_ok.mp hnames
    have hmem : ∀ file ∈ sortFiles files, ∃ entry ∈ root.payload,
        entry.name = Text.toUtf8 file.path ∧
          describeFile packaging root entry.name profile = .ok file := by
      intro file hfile
      obtain ⟨_, hname, hdescribed⟩ :=
        (mem_of_mapM hfiles).mp ((sortFiles_perm files).mem_iff.mp hfile)
      obtain ⟨entry, hentry, rfl⟩ := List.mem_map.mp hname
      exact ⟨entry, hentry,
        (Text.toUtf8_of_fromUtf8 (describeFile_eq_ok.mp hdescribed).1).symm, hdescribed⟩
    refine ⟨rfl, rfl, rfl, hprofile, rfl, sortFiles_described hfiles, hshape, hregular,
      fun entry hentry => ?_, fun file hfile => ?_, fun file hfile => ?_⟩
    · obtain ⟨file, hfile, hdescribed⟩ := ok_of_mapM hfiles (List.mem_map_of_mem hentry)
      exact ⟨file, (sortFiles_perm files).mem_iff.mpr hfile,
        Text.toUtf8_of_fromUtf8 (describeFile_eq_ok.mp hdescribed).1⟩
    · obtain ⟨entry, hentry, hname, -⟩ := hmem file hfile
      exact ⟨entry, hentry, hname⟩
    · obtain ⟨entry, -, hname, hdescribed⟩ := hmem file hfile
      exact hname ▸ hdescribed
  · rintro ⟨rfl, h⟩
    obtain ⟨files, hfiles⟩ : ∃ files, ((root.payload.map DirEntry.name).mapM fun name =>
        describeFile packaging root name package.profile) = .ok files := by
      refine mapM_isOk fun name hname => ?_
      obtain ⟨entry, hentry, rfl⟩ := List.mem_map.mp hname
      obtain ⟨file, hfile, hpath⟩ := h.listed entry hentry
      exact ⟨file, hpath ▸ h.described file hfile⟩
    have hperm : files.Perm package.files := by
      have hnodup : files.Nodup := .of_map _ ((map_described hfiles).symm ▸ payload_nodup root)
      refine (List.perm_ext_iff_of_nodup hnodup (.of_map _ (paths_nodup h.sorted))).mpr
        fun file => (mem_of_mapM hfiles).trans ⟨?_, fun hfile => ?_⟩
      · rintro ⟨_, hname, hdescribed⟩
        obtain ⟨entry, hentry, rfl⟩ := List.mem_map.mp hname
        obtain ⟨file', hfile', hpath⟩ := h.listed entry hentry
        rw [← hpath, h.described file' hfile'] at hdescribed
        exact Except.ok.inj hdescribed ▸ hfile'
      · obtain ⟨entry, hentry, hname⟩ := h.present file hfile
        exact ⟨entry.name, List.mem_map_of_mem hentry, hname ▸ h.described file hfile⟩
    have hpackage : (⟨schemaVersion, sidecarVersion, package.profile.rustTarget,
        package.profile.tier, package.profile.advertisedBackend,
        package.profile.nativeBuildIdentity, modelPolicy, sortFiles files⟩ : PackageManifest) =
          package := by
      rw [sortFiles_eq hperm h.sorted, ← h.schema, ← h.version, ← h.policy]
      rfl
    refine ⟨h.profile, bind_eq_ok.mpr ⟨_, payloadFiles_eq_ok.mpr ⟨h.regular, rfl⟩,
      bind_eq_ok.mpr ⟨files, hfiles, then_eq_ok.mpr ⟨?_, congrArg Except.ok hpackage⟩⟩⟩⟩
    rw [hpackage]
    exact h.shape

/-! ## Directories of one payload -/

theorem mem_payload {entry : DirEntry} :
    entry ∈ root.payload ↔ entry ∈ root.entries ∧ entry.name ≠ Text.toUtf8 manifestFile := by
  rw [Directory.payload, List.mem_filter, decide_eq_true_iff]

theorem Directory.Same.payload (h : root.Same root') : root.payload.Perm root'.payload :=
  h.filter _

/-- What is found under another name than the inventory's is payload. -/
theorem find_of_payload (h : root.payload.Perm root'.payload) {name : List UInt8}
    (hname : name ≠ Text.toUtf8 manifestFile) : root.find name = root'.find name := by
  refine Option.ext fun entry => ?_
  have hentry : ∀ root : Directory, root.find name = some entry ↔
      entry ∈ root.payload ∧ entry.name = name := by
    intro root
    rw [Directory.find_eq_some, mem_payload]
    exact ⟨fun ⟨hmem, heq⟩ => ⟨⟨hmem, heq ▸ hname⟩, heq⟩, fun ⟨⟨hmem, _⟩, heq⟩ => ⟨hmem, heq⟩⟩
  rw [hentry, hentry, h.mem_iff]

theorem describeFile_congr {name : List UInt8} (h : root.find name = root'.find name) :
    describeFile packaging root name profile = describeFile packaging root' name profile := by
  have hmetadata : metadata root name = metadata root' name := by rw [metadata, metadata, h]
  rw [describeFile, describeFile, fileSha256, fileSha256, hmetadata]

/-- Whether an inventory is accurate is up to the payload. -/
theorem Accurate.of_payload (h : Accurate packaging root package)
    (hpayload : root.payload.Perm root'.payload) : Accurate packaging root' package where
  schema := h.schema
  version := h.version
  profile := h.profile
  policy := h.policy
  sorted := h.sorted
  shape := h.shape
  regular entry hentry := h.regular entry (hpayload.mem_iff.mpr hentry)
  listed entry hentry := h.listed entry (hpayload.mem_iff.mpr hentry)
  present file hfile := by
    obtain ⟨entry, hentry, hname⟩ := h.present file hfile
    exact ⟨entry, hpayload.mem_iff.mp hentry, hname⟩
  described file hfile := by
    obtain ⟨entry, hentry, hname⟩ := h.present file hfile
    have hfind := find_of_payload hpayload (hname ▸ (mem_payload.mp hentry).2)
    exact (describeFile_congr hfind).symm.trans (h.described file hfile)

/-- The directory with a new inventory: the payload is what it was. -/
def Installs (root : Directory) (bytes : List UInt8) (root₁ : Directory) : Prop :=
  ∃ file : RegularFile, file.contents = bytes ∧
    root₁.entries.Perm (⟨Text.toUtf8 manifestFile, false, some (.regular file)⟩ :: root.payload)

theorem Installs.payload {bytes : List UInt8} {root₁ : Directory} (h : Installs root bytes root₁) :
    root.payload.Perm root₁.payload := by
  obtain ⟨file, -, hperm⟩ := h
  have hfilter := hperm.filter fun entry => decide (entry.name ≠ Text.toUtf8 manifestFile)
  rw [List.filter_cons_of_neg (by simp)] at hfilter
  refine (hfilter.trans (List.Perm.of_eq ?_)).symm
  exact List.filter_eq_self.mpr fun entry hentry => decide_eq_true (mem_payload.mp hentry).2

theorem Installs.readFile {bytes : List UInt8} {root₁ : Directory}
    (h : Installs root bytes root₁) :
    readFile root₁ (Text.toUtf8 manifestFile) = .ok bytes := by
  obtain ⟨file, rfl, hperm⟩ := h
  have hfind : root₁.find (Text.toUtf8 manifestFile) =
      some ⟨Text.toUtf8 manifestFile, false, some (.regular file)⟩ :=
    Directory.find_eq_some.mpr ⟨hperm.mem_iff.mpr List.mem_cons_self, rfl⟩
  rw [SemanticSidecar.readFile, metadata, hfind]
  rfl

/-! ## One inventory, one payload -/

/-- A package has a payload file with these contents. -/
def Directory.Holds (root : Directory) (name contents : List UInt8) : Prop :=
  ∃ entry ∈ root.payload, entry.name = name ∧ entry.isLink = false ∧
    ∃ file, entry.node = some (.regular file) ∧ file.contents = contents

/-- No two payload files of the packages are different and have the same digest. -/
def NoCollision (packaging : Packaging) (root root' : Directory) : Prop :=
  ∀ name contents name' contents', root.Holds name contents → root'.Holds name' contents' →
    packaging.sha256 contents = packaging.sha256 contents' → contents = contents'

theorem holds_of_regular {entry : DirEntry} (hentry : entry ∈ root.payload)
    (hregular : entry.isRegular = true) : ∃ contents, root.Holds entry.name contents := by
  rw [DirEntry.isRegular, Bool.and_eq_true, Bool.not_eq_true'] at hregular
  obtain ⟨hlink, hnode⟩ := hregular
  rcases hfile : entry.node with _ | file | _
  · rw [hfile] at hnode
    exact absurd hnode Bool.false_ne_true
  · exact ⟨_, entry, hentry, rfl, hlink, file, hfile, rfl⟩
  · rw [hfile] at hnode
    exact absurd hnode Bool.false_ne_true

theorem fileSha256_of_holds {name contents : List UInt8} (h : root.Holds name contents) :
    fileSha256 packaging root name = .ok (hex (packaging.sha256 contents)) := by
  obtain ⟨entry, hentry, hname, -, file, hnode, rfl⟩ := h
  have hfind := Directory.find_eq_some.mpr ⟨(mem_payload.mp hentry).1, hname⟩
  rw [fileSha256, metadata, hfind, Option.bind_some, hnode]

theorem Accurate.holds (h : Accurate packaging root package)
    (h' : Accurate packaging root' package) (hcollision : NoCollision packaging root root')
    {name contents : List UInt8} (hholds : root.Holds name contents) :
    root'.Holds name contents := by
  obtain ⟨entry, hentry, rfl, -⟩ := id hholds
  obtain ⟨file, hfile, hpath⟩ := h.listed entry hentry
  obtain ⟨entry', hentry', hname'⟩ := h'.present file hfile
  obtain ⟨contents', hholds'⟩ := holds_of_regular hentry' (h'.regular entry' hentry')
  rw [hname'.trans hpath] at hholds'
  have hdigest := (describeFile_eq_ok.mp (h.described file hfile)).2.2.2.2.2
  have hdigest' := (describeFile_eq_ok.mp (h'.described file hfile)).2.2.2.2.2
  rw [hpath, fileSha256_of_holds hholds] at hdigest
  rw [hpath, fileSha256_of_holds hholds'] at hdigest'
  have hsame := hex_injective (Except.ok.inj (hdigest.trans hdigest'.symm))
  exact hcollision _ _ _ _ hholds hholds' hsame ▸ hholds'

theorem NoCollision.symm (h : NoCollision packaging root root') :
    NoCollision packaging root' root :=
  fun name contents name' contents' hholds hholds' hsame =>
    (h name' contents' name contents hholds' hholds hsame.symm).symm

/-- An inventory is accurate of one payload only. -/
theorem Accurate.holds_iff (h : Accurate packaging root package)
    (h' : Accurate packaging root' package) (hcollision : NoCollision packaging root root')
    (name contents : List UInt8) : root.Holds name contents ↔ root'.Holds name contents :=
  ⟨h.holds h' hcollision, h'.holds h hcollision.symm⟩

/-- The names that have a role of their own. -/
def fixedNames : List String :=
  ["julie-semantic-sidecar.exe", "julie-semantic-sidecar", "LICENSE", "THIRD_PARTY-LICENSES.html",
    "README.md"]

theorem classify_library {name : String} (hfixed : name ∉ fixedNames)
    (hnative : isNativeLibrary name = true) :
    classify name profile =
      if contains (toAsciiLowercase name) "ggml-cpu" then .ok .cpuBackend
      else classifyModule name profile := by
  simp only [fixedNames, List.mem_cons, List.not_mem_nil, or_false, not_or] at hfixed
  obtain ⟨hexe, hexecutable, hlicense, hthird, hreadme⟩ := hfixed
  have hprogram : name ≠ if contains profile.rustTarget "windows" then
      "julie-semantic-sidecar.exe" else "julie-semantic-sidecar" := by
    split
    · exact hexe
    · exact hexecutable
  rw [classify, if_neg hprogram, if_neg hlicense, if_neg hthird, if_neg hreadme,
    if_neg (not_not.mpr hnative)]

/-- What the name of an accelerator's module is recognised by. -/
theorem moduleFileName_library (windows : Bool) {backend : String}
    (hknown : backend ∈ knownAccelerators) :
    moduleFileName windows backend ∉ fixedNames ∧
      isNativeLibrary (moduleFileName windows backend) = true ∧
      contains (toAsciiLowercase (moduleFileName windows backend)) "ggml-cpu" = false ∧
      (knownAccelerators.find? fun other =>
        contains (toAsciiLowercase (moduleFileName windows backend)) ("ggml-" ++ other)) =
          some backend := by
  have hall : ∀ windows : Bool, ∀ backend ∈ knownAccelerators,
      moduleFileName windows backend ∉ fixedNames ∧
      isNativeLibrary (moduleFileName windows backend) = true ∧
      contains (toAsciiLowercase (moduleFileName windows backend)) "ggml-cpu" = false ∧
      (knownAccelerators.find? fun other =>
        contains (toAsciiLowercase (moduleFileName windows backend)) ("ggml-" ++ other)) =
          some backend := by
    decide
  exact hall windows backend hknown

/-- The role of an accelerator's module. -/
theorem classify_module (windows : Bool) {backend : String} (hknown : backend ∈ knownAccelerators) :
    classify (moduleFileName windows backend) profile =
      if backend = profile.advertisedBackend.asStr ∧ profile.advertisedBackend ≠ .metal then
        .ok .acceleratorBackend
      else .error ("accelerator module " ++ moduleFileName windows backend ++
        " disagrees with advertised backend " ++ profile.advertisedBackend.asStr) := by
  obtain ⟨hfixed, hnative, hcpu, hfind⟩ := moduleFileName_library windows hknown
  rw [classify_library hfixed hnative, if_neg (Bool.eq_false_iff.mp hcpu), classifyModule, hfind]

/-- The module of an accelerator that is not advertised has no role. -/
theorem classify_foreign {windows : Bool} {backend : String} (hknown : backend ∈ knownAccelerators)
    (hforeign : backend ≠ profile.advertisedBackend.asStr) {role : PackageFileRole} :
    classify (moduleFileName windows backend) profile ≠ .ok role := by
  rw [classify_module windows hknown, if_neg fun h => hforeign h.1]
  exact nofun

/-- What is in a package that verifies. -/
theorem Accurate.entry (h : Accurate packaging root package) {entry : DirEntry}
    (hentry : entry ∈ root.payload) : entry.isRegular = true ∧
      ∃ text role, Text.fromUtf8 entry.name = some text ∧ isModelWeight text = false ∧
        classify text package.profile = .ok role := by
  obtain ⟨file, hfile, hpath⟩ := h.listed entry hentry
  obtain ⟨htext, -, hweight, hrole, -⟩ := describeFile_eq_ok.mp (h.described file hfile)
  exact ⟨h.regular entry hentry, file.path, file.role, hpath ▸ htext, hweight, hrole⟩

variable (packaging)

/-- **Verification is exact.**  Whatever order the directory is listed in, a package verifies if
and only if its inventory is the one that would be created now.  So what is written verifies, a
package with the same inventory has the same payload, and nothing is in it that has no role. -/
theorem verify_isExact :
    (∀ (root root' : Directory) (package : PackageManifest), root.Same root' →
      (verify packaging root = .ok package ↔
        (∃ raw, readFile root (Text.toUtf8 manifestFile) = .ok raw ∧
          packaging.fromSlice raw = .ok package) ∧
        create packaging root' package.profile = .ok package)) ∧
    (∀ (root root₁ : Directory) (profile : PackageProfile) (package : PackageManifest)
      (persist : List UInt8 → Except String Directory),
      create packaging root profile = .ok package →
      packaging.fromSlice (packaging.toVecPretty package ++ [Text.newline]) = .ok package →
      persist (packaging.toVecPretty package ++ [Text.newline]) = .ok root₁ →
      Installs root (packaging.toVecPretty package ++ [Text.newline]) root₁ →
      write packaging root persist profile = .ok package ∧
        ∀ root₂ : Directory, root₁.Same root₂ → verify packaging root₂ = .ok package) ∧
    (∀ (root root' : Directory) (raw : List UInt8) (package package' : PackageManifest),
      readFile root (Text.toUtf8 manifestFile) = .ok raw →
      readFile root' (Text.toUtf8 manifestFile) = .ok raw →
      verify packaging root = .ok package → verify packaging root' = .ok package' →
      NoCollision packaging root root' →
      package = package' ∧ ∀ name contents, root.Holds name contents ↔ root'.Holds name contents) ∧
    ∀ (root : Directory) (package : PackageManifest), verify packaging root = .ok package →
      ∀ entry ∈ root.payload, entry.isRegular = true ∧
        (∃ text role, Text.fromUtf8 entry.name = some text ∧ isModelWeight text = false ∧
          classify text package.profile = .ok role) ∧
        ∀ windows, ∀ backend ∈ knownAccelerators,
          backend ≠ package.advertisedBackend.asStr →
          entry.name ≠ Text.toUtf8 (moduleFileName windows backend) := by
  refine ⟨fun root root' package hsame => ?_, ?_, ?_, ?_⟩
  · rw [verify_eq_ok, create_eq_ok]
    have hperm := hsame.payload
    exact and_congr_right fun _ => ⟨fun h => ⟨rfl, h.of_payload hperm⟩,
      fun h => h.2.of_payload hperm.symm⟩
  · rintro root root₁ profile package persist hcreate hroundTrip hpersist hinstalls
    have haccurate := (create_eq_ok.mp hcreate).2.of_payload hinstalls.payload
    have hverify : ∀ root₂ : Directory, root₁.Same root₂ →
        verify packaging root₂ = .ok package := by
      intro root₂ hsame
      refine verify_eq_ok.mpr ⟨⟨_, ?_, hroundTrip⟩, haccurate.of_payload hsame.payload⟩
      rw [← hinstalls.readFile, readFile, readFile, metadata, metadata, hsame.find]
    refine ⟨?_, hverify⟩
    exact bind_eq_ok.mpr ⟨package, hcreate, bind_eq_ok.mpr ⟨root₁, hpersist,
      hverify root₁ (List.Perm.refl _)⟩⟩
  · rintro root root' raw package package' hraw hraw' hverify hverify' hcollision
    obtain ⟨⟨_, hread, hparse⟩, haccurate⟩ := verify_eq_ok.mp hverify
    obtain ⟨⟨_, hread', hparse'⟩, haccurate'⟩ := verify_eq_ok.mp hverify'
    obtain rfl := Except.ok.inj (hread.symm.trans hraw)
    obtain rfl := Except.ok.inj (hread'.symm.trans hraw')
    obtain rfl := Except.ok.inj (hparse.symm.trans hparse')
    exact ⟨rfl, haccurate.holds_iff haccurate' hcollision⟩
  · rintro root package hverify entry hentry
    obtain ⟨-, haccurate⟩ := verify_eq_ok.mp hverify
    obtain ⟨hregular, text, role, htext, hweight, hrole⟩ := haccurate.entry hentry
    refine ⟨hregular, ⟨text, role, htext, hweight, hrole⟩, ?_⟩
    rintro windows backend hknown hforeign hname
    obtain rfl := Text.toUtf8_inj ((Text.toUtf8_of_fromUtf8 htext).trans hname)
    exact classify_foreign hknown hforeign hrole

/-! ## Packages of empty files -/

/-- SHA-256 of no bytes. -/
def emptyDigest : List UInt8 :=
  [0xe3, 0xb0, 0xc4, 0x42, 0x98, 0xfc, 0x1c, 0x14, 0x9a, 0xfb, 0xf4, 0xc8, 0x99, 0x6f, 0xb9, 0x24,
    0x27, 0xae, 0x41, 0xe4, 0x64, 0x9b, 0x93, 0x4c, 0xa4, 0x95, 0x99, 0x1b, 0x78, 0x52, 0xb8, 0x55]

/-- The digest of no bytes, in hexadecimal digits. -/
def emptySha256 : String := "e3b0c44298fc1c149afbf4c8996fb92427ae41e4649b934ca495991b7852b855"

/-- The entry of an empty file. -/
def emptyPackageFile (path : String) (role : PackageFileRole) : PackageFile :=
  ⟨path, emptySha256, 0, role⟩

/-- How serde writes a role. -/
def PackageFileRole.asStr : PackageFileRole → String
  | .executable => "executable"
  | .coreRuntime => "core_runtime"
  | .cpuBackend => "cpu_backend"
  | .acceleratorBackend => "accelerator_backend"
  | .license => "license"
  | .thirdPartyLicenses => "third_party_licenses"
  | .readme => "readme"

/-- How serde writes a tier. -/
def PackageTier.asStr : PackageTier → String
  | .portable => "portable"
  | .vendor => "vendor"

/-- The JSON of an inventory in which no text needs an escape, two spaces a level. -/
def plainJson (package : PackageManifest) : List UInt8 :=
  Text.toUtf8 <| String.intercalate "\n" <|
    ["\x7b", "  \"schema_version\": " ++ toString package.schemaVersion ++ ",",
      "  \"sidecar_version\": " ++ quoted package.sidecarVersion ++ ",",
      "  \"rust_target\": " ++ quoted package.rustTarget ++ ",",
      "  \"tier\": " ++ quoted package.tier.asStr ++ ",",
      "  \"advertised_backend\": " ++ quoted package.advertisedBackend.asStr ++ ",",
      "  \"native_build_identity\": " ++ quoted package.nativeBuildIdentity ++ ",",
      "  \"model_policy\": \x7b", "    \"ids\": [",
      String.intercalate ",\n" (package.modelPolicy.ids.map fun id => "      " ++ quoted id),
      "    ],", "    \"default_id\": " ++ quoted package.modelPolicy.defaultId, "  \x7d,",
      "  \"files\": [", String.intercalate ",\n" (package.files.map file), "  ]", "\x7d"]
where
  quoted (text : String) : String := "\"" ++ text ++ "\""
  file (file : PackageFile) : String :=
    String.intercalate "\n" ["    \x7b", "      \"path\": " ++ quoted file.path ++ ",",
      "      \"sha256\": " ++ quoted file.sha256 ++ ",",
      "      \"size\": " ++ toString file.size ++ ",",
      "      \"role\": " ++ quoted file.role.asStr, "    \x7d"]

/-- A packager for one package. -/
def plainPackaging (package : PackageManifest) : Packaging where
  sha256 _ := emptyDigest
  toVecPretty := plainJson
  fromSlice bytes :=
    if bytes = plainJson package ++ [Text.newline] then .ok package
    else .error "expected value at line 1 column 1"
  display name := "/package/" ++ (Text.fromUtf8 name).getD "?"
  debug text := "\"" ++ text ++ "\""

theorem fromSlice_plain {bytes : List UInt8} (h : bytes = plainJson package ++ [Text.newline]) :
    (plainPackaging package).fromSlice bytes = .ok package :=
  if_pos h

theorem describe_empty {name : String} (hname : emptyFile name ∈ root.entries)
    {role : PackageFileRole}
    (hvalid : validateRelativePath (plainPackaging package) name = .ok ())
    (hweight : isModelWeight name = false) (hrole : classify name profile = .ok role) :
    describeFile (plainPackaging package) root (Text.toUtf8 name) profile =
      .ok (emptyPackageFile name role) := by
  have hfind : root.find (Text.toUtf8 name) = some (emptyFile name) :=
    Directory.find_eq_some.mpr ⟨hname, rfl⟩
  have hmetadata : metadata root (Text.toUtf8 name) = .ok (.regular ⟨[], none, by decide⟩) := by
    rw [metadata, hfind]
    rfl
  refine describeFile_eq_ok.mpr ⟨Text.fromUtf8_toUtf8 name, hvalid, hweight, hrole,
    ⟨_, hmetadata, rfl⟩, ?_⟩
  rw [fileSha256, hmetadata]
  rfl

/-- The policy, sorted. -/
theorem modelPolicy_eq :
    modelPolicy = ⟨["bge-small-en-v1.5-f32", "qwen3-0.6b-f16"], "bge-small-en-v1.5-f32"⟩ := by
  rw [modelPolicy, sortNames_eq ["bge-small-en-v1.5-f32", "qwen3-0.6b-f16"] (by decide)
    (by decide)]
  rfl

/-- A package with an inventory. -/
def Directory.install (root : Directory) (file : RegularFile) : Directory where
  entries := ⟨Text.toUtf8 manifestFile, false, some (.regular file)⟩ :: root.payload
  nodup := by
    rw [List.map_cons, List.nodup_cons]
    refine ⟨fun hmem => ?_, payload_nodup root⟩
    obtain ⟨entry, hentry, hname⟩ := List.mem_map.mp hmem
    exact (mem_payload.mp hentry).2 hname

theorem installs_install (file : RegularFile) :
    Installs root file.contents (root.install file) :=
  ⟨file, rfl, List.Perm.refl _⟩

/-- A package with the Metal backend built in.  The directory lists its files in no particular
order. -/
def metalRoot : Directory where
  entries := ["README.md", "julie-semantic-sidecar", "LICENSE", "THIRD_PARTY-LICENSES.html"].map
    emptyFile
  nodup := by decide

/-- The inventory of that directory. -/
def metalPackage : PackageManifest where
  schemaVersion := 2
  sidecarVersion := "0.1.0"
  rustTarget := "aarch64-apple-darwin"
  tier := .portable
  advertisedBackend := .metal
  nativeBuildIdentity := "native-build-a"
  modelPolicy := ⟨["bge-small-en-v1.5-f32", "qwen3-0.6b-f16"], "bge-small-en-v1.5-f32"⟩
  files := [emptyPackageFile "LICENSE" .license, emptyPackageFile "README.md" .readme,
    emptyPackageFile "THIRD_PARTY-LICENSES.html" .thirdPartyLicenses,
    emptyPackageFile "julie-semantic-sidecar" .executable]

theorem metal_accurate : Accurate (plainPackaging metalPackage) metalRoot metalPackage where
  schema := rfl
  version := rfl
  profile := rfl
  policy := modelPolicy_eq.symm
  sorted := by decide
  shape := rfl
  regular := by decide
  listed := by decide
  present := by decide
  described := by
    intro file hfile
    simp only [metalPackage, List.mem_cons, List.not_mem_nil, or_false] at hfile
    rcases hfile with rfl | rfl | rfl | rfl
    · exact describe_empty (by decide) rfl rfl rfl
    · exact describe_empty (by decide) rfl rfl rfl
    · exact describe_empty (by decide) rfl rfl rfl
    · exact describe_empty (by decide) rfl rfl rfl

/-- The inventory, as a file. -/
def metalInventory : RegularFile :=
  ⟨plainJson metalPackage ++ [Text.newline], none, by decide +kernel⟩

/-- The package is written, and verifies then. -/
theorem verify_isExact_metal :
    write (plainPackaging metalPackage) metalRoot (fun _ => .ok (metalRoot.install metalInventory))
      metalPackage.profile = .ok metalPackage ∧
    verify (plainPackaging metalPackage) (metalRoot.install metalInventory) = .ok metalPackage := by
  obtain ⟨-, hwrite, -⟩ := verify_isExact (plainPackaging metalPackage)
  obtain ⟨hwritten, hverified⟩ := hwrite metalRoot (metalRoot.install metalInventory)
    metalPackage.profile metalPackage (fun _ => .ok (metalRoot.install metalInventory))
    (create_eq_ok.mpr ⟨rfl, metal_accurate⟩) (fromSlice_plain rfl) rfl
    (installs_install metalInventory)
  exact ⟨hwritten, hverified _ (List.Perm.refl _)⟩

end SemanticSidecar
