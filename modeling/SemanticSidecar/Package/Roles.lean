import SemanticSidecar.Package.Exact
import SemanticSidecar.Package.Whitelist
import SemanticSidecar.Prepare.Names

/-!
# The roles of modules, and the modules that are loaded

The packager recognises a module by what its name contains, without regard to case and with a
version after the suffix.  The loader recognises it by the exact prefix and suffix of its platform,
and an accelerator's by its whole name.  What the loader takes has a role (`classify_cpuModule`,
`classify_advertised`), but not everything that has a role is taken: `loader_agrees_iff` says that
the two agree on a verified package exactly if its modules have the names the loader knows.

`LoaderNames` is the condition, on the names of the files in the inventory: a file with the role of
a CPU backend has the prefix and the suffix that the loader looks for, and the one with the role of
an accelerator is named as the loader names it.  Both sides are case-sensitive there, and neither
allows a version behind the suffix.

`versionedVulkan` is a package that passes every check of the packager and whose accelerator is
never found by the loader.
-/

set_option autoImplicit false

namespace SemanticSidecar

open Fallible

variable {packaging : Packaging} {root : Directory} {package : PackageManifest}
  {profile : PackageProfile} {declared : DeclaredBackends} {windows : Bool}

/-! ## The roles of what the loader takes -/

theorem startsWith_iff {text before : String} :
    startsWith text before = true ↔ ∃ rest, text.toList = before.toList ++ rest := by
  rw [startsWith, List.isPrefixOf_iff_prefix]
  exact exists_congr fun _ => eq_comm

theorem contains_iff {text part : String} :
    contains text part = true ↔ ∃ before after, text.toList = before ++ part.toList ++ after := by
  rw [contains, decide_eq_true_iff]
  exact exists₂_congr fun _ _ => eq_comm

theorem toList_toAsciiLowercase (text : String) :
    (toAsciiLowercase text).toList = text.toList.map Char.toLower :=
  String.toList_ofList

/-- A name that starts and ends like a CPU module is a native library of that kind. -/
theorem cpuModule_native {name : String} (hstart : startsWith name (cpuPrefix windows) = true)
    (hend : endsWith name (moduleSuffix windows) = true) :
    isNativeLibrary name = true ∧ contains (toAsciiLowercase name) "ggml-cpu" = true := by
  obtain ⟨rest, hrest⟩ := startsWith_iff.mp hstart
  obtain ⟨before, hbefore⟩ := endsWith_iff.mp hend
  constructor
  · rw [isNativeLibrary, Bool.or_eq_true, Bool.or_eq_true]
    rcases windows with _ | _
    · refine Or.inl (Or.inr (contains_iff.mpr ⟨before.map Char.toLower, [], ?_⟩))
      rw [toList_toAsciiLowercase, hbefore, List.map_append, List.append_nil]
      rfl
    · refine Or.inl (Or.inl (endsWith_iff.mpr ⟨before.map Char.toLower, ?_⟩))
      rw [toList_toAsciiLowercase, hbefore, List.map_append]
      rfl
  · refine contains_iff.mpr ⟨(modulePrefix windows).toList, rest.map Char.toLower, ?_⟩
    rw [toList_toAsciiLowercase, hrest, List.map_append]
    rcases windows with _ | _
    · rfl
    · rfl

/-- What the loader takes for a CPU module has that role. -/
theorem classify_cpuModule {name : String} (hstart : startsWith name (cpuPrefix windows) = true)
    (hend : endsWith name (moduleSuffix windows) = true) :
    classify name profile = .ok .cpuBackend := by
  obtain ⟨hnative, hcpu⟩ := cpuModule_native hstart hend
  have hfixed : name ∉ fixedNames := by
    intro hmem
    have hnone : ∀ windows, ∀ name ∈ fixedNames, startsWith name (cpuPrefix windows) = false := by
      decide
    exact Bool.false_ne_true ((hnone windows name hmem).symm.trans hstart)
  rw [classify_library hfixed hnative, if_pos hcpu]

/-- The module of the advertised accelerator has its role. -/
theorem classify_advertised (windows : Bool) (hadvertised : profile.advertisedBackend ≠ .metal) :
    classify (moduleFileName windows profile.advertisedBackend.asStr) profile =
      .ok .acceleratorBackend := by
  have hknown : profile.advertisedBackend.asStr ∈ knownAccelerators := by
    rcases profile.advertisedBackend with _ | _ | _
    · decide
    · decide
    · decide
  rw [classify_module windows hknown, if_pos ⟨rfl, hadvertised⟩]

/-! ## The files of a verified package -/

theorem Accurate.role (h : Accurate packaging root package) {file : PackageFile}
    (hfile : file ∈ package.files) : classify file.path package.profile = .ok file.role :=
  (describeFile_eq_ok.mp (h.described file hfile)).2.2.2.1

/-- The files that are not the inventory are those in it. -/
theorem Accurate.mem_fileNames (h : Accurate packaging root package) {name : String}
    (hname : name ≠ manifestFile) :
    name ∈ root.fileNames ↔ ∃ file ∈ package.files, file.path = name := by
  rw [Directory.fileNames, List.mem_filterMap]
  refine ⟨?_, ?_⟩
  · rintro ⟨entry, hentry, htext⟩
    have hutf8 := Text.toUtf8_of_fromUtf8 htext
    have hpayload : entry ∈ root.payload := mem_payload.mpr ⟨(List.mem_filter.mp hentry).1,
      fun heq => hname (Text.toUtf8_inj (hutf8.trans heq))⟩
    obtain ⟨file, hfile, hpath⟩ := h.listed entry hpayload
    exact ⟨file, hfile, Text.toUtf8_inj (hpath.trans hutf8.symm)⟩
  · rintro ⟨file, hfile, rfl⟩
    obtain ⟨entry, hentry, hpath⟩ := h.present file hfile
    have hregular := h.regular entry hentry
    rw [DirEntry.isRegular, Bool.and_eq_true] at hregular
    exact ⟨entry, List.mem_filter.mpr ⟨(mem_payload.mp hentry).1, hregular.2⟩,
      hpath ▸ Text.fromUtf8_toUtf8 _⟩

/-- A declared accelerator whose module is in the package is the one that is advertised. -/
theorem Accurate.advertised (h : Accurate packaging root package) {file : PackageFile}
    (hfile : file ∈ package.files) {backend : String} (hbackend : backend ∈ stableBackends)
    (hpath : file.path = moduleFileName windows backend) :
    backend = package.advertisedBackend.asStr := by
  have hknown : backend ∈ knownAccelerators := by
    have hall : ∀ backend ∈ stableBackends, backend ∈ knownAccelerators := by decide
    exact hall backend hbackend
  by_contra hforeign
  exact classify_foreign hknown hforeign (hpath ▸ h.role hfile)

/-- What the loader takes from a verified package. -/
theorem Accurate.taken_iff (h : Accurate packaging root package)
    (hdeclared : package.advertisedBackend.asStr ∈ declared.stableAccelerators) {file : PackageFile}
    (hfile : file ∈ package.files) :
    isPackagedModule windows (declaredNames windows declared true) file.path = true ↔
      (startsWith file.path (cpuPrefix windows) = true ∧
        endsWith file.path (moduleSuffix windows) = true) ∨
      file.path = moduleFileName windows package.advertisedBackend.asStr := by
  rw [isPackagedModule_iff]
  refine or_congr_right ⟨?_, fun hpath => ⟨rfl, _, hdeclared, hpath⟩⟩
  rintro ⟨-, backend, hbackend, hpath⟩
  rw [← h.advertised hfile (List.mem_filter.mp hbackend).1 hpath]
  exact hpath

/-- Every module of the package has a name that the loader knows. -/
def LoaderNames (windows : Bool) (package : PackageManifest) : Prop :=
  ∀ file ∈ package.files,
    (file.role = .cpuBackend → startsWith file.path (cpuPrefix windows) = true ∧
      endsWith file.path (moduleSuffix windows) = true) ∧
    (file.role = .acceleratorBackend →
      file.path = moduleFileName windows package.advertisedBackend.asStr)

/-- A file that is a native module. -/
def PackageFile.IsModule (file : PackageFile) : Prop :=
  file.role = .cpuBackend ∨ file.role = .acceleratorBackend

/-- The loader takes the modules that the packager has given the roles to, and nothing else.  There
is one for the CPU among them, and the one of the accelerator. -/
def LoaderAgrees (windows : Bool) (root : Directory) (declared : DeclaredBackends)
    (package : PackageManifest) : Prop :=
  ∃ paths, packagedModulePathsForScope windows (.entries root) declared true = .ok paths ∧
    (∀ name, name ∈ paths ↔ ∃ file ∈ package.files, file.path = name ∧ file.IsModule) ∧
    (∃ file ∈ package.files, file.role = .cpuBackend ∧ file.path ∈ paths) ∧
    ∃! file, file ∈ package.files ∧ file.role = .acceleratorBackend ∧ file.path ∈ paths

theorem count_ne_zero {role : PackageFileRole} (h : package.count role ≠ 0) :
    ∃ file ∈ package.files, file.role = role := by
  obtain ⟨file, hfile⟩ := List.exists_mem_of_length_pos (Nat.pos_of_ne_zero h)
  obtain ⟨hmem, hrole⟩ := List.mem_filter.mp hfile
  exact ⟨file, hmem, of_decide_eq_true hrole⟩

theorem count_eq_one {role : PackageFileRole} (h : package.count role = 1) :
    ∃! file, file ∈ package.files ∧ file.role = role := by
  obtain ⟨file, hfile⟩ := List.length_eq_one_iff.mp h
  have hmem : ∀ other, other ∈ package.files ∧ other.role = role ↔ other = file := fun other => by
    rw [← List.mem_singleton (a := other) (b := file), ← hfile, List.mem_filter, decide_eq_true_iff]
  exact ⟨file, (hmem file).mpr rfl, fun other hother => (hmem other).mp hother⟩

/-- The modules there have to be. -/
theorem Accurate.modules (h : Accurate packaging root package)
    (hadvertised : package.advertisedBackend ≠ .metal) :
    (∃ file ∈ package.files, file.role = .cpuBackend) ∧
      ∃! file, file ∈ package.files ∧ file.role = .acceleratorBackend := by
  have hshape := h.shape
  rw [validateShape, then_eq_ok, then_eq_ok, then_eq_ok, then_eq_ok] at hshape
  obtain ⟨-, -, -, -, hmodules⟩ := hshape
  have hplugins : package.count .cpuBackend ≠ 0 ∧ package.count .acceleratorBackend = 1 := by
    rcases hbackend : package.advertisedBackend with _ | _ | _
    · exact absurd hbackend hadvertised
    all_goals
      rw [hbackend] at hmodules
      dsimp only at hmodules
      rw [then_eq_ok, then_eq_ok, then_eq_ok, check_eq_ok, check_eq_ok, check_eq_ok,
        check_eq_ok] at hmodules
      obtain ⟨-, hcpu, -, haccelerator⟩ := hmodules
      exact ⟨hcpu, haccelerator⟩
  exact ⟨count_ne_zero hplugins.1, count_eq_one hplugins.2⟩

/-- The last two parts of the agreement follow from the first. -/
theorem Accurate.loaderAgrees_iff (h : Accurate packaging root package)
    (hadvertised : package.advertisedBackend ≠ .metal) {root : Directory} :
    LoaderAgrees windows root declared package ↔ ∀ name,
      (name ∈ root.fileNames ∧
        isPackagedModule windows (declaredNames windows declared true) name = true) ↔
      ∃ file ∈ package.files, file.path = name ∧ file.IsModule := by
  have hmem : ∀ name, name ∈ sortNames (root.fileNames.filter
      (isPackagedModule windows (declaredNames windows declared true))) ↔
      name ∈ root.fileNames ∧
        isPackagedModule windows (declaredNames windows declared true) name = true := fun name =>
    (sortNames_perm _).mem_iff.trans List.mem_filter
  constructor
  · rintro ⟨paths, hpaths, htaken, -⟩ name
    obtain rfl := Except.ok.inj hpaths
    exact (hmem name).symm.trans (htaken name)
  · intro htaken
    obtain ⟨⟨cpu, hcpu, hcpuRole⟩, accelerator, ⟨haccelerator, hacceleratorRole⟩, honly⟩ :=
      h.modules hadvertised
    have hpaths := fun name => (hmem name).trans (htaken name)
    refine ⟨_, rfl, hpaths, ⟨cpu, hcpu, hcpuRole, ?_⟩, accelerator,
      ⟨haccelerator, hacceleratorRole, ?_⟩, fun other hother => honly other ⟨hother.1, hother.2.1⟩⟩
    · exact (hpaths _).mpr ⟨cpu, hcpu, rfl, Or.inl hcpuRole⟩
    · exact (hpaths _).mpr ⟨accelerator, haccelerator, rfl, Or.inr hacceleratorRole⟩

/-- The inventory is no module. -/
theorem manifestFile_not_taken :
    isPackagedModule windows (declaredNames windows declared true) manifestFile = false := by
  refine Bool.eq_false_iff.mpr fun h => ?_
  rcases isPackagedModule_iff.mp h with ⟨hstart, -⟩ | ⟨-, backend, hbackend, hname⟩
  · have hnone : ∀ windows, startsWith manifestFile (cpuPrefix windows) = false := by decide
    exact Bool.false_ne_true ((hnone windows).symm.trans hstart)
  · have hnone : ∀ windows, ∀ backend ∈ stableBackends,
        manifestFile ≠ moduleFileName windows backend := by decide
    exact hnone windows backend (List.mem_filter.mp hbackend).1 hname

/-- **When the packager and the loader agree on the modules**: if the modules have the names that
the loader knows. -/
theorem loader_agrees_iff (hverify : verify packaging root = .ok package)
    (hadvertised : package.advertisedBackend = .vulkan ∨ package.advertisedBackend = .cuda)
    (hdeclared : package.advertisedBackend.asStr ∈ declared.stableAccelerators) :
    LoaderAgrees (contains package.rustTarget "windows") root declared package ↔
      LoaderNames (contains package.rustTarget "windows") package := by
  obtain ⟨-, haccurate⟩ := verify_eq_ok.mp hverify
  have hmetal : package.profile.advertisedBackend ≠ .metal := by
    rintro hmetal
    rcases hadvertised with h | h
    · exact absurd (h.symm.trans hmetal) (by decide)
    · exact absurd (h.symm.trans hmetal) (by decide)
  generalize contains package.rustTarget "windows" = windows
  have hcpu : ∀ file ∈ package.files, startsWith file.path (cpuPrefix windows) = true ∧
      endsWith file.path (moduleSuffix windows) = true → file.role = .cpuBackend :=
    fun file hfile h => Except.ok.inj
      ((haccurate.role hfile).symm.trans (classify_cpuModule h.1 h.2))
  have haccelerator : ∀ file ∈ package.files,
      file.path = moduleFileName windows package.advertisedBackend.asStr →
      file.role = .acceleratorBackend := by
    intro file hfile hpath
    have hrole := haccurate.role hfile
    rw [hpath] at hrole
    exact Except.ok.inj (hrole.symm.trans (@classify_advertised package.profile windows hmetal))
  have hlisted : ∀ file ∈ package.files, file.path ≠ manifestFile := by
    intro file hfile hpath
    obtain ⟨entry, hentry, hname⟩ := haccurate.present file hfile
    exact (mem_payload.mp hentry).2 (hname.trans (congrArg Text.toUtf8 hpath))
  rw [haccurate.loaderAgrees_iff hmetal]
  refine ⟨fun h file hfile => ?_, fun h name => ⟨?_, ?_⟩⟩
  · have htaken : file.role = .cpuBackend ∨ file.role = .acceleratorBackend →
        (startsWith file.path (cpuPrefix windows) = true ∧
          endsWith file.path (moduleSuffix windows) = true) ∨
        file.path = moduleFileName windows package.advertisedBackend.asStr := fun hrole =>
      (haccurate.taken_iff hdeclared hfile).mp ((h file.path).mpr ⟨file, hfile, rfl, hrole⟩).2
    refine ⟨fun hrole => (htaken (Or.inl hrole)).resolve_right fun hpath => ?_,
      fun hrole => (htaken (Or.inr hrole)).resolve_left fun hnamed => ?_⟩
    · exact absurd (hrole.symm.trans (haccelerator file hfile hpath)) (by decide)
    · exact absurd (hrole.symm.trans (hcpu file hfile hnamed)) (by decide)
  · rintro ⟨hbeside, hpackaged⟩
    have hname : name ≠ manifestFile := by
      rintro rfl
      exact Bool.false_ne_true (manifestFile_not_taken.symm.trans hpackaged)
    obtain ⟨file, hfile, rfl⟩ := (haccurate.mem_fileNames hname).mp hbeside
    refine ⟨file, hfile, rfl, ?_⟩
    rcases (haccurate.taken_iff hdeclared hfile).mp hpackaged with hnamed | hpath
    · exact Or.inl (hcpu file hfile hnamed)
    · exact Or.inr (haccelerator file hfile hpath)
  · rintro ⟨file, hfile, rfl, hrole⟩
    refine ⟨(haccurate.mem_fileNames (hlisted file hfile)).mpr ⟨file, hfile, rfl⟩,
      (haccurate.taken_iff hdeclared hfile).mpr ?_⟩
    rcases hrole with hrole | hrole
    · exact Or.inl ((h file hfile).1 hrole)
    · exact Or.inr ((h file hfile).2 hrole)

/-! ## A module under a versioned name

Linux libraries are commonly installed as `libggml-vulkan.so.1`.  The packager takes that for the
accelerator's module. -/

/-- A package of empty files. -/
def emptyRoot (files : List PackageFile) (hnodup : (files.map PackageFile.path).Nodup) :
    Directory where
  entries := files.map fun file => emptyFile file.path
  nodup := by
    have hnames := hnodup.map fun _ _ h => Text.toUtf8_inj h
    rw [List.map_map] at hnames ⊢
    exact hnames

/-- A file that is described as it is, if it is empty. -/
def IsPlain (profile : PackageProfile) (file : PackageFile) : Prop :=
  file = emptyPackageFile file.path file.role ∧ file.path ≠ manifestFile ∧
    (file.path ≠ "" ∧ ¬ contains file.path "\\" ∧ ¬ startsWith file.path "/" ∧
      isSingleName file.path) ∧
    isModelWeight file.path = false ∧ classify file.path profile = .ok file.role

theorem mem_payload_emptyRoot {files : List PackageFile}
    (hnodup : (files.map PackageFile.path).Nodup) (hplain : ∀ file ∈ files, IsPlain profile file)
    {entry : DirEntry} :
    entry ∈ (emptyRoot files hnodup).payload ↔ ∃ file ∈ files, emptyFile file.path = entry := by
  rw [mem_payload, emptyRoot, List.mem_map]
  refine and_iff_left_of_imp ?_
  rintro ⟨file, hfile, rfl⟩ hname
  exact (hplain file hfile).2.1 (Text.toUtf8_inj hname)

/-- An inventory of plain files is accurate of a directory of empty ones. -/
theorem emptyRoot_accurate {package : PackageManifest}
    (hnodup : (package.files.map PackageFile.path).Nodup)
    (hmetadata : validateManifestMetadata package = .ok ())
    (hshape : validateShape package = .ok ())
    (hplain : ∀ file ∈ package.files, IsPlain package.profile file) :
    Accurate (plainPackaging package) (emptyRoot package.files hnodup) package := by
  obtain ⟨hschema, hversion, hprofile, hpolicy, hsorted⟩ :=
    validateManifestMetadata_eq_ok.mp hmetadata
  refine ⟨hschema, hversion, hprofile, hpolicy, hsorted, hshape, fun entry hentry => ?_,
    fun entry hentry => ?_, fun file hfile => ?_, fun file hfile => ?_⟩
  · obtain ⟨file, -, rfl⟩ := (mem_payload_emptyRoot hnodup hplain).mp hentry
    rfl
  · obtain ⟨file, hfile, rfl⟩ := (mem_payload_emptyRoot hnodup hplain).mp hentry
    exact ⟨file, hfile, rfl⟩
  · exact ⟨_, (mem_payload_emptyRoot hnodup hplain).mpr ⟨file, hfile, rfl⟩, rfl⟩
  · obtain ⟨hempty, -, hvalid, hweight, hrole⟩ := hplain file hfile
    have hentry : emptyFile file.path ∈ (emptyRoot package.files hnodup).entries :=
      List.mem_map_of_mem hfile
    exact (describe_empty hentry (check_eq_ok.mpr hvalid) hweight hrole).trans
      (congrArg _ hempty.symm)

/-- A Vulkan package for Linux. -/
def vulkanPackage (module : String) : PackageManifest where
  schemaVersion := 2
  sidecarVersion := "0.1.0"
  rustTarget := "x86_64-unknown-linux-gnu"
  tier := .portable
  advertisedBackend := .vulkan
  nativeBuildIdentity := "native-build-a"
  modelPolicy := ⟨["bge-small-en-v1.5-f32", "qwen3-0.6b-f16"], "bge-small-en-v1.5-f32"⟩
  files := [emptyPackageFile "LICENSE" .license, emptyPackageFile "README.md" .readme,
    emptyPackageFile "THIRD_PARTY-LICENSES.html" .thirdPartyLicenses,
    emptyPackageFile "julie-semantic-sidecar" .executable,
    emptyPackageFile "libggml-cpu-x86_64.so" .cpuBackend,
    emptyPackageFile module .acceleratorBackend,
    emptyPackageFile "libggml.so" .coreRuntime, emptyPackageFile "libllama.so" .coreRuntime]

/-- The package whose accelerator module has the name that is loaded. -/
def plainVulkan : PackageManifest := vulkanPackage "libggml-vulkan.so"

/-- The package whose accelerator module has a version behind that name. -/
def versionedVulkan : PackageManifest := vulkanPackage "libggml-vulkan.so.1"

theorem validateProfile_vulkan (module : String) :
    validateProfile (vulkanPackage module).profile = .ok () := by
  have hprofile : validateProfile plainVulkan.profile = .ok () := by decide
  exact hprofile

/-- What there is to evaluate of the two packages. -/
theorem vulkan_files :
    (∀ file ∈ plainVulkan.files.filter fun file => file.role ≠ .acceleratorBackend,
      IsPlain plainVulkan.profile file) ∧
    (∀ module ∈ ["libggml-vulkan.so", "libggml-vulkan.so.1"],
      IsPlain plainVulkan.profile (emptyPackageFile module .acceleratorBackend) ∧
      (vulkanPackage module).files.Pairwise fun left right => left.path < right.path) := by
  unfold IsPlain
  decide +kernel

/-- All files are plain if the module is. -/
theorem vulkanPackage_plain {module : String}
    (hmodule : IsPlain plainVulkan.profile (emptyPackageFile module .acceleratorBackend)) :
    ∀ file ∈ (vulkanPackage module).files, IsPlain (vulkanPackage module).profile file := by
  intro file hfile
  by_cases hrole : file.role = .acceleratorBackend
  · have hmem : file ∈ (vulkanPackage module).files.filter fun file =>
        file.role = .acceleratorBackend := List.mem_filter.mpr ⟨hfile, decide_eq_true hrole⟩
    have honly : ((vulkanPackage module).files.filter fun file =>
        file.role = .acceleratorBackend) = [emptyPackageFile module .acceleratorBackend] := rfl
    rw [honly, List.mem_singleton] at hmem
    exact hmem ▸ hmodule
  · have hsame : ((vulkanPackage module).files.filter fun file =>
        file.role ≠ .acceleratorBackend) =
        plainVulkan.files.filter fun file => file.role ≠ .acceleratorBackend := rfl
    exact vulkan_files.1 file (hsame ▸ List.mem_filter.mpr ⟨hfile, decide_eq_true hrole⟩)

theorem plainVulkan_plain : ∀ file ∈ plainVulkan.files, IsPlain plainVulkan.profile file :=
  vulkanPackage_plain (vulkan_files.2 _ List.mem_cons_self).1

theorem versionedVulkan_plain :
    ∀ file ∈ versionedVulkan.files, IsPlain versionedVulkan.profile file :=
  vulkanPackage_plain (vulkan_files.2 _ (List.mem_cons_of_mem _ List.mem_cons_self)).1

theorem vulkanPackage_metadata {module : String}
    (hsorted : (vulkanPackage module).files.Pairwise fun left right => left.path < right.path) :
    validateManifestMetadata (vulkanPackage module) = .ok () :=
  validateManifestMetadata_eq_ok.mpr
    ⟨rfl, rfl, validateProfile_vulkan module, modelPolicy_eq.symm, hsorted⟩

theorem plainVulkan_metadata : validateManifestMetadata plainVulkan = .ok () :=
  vulkanPackage_metadata (vulkan_files.2 _ List.mem_cons_self).2

theorem versionedVulkan_metadata : validateManifestMetadata versionedVulkan = .ok () :=
  vulkanPackage_metadata (vulkan_files.2 _ (List.mem_cons_of_mem _ List.mem_cons_self)).2

theorem plainVulkan_accurate :
    Accurate (plainPackaging plainVulkan) (emptyRoot plainVulkan.files (by decide +kernel))
      plainVulkan :=
  emptyRoot_accurate _ plainVulkan_metadata rfl plainVulkan_plain

theorem versionedVulkan_accurate :
    Accurate (plainPackaging versionedVulkan) (emptyRoot versionedVulkan.files (by decide +kernel))
      versionedVulkan :=
  emptyRoot_accurate _ versionedVulkan_metadata rfl versionedVulkan_plain

/-- The inventory of a package, as a file. -/
def inventory (package : PackageManifest) (hbounded : (plainJson package).length + 1 < 2 ^ 64) :
    RegularFile where
  contents := plainJson package ++ [Text.newline]
  modified := none
  bounded := by
    rw [List.length_append]
    exact hbounded

/-- A package of plain files, installed. -/
theorem verify_install {package : PackageManifest} {root : Directory}
    (hbounded : (plainJson package).length + 1 < 2 ^ 64)
    (h : Accurate (plainPackaging package) root package) :
    verify (plainPackaging package) (root.install (inventory package hbounded)) = .ok package := by
  have hinstalls : Installs root _ (root.install (inventory package hbounded)) :=
    installs_install (inventory package hbounded)
  exact verify_eq_ok.mpr ⟨⟨_, hinstalls.readFile, fromSlice_plain rfl⟩,
    h.of_payload hinstalls.payload⟩

/-- The inventories are small, as can be seen piece by piece. -/
theorem vulkan_bounded : (plainJson plainVulkan).length + 1 < 2 ^ 64 ∧
    (plainJson versionedVulkan).length + 1 < 2 ^ 64 := by
  simp only [plainJson, Text.toUtf8_length, plainVulkan, versionedVulkan, vulkanPackage,
    List.map_cons, List.map_nil, plainJson.file, plainJson.quoted, emptyPackageFile,
    String.intercalate_cons_cons, String.intercalate_singleton, String.utf8ByteSize_append]
  decide +kernel

theorem plainVulkan_bounded : (plainJson plainVulkan).length + 1 < 2 ^ 64 := vulkan_bounded.1

theorem versionedVulkan_bounded : (plainJson versionedVulkan).length + 1 < 2 ^ 64 :=
  vulkan_bounded.2

/-- The package under the plain name. -/
def plainRoot : Directory :=
  (emptyRoot plainVulkan.files (by decide +kernel)).install
    (inventory plainVulkan plainVulkan_bounded)

/-- The one under the versioned name. -/
def versionedRoot : Directory :=
  (emptyRoot versionedVulkan.files (by decide +kernel)).install
    (inventory versionedVulkan versionedVulkan_bounded)

/-- Under the plain name, the modules are what is loaded. -/
theorem loader_agrees_iff_plain :
    LoaderAgrees (contains plainVulkan.rustTarget "windows") plainRoot
      ⟨false, true, false, false, true⟩ plainVulkan := by
  have hverify : verify (plainPackaging plainVulkan) plainRoot = .ok plainVulkan :=
    verify_install _ plainVulkan_accurate
  have hnames : LoaderNames (contains plainVulkan.rustTarget "windows") plainVulkan := by
    unfold LoaderNames
    decide +kernel
  exact (loader_agrees_iff hverify (Or.inl rfl) (by decide)).mpr hnames

/-- Under the versioned name, the package verifies, but its module is not loaded. -/
theorem versioned_not_loaded :
    verify (plainPackaging versionedVulkan) versionedRoot = .ok versionedVulkan ∧
    ¬ LoaderAgrees (contains versionedVulkan.rustTarget "windows") versionedRoot
      ⟨false, true, false, false, true⟩ versionedVulkan := by
  refine ⟨verify_install _ versionedVulkan_accurate, fun h => ?_⟩
  have htaken := (versionedVulkan_accurate.loaderAgrees_iff (by decide)).mp h
  have hmodule : emptyPackageFile "libggml-vulkan.so.1" .acceleratorBackend ∈
      versionedVulkan.files := List.mem_of_getElem? (rfl : versionedVulkan.files[5]? = some _)
  have hpackaged := ((htaken "libggml-vulkan.so.1").mpr ⟨_, hmodule, rfl, Or.inr rfl⟩).2
  exact absurd hpackaged (by decide)

end SemanticSidecar
