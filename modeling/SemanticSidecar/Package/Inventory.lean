import SemanticSidecar.Manifest
import SemanticSidecar.Prepare.Acquire
import SemanticSidecar.Package.Directory
import SemanticSidecar.Lib.Fallible
import Mathlib.Data.List.Infix

/-!
# The inventory of a package

`write` puts an inventory of a package into it: every file with its size, its digest and its role.
`verify` reads the inventory back and holds the package against it.  This file has the two and what
they check; the theorems about them are in `Package.Exact`.

Hashing, the JSON of the inventory and two formats that occur in messages are not the packager's
own, so they come in a `Packaging`.  The names in an inventory are paths of one component as Unix
has them.

The checks are made in the order of the source, and each of them has the message of the source, with
the path that it is about.  `verifyFile` compares the role first, then the size and then the digest;
an inventory is checked on its own before any file is looked at, so that paths out of the package
are never opened.

The directory does not change while it is read.  `write` is given what the directory is like after a
temporary file has been renamed to the inventory, as the only way in which a program here changes
it.
-/

set_option autoImplicit false

namespace SemanticSidecar

open Fallible (check)

/-! ## The data -/

/-- `MANIFEST_FILE`: the name of the inventory in a package. -/
def manifestFile : String := "package-manifest.json"

/-- `SCHEMA_VERSION`: the one schema there is. -/
def schemaVersion : ℕ := 2

/-- `VERSION`, of the crate. -/
def sidecarVersion : String := "0.1.0"

/-- `DEFAULT_MODEL_ID`: the model that is served where none is asked for. -/
def defaultModelId : String := "bge-small-en-v1.5-f32"

/-- `PackageTier`: who can use a package. -/
inductive PackageTier where
  /-- Every machine of the target. -/
  | portable
  /-- A machine with the hardware of one vendor. -/
  | vendor
  deriving DecidableEq, Repr

/-- `AdvertisedBackend`: the accelerator that a package is for. -/
inductive AdvertisedBackend where
  /-- Metal, which is built in. -/
  | metal
  /-- Vulkan, with a module of its own. -/
  | vulkan
  /-- CUDA, with a module of its own. -/
  | cuda
  deriving DecidableEq, Repr

/-- `as_str`: the backend in names of modules. -/
def AdvertisedBackend.asStr : AdvertisedBackend → String
  | .metal => "metal"
  | .vulkan => "vulkan"
  | .cuda => "cuda"

/-- `PackageFileRole`: what a file is in a package for. -/
inductive PackageFileRole where
  /-- The sidecar. -/
  | executable
  /-- A library that the executable is linked to. -/
  | coreRuntime
  /-- A module of the CPU backend. -/
  | cpuBackend
  /-- The module of the advertised backend. -/
  | acceleratorBackend
  /-- The license of the sidecar. -/
  | license
  /-- The licenses of what it is built from. -/
  | thirdPartyLicenses
  /-- The README. -/
  | readme
  deriving DecidableEq, Repr

/-- `PackageProfile`: what a package is built for. -/
structure PackageProfile where
  /-- The target triple. -/
  rustTarget : String
  /-- Who can use the package. -/
  tier : PackageTier
  /-- The accelerator it is for. -/
  advertisedBackend : AdvertisedBackend
  /-- The build that its native code comes from. -/
  nativeBuildIdentity : String
  deriving DecidableEq, Repr

/-- `ModelPolicy`: the models that a package serves. -/
structure ModelPolicy where
  /-- Their ids, sorted. -/
  ids : List String
  /-- The one that is served where none is asked for. -/
  defaultId : String
  deriving DecidableEq, Repr

/-- `PackageFile`: one file of an inventory. -/
structure PackageFile where
  /-- The name of the file in the package. -/
  path : String
  /-- Its digest, in lower-case hexadecimal digits. -/
  sha256 : String
  /-- How many bytes it has. -/
  size : ℕ
  /-- What it is there for. -/
  role : PackageFileRole
  deriving DecidableEq, Repr

/-- `PackageManifest`: the inventory of a package. -/
structure PackageManifest where
  /-- The schema it is written in. -/
  schemaVersion : ℕ
  /-- The version of the sidecar. -/
  sidecarVersion : String
  /-- The target triple. -/
  rustTarget : String
  /-- Who can use the package. -/
  tier : PackageTier
  /-- The accelerator it is for. -/
  advertisedBackend : AdvertisedBackend
  /-- The build that its native code comes from. -/
  nativeBuildIdentity : String
  /-- The models it serves. -/
  modelPolicy : ModelPolicy
  /-- Its files, sorted by their paths. -/
  files : List PackageFile
  deriving DecidableEq, Repr

/-- The profile that an inventory is of. -/
def PackageManifest.profile (package : PackageManifest) : PackageProfile :=
  ⟨package.rustTarget, package.tier, package.advertisedBackend, package.nativeBuildIdentity⟩

/-- What the packager takes from elsewhere. -/
structure Packaging where
  /-- SHA-256. -/
  sha256 : List UInt8 → List UInt8
  /-- `serde_json::to_vec_pretty`. -/
  toVecPretty : PackageManifest → List UInt8
  /-- `serde_json::from_slice`. -/
  fromSlice : List UInt8 → Except String PackageManifest
  /-- The path of an entry, displayed. -/
  display : List UInt8 → String
  /-- The `Debug` format of a string. -/
  debug : String → String

/-! ## Checks -/

/-- `to_ascii_lowercase`. -/
def toAsciiLowercase (text : String) : String := String.ofList (text.toList.map Char.toLower)

/-- `str::contains`. -/
def contains (text part : String) : Bool := part.toList <:+: text.toList

/-- `validate_profile`: a target and a build identity in order, and one of the profiles there are.
-/
def validateProfile (profile : PackageProfile) : Except String Unit := do
  check (profile.rustTarget ≠ "" ∧ profile.rustTarget.toList.all fun c =>
    c.isAlphanum || c = '.' || c = '_' || c = '-') "invalid Rust target"
  check (profile.nativeBuildIdentity ≠ "" ∧ ¬ contains profile.nativeBuildIdentity "/" ∧
    ¬ contains profile.nativeBuildIdentity "\\" ∧
    ¬ contains profile.nativeBuildIdentity ".worktrees")
    "native build identity contains a development path"
  check (profile.rustTarget ∈
    match profile.advertisedBackend, profile.tier with
    | .metal, .portable => ["aarch64-apple-darwin", "x86_64-apple-darwin"]
    | .vulkan, .portable => ["x86_64-unknown-linux-gnu", "x86_64-pc-windows-msvc"]
    | .cuda, .vendor => ["x86_64-unknown-linux-gnu", "x86_64-pc-windows-msvc"]
    | _, _ => []) "unsupported package profile"

/-- `model_policy`: the policy of the models that are pinned. -/
def modelPolicy : ModelPolicy := ⟨sortNames (manifest.map ModelPin.id), defaultModelId⟩

/-- The parts of a path. -/
inductive PathComponent where
  /-- The root of the file system. -/
  | rootDir
  /-- The dot that a path begins with. -/
  | curDir
  /-- Two dots. -/
  | parentDir
  /-- A name. -/
  | normal (name : String)
  deriving DecidableEq

/-- `Path::components`. -/
def pathComponents (path : String) : List PathComponent :=
  let segments := path.toList.splitOn '/'
  (if startsWith path "/" then [.rootDir]
    else if segments.head? = some ['.'] then [.curDir] else []) ++
  segments.filterMap fun segment =>
    if segment = [] ∨ segment = ['.'] then none
    else if segment = ['.', '.'] then some .parentDir
    else some (.normal (String.ofList segment))

/-- A path of one component, which is a name. -/
def isSingleName (path : String) : Bool :=
  match pathComponents path with
  | [.normal _] => true
  | _ => false

/-- `validate_relative_path`: a path is one name, without a separator of either platform. -/
def validateRelativePath (packaging : Packaging) (path : String) : Except String Unit :=
  check (path ≠ "" ∧ ¬ contains path "\\" ∧ ¬ startsWith path "/" ∧ isSingleName path)
    ("invalid package path " ++ packaging.debug path)

/-- `is_native_library`: a name that a library can have. -/
def isNativeLibrary (name : String) : Bool :=
  endsWith (toAsciiLowercase name) ".dll" || contains (toAsciiLowercase name) ".so" ||
    contains (toAsciiLowercase name) ".dylib"

/-- `is_model_weight`: a name that weights can have. -/
def isModelWeight (name : String) : Bool :=
  [".gguf", ".onnx", ".safetensors", ".pt", ".pth"].any fun extension =>
    endsWith (toAsciiLowercase name) extension

/-- The accelerators that a name can be of. -/
def knownAccelerators : List String := ["metal", "vulkan", "cuda", "hip", "sycl"]

/-- The role of a module that is not the CPU's. -/
def classifyModule (name : String) (profile : PackageProfile) : Except String PackageFileRole :=
  match knownAccelerators.find? fun backend =>
    contains (toAsciiLowercase name) ("ggml-" ++ backend) with
  | some backend =>
    if backend = profile.advertisedBackend.asStr ∧ profile.advertisedBackend ≠ .metal then
      .ok .acceleratorBackend
    else .error ("accelerator module " ++ name ++ " disagrees with advertised backend " ++
      profile.advertisedBackend.asStr)
  | none =>
    if ["libggml", "libllama", "ggml", "llama"].any fun start =>
        startsWith (toAsciiLowercase name) start then
      .ok .coreRuntime
    else .error ("unsupported native library " ++ name)

/-- `classify`: the role of a file by its name, where it has one. -/
def classify (name : String) (profile : PackageProfile) : Except String PackageFileRole :=
  if name = (if contains profile.rustTarget "windows" then "julie-semantic-sidecar.exe"
      else "julie-semantic-sidecar") then .ok .executable
  else if name = "LICENSE" then .ok .license
  else if name = "THIRD_PARTY-LICENSES.html" then .ok .thirdPartyLicenses
  else if name = "README.md" then .ok .readme
  else if ¬ isNativeLibrary name then .error ("unsupported package file " ++ name)
  else if contains (toAsciiLowercase name) "ggml-cpu" then .ok .cpuBackend
  else classifyModule name profile

/-- How many files have a role. -/
def PackageManifest.count (package : PackageManifest) (role : PackageFileRole) : ℕ :=
  (package.files.filter fun file => file.role = role).length

/-- `validate_shape`: the roles that a package of the backend needs are filled. -/
def validateShape (package : PackageManifest) : Except String Unit := do
  check (package.count .executable = 1) "missing required executable role"
  check (package.count .license = 1) "missing required license role"
  check (package.count .thirdPartyLicenses = 1) "missing required third-party licenses role"
  check (package.count .readme = 1) "missing required readme role"
  match package.advertisedBackend with
  | .metal =>
    check (package.count .coreRuntime + package.count .cpuBackend +
      package.count .acceleratorBackend = 0)
      "built-in Metal package must not contain native plugin files"
  | _ => do
    check (package.count .coreRuntime ≠ 0) "missing required core runtime role"
    check (package.count .cpuBackend ≠ 0) "missing required CPU backend role"
    check (package.count .acceleratorBackend ≠ 0) "missing required advertised accelerator role"
    check (package.count .acceleratorBackend = 1)
      "package must contain exactly one advertised accelerator module"

/-- `validate_manifest_metadata`: everything that can be checked without the files. -/
def validateManifestMetadata (package : PackageManifest) : Except String Unit := do
  check (package.schemaVersion = SemanticSidecar.schemaVersion) "unsupported package manifest schema"
  check (package.sidecarVersion = SemanticSidecar.sidecarVersion)
    "package sidecar version mismatch"
  validateProfile package.profile
  check (package.modelPolicy = SemanticSidecar.modelPolicy) "model policy mismatch"
  check (package.files.IsChain fun left right => left.path < right.path)
    "package file list must be sorted without duplicates"

/-! ## Looking at a package -/

section

variable (packaging : Packaging) (root : Directory)

/-- The name of a path in the root. -/
def relativeName (name : List UInt8) : Except String String :=
  match Text.fromUtf8 name with
  | some text => .ok text
  | none => .error "package path is not valid UTF-8"

/-- The names of the files, in the order of the directory. -/
def payloadNames : List DirEntry → Except String (List (List UInt8))
  | [] => .ok []
  | entry :: rest =>
    if entry.name = Text.toUtf8 manifestFile then payloadNames rest
    else if entry.isRegular then do
      let names ← payloadNames rest
      pure (entry.name :: names)
    else .error (packaging.display entry.name ++ " must be a regular file in the flat package root")

/-- `payload_files`: the names of all files but the inventory. -/
def payloadFiles : Except String (List (List UInt8)) := payloadNames packaging root.entries

/-- `std::fs::metadata`, of a path in the root. -/
def metadata (name : List UInt8) : Except String Node :=
  match (root.find name).bind DirEntry.node with
  | some node => .ok node
  | none => .error "No such file or directory (os error 2)"

/-- `std::fs::read`, of a path in the root. -/
def readFile (name : List UInt8) : Except String (List UInt8) :=
  match metadata root name with
  | .ok (.regular file) => .ok file.contents
  | .ok (.other _ _ _) => .error "Is a directory (os error 21)"
  | .error reason => .error reason

/-- `file_sha256`: the digest of a file's bytes. -/
def fileSha256 (name : List UInt8) : Except String String :=
  match metadata root name with
  | .ok (.regular file) => .ok (hex (packaging.sha256 file.contents))
  | .ok (.other _ _ _) =>
    .error ("cannot hash " ++ packaging.display name ++ ": Is a directory (os error 21)")
  | .error reason => .error ("cannot read " ++ packaging.display name ++ ": " ++ reason)

/-- `describe_file`: the entry that a file has to have. -/
def describeFile (name : List UInt8) (profile : PackageProfile) : Except String PackageFile := do
  let relative ← relativeName name
  validateRelativePath packaging relative
  check (¬ isModelWeight relative) ("model weight is forbidden in packages: " ++ relative)
  let role ← classify relative profile
  let node ← (metadata root name).mapError fun reason =>
    "cannot inspect " ++ relative ++ ": " ++ reason
  let sha256 ← fileSha256 packaging root name
  pure ⟨relative, sha256, node.len, role⟩

/-! ## Creating and verifying -/

/-- `sort_by`, on the paths. -/
def sortFiles (files : List PackageFile) : List PackageFile :=
  files.mergeSort fun left right => left.path ≤ right.path

/-- `create`: the inventory of a directory. -/
def create (profile : PackageProfile) : Except String PackageManifest := do
  validateProfile profile
  let names ← payloadFiles packaging root
  let files ← names.mapM fun name => describeFile packaging root name profile
  let package : PackageManifest :=
    ⟨schemaVersion, sidecarVersion, profile.rustTarget, profile.tier, profile.advertisedBackend,
      profile.nativeBuildIdentity, modelPolicy, sortFiles files⟩
  validateShape package
  pure package

/-- Parses the inventory and checks it on its own. -/
def readManifest : Except String (List UInt8 × PackageManifest) := do
  let raw ← (readFile root (Text.toUtf8 manifestFile)).mapError fun reason =>
    "cannot read " ++ packaging.display (Text.toUtf8 manifestFile) ++ ": " ++ reason
  let package ← (packaging.fromSlice raw).mapError fun reason =>
    "invalid package manifest JSON: " ++ reason
  package.files.forM fun file => validateRelativePath packaging file.path
  validateManifestMetadata package
  validateShape package
  pure (raw, package)

/-- Holds one file against the inventory. -/
def verifyFile (profile : PackageProfile) (declared : PackageFile) : Except String Unit := do
  let observed ← describeFile packaging root (Text.toUtf8 declared.path) profile
  check (observed.role = declared.role) ("role mismatch for " ++ declared.path)
  check (observed.size = declared.size) ("size mismatch for " ++ declared.path)
  check (observed.sha256 = declared.sha256) ("checksum mismatch for " ++ declared.path)

/-- The two sets of names are the same. -/
def compareNames (actual declared : List String) : Except String Unit :=
  match (sortNames actual).find? fun path => path ∉ declared with
  | some path => .error ("undeclared file " ++ path)
  | none =>
    match declared.find? fun path => path ∉ actual with
    | some path => .error ("declared file is missing: " ++ path)
    | none => .ok ()

/-- `verify`: the inventory, if it is the directory's. -/
def verify : Except String PackageManifest := do
  let (_, package) ← readManifest packaging root
  let names ← payloadFiles packaging root
  let actual ← names.mapM relativeName
  compareNames actual (package.files.map PackageFile.path)
  package.files.forM (verifyFile packaging root package.profile)
  pure package

end

/-- Creates the inventory, installs it and verifies the result.  `persist` writes a temporary file
and renames it to the inventory's name, and says what the directory is like then. -/
def write (packaging : Packaging) (root : Directory)
    (persist : List UInt8 → Except String Directory) (profile : PackageProfile) :
    Except String PackageManifest := do
  let package ← create packaging root profile
  let root' ← persist (packaging.toVecPretty package ++ [Text.newline])
  verify packaging root'

end SemanticSidecar
