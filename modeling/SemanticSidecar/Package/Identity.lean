import SemanticSidecar.Package.Roles
import SemanticSidecar.Lib.Encoding
import SemanticSidecar.Lib.Sha256

/-!
# The identity of a package

A cached verdict is about the native modules of a package, and the package's identity is in its
key.  `packagedBackendIdentity` takes it from the inventory: its bytes, and size and time of the
native files that are in it.  The loader looks at the directory instead.

`identity_coversLoaded_iff` compares the two.  Where the inventory or one of those sizes or times is
another one, the identity is another one.  Where not, the loader may still find something else: a
module that is not in the inventory, one whose name has been a directory, or one whose time is
unknown or before 1970, which all count as 1970.

Bytes and directories are compared as far as SHA-256 tells them apart, `DigestsApart`, which is one
hypothesis for each pair of directories.  The result is an equivalence.  On one side, two
directories that load different things have different identities; on the other, the difference is
noticed by what is hashed, or does not concern a module that the identity does not cover.  Neither
side asks what the identities come to.

The two directories of the last part differ in a module that the inventory does not list.
-/

set_option autoImplicit false

namespace SemanticSidecar

open Fallible Encoding

/-! ## The two of them -/

/-- `DeclaredBackends::identity`. -/
def DeclaredBackends.identity (declared : DeclaredBackends) : String :=
  "metal=" ++ toString declared.metal ++ ";vulkan=" ++ toString declared.vulkan ++ ";cuda=" ++
    toString declared.cuda ++ ";rocm=" ++ toString declared.rocm ++ ";dynamic=" ++
    toString declared.dynamicBackends

/-- A directory, as the calls on its path show it. -/
structure PackageDir where
  /-- What is in the directory. -/
  root : Directory
  /-- What a listing of it comes to. -/
  listing : DirListing
  /-- `std::fs::metadata` of a path joined to it.  The path can be something else than a name. -/
  stat : String → Except String Node
  /-- What there is to be read of a file, up to an error. -/
  read : String → List UInt8
  /-- A listing that succeeds has the same entries. -/
  same : ∀ directory, listing = .entries directory → directory.Same root
  /-- A name leads to what its entry leads to. -/
  listed : ∀ entry ∈ root.entries, ∀ name node, Text.fromUtf8 entry.name = some name →
    entry.node = some node → stat name = .ok node

/-- The roles of native code. -/
def nativeRoles : List PackageFileRole := [.coreRuntime, .cpuBackend, .acceleratorBackend]

/-- The files of native code, which are those an identity is about. -/
def PackageManifest.nativeFiles (package : PackageManifest) : List PackageFile :=
  package.files.filter fun file => file.role ∈ nativeRoles

/-- Nanoseconds from the Unix epoch.  There are none before it. -/
def epochNanos : Option FileTime → ℕ
  | some time => time.nanos.toNat
  | none => 0

section

variable (packaging : Packaging) (dir : PackageDir)

/-- What is hashed of a native file. -/
def hashedFile (file : PackageFile) : Except String (List UInt8) := do
  let node ← (dir.stat file.path).mapError fun reason =>
    "cannot inspect " ++ packaging.display (Text.toUtf8 file.path) ++ ": " ++ reason
  pure (lengthPrefixed 8 (Text.toUtf8 file.path) ++ leBytes 8 node.len ++
    leBytes 16 (epochNanos node.modified))

/-- What is hashed of a package. -/
def runtimeBytes : Except String (List UInt8) := do
  let (raw, package) ← readManifest packaging dir.root
  let parts ← package.nativeFiles.mapM (hashedFile packaging dir)
  pure (raw ++ parts.flatten)

/-- `runtime_identity`: the digest of a package's inventory and of its native files' facts. -/
def runtimeIdentity : Except String String := do
  let bytes ← runtimeBytes packaging dir
  pure (hex (packaging.sha256 bytes))

end

/-- What is hashed for the identity of the package of an executable.  The inventory does for the
modules, and where there is none their names and contents do. -/
def identityBytes (packaging : Packaging) (windows : Bool) (declared : DeclaredBackends)
    (parent : Option PackageDir) : List UInt8 :=
  Text.toUtf8 declared.identity ++
    match parent with
    | none => []
    | some dir =>
      match runtimeIdentity packaging dir with
      | .ok identity => Text.toUtf8 identity
      | .error _ =>
        match packagedModulePathsForScope windows dir.listing declared true with
        | .ok paths => paths.flatMap fun path => Text.toUtf8 path ++ dir.read path
        | .error _ => []

/-- `packaged_backend_identity`: the digest that a cached selection is kept under. -/
def packagedBackendIdentity (packaging : Packaging) (windows : Bool) (declared : DeclaredBackends)
    (parent : Option PackageDir) : String :=
  hex (packaging.sha256 (identityBytes packaging windows declared parent))

/-! ## What is loaded -/

namespace PackageDir

variable (windows : Bool) (declared : DeclaredBackends) (dir : PackageDir)

/-- The modules that the loader is given. -/
def modules : List String :=
  match packagedModulePathsForScope windows dir.listing declared true with
  | .ok paths => paths
  | .error _ => []

/-- Size and time of a module. -/
def fact (name : String) : Option (ℕ × Option FileTime) :=
  if name ∈ dir.modules windows declared then
    (dir.stat name).toOption.map fun node => (node.len, node.modified)
  else none

/-- Names, sizes and times of the modules. -/
def loadable : Set (String × ℕ × Option FileTime) :=
  {m | dir.fact windows declared m.1 = some m.2}

/-- Size and time of a path, as they are hashed. -/
def hashed (path : String) : Except String (ℕ × ℕ) :=
  (dir.stat path).map fun node => (node.len, epochNanos node.modified)

end PackageDir

variable {packaging : Packaging} {windows : Bool} {declared : DeclaredBackends}
  {dir dir' : PackageDir} {raw raw' : List UInt8} {package package' : PackageManifest}

theorem stat_of_fact {name : String} {fact : ℕ × Option FileTime}
    (h : dir.fact windows declared name = some fact) :
    ∃ node, dir.stat name = .ok node ∧ fact = (node.len, node.modified) := by
  rw [PackageDir.fact] at h
  split at h
  · rcases hstat : dir.stat name with reason | node
    · rw [hstat] at h
      exact absurd h (by simp [Except.toOption])
    · rw [hstat] at h
      exact ⟨node, rfl, (Option.some.inj h).symm⟩
  · exact absurd h (by simp)

theorem loadable_eq_iff :
    dir.loadable windows declared = dir'.loadable windows declared ↔
      ∀ name, dir.fact windows declared name = dir'.fact windows declared name := by
  refine ⟨fun h name => Option.ext fun fact => ?_, fun h => Set.ext fun m => ?_⟩
  · exact Set.ext_iff.mp h (name, fact)
  · exact Eq.congr_left (h m.1)

/-! ## What the hashed bytes tell -/

theorem hashedFile_eq_ok {file : PackageFile} {part : List UInt8} :
    hashedFile packaging dir file = .ok part ↔ ∃ node, dir.stat file.path = .ok node ∧
      lengthPrefixed 8 (Text.toUtf8 file.path) ++ leBytes 8 node.len ++
        leBytes 16 (epochNanos node.modified) = part := by
  rw [hashedFile, bind_eq_ok]
  refine exists_congr fun node => ?_
  rw [mapError_eq_ok]
  exact and_congr_right fun _ => ⟨Except.ok.inj, congrArg _⟩

theorem runtimeBytes_eq_ok {bytes : List UInt8}
    (hread : readManifest packaging dir.root = .ok (raw, package)) :
    runtimeBytes packaging dir = .ok bytes ↔ ∃ parts,
      package.nativeFiles.mapM (hashedFile packaging dir) = .ok parts ∧ raw ++ parts.flatten = bytes := by
  rw [runtimeBytes, hread]
  change (package.nativeFiles.mapM (hashedFile packaging dir) >>= fun parts =>
    pure (raw ++ parts.flatten)) = .ok bytes ↔ _
  rw [bind_eq_ok]
  exact exists_congr fun _ => and_congr_right fun _ => ⟨Except.ok.inj, congrArg _⟩

theorem epochNanos_lt (modified : Option FileTime) : epochNanos modified < 256 ^ 16 := by
  rcases modified with _ | time
  · decide
  · have hbounded := time.bounded
    have hlimit : (256 : ℕ) ^ 16 = 2 ^ 128 := by norm_num
    rw [hlimit, epochNanos]
    omega

/-- How much is hashed of a native file does not depend on the file. -/
theorem hashedFile_length {file : PackageFile} {part : List UInt8}
    (h : hashedFile packaging dir file = .ok part) :
    part.length = (Text.toUtf8 file.path).length + 32 := by
  obtain ⟨node, -, rfl⟩ := hashedFile_eq_ok.mp h
  rw [List.length_append, List.length_append, lengthPrefixed, List.length_append, leBytes_length,
    leBytes_length, leBytes_length]
  omega

/-- What is hashed of a native file is its size and its time. -/
theorem hashedFile_inj {file : PackageFile} {part : List UInt8}
    (h : hashedFile packaging dir file = .ok part) (h' : hashedFile packaging dir' file = .ok part) :
    dir.hashed file.path = dir'.hashed file.path := by
  obtain ⟨node, hstat, hpart⟩ := hashedFile_eq_ok.mp h
  obtain ⟨node', hstat', hpart'⟩ := hashedFile_eq_ok.mp h'
  have hsame := hpart.trans hpart'.symm
  obtain ⟨hstart, htime⟩ := List.append_inj' hsame
    ((leBytes_length _ _).trans (leBytes_length _ _).symm)
  have hlength := List.append_cancel_left hstart
  have hlen : node.len = node'.len := leBytes_inj node.len_lt node'.len_lt hlength
  have hnanos := leBytes_inj (epochNanos_lt _) (epochNanos_lt _) htime
  rw [PackageDir.hashed, PackageDir.hashed, hstat, hstat', Except.map, Except.map, hlen, hnanos]

/-- A parser that takes no more than one document. -/
def ParsesWhole (packaging : Packaging) : Prop :=
  ∀ raw rest package package', packaging.fromSlice raw = .ok package →
    packaging.fromSlice (raw ++ rest) = .ok package' → package' = package

/-- How much is hashed of the native files does not depend on the files. -/
theorem flatten_length {parts : List (List UInt8)}
    (h : package.nativeFiles.mapM (hashedFile packaging dir) = .ok parts) :
    parts.flatten.length =
      (package.nativeFiles.map fun file => (Text.toUtf8 file.path).length + 32).sum := by
  rw [List.length_flatten, map_eq_of_mapM h fun _ _ hpart => hashedFile_length hpart]

/-- An inventory does not go on in what is hashed of the files. -/
theorem rest_eq_nil (hparser : ParsesWhole packaging) {rest : List UInt8}
    (hparse : packaging.fromSlice raw = .ok package)
    (hparse' : packaging.fromSlice (raw ++ rest) = .ok package') {parts parts' : List (List UInt8)}
    (hparts : package.nativeFiles.mapM (hashedFile packaging dir) = .ok parts)
    (hparts' : package'.nativeFiles.mapM (hashedFile packaging dir') = .ok parts')
    (h : parts.flatten = rest ++ parts'.flatten) : rest = [] := by
  obtain rfl := hparser raw rest package package' hparse hparse'
  have hlength := congrArg List.length h
  rw [List.length_append, flatten_length hparts, flatten_length hparts'] at hlength
  exact List.eq_nil_of_length_eq_zero (by omega)

/-- The same bytes are of the same inventory, and of the same sizes and times. -/
theorem hashed_of_bytes (hparser : ParsesWhole packaging)
    (hread : readManifest packaging dir.root = .ok (raw, package))
    (hread' : readManifest packaging dir'.root = .ok (raw', package')) {bytes : List UInt8}
    (hbytes : runtimeBytes packaging dir = .ok bytes)
    (hbytes' : runtimeBytes packaging dir' = .ok bytes) :
    raw = raw' ∧ ∀ file ∈ package.nativeFiles, dir.hashed file.path = dir'.hashed file.path := by
  obtain ⟨parts, hparts, hsplit⟩ := (runtimeBytes_eq_ok hread).mp hbytes
  obtain ⟨parts', hparts', hsplit'⟩ := (runtimeBytes_eq_ok hread').mp hbytes'
  have hparse := (readManifest_eq_ok.mp hread).2.1
  have hparse' := (readManifest_eq_ok.mp hread').2.1
  have hraw : raw = raw' := by
    rcases List.append_eq_append_iff.mp (hsplit.trans hsplit'.symm) with
      ⟨rest, rfl, hrest⟩ | ⟨rest, rfl, hrest⟩
    · rw [rest_eq_nil hparser hparse hparse' hparts hparts' hrest, List.append_nil]
    · rw [rest_eq_nil hparser hparse' hparse hparts' hparts hrest, List.append_nil]
  subst hraw
  obtain rfl := Except.ok.inj (hparse.symm.trans hparse')
  have hflatten := List.append_cancel_left (hsplit.trans hsplit'.symm)
  have hlengths := (map_eq_of_mapM hparts fun _ _ hpart => hashedFile_length hpart).trans
    (map_eq_of_mapM hparts' fun _ _ hpart => hashedFile_length hpart).symm
  obtain rfl : parts = parts' := List.eq_iff_flatten_eq.mpr ⟨hflatten, hlengths⟩
  refine ⟨rfl, fun file hfile => ?_⟩
  obtain ⟨part, -, hpart⟩ := ok_of_mapM hparts hfile
  exact hashedFile_inj hpart ((eq_of_mapM hparts hparts' hfile).symm.trans hpart)

/-- The same inventory, of the same sizes and times, has the same bytes. -/
theorem bytes_of_hashed (hread : readManifest packaging dir.root = .ok (raw, package))
    (hread' : readManifest packaging dir'.root = .ok (raw, package')) {bytes bytes' : List UInt8}
    (hbytes : runtimeBytes packaging dir = .ok bytes)
    (hbytes' : runtimeBytes packaging dir' = .ok bytes')
    (h : ∀ file ∈ package.nativeFiles, dir.hashed file.path = dir'.hashed file.path) :
    bytes = bytes' := by
  obtain rfl := Except.ok.inj
    ((readManifest_eq_ok.mp hread).2.1.symm.trans (readManifest_eq_ok.mp hread').2.1)
  obtain ⟨parts, hparts, rfl⟩ := (runtimeBytes_eq_ok hread).mp hbytes
  obtain ⟨parts', hparts', rfl⟩ := (runtimeBytes_eq_ok hread').mp hbytes'
  have hsame : package.nativeFiles.mapM (hashedFile packaging dir) =
      package.nativeFiles.mapM (hashedFile packaging dir') := by
    refine mapM_congr fun file hfile => ?_
    obtain ⟨part, -, hpart⟩ := ok_of_mapM hparts hfile
    obtain ⟨part', -, hpart'⟩ := ok_of_mapM hparts' hfile
    obtain ⟨node, hstat, hnode⟩ := hashedFile_eq_ok.mp hpart
    obtain ⟨node', hstat', hnode'⟩ := hashedFile_eq_ok.mp hpart'
    have hfacts := h file hfile
    rw [PackageDir.hashed, PackageDir.hashed, hstat, hstat'] at hfacts
    obtain ⟨hlen, hnanos⟩ := Prod.mk.inj (Except.ok.inj hfacts)
    rw [hpart, hpart', ← hnode, ← hnode', hlen, hnanos]
  rw [Except.ok.inj (hparts.symm.trans (hsame.trans hparts'))]

/-! ## The identity -/

theorem runtimeIdentity_eq_ok {identity : String} :
    runtimeIdentity packaging dir = .ok identity ↔
      ∃ bytes, runtimeBytes packaging dir = .ok bytes ∧ hex (packaging.sha256 bytes) = identity := by
  rw [runtimeIdentity, bind_eq_ok]
  exact exists_congr fun _ => and_congr_right fun _ => ⟨Except.ok.inj, congrArg _⟩

theorem identityBytes_ok {bytes : List UInt8} (h : runtimeBytes packaging dir = .ok bytes) :
    identityBytes packaging windows declared (some dir) =
      Text.toUtf8 declared.identity ++ Text.toUtf8 (hex (packaging.sha256 bytes)) := by
  rw [identityBytes, runtimeIdentity_eq_ok.mpr ⟨bytes, h, rfl⟩]

variable (packaging windows declared dir dir')

/-- SHA-256 does not fail on what is hashed for the two packages. -/
def DigestsApart : Prop :=
  (∀ bytes bytes', runtimeBytes packaging dir = .ok bytes →
    runtimeBytes packaging dir' = .ok bytes' →
    packaging.sha256 bytes = packaging.sha256 bytes' → bytes = bytes') ∧
  (packaging.sha256 (identityBytes packaging windows declared (some dir)) =
      packaging.sha256 (identityBytes packaging windows declared (some dir')) →
    identityBytes packaging windows declared (some dir) =
      identityBytes packaging windows declared (some dir'))

/-- If other modules are loaded, the identity is another one. -/
def CoversLoaded : Prop :=
  dir.loadable windows declared ≠ dir'.loadable windows declared →
    DigestsApart packaging windows declared dir dir' →
    packagedBackendIdentity packaging windows declared (some dir) ≠
      packagedBackendIdentity packaging windows declared (some dir')

/-- A module that the identity covers: a native file of the inventory that is in both directories,
with a time from 1970 on. -/
structure IsCovered (package : PackageManifest) (name : String) : Prop where
  /-- It is a native file of the inventory. -/
  native : ∃ file ∈ package.nativeFiles, file.path = name
  /-- In one directory it has a time from 1970 on. -/
  dated : ∃ len time, dir.fact windows declared name = some (len, some time) ∧ 0 ≤ time.nanos
  /-- In the other directory it has, too. -/
  dated' : ∃ len time, dir'.fact windows declared name = some (len, some time) ∧ 0 ≤ time.nanos

/-- The inventory is another one, or size or time of a native file in it, as they are hashed. -/
def IsNoticed (raw raw' : List UInt8) (package : PackageManifest) : Prop :=
  raw ≠ raw' ∨ ∃ file ∈ package.nativeFiles, dir.hashed file.path ≠ dir'.hashed file.path

/-- The modules that the identity does not cover are the same. -/
def SameElsewhere (package : PackageManifest) : Prop :=
  ∀ name, ¬ IsCovered windows declared dir dir' package name →
    dir.fact windows declared name = dir'.fact windows declared name

variable {packaging windows declared dir dir'}

/-- A difference that is noticed makes another identity. -/
theorem identity_ne_of_noticed (hparser : ParsesWhole packaging)
    (hread : readManifest packaging dir.root = .ok (raw, package))
    (hread' : readManifest packaging dir'.root = .ok (raw', package')) {bytes bytes' : List UInt8}
    (hbytes : runtimeBytes packaging dir = .ok bytes)
    (hbytes' : runtimeBytes packaging dir' = .ok bytes')
    (hnoticed : IsNoticed dir dir' raw raw' package)
    (hapart : DigestsApart packaging windows declared dir dir') :
    packagedBackendIdentity packaging windows declared (some dir) ≠
      packagedBackendIdentity packaging windows declared (some dir') := by
  intro hidentity
  have houter := hapart.2 (hex_injective hidentity)
  rw [identityBytes_ok hbytes, identityBytes_ok hbytes', List.append_cancel_left_eq] at houter
  have hinner := hapart.1 bytes bytes' hbytes hbytes' (hex_injective (Text.toUtf8_inj houter))
  subst hinner
  obtain ⟨hraw, hhashed⟩ := hashed_of_bytes hparser hread hread' hbytes hbytes'
  rcases hnoticed with hne | ⟨file, hfile, hne⟩
  · exact hne hraw
  · exact hne (hhashed file hfile)

/-- What is not noticed is a difference elsewhere. -/
theorem fact_eq_of_hashed
    (hhashed : ∀ file ∈ package.nativeFiles, dir.hashed file.path = dir'.hashed file.path)
    {name : String} (hcovered : IsCovered windows declared dir dir' package name) :
    dir.fact windows declared name = dir'.fact windows declared name := by
  obtain ⟨file, hfile, rfl⟩ := hcovered.native
  obtain ⟨len, time, hfact, hdated⟩ := hcovered.dated
  obtain ⟨len', time', hfact', hdated'⟩ := hcovered.dated'
  obtain ⟨node, hstat, hnode⟩ := stat_of_fact hfact
  obtain ⟨node', hstat', hnode'⟩ := stat_of_fact hfact'
  obtain ⟨rfl, hmodified⟩ := Prod.mk.inj hnode
  obtain ⟨rfl, hmodified'⟩ := Prod.mk.inj hnode'
  have hsame := hhashed file hfile
  rw [PackageDir.hashed, PackageDir.hashed, hstat, hstat'] at hsame
  obtain ⟨hlen, hnanos⟩ := Prod.mk.inj (Except.ok.inj hsame)
  rw [← hmodified, ← hmodified'] at hnanos
  have htime : time = time' := by
    have hnat : time.nanos.toNat = time'.nanos.toNat := hnanos
    have hint : time.nanos = time'.nanos := by omega
    obtain ⟨nanos, hbounded⟩ := time
    obtain ⟨nanos', hbounded'⟩ := time'
    obtain rfl : nanos = nanos' := hint
    rfl
  rw [hfact, hfact', hlen, htime]

/-- Without a difference that is noticed, the identity is the same. -/
theorem identity_eq_of_not_noticed
    (hread : readManifest packaging dir.root = .ok (raw, package))
    (hread' : readManifest packaging dir'.root = .ok (raw', package')) {bytes bytes' : List UInt8}
    (hbytes : runtimeBytes packaging dir = .ok bytes)
    (hbytes' : runtimeBytes packaging dir' = .ok bytes')
    (hnoticed : ¬ IsNoticed dir dir' raw raw' package) :
    packagedBackendIdentity packaging windows declared (some dir) =
        packagedBackendIdentity packaging windows declared (some dir') ∧
      DigestsApart packaging windows declared dir dir' := by
  obtain ⟨hraw, hhashed⟩ := not_or.mp hnoticed
  obtain rfl := not_not.mp hraw
  have hsame : ∀ file ∈ package.nativeFiles, dir.hashed file.path = dir'.hashed file.path :=
    fun file hfile => not_not.mp fun hne => hhashed ⟨file, hfile, hne⟩
  obtain rfl := bytes_of_hashed hread hread' hbytes hbytes' hsame
  have houter : identityBytes packaging windows declared (some dir) =
      identityBytes packaging windows declared (some dir') :=
    (identityBytes_ok hbytes).trans (identityBytes_ok hbytes').symm
  refine ⟨congrArg (fun bytes => hex (packaging.sha256 bytes)) houter, ?_, fun _ => houter⟩
  intro bytes₁ bytes₂ hbytes₁ hbytes₂ _
  exact Except.ok.inj ((hbytes₁.symm.trans hbytes).trans (hbytes'.symm.trans hbytes₂))

/-- **When the identity covers what is loaded**: if the difference is noticed, or what is not covered
is the same. -/
theorem identity_coversLoaded_iff (hparser : ParsesWhole packaging)
    (hread : readManifest packaging dir.root = .ok (raw, package))
    (hread' : readManifest packaging dir'.root = .ok (raw', package'))
    {identity identity' : String} (hidentity : runtimeIdentity packaging dir = .ok identity)
    (hidentity' : runtimeIdentity packaging dir' = .ok identity') :
    CoversLoaded packaging windows declared dir dir' ↔
      IsNoticed dir dir' raw raw' package ∨ SameElsewhere windows declared dir dir' package := by
  obtain ⟨bytes, hbytes, -⟩ := runtimeIdentity_eq_ok.mp hidentity
  obtain ⟨bytes', hbytes', -⟩ := runtimeIdentity_eq_ok.mp hidentity'
  by_cases hnoticed : IsNoticed dir dir' raw raw' package
  · exact iff_of_true (fun _ => identity_ne_of_noticed hparser hread hread' hbytes hbytes' hnoticed)
      (Or.inl hnoticed)
  obtain ⟨hsame, hapart⟩ : packagedBackendIdentity packaging windows declared (some dir) =
        packagedBackendIdentity packaging windows declared (some dir') ∧
      DigestsApart packaging windows declared dir dir' :=
    identity_eq_of_not_noticed hread hread' hbytes hbytes' hnoticed
  rw [or_iff_right hnoticed, CoversLoaded]
  refine ⟨fun hcovers name _ => ?_, fun helsewhere hloadable => ?_⟩
  · by_contra hfact
    exact hcovers (fun hloadable => hfact (loadable_eq_iff.mp hloadable name)) hapart hsame
  · refine absurd (loadable_eq_iff.mpr fun name => ?_) hloadable
    by_cases hcovered : IsCovered windows declared dir dir' package name
    · exact fact_eq_of_hashed (fun file hfile => not_not.mp fun hne =>
        hnoticed (Or.inr ⟨file, hfile, hne⟩)) hcovered
    · exact helsewhere name hcovered

/-! ## Two Vulkan packages -/

/-- A directory of regular files. -/
def fileTree (names : List String) (hnodup : names.Nodup) (file : String → RegularFile) :
    Directory where
  entries := names.map fun name => ⟨Text.toUtf8 name, false, some (.regular (file name))⟩
  nodup := by
    have hnames := hnodup.map fun _ _ h => Text.toUtf8_inj h
    rw [List.map_map]
    exact hnames

/-- A directory that is looked at by name only. -/
def plainDir (root : Directory) : PackageDir where
  root := root
  listing := .entries root
  stat path := metadata root (Text.toUtf8 path)
  read path := (readFile root (Text.toUtf8 path)).toOption.getD []
  same directory h := DirListing.entries.inj h ▸ List.Perm.refl _
  listed entry hentry name node htext hnode := by
    rw [metadata, Directory.find_eq_some.mpr ⟨hentry, (Text.toUtf8_of_fromUtf8 htext).symm⟩,
      Option.bind_some, hnode]

section

variable {names : List String} {hnodup : names.Nodup} {file : String → RegularFile}

theorem metadata_fileTree {name : String} (h : name ∈ names) :
    metadata (fileTree names hnodup file) (Text.toUtf8 name) = .ok (.regular (file name)) := by
  have hfind : (fileTree names hnodup file).find (Text.toUtf8 name) =
      some ⟨Text.toUtf8 name, false, some (.regular (file name))⟩ :=
    Directory.find_eq_some.mpr ⟨List.mem_map.mpr ⟨name, h, rfl⟩, rfl⟩
  rw [metadata, hfind]
  rfl

theorem mem_fileNames_fileTree {name : String} :
    name ∈ (fileTree names hnodup file).fileNames ↔ name ∈ names := by
  rw [Directory.fileNames, List.mem_filterMap]
  refine ⟨?_, fun h => ⟨⟨Text.toUtf8 name, false, some (.regular (file name))⟩,
    List.mem_filter.mpr ⟨List.mem_map.mpr ⟨name, h, rfl⟩, rfl⟩, Text.fromUtf8_toUtf8 name⟩⟩
  rintro ⟨entry, hentry, htext⟩
  obtain ⟨other, hother, rfl⟩ := List.mem_map.mp (List.mem_filter.mp hentry).1
  rw [← Text.toUtf8_inj (Text.toUtf8_of_fromUtf8 htext)] at hother
  exact hother

theorem fact_fileTree {name : String} :
    (plainDir (fileTree names hnodup file)).fact windows declared name =
      if name ∈ names ∧ isPackagedModule windows (declaredNames windows declared true) name = true
      then some ((file name).contents.length, (file name).modified) else none := by
  have hmem : name ∈ (plainDir (fileTree names hnodup file)).modules windows declared ↔
      name ∈ names ∧ isPackagedModule windows (declaredNames windows declared true) name = true := by
    rw [← @mem_fileNames_fileTree names hnodup file]
    exact (sortNames_perm _).mem_iff.trans List.mem_filter
  rw [PackageDir.fact]
  by_cases h : name ∈ names ∧
      isPackagedModule windows (declaredNames windows declared true) name = true
  · have hstat : (plainDir (fileTree names hnodup file)).stat name = .ok (.regular (file name)) :=
      metadata_fileTree h.1
    rw [if_pos (hmem.mpr h), if_pos h, hstat]
    rfl
  · rw [if_neg (mt hmem.mp h), if_neg h]

end

/-- The packager, with SHA-256. -/
def shaPackaging : Packaging := { plainPackaging plainVulkan with sha256 := Sha256.digest }

theorem shaPackaging_fromSlice (bytes : List UInt8) :
    shaPackaging.fromSlice bytes =
      if bytes = plainJson plainVulkan ++ [Text.newline] then .ok plainVulkan
      else .error "expected value at line 1 column 1" :=
  rfl

theorem shaPackaging_parsesWhole : ParsesWhole shaPackaging := by
  intro raw rest package package' hparse hparse'
  have hone : ∀ bytes package, shaPackaging.fromSlice bytes = .ok package → package = plainVulkan := by
    intro bytes package h
    rw [shaPackaging_fromSlice] at h
    split at h
    · exact (Except.ok.inj h).symm
    · exact absurd h nofun
  rw [hone raw package hparse, hone (raw ++ rest) package' hparse']

/-- Everything that belongs to a Vulkan package, and perhaps more. -/
def vulkanNames (others : List String) : List String :=
  manifestFile :: (plainVulkan.files.map PackageFile.path ++ others)

/-- The files of a Vulkan package: the inventory, and the others as given. -/
def vulkanFile (file : String → RegularFile) (name : String) : RegularFile :=
  if name = manifestFile then inventory plainVulkan plainVulkan_bounded else file name

/-- A Vulkan package, with these files and perhaps others beside it. -/
def vulkanDir (others : List String) (hnodup : (vulkanNames others).Nodup)
    (file : String → RegularFile) : PackageDir :=
  plainDir (fileTree (vulkanNames others) hnodup (vulkanFile file))

section

variable {others : List String} {hnodup : (vulkanNames others).Nodup}
  {file : String → RegularFile}

theorem readManifest_vulkanDir :
    readManifest shaPackaging (vulkanDir others hnodup file).root =
      .ok (plainJson plainVulkan ++ [Text.newline], plainVulkan) := by
  have hraw : readFile (vulkanDir others hnodup file).root (Text.toUtf8 manifestFile) =
      .ok (plainJson plainVulkan ++ [Text.newline]) := by
    have hmetadata : metadata (fileTree (vulkanNames others) hnodup (vulkanFile file))
        (Text.toUtf8 manifestFile) = .ok (.regular (vulkanFile file manifestFile)) :=
      metadata_fileTree List.mem_cons_self
    change readFile (fileTree (vulkanNames others) hnodup (vulkanFile file)) _ = _
    rw [readFile, hmetadata, vulkanFile, if_pos rfl]
    rfl
  exact readManifest_eq_ok.mpr ⟨hraw, (shaPackaging_fromSlice _).trans (if_pos rfl), fun file hfile =>
    check_eq_ok.mpr (plainVulkan_plain file hfile).2.2.1, plainVulkan_metadata, rfl⟩

theorem stat_vulkanDir {described : PackageFile} (h : described ∈ plainVulkan.files) :
    (vulkanDir others hnodup file).stat described.path = .ok (.regular (file described.path)) := by
  have hmem : described.path ∈ vulkanNames others :=
    List.mem_cons_of_mem _ (List.mem_append_left _ (List.mem_map_of_mem h))
  refine (metadata_fileTree hmem).trans ?_
  rw [vulkanFile, if_neg (plainVulkan_plain described h).2.1]

theorem runtimeIdentity_vulkanDir :
    ∃ identity, runtimeIdentity shaPackaging (vulkanDir others hnodup file) = .ok identity := by
  obtain ⟨parts, hparts⟩ : ∃ parts, plainVulkan.nativeFiles.mapM
      (hashedFile shaPackaging (vulkanDir others hnodup file)) = .ok parts :=
    mapM_isOk fun described hdescribed =>
      ⟨_, hashedFile_eq_ok.mpr ⟨_, stat_vulkanDir (List.mem_filter.mp hdescribed).1, rfl⟩⟩
  exact ⟨_, runtimeIdentity_eq_ok.mpr ⟨_, (runtimeBytes_eq_ok readManifest_vulkanDir).mpr
    ⟨parts, hparts, rfl⟩, rfl⟩⟩

end

theorem length_singleton_lt : [(0 : UInt8)].length < 2 ^ 64 := by decide

/-- A file of no bytes, without a time. -/
def noBytes : RegularFile := ⟨[], none, Nat.two_pow_pos 64⟩

/-- A file of one byte, without a time. -/
def oneByte : RegularFile := ⟨[0], none, length_singleton_lt⟩

theorem nodup_vulkanNames : (vulkanNames []).Nodup := by decide +kernel

theorem nodup_vulkanNames_extra : (vulkanNames ["libggml-cpu-extra.so"]).Nodup := by
  decide +kernel

/-- The package as it comes. -/
def emptyVulkan : PackageDir := vulkanDir [] nodup_vulkanNames fun _ => noBytes

/-- The package with an accelerator module that has grown. -/
def grownVulkan : PackageDir :=
  vulkanDir [] nodup_vulkanNames fun name =>
    if name = "libggml-vulkan.so" then oneByte else noBytes

/-- The package, and one more CPU module beside it. -/
def extraVulkan : PackageDir :=
  vulkanDir ["libggml-cpu-extra.so"] nodup_vulkanNames_extra fun _ => noBytes

/-- A module that has grown is noticed. -/
theorem identity_coversLoaded_iff_grown :
    CoversLoaded shaPackaging false ⟨false, true, false, false, true⟩ emptyVulkan grownVulkan := by
  obtain ⟨identity, hidentity⟩ : ∃ identity,
      runtimeIdentity shaPackaging emptyVulkan = .ok identity := runtimeIdentity_vulkanDir
  obtain ⟨identity', hidentity'⟩ : ∃ identity,
      runtimeIdentity shaPackaging grownVulkan = .ok identity := runtimeIdentity_vulkanDir
  have hread : readManifest shaPackaging emptyVulkan.root =
      .ok (plainJson plainVulkan ++ [Text.newline], plainVulkan) := readManifest_vulkanDir
  have hread' : readManifest shaPackaging grownVulkan.root =
      .ok (plainJson plainVulkan ++ [Text.newline], plainVulkan) := readManifest_vulkanDir
  refine (identity_coversLoaded_iff shaPackaging_parsesWhole hread hread' hidentity hidentity').mpr
    (Or.inl (Or.inr ⟨emptyPackageFile "libggml-vulkan.so" .acceleratorBackend, by decide, ?_⟩))
  rw [PackageDir.hashed, PackageDir.hashed, emptyVulkan, grownVulkan, stat_vulkanDir (by decide),
    stat_vulkanDir (by decide)]
  exact fun h => absurd (Except.ok.inj h) (by decide)

/-- A module that is not in the inventory is not noticed. -/
theorem extra_not_covered :
    ¬ CoversLoaded shaPackaging false ⟨false, true, false, false, true⟩ emptyVulkan extraVulkan := by
  obtain ⟨identity, hidentity⟩ : ∃ identity,
      runtimeIdentity shaPackaging emptyVulkan = .ok identity := runtimeIdentity_vulkanDir
  obtain ⟨identity', hidentity'⟩ : ∃ identity,
      runtimeIdentity shaPackaging extraVulkan = .ok identity := runtimeIdentity_vulkanDir
  obtain ⟨bytes, hbytes, -⟩ := runtimeIdentity_eq_ok.mp hidentity
  obtain ⟨bytes', hbytes', -⟩ := runtimeIdentity_eq_ok.mp hidentity'
  have hread : readManifest shaPackaging emptyVulkan.root =
      .ok (plainJson plainVulkan ++ [Text.newline], plainVulkan) := readManifest_vulkanDir
  have hread' : readManifest shaPackaging extraVulkan.root =
      .ok (plainJson plainVulkan ++ [Text.newline], plainVulkan) := readManifest_vulkanDir
  have hnoticed : ¬ IsNoticed emptyVulkan extraVulkan (plainJson plainVulkan ++ [Text.newline])
      (plainJson plainVulkan ++ [Text.newline]) plainVulkan := by
    rintro (hraw | ⟨file, hfile, hhashed⟩)
    · exact hraw rfl
    · refine hhashed ?_
      have hmem := (List.mem_filter.mp hfile).1
      rw [PackageDir.hashed, PackageDir.hashed, emptyVulkan, extraVulkan, stat_vulkanDir hmem,
        stat_vulkanDir hmem]
  obtain ⟨hsame, hapart⟩ := identity_eq_of_not_noticed hread hread' hbytes hbytes' hnoticed
  refine fun hcovers => hcovers (fun hloadable => ?_) hapart hsame
  have hfact := loadable_eq_iff.mp hloadable "libggml-cpu-extra.so"
  rw [emptyVulkan, extraVulkan, vulkanDir, vulkanDir, fact_fileTree, fact_fileTree,
    if_neg (by decide), if_pos (by decide)] at hfact
  cases hfact

end SemanticSidecar
