import SemanticSidecar.Lib.Fallible
import SemanticSidecar.Lib.PyJson.Value
import SemanticSidecar.Lib.Sha256
import SemanticSidecar.Lib.Splice
import SemanticSidecar.Lib.Text
import Mathlib.Logic.Function.Basic

/-!
# The patches to the vendored native sources

Before a release is built, some expressions in the vendored sources of `llama.cpp` are replaced that
would not compile to the same bytes every time.  `patch` reads the checksum manifest and all the
sources, and makes sure that each of them is what it was pinned as; then it writes them, and the
checksums they have now.

A `Tree` is what there is to be read below the crate, or the reason why it cannot be.  Files are
written without fail.

The script is in Python, so what it reads is what Python reads: text with universal newlines, JSON
with the floats and the surrogates of Python's own parser, and a dictionary whose order is forgotten
once it is written sorted.  `Lib/PyJson` has that part.  Digests are computed with SHA-256 itself,
as the identity of a patch has to be a known number of hexadecimal digits.

Errors are the texts of the exceptions that `patch` raises, and the two of them that come from
Python's decoders are left open in `Python`.
-/

set_option autoImplicit false

namespace SemanticSidecar

namespace NativePatch

open PyJson (Members Value getItem setItem ofString)

/-! ## What is replaced -/

/-- A path below the crate, by its parts. -/
abbrev SourcePath := List String

/-- `as_posix`: the parts with slashes between them. -/
def asPosix (path : SourcePath) : String := "/".intercalate path

/-- A byte literal. -/
def ascii (s : String) : List UInt8 := s.toList.map fun c => UInt8.ofNat c.toNat

/-- A replacement in `PATCHES`, with how often its original has to be there. -/
structure Replacement where
  /-- The bytes to be replaced. -/
  original : List UInt8
  /-- The bytes that replace them. -/
  replacement : List UInt8
  /-- How often the original is in the pinned source. -/
  expectedCount : ℕ

/-- `CRATE`: the name and the version of the crate that is patched. -/
def crate : String := "llama-cpp-sys-2-0.1.151"

/-- `SHADER_ROOT`: the directory of the shaders in the crate. -/
def shaderRoot : SourcePath := ["llama.cpp", "ggml", "src", "ggml-vulkan", "vulkan-shaders"]

/-- The replacement that two shaders share: an integer zero becomes one of a float. -/
def typedZero : Replacement where
  original := ascii "data_d[get_doffset() + dst_idx(idx)] = D_TYPE(0);"
  replacement := ascii "data_d[get_doffset() + dst_idx(idx)] = D_TYPE(0.0f);"
  expectedCount := 1

/-- `PATCHES`: for each source the replacements in it, in order. -/
def patches : List (SourcePath × List Replacement) :=
  [(["build.rs"],
      [⟨ascii "if !dst.exists() \x7b",
          ascii "if std::fs::symlink_metadata(&dst).is_err() \x7b", 3⟩]),
    (shaderRoot ++ ["topk_moe.comp"],
      [⟨ascii "const float INFINITY = 1.0 / 0.0;",
          ascii "#define NEGATIVE_INFINITY uintBitsToFloat(0xFF800000u)", 1⟩,
        ⟨ascii "-INFINITY", ascii "NEGATIVE_INFINITY", 6⟩]),
    (shaderRoot ++ ["copy_to_quant.comp"],
      [⟨ascii "float vmin = 1.0/0.0;", ascii "float vmin = uintBitsToFloat(0x7F800000);", 1⟩]),
    (shaderRoot ++ ["flash_attn_split_k_reduce.comp"],
      [⟨ascii "float m_max = -1.0/0.0;", ascii "float m_max = uintBitsToFloat(0xFF800000);", 1⟩]),
    (shaderRoot ++ ["diag.comp"], [typedZero]),
    (shaderRoot ++ ["tri.comp"], [typedZero])]

/-- The text that an identity has in front of its digest. -/
def patchIdentityPrefix : String := "llama-cpp-sys-2-0.1.151:vulkan-repro-v4"

/-! ## Reading -/

/-- Files below the crate, or why they cannot be read. -/
abbrev Tree := SourcePath → Except String (List UInt8)

/-- The manifest of the crate, with the checksums of its files. -/
def checksumPath : SourcePath := [".cargo-checksum.json"]

/-- What is left open of Python: its floats, and the texts of two errors. -/
structure Python (F : Type) where
  /-- How Python reads and prints floats. -/
  floats : PyJson.Floats F
  /-- The text of a `UnicodeDecodeError`. -/
  undecodable : List UInt8 → String
  /-- The text of a `JSONDecodeError`. -/
  invalidJson : List Char → String

/-- The checksums, and those of files among them. -/
structure Manifest (F : Type) where
  /-- The whole manifest. -/
  checksums : Members F
  /-- The entry `files` of it: the digest of each file by its path. -/
  files : Members F

/-- `hashlib.sha256(source).hexdigest()`. -/
def hexdigest (source : List UInt8) : String :=
  String.ofList ((Sha256.digest source).flatMap fun byte =>
    [Json.hexDigit (byte.toNat / 16), Json.hexDigit (byte.toNat % 16)])

/-- Lines end in one way. -/
def universalNewlines : List Char → List Char
  | [] => []
  | c :: rest =>
    if c = '\r' then
      if rest.head? = some '\n' then universalNewlines rest else '\n' :: universalNewlines rest
    else c :: universalNewlines rest

section

variable {F : Type} (python : Python F) (vendorRoot : String) (tree : Tree)

/-- A path, as messages have it. -/
def fullPath (path : SourcePath) : String := vendorRoot ++ "/" ++ crate ++ "/" ++ asPosix path

/-- `read_text(encoding="utf-8")`, of bytes that have been read. -/
def readText (bytes : List UInt8) : Except String (List Char) :=
  match Text.fromUtf8 bytes with
  | some text => .ok (universalNewlines text.toList)
  | none => .error (python.undecodable bytes)

/-- The manifest, if the value has the shape of one. -/
def manifestOf : Value F → Option (Manifest F)
  | .dict checksums =>
    match getItem checksums (ofString "files") with
    | some (.dict files) => some ⟨checksums, files⟩
    | _ => none
  | _ => none

/-- Reads the manifest and checks its shape. -/
def readManifest : Except String (Manifest F) :=
  let shown := fullPath vendorRoot checksumPath
  match tree checksumPath with
  | .error reason => .error ("cannot read vendored checksum manifest: " ++ shown ++ ": " ++ reason)
  | .ok bytes => do
    let text ← readText python bytes
    match PyJson.loads python.floats text with
    | none => .error ("invalid vendored checksum manifest: " ++ shown ++ ": " ++
        python.invalidJson text)
    | some checksums =>
      match manifestOf checksums with
      | some manifest => .ok manifest
      | none => .error ("invalid vendored checksum manifest: " ++ shown)

/-- The entry of a file in the manifest. -/
def sourceKey (path : SourcePath) : PyJson.Str := ofString (asPosix path)

/-- The digest of a source, as the manifest has it. -/
def digestValue (source : List UInt8) : Value F := .str (ofString (hexdigest source))

/-- Whether an entry is this digest. -/
def isRecorded (entry : Option (Value F)) (digest : String) : Bool :=
  match entry with
  | some (.str s) => s = ofString digest
  | _ => false

/-- Something is not as it was pinned, or is patched. -/
def isUnexpected (source : List UInt8) (r : Replacement) : Bool :=
  Splice.count r.original source ≠ r.expectedCount ∨ r.replacement <:+: source

/-- All replacements, one after the other. -/
def replaceAll (replacements : List Replacement) (source : List UInt8) : List UInt8 :=
  replacements.foldl (fun patched r => Splice.replace r.original r.replacement patched) source

/-- A source as it is to be, if it is what it was pinned as. -/
def patchSource (files : Members F) (path : SourcePath) (replacements : List Replacement) :
    Except String (List UInt8) :=
  let shown := fullPath vendorRoot path
  match tree path with
  | .error reason => .error ("cannot read pinned native shader source: " ++ shown ++ ": " ++ reason)
  | .ok source =>
    if replacements.any (isUnexpected source) then
      .error ("expected pinned unpatched native expressions in " ++ shown)
    else if !isRecorded (getItem files (sourceKey path)) (hexdigest source) then
      .error ("vendored checksum does not match " ++ shown)
    else .ok (replaceAll replacements source)

/-- The sources as they are to be. -/
def patchSources (files : Members F) : Except String (List (SourcePath × List UInt8)) :=
  patches.mapM fun entry =>
    (patchSource vendorRoot tree files entry.1 entry.2).map fun patched => (entry.1, patched)

/-! ## Writing -/

/-- In the order of the paths. -/
def sortSources (patched : List (SourcePath × List UInt8)) : List (SourcePath × List UInt8) :=
  patched.mergeSort fun a b => !decide (b.1 < a.1)

/-- The state of the loop, with what the identity is the digest of. -/
structure Writing (F : Type) where
  /-- The files so far. -/
  tree : Tree
  /-- The digests of files so far. -/
  files : Members F
  /-- The bytes that the identity is the digest of, so far. -/
  hashed : List UInt8

/-- One source is written, its digest is recorded, and both go into the identity. -/
def Writing.write (w : Writing F) (source : SourcePath × List UInt8) : Writing F where
  tree := Function.update w.tree source.1 (.ok source.2)
  files := setItem w.files (sourceKey source.1) (digestValue source.2)
  hashed := w.hashed ++ (Text.toUtf8 (asPosix source.1) ++ 0 :: source.2)

/-- What all the writing comes to, and the identity. -/
def writeSources (manifest : Manifest F) (patched : List (SourcePath × List UInt8)) :
    String × Tree :=
  let written := (sortSources patched).foldl Writing.write ⟨tree, manifest.files, []⟩
  let checksums := setItem manifest.checksums (ofString "files") (.dict written.files)
  let text := PyJson.dumps python.floats (.dict checksums)
  (patchIdentityPrefix ++ ":" ++ hexdigest written.hashed,
    Function.update written.tree checksumPath (.ok (Text.toUtf8 (String.ofList text))))

/-- All that is read, and all that may be wrong. -/
def prepare : Except String (Manifest F × List (SourcePath × List UInt8)) := do
  let manifest ← readManifest python vendorRoot tree
  let patched ← patchSources vendorRoot tree manifest.files
  return (manifest, patched)

/-- The identity, or the text of the `ValueError`, and the tree afterwards. -/
def patch : Except String String × Tree :=
  match prepare python vendorRoot tree with
  | .error message => (.error message, tree)
  | .ok prepared =>
    let written := writeSources python tree prepared.1 prepared.2
    (.ok written.1, written.2)

end

end NativePatch

end SemanticSidecar
