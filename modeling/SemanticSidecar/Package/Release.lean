import SemanticSidecar.BuildSupport
import SemanticSidecar.Lib.Encoding
import SemanticSidecar.Native.Patch
import SemanticSidecar.Package.Roles
import Mathlib.Data.List.Basic

/-!
# The identity of a release

Three programs have to agree on one text.  The patch of the vendored sources ends with an identity
of what it has done; the build takes it from the environment and puts it, with the target, the
features and the flags of the compiler, into the identity of the build; and the packager, which
finds that text in an inventory, will not release a package whose sources were not patched.

`nativeBuildIdentity` is the text and `verifyPatched` the check.  `verifyPatched_release` says that
a package passes it exactly when the identity in the environment is one that a patch ends with, up
to a semicolon: whatever `patch` returns is accepted, and a build outside of it never is.
`nativeBuildIdentity_eq_iff` says that the text tells builds apart: two of them have the same one
exactly when all that goes into it is the same, but for flags that remap paths.
-/

set_option autoImplicit false

namespace SemanticSidecar

open BuildSupport (encode keepFlags identityRustflags Words)

open Encoding (append_sep_inj append_lastSep_inj)

open Fallible (check_eq_ok then_eq_ok)

/-! ## The build -/

/-- What `build.rs` finds in its environment. -/
structure BuildEnv where
  /-- `TARGET`. -/
  target : Option String
  /-- `CARGO_CFG_TARGET_FEATURE`. -/
  targetFeature : Option String
  /-- `JULIE_NATIVE_PATCH_IDENTITY`. -/
  nativePatchIdentity : Option String
  /-- `CARGO_ENCODED_RUSTFLAGS`. -/
  encodedRustflags : Option String
  /-- Whether a variable is set. -/
  isSet : String → Bool

namespace BuildEnv

/-- The features of the crate that go into the identity. -/
def featureNames : List String := ["metal", "vulkan", "cuda", "rocm", "dynamic-backends"]

/-- The variable that Cargo sets for a feature. -/
def envName (feature : String) : String :=
  "CARGO_FEATURE_" ++ String.ofList
    (feature.toList.map fun c => (if c = '-' then '_' else c).toUpper)

variable (env : BuildEnv)

/-- The target, or what stands for it where it is not set. -/
def targetText : String := env.target.getD "unknown-target"

/-- The features of the target, none where they are not set. -/
def targetFeatures : String := env.targetFeature.getD ""

/-- The identity of the patch, or what stands for it where it is not set. -/
def patchIdentity : String := env.nativePatchIdentity.getD "none"

/-- The flags of the compiler that belong to the identity. -/
def rustflags : String := identityRustflags (env.encodedRustflags.getD "")

/-- The features of the package that are on, in the order of their names here. -/
def enabledFeatures : List String := featureNames.filter fun feature => env.isSet (envName feature)

/-- Those features in one text. -/
def packageFeatures : String := ",".intercalate env.enabledFeatures

/-- `JULIE_NATIVE_BUILD_IDENTITY`. -/
def nativeBuildIdentity : String :=
  "target=" ++ env.targetText ++ ";target_features=" ++ env.targetFeatures ++
    ";package_features=" ++ env.packageFeatures ++ ";native_patch=" ++ env.patchIdentity ++
    ";rustflags=" ++ env.rustflags

end BuildEnv

/-! ## The check -/

/-- `NATIVE_PATCH_IDENTITY_PREFIX`. -/
def nativePatchIdentityPrefix : String :=
  "native_patch=llama-cpp-sys-2-0.1.151:vulkan-repro-v4:"

/-- A digit, or a letter from `a` to `f`. -/
def isLowerHex (byte : UInt8) : Bool :=
  (0x30 ≤ byte.toNat && byte.toNat ≤ 0x39) || (0x61 ≤ byte.toNat && byte.toNat ≤ 0x66)

/-- The digest that a patch identity ends with. -/
def isPatchDigest (digest : List Char) : Bool :=
  (Text.toUtf8 (String.ofList digest)).length == 64 &&
    (Text.toUtf8 (String.ofList digest)).all isLowerHex

/-- What is wrong with the patch in a build identity, if anything. -/
def patchError (nativeBuildIdentity : String) : Option String :=
  match (nativeBuildIdentity.toList.splitOn ';').find? fun value =>
      "native_patch=".toList.isPrefixOf value with
  | none => some "package native patch identity is missing"
  | some patchIdentity =>
    match stripPrefix nativePatchIdentityPrefix.toList patchIdentity with
    | none => some "package native patch identity is invalid"
    | some digest =>
      if isPatchDigest digest then none else some "package native patch identity is invalid"

/-- `verify_patched`: the inventory, if it is the directory's and of a patched build. -/
def verifyPatched (packaging : Packaging) (root : Directory) : Except String PackageManifest := do
  let package ← verify packaging root
  match patchError package.nativeBuildIdentity with
  | some message => .error message
  | none => pure package

/-! ## Texts in one text -/

section

variable {α : Type} [DecidableEq α] {sep : α}

/-- Words that are joined can be told apart if they are not empty and have no separator in them. -/
theorem intercalate_inj {words words' : List (List α)} (h : ∀ word ∈ words, word ≠ [] ∧ sep ∉ word)
    (h' : ∀ word ∈ words', word ≠ [] ∧ sep ∉ word)
    (heq : List.intercalate [sep] words = List.intercalate [sep] words') : words = words' := by
  have hsplit : ∀ {words : List (List α)}, (∀ word ∈ words, word ≠ [] ∧ sep ∉ word) → words ≠ [] →
      (List.intercalate [sep] words).splitOn sep = words :=
    fun h hne => List.splitOn_intercalate sep (fun word hword => (h word hword).2) hne
  have hnot : ∀ {words : List (List α)}, (∀ word ∈ words, word ≠ [] ∧ sep ∉ word) →
      words ≠ [[]] := by
    rintro _ h rfl
    exact (h [] List.mem_cons_self).1 rfl
  have hnil : (List.intercalate [sep] []).splitOn sep = [[]] := List.splitOn_nil sep
  rcases eq_or_ne words [] with rfl | hne
  · rcases eq_or_ne words' [] with rfl | hne'
    · rfl
    · rw [heq, hsplit h' hne'] at hnil
      exact absurd hnil (hnot h')
  · rcases eq_or_ne words' [] with rfl | hne'
    · rw [← heq, hsplit h hne] at hnil
      exact absurd hnil (hnot h)
    · rw [← hsplit h hne, heq, hsplit h' hne']

/-- The first of several texts ends at the first separator, though that may be its own. -/
theorem splitOn_head (text rest : List α) : ∃ others,
    (text ++ sep :: rest).splitOn sep = text.takeWhile (· ≠ sep) :: others := by
  induction text with
  | nil => exact ⟨_, List.splitOn_append_cons_self_of_not_mem List.not_mem_nil rest⟩
  | cons c text ih =>
    by_cases hc : c = sep
    · rw [hc, List.takeWhile_cons_of_neg (by simp)]
      exact ⟨_, List.splitOn_append_cons_self_of_not_mem List.not_mem_nil _⟩
    · obtain ⟨others, hothers⟩ := ih
      refine ⟨others, ?_⟩
      rw [List.cons_append, List.splitOn_cons_eq_if_modifyHead, if_neg (by simpa using hc), hothers,
        List.takeWhile_cons_of_pos (by simpa using hc)]
      rfl

omit [DecidableEq α] in
/-- Five texts that are joined are told apart even if the fourth may have separators in it: three
of them are read from the front, and the last from the back. -/
theorem fields_inj {a b c d e a' b' c' d' e' : List α} (ha : sep ∉ a) (ha' : sep ∉ a')
    (hb : sep ∉ b) (hb' : sep ∉ b') (hc : sep ∉ c) (hc' : sep ∉ c') (he : sep ∉ e) (he' : sep ∉ e')
    (h : a ++ sep :: (b ++ sep :: (c ++ sep :: (d ++ sep :: e))) =
      a' ++ sep :: (b' ++ sep :: (c' ++ sep :: (d' ++ sep :: e')))) :
    a = a' ∧ b = b' ∧ c = c' ∧ d = d' ∧ e = e' := by
  obtain ⟨hfirst, h⟩ := append_sep_inj ha ha' h
  obtain ⟨hsecond, h⟩ := append_sep_inj hb hb' h
  obtain ⟨hthird, h⟩ := append_sep_inj hc hc' h
  exact ⟨hfirst, hsecond, hthird, append_lastSep_inj he he' h⟩

end

/-! ## What passes the check -/

/-- The target and its features have no semicolon in them, as Cargo names them. -/
structure BuildEnv.Plain (env : BuildEnv) : Prop where
  /-- The target has no semicolon in it. -/
  target : ';' ∉ env.targetText.toList
  /-- Its features have no semicolon in them. -/
  targetFeatures : ';' ∉ env.targetFeatures.toList

theorem mem_featureNames {env : BuildEnv} {feature : String} (h : feature ∈ env.enabledFeatures) :
    feature.toList ≠ [] ∧ ',' ∉ feature.toList ∧ ';' ∉ feature.toList := by
  have hall : ∀ feature ∈ BuildEnv.featureNames,
      feature.toList ≠ [] ∧ ',' ∉ feature.toList ∧ ';' ∉ feature.toList := by decide
  exact hall feature (List.mem_filter.mp h).1

theorem mem_intercalate {words : List (List Char)} {sep c : Char}
    (h : c ∈ List.intercalate [sep] words) : c = sep ∨ ∃ word ∈ words, c ∈ word := by
  induction words with
  | nil => cases h
  | cons word rest ih =>
    rcases eq_or_ne rest [] with rfl | hne
    · rw [List.intercalate_singleton] at h
      exact Or.inr ⟨word, List.mem_cons_self, h⟩
    · rw [List.intercalate_cons_of_ne_nil hne, List.mem_append, List.mem_append] at h
      rcases h with (hword | hsep) | hrest
      · exact Or.inr ⟨word, List.mem_cons_self, hword⟩
      · exact Or.inl (List.mem_singleton.mp hsep)
      · rcases ih hrest with hsep | ⟨other, hother, hmem⟩
        · exact Or.inl hsep
        · exact Or.inr ⟨other, List.mem_cons_of_mem word hother, hmem⟩

theorem toList_packageFeatures (env : BuildEnv) : env.packageFeatures.toList =
    List.intercalate [','] (env.enabledFeatures.map String.toList) := by
  rw [BuildEnv.packageFeatures, String.toList_intercalate]
  rfl

theorem packageFeatures_plain (env : BuildEnv) : ';' ∉ env.packageFeatures.toList := by
  intro hmem
  rw [toList_packageFeatures] at hmem
  rcases mem_intercalate hmem with hsep | ⟨word, hword, hmem⟩
  · exact absurd hsep (by decide)
  · obtain ⟨feature, hfeature, rfl⟩ := List.mem_map.mp hword
    exact (mem_featureNames hfeature).2.2 hmem

/-- Five texts in one, where the labels of all but the first begin with a semicolon. -/
theorem toList_fields {before text label₂ name₂ text₂ label₃ name₃ text₃ label₄ name₄ text₄ label₅
    name₅ text₅ : String} (h₂ : label₂.toList = ';' :: name₂.toList)
    (h₃ : label₃.toList = ';' :: name₃.toList) (h₄ : label₄.toList = ';' :: name₄.toList)
    (h₅ : label₅.toList = ';' :: name₅.toList) :
    (before ++ text ++ label₂ ++ text₂ ++ label₃ ++ text₃ ++ label₄ ++ text₄ ++ label₅ ++
      text₅).toList =
    (before.toList ++ text.toList) ++ ';' :: ((name₂.toList ++ text₂.toList) ++ ';' ::
      ((name₃.toList ++ text₃.toList) ++ ';' :: ((name₄.toList ++ text₄.toList) ++ ';' ::
        (name₅.toList ++ text₅.toList)))) := by
  simp only [String.toList_append, h₂, h₃, h₄, h₅, List.append_assoc, List.cons_append]

/-- The text of an identity, up to what is between its semicolons. -/
theorem toList_nativeBuildIdentity (env : BuildEnv) : env.nativeBuildIdentity.toList =
    ("target=".toList ++ env.targetText.toList) ++ ';' ::
      (("target_features=".toList ++ env.targetFeatures.toList) ++ ';' ::
        (("package_features=".toList ++ env.packageFeatures.toList) ++ ';' ::
          (("native_patch=".toList ++ env.patchIdentity.toList) ++ ';' ::
            ("rustflags=".toList ++ env.rustflags.toList)))) :=
  toList_fields rfl rfl rfl rfl

theorem not_mem_labelled {label text : String} (hlabel : ';' ∉ label.toList)
    (htext : ';' ∉ text.toList) : ';' ∉ label.toList ++ text.toList := by
  rw [List.mem_append, not_or]
  exact ⟨hlabel, htext⟩

/-- The text that is taken for the identity of the patch. -/
theorem find_nativePatch {env : BuildEnv} (h : env.Plain) :
    ((env.nativeBuildIdentity.toList.splitOn ';').find? fun value =>
        "native_patch=".toList.isPrefixOf value) =
      some ("native_patch=".toList ++ env.patchIdentity.toList.takeWhile (· ≠ ';')) := by
  obtain ⟨others, hothers⟩ := @splitOn_head Char _ ';'
    ("native_patch=".toList ++ env.patchIdentity.toList)
    ("rustflags=".toList ++ env.rustflags.toList)
  have hpatch : ("native_patch=".toList ++ env.patchIdentity.toList).takeWhile (· ≠ ';') =
      "native_patch=".toList ++ env.patchIdentity.toList.takeWhile (· ≠ ';') :=
    List.takeWhile_append_of_pos (List.all_eq_true.mp (by decide))
  rw [toList_nativeBuildIdentity,
    List.splitOn_append_cons_self_of_not_mem (not_mem_labelled (by decide) h.target),
    List.splitOn_append_cons_self_of_not_mem (not_mem_labelled (by decide) h.targetFeatures),
    List.splitOn_append_cons_self_of_not_mem
      (not_mem_labelled (by decide) (packageFeatures_plain env)), hothers, hpatch]
  rw [List.find?_cons_of_neg, List.find?_cons_of_neg, List.find?_cons_of_neg,
    List.find?_cons_of_pos]
  · exact List.isPrefixOf_iff_prefix.mpr (List.prefix_append _ _)
  · exact Bool.false_ne_true
  · exact Bool.false_ne_true
  · exact Bool.false_ne_true

theorem stripPrefix_eq_some {before text rest : List Char} :
    stripPrefix before text = some rest ↔ text = before ++ rest := by
  rw [stripPrefix]
  constructor
  · intro h
    split at h
    · rename_i hprefix
      obtain ⟨after, rfl⟩ := List.isPrefixOf_iff_prefix.mp hprefix
      rw [List.drop_left] at h
      rw [Option.some.inj h]
    · cases h
  · rintro rfl
    rw [if_pos (List.isPrefixOf_iff_prefix.mpr (List.prefix_append before rest)), List.drop_left]

/-- What a patch identity is like. -/
def IsPatchIdentity (identity : List Char) : Prop :=
  ∃ digest, isPatchDigest digest = true ∧
    identity = (NativePatch.patchIdentityPrefix ++ ":").toList ++ digest

/-- The patch of a build is accepted if it is one as far as its first semicolon. -/
theorem patchError_eq_none {env : BuildEnv} (h : env.Plain) :
    patchError env.nativeBuildIdentity = none ↔
      IsPatchIdentity (env.patchIdentity.toList.takeWhile (· ≠ ';')) := by
  have hprefix : nativePatchIdentityPrefix.toList =
      "native_patch=".toList ++ (NativePatch.patchIdentityPrefix ++ ":").toList := by decide
  rw [patchError, find_nativePatch h, hprefix]
  simp only
  rcases hstrip : stripPrefix
      ("native_patch=".toList ++ (NativePatch.patchIdentityPrefix ++ ":").toList)
      ("native_patch=".toList ++ env.patchIdentity.toList.takeWhile (· ≠ ';')) with _ | digest
  · refine ⟨fun hnone => (by cases hnone), ?_⟩
    rintro ⟨digest, -, hidentity⟩
    rw [hidentity, ← List.append_assoc, stripPrefix_eq_some.mpr rfl] at hstrip
    cases hstrip
  · have hidentity := stripPrefix_eq_some.mp hstrip
    rw [List.append_assoc, List.append_cancel_left_eq] at hidentity
    constructor
    · intro hnone
      rcases hdigest : isPatchDigest digest with _ | _
      · simp only [hdigest] at hnone
        cases hnone
      · exact ⟨digest, hdigest, hidentity⟩
    · rintro ⟨digest', hdigest, hidentity'⟩
      rw [hidentity, List.append_cancel_left_eq] at hidentity'
      simp only [hidentity', hdigest, if_true]

/-! ## What a patch ends with -/

/-- A hexadecimal digit is one byte, and one of those that are accepted. -/
theorem utf8EncodeChar_hexDigit {n : ℕ} (hn : n < 16) :
    ∃ byte, String.utf8EncodeChar (Json.hexDigit n) = [byte] ∧ isLowerHex byte = true := by
  have hall : ∀ n : Fin 16, ∃ byte, String.utf8EncodeChar (Json.hexDigit n.val) = [byte] ∧
      isLowerHex byte = true := by
    intro n
    refine ⟨UInt8.ofNat (Json.hexDigit n.val).toNat, ?_⟩
    revert n
    decide
  exact hall ⟨n, hn⟩

theorem digest_length (message : List UInt8) : (Sha256.digest message).length = 32 := by
  rfl

theorem toUtf8_hexdigits (bytes : List UInt8) :
    (Text.toUtf8 (String.ofList (bytes.flatMap fun byte =>
        [Json.hexDigit (byte.toNat / 16), Json.hexDigit (byte.toNat % 16)]))).length =
      2 * bytes.length ∧
    (Text.toUtf8 (String.ofList (bytes.flatMap fun byte =>
        [Json.hexDigit (byte.toNat / 16), Json.hexDigit (byte.toNat % 16)]))).all
      isLowerHex = true := by
  rw [Text.toUtf8_ofList]
  induction bytes with
  | nil => exact ⟨rfl, rfl⟩
  | cons byte rest ih =>
    have hbyte := byte.toNat_lt
    obtain ⟨high, hhigh, hhighHex⟩ := utf8EncodeChar_hexDigit (n := byte.toNat / 16) (by omega)
    obtain ⟨low, hlow, hlowHex⟩ := utf8EncodeChar_hexDigit (n := byte.toNat % 16) (by omega)
    rw [List.flatMap_cons, List.flatMap_append, List.flatMap_cons, List.flatMap_cons,
      List.flatMap_nil, hhigh, hlow, List.append_nil]
    constructor
    · simp only [List.length_append, List.length_cons, List.length_nil, ih.1]
      omega
    · simp only [List.all_append, List.all_cons, List.all_nil, hhighHex, hlowHex, ih.2,
        Bool.and_self]

theorem isPatchDigest_hexdigest (message : List UInt8) :
    isPatchDigest (NativePatch.hexdigest message).toList = true := by
  obtain ⟨hlength, hall⟩ := toUtf8_hexdigits (Sha256.digest message)
  rw [isPatchDigest, String.ofList_toList, NativePatch.hexdigest, hall, hlength, digest_length]
  rfl

/-- There is no semicolon among hexadecimal digits. -/
theorem not_mem_hexDigits (bytes : List UInt8) : ';' ∉ bytes.flatMap fun byte =>
    [Json.hexDigit (byte.toNat / 16), Json.hexDigit (byte.toNat % 16)] := by
  have hdigits : ∀ n : Fin 16, ';' ≠ Json.hexDigit n.val := by decide
  intro h
  obtain ⟨byte, -, hc⟩ := List.mem_flatMap.mp h
  have hbyte := byte.toNat_lt
  rcases List.mem_cons.mp hc with hc | hc
  · exact hdigits ⟨byte.toNat / 16, by omega⟩ hc
  · exact hdigits ⟨byte.toNat % 16, by omega⟩ (List.mem_singleton.mp hc)

theorem hexdigest_plain (message : List UInt8) :
    ';' ∉ (NativePatch.hexdigest message).toList := by
  rw [NativePatch.hexdigest, String.toList_ofList]
  exact not_mem_hexDigits (Sha256.digest message)

/-- **What a patch ends with** is a patch identity, with no semicolon in it. -/
theorem isPatchIdentity_patch {F : Type} {python : NativePatch.Python F} {vendorRoot : String}
    {tree : NativePatch.Tree} {identity : String}
    (h : (NativePatch.patch python vendorRoot tree).1 = .ok identity) :
    IsPatchIdentity (identity.toList.takeWhile (· ≠ ';')) := by
  rw [NativePatch.patch] at h
  split at h
  · cases h
  rename_i prepared _
  obtain ⟨message, rfl⟩ : ∃ message, identity =
      NativePatch.patchIdentityPrefix ++ ":" ++ NativePatch.hexdigest message :=
    ⟨_, (Except.ok.inj h).symm⟩
  have hplain : ∀ c ∈ (NativePatch.patchIdentityPrefix ++ ":").toList ++
      (NativePatch.hexdigest message).toList, c ≠ ';' := by
    intro c hc
    rcases List.mem_append.mp hc with hlabel | hdigest
    · have hall : ((NativePatch.patchIdentityPrefix ++ ":").toList.all (· ≠ ';')) = true := by
        decide
      exact of_decide_eq_true (List.all_eq_true.mp hall c hlabel)
    · rintro rfl
      exact hexdigest_plain message hdigest
  rw [String.toList_append, List.takeWhile_eq_self_iff.mpr fun c hc => decide_eq_true (hplain c hc)]
  exact ⟨_, isPatchDigest_hexdigest message, rfl⟩

theorem verifyPatched_eq_ok {packaging : Packaging} {root : Directory}
    {package : PackageManifest} :
    verifyPatched packaging root = .ok package ↔
      verify packaging root = .ok package ∧ patchError package.nativeBuildIdentity = none := by
  rw [verifyPatched]
  rcases verify packaging root with message | verified
  · exact ⟨fun h => (by cases h), fun h => by cases h.1⟩
  · change (match patchError verified.nativeBuildIdentity with
      | some message => Except.error message
      | none => Except.ok verified) = Except.ok package ↔ _
    constructor
    · intro h
      rcases hpatch : patchError verified.nativeBuildIdentity with _ | message
      · rw [hpatch] at h
        obtain rfl := Except.ok.inj h
        exact ⟨rfl, hpatch⟩
      · rw [hpatch] at h
        cases h
    · rintro ⟨hverified, hpatch⟩
      obtain rfl := Except.ok.inj hverified
      rw [hpatch]

/-- **What a package has to be built with to be released.**  A package whose build identity was
made in this environment passes `verifyPatched` exactly when it passes `verify` and the identity
of the patch is one as far as its first semicolon.  Whatever `patch` has returned is, and where
there is none the package never passes. -/
theorem verifyPatched_release (packaging : Packaging) (root : Directory) (env : BuildEnv)
    (package : PackageManifest) (hplain : env.Plain)
    (hidentity : package.nativeBuildIdentity = env.nativeBuildIdentity) :
    (verifyPatched packaging root = .ok package ↔ verify packaging root = .ok package ∧
      IsPatchIdentity (env.patchIdentity.toList.takeWhile (· ≠ ';'))) ∧
    (∀ (F : Type) (python : NativePatch.Python F) (vendorRoot : String) (tree : NativePatch.Tree),
      (NativePatch.patch python vendorRoot tree).1 = .ok env.patchIdentity →
        (verifyPatched packaging root = .ok package ↔ verify packaging root = .ok package)) ∧
    (env.nativePatchIdentity = none → verifyPatched packaging root ≠ .ok package) := by
  have hiff : verifyPatched packaging root = .ok package ↔ verify packaging root = .ok package ∧
      IsPatchIdentity (env.patchIdentity.toList.takeWhile (· ≠ ';')) := by
    rw [verifyPatched_eq_ok, hidentity, patchError_eq_none hplain]
  refine ⟨hiff, fun F python vendorRoot tree hpatch => ?_, fun hnone hpassed => ?_⟩
  · rw [hiff, and_iff_left (isPatchIdentity_patch hpatch)]
  · obtain ⟨digest, -, hdigest⟩ := (hiff.mp hpassed).2
    have hwhile : env.patchIdentity.toList.takeWhile (· ≠ ';') = "none".toList := by
      rw [BuildEnv.patchIdentity, hnone]
      decide
    have hhead := congrArg List.head? (hwhile.symm.trans hdigest)
    have hlabel : (NativePatch.patchIdentityPrefix ++ ":").toList.head? = some 'l' := by decide
    rw [List.head?_append, hlabel, Option.some_or] at hhead
    exact absurd hhead (by decide)

/-! ### A release -/

/-- The environment of a release, with a patch identity as `patch` ends with it. -/
def releaseEnv : BuildEnv where
  target := some "aarch64-apple-darwin"
  targetFeature := some "neon"
  nativePatchIdentity := some ("llama-cpp-sys-2-0.1.151:vulkan-repro-v4:" ++ emptySha256)
  encodedRustflags := none
  isSet name := name == "CARGO_FEATURE_METAL"

/-- The Metal package, of that build. -/
def releaseMetal : PackageManifest :=
  { metalPackage with nativeBuildIdentity := releaseEnv.nativeBuildIdentity }

theorem releaseEnv_plain : releaseEnv.Plain := ⟨by decide, by decide⟩

/-- The identity has nothing of a development path in it. -/
theorem releaseEnv_identity : releaseEnv.nativeBuildIdentity ≠ "" ∧
    ∀ part ∈ ["/", "\\", ".worktrees"], contains releaseEnv.nativeBuildIdentity part = false := by
  rw [← String.toList_inj.ne]
  simp only [contains, toList_nativeBuildIdentity]
  decide +kernel

theorem releaseMetal_profile : validateProfile releaseMetal.profile = .ok () := by
  obtain ⟨hne, hcontains⟩ := releaseEnv_identity
  refine then_eq_ok.mpr ⟨check_eq_ok.mpr (by decide), then_eq_ok.mpr ⟨check_eq_ok.mpr ?_,
    check_eq_ok.mpr (by decide)⟩⟩
  exact ⟨hne, ne_true_of_eq_false (hcontains _ (by decide)),
    ne_true_of_eq_false (hcontains _ (by decide)), ne_true_of_eq_false (hcontains _ (by decide))⟩

theorem releaseMetal_accurate :
    Accurate (plainPackaging releaseMetal) metalRoot releaseMetal where
  schema := rfl
  version := rfl
  profile := releaseMetal_profile
  policy := modelPolicy_eq.symm
  sorted := metal_accurate.sorted
  shape := rfl
  regular := by decide
  listed := by decide
  present := by decide
  described := by
    intro file hfile
    simp only [releaseMetal, metalPackage, List.mem_cons, List.not_mem_nil, or_false] at hfile
    rcases hfile with rfl | rfl | rfl | rfl
    · exact describe_empty (by decide) rfl rfl rfl
    · exact describe_empty (by decide) rfl rfl rfl
    · exact describe_empty (by decide) rfl rfl rfl
    · exact describe_empty (by decide) rfl rfl rfl

theorem releaseMetal_bounded : (plainJson releaseMetal).length + 1 < 2 ^ 64 := by
  simp only [plainJson, Text.toUtf8_length, releaseMetal, metalPackage, List.map_cons,
    List.map_nil, plainJson.file, plainJson.quoted, emptyPackageFile,
    String.intercalate_cons_cons, String.intercalate_singleton, String.utf8ByteSize_append]
  decide +kernel

/-- The package is released. -/
theorem verifyPatched_release_metal : verifyPatched (plainPackaging releaseMetal)
    (metalRoot.install (inventory releaseMetal releaseMetal_bounded)) = .ok releaseMetal := by
  obtain ⟨hiff, -, -⟩ := verifyPatched_release (plainPackaging releaseMetal)
    (metalRoot.install (inventory releaseMetal releaseMetal_bounded)) releaseEnv releaseMetal
    releaseEnv_plain rfl
  exact hiff.mpr ⟨verify_install releaseMetal_bounded releaseMetal_accurate,
    emptySha256.toList, by decide, by decide⟩

/-! ## What the text tells of a build -/

/-- The flags are written in hexadecimal digits. -/
theorem rustflags_plain (env : BuildEnv) : ';' ∉ env.rustflags.toList := by
  rw [BuildEnv.rustflags, identityRustflags, hex, String.toList_ofList]
  exact not_mem_hexDigits _

/-- The text can be taken apart, whatever the identity of the patch has in it. -/
theorem nativeBuildIdentity_inj {env env' : BuildEnv} (h : env.Plain) (h' : env'.Plain)
    (heq : env.nativeBuildIdentity = env'.nativeBuildIdentity) :
    env.targetText = env'.targetText ∧ env.targetFeatures = env'.targetFeatures ∧
      env.packageFeatures = env'.packageFeatures ∧ env.patchIdentity = env'.patchIdentity ∧
      env.rustflags = env'.rustflags := by
  have hlists := ((toList_nativeBuildIdentity env).symm.trans (congrArg String.toList heq)).trans
    (toList_nativeBuildIdentity env')
  obtain ⟨htarget, htargetFeatures, hfeatures, hpatch, hrustflags⟩ := fields_inj
    (not_mem_labelled (by decide) h.target) (not_mem_labelled (by decide) h'.target)
    (not_mem_labelled (by decide) h.targetFeatures) (not_mem_labelled (by decide) h'.targetFeatures)
    (not_mem_labelled (by decide) (packageFeatures_plain env))
    (not_mem_labelled (by decide) (packageFeatures_plain env'))
    (not_mem_labelled (by decide) (rustflags_plain env))
    (not_mem_labelled (by decide) (rustflags_plain env')) hlists
  have hread : ∀ {label text text' : String},
      label.toList ++ text.toList = label.toList ++ text'.toList → text = text' :=
    fun h => String.toList_inj.mp (List.append_cancel_left h)
  exact ⟨hread htarget, hread htargetFeatures, hread hfeatures, hread hpatch, hread hrustflags⟩

theorem enabledFeatures_inj {env env' : BuildEnv}
    (h : env.packageFeatures = env'.packageFeatures) :
    env.enabledFeatures = env'.enabledFeatures := by
  have hwords : ∀ env : BuildEnv, ∀ word ∈ env.enabledFeatures.map String.toList,
      word ≠ [] ∧ ',' ∉ word := by
    intro env word hword
    obtain ⟨feature, hfeature, rfl⟩ := List.mem_map.mp hword
    exact ⟨(mem_featureNames hfeature).1, (mem_featureNames hfeature).2.1⟩
  have hlist := congrArg String.toList h
  rw [toList_packageFeatures, toList_packageFeatures] at hlist
  exact List.map_injective_iff.mpr (fun _ _ => String.toList_inj.mp)
    (intercalate_inj (hwords env) (hwords env') hlist)

/-- **The text tells builds apart.**  With flags that can be read back, two builds have the same
identity exactly when they have the same target, the same features of it and of the package, the
same patch, and the same flags but for those that remap paths.  The identity of a patch may be any
text at all. -/
theorem nativeBuildIdentity_eq_iff (env env' : BuildEnv) (hplain : env.Plain)
    (hplain' : env'.Plain) (flags flags' : List String) (hwords : Words flags)
    (hwords' : Words flags') (hflags : env.encodedRustflags.getD "" = encode flags)
    (hflags' : env'.encodedRustflags.getD "" = encode flags') :
    env.nativeBuildIdentity = env'.nativeBuildIdentity ↔
      env.targetText = env'.targetText ∧ env.targetFeatures = env'.targetFeatures ∧
      env.enabledFeatures = env'.enabledFeatures ∧ env.patchIdentity = env'.patchIdentity ∧
      keepFlags flags = keepFlags flags' := by
  rw [← BuildSupport.identity_eq_iff hwords hwords', ← hflags, ← hflags']
  constructor
  · intro heq
    obtain ⟨htarget, htargetFeatures, hfeatures, hpatch, hrustflags⟩ :=
      nativeBuildIdentity_inj hplain hplain' heq
    exact ⟨htarget, htargetFeatures, enabledFeatures_inj hfeatures, hpatch, hrustflags⟩
  · rintro ⟨htarget, htargetFeatures, hfeatures, hpatch, hrustflags⟩
    have hjoined : env.packageFeatures = env'.packageFeatures :=
      congrArg (String.intercalate ",") hfeatures
    have hkept : env.rustflags = env'.rustflags := hrustflags
    refine String.toList_inj.mp ((toList_nativeBuildIdentity env).trans
      (Eq.trans ?_ (toList_nativeBuildIdentity env').symm))
    rw [htarget, htargetFeatures, hjoined, hpatch, hkept]

/-- The same release, built somewhere else. -/
def remappedEnv : BuildEnv :=
  { releaseEnv with encodedRustflags := some "--remap-path-prefix=/home=/build" }

theorem nativeBuildIdentity_eq_iff_remapped :
    releaseEnv.nativeBuildIdentity = remappedEnv.nativeBuildIdentity := by
  have hplain' : remappedEnv.Plain := ⟨releaseEnv_plain.target, releaseEnv_plain.targetFeatures⟩
  have hwords : Words [] := fun _ h => absurd h List.not_mem_nil
  have hwords' : ∀ flag ∈ ["--remap-path-prefix=/home=/build"],
      flag ≠ "" ∧ BuildSupport.separator ∉ flag.toList := by decide
  refine (nativeBuildIdentity_eq_iff releaseEnv remappedEnv releaseEnv_plain hplain' []
    ["--remap-path-prefix=/home=/build"] hwords hwords' (by decide) (by decide)).mpr ?_
  exact ⟨rfl, rfl, rfl, rfl, by decide⟩

end SemanticSidecar
