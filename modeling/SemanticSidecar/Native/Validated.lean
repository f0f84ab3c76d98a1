import SemanticSidecar.Native.Patch
import Mathlib.Data.List.Nodup

/-!
# What is patched, and what is not

A vendored tree is patched as a whole or left alone.  What that comes to is said in `Patched`: of
the sources, pinned expression by pinned expression (`Applied`), of the manifest, entry by entry,
and of the other files.  The replacements of one source are made one after the other on what the
ones before have left, so `applied_replaceAll` needs them not to get in each other's way.

`patch_law` adds that a tree that has been patched is not patched again.

How the law comes about:

* `patch` either prepares all sources or raises, and writes nothing until all of them are prepared.
* A prepared source had the expected number of each expression, none of the replacements, and the
  recorded digest; what is written is `Applied` to it.
* Writing goes through the sources in the order of their paths, but each of them is a file of its
  own, so the order shows in the identity only.
* The manifest that is written can be read back (`readManifest_dumps`), with a new digest for each
  source and everything else as it was.

The last part is a tree that a patch can be tried on, of sources that have just the pinned
expressions.
-/

set_option autoImplicit false

namespace SemanticSidecar

namespace NativePatch

open Fallible
open PyJson (Members Value getItem setItem ofString)

/-! ## Replacing one after the other -/

/-- Each expression in turn is replaced as often as it is expected. -/
inductive Applied : List Replacement → List UInt8 → List UInt8 → Prop
  /-- Nothing is left to be replaced. -/
  | nil (source : List UInt8) : Applied [] source source
  /-- The first expression is replaced, and then the others are. -/
  | cons {r : Replacement} {rest : List Replacement} {old mid new : List UInt8}
    (hfirst : Splice.Spliced r.original r.replacement r.expectedCount old mid)
    (hrest : Applied rest mid new) : Applied (r :: rest) old new

/-- Replacements that leave the later ones their expressions. -/
structure Independent (replacements : List Replacement) : Prop where
  /-- Neither an expression nor its replacement is empty. -/
  nonempty : ∀ r ∈ replacements, r.original ≠ [] ∧ r.replacement ≠ []
  /-- No replacement makes or breaks an occurrence of a later expression. -/
  foreign : replacements.Pairwise fun r later =>
    Splice.Foreign r.original r.replacement later.original

theorem applied_replaceAll {replacements : List Replacement} (h : Independent replacements)
    {source : List UInt8}
    (hcount : ∀ r ∈ replacements, Splice.count r.original source = r.expectedCount) :
    Applied replacements source (replaceAll replacements source) := by
  induction replacements generalizing source with
  | nil => exact .nil source
  | cons r rest ih =>
    obtain ⟨⟨hr, hr'⟩, hnonempty⟩ := List.forall_mem_cons.mp h.nonempty
    obtain ⟨hforeign, hpairwise⟩ := List.pairwise_cons.mp h.foreign
    obtain ⟨hfirst, hcounts⟩ := List.forall_mem_cons.mp hcount
    refine .cons (hfirst ▸ Splice.replace_spliced hr r.replacement source)
      (ih ⟨hnonempty, hpairwise⟩ fun later hlater => ?_)
    rw [Splice.count_replace hr hr' (hnonempty later hlater).1 (hforeign later hlater),
      hcounts later hlater]

theorem foreign_infinity : Splice.Foreign (ascii "const float INFINITY = 1.0 / 0.0;")
    (ascii "#define NEGATIVE_INFINITY uintBitsToFloat(0xFF800000u)") (ascii "-INFINITY") :=
  ⟨by decide +kernel, by decide +kernel, by decide +kernel⟩

theorem ascii_eq_nil {s : String} : ascii s = [] ↔ s = "" := by
  rw [ascii, List.map_eq_nil_iff, String.toList_eq_nil_iff]

theorem patches_independent : ∀ entry ∈ patches, Independent entry.2 := by
  have hnonempty : ∀ entry ∈ patches, ∀ r ∈ entry.2, r.original ≠ [] ∧ r.replacement ≠ [] := by
    simp [patches, typedZero, ascii_eq_nil]
  have hforeign : ∀ entry ∈ patches, entry.2.Pairwise fun r later =>
      Splice.Foreign r.original r.replacement later.original := by
    simp [patches, foreign_infinity]
  exact fun entry hentry => ⟨hnonempty entry hentry, hforeign entry hentry⟩

/-! ## What the files become -/

section Writes

variable {σ ι κ β : Type} [DecidableEq κ] {write : σ → ι → σ} {look : σ → κ → β} {key : ι → κ}
  {value : ι → β}

/-- Writes that do not get in each other's way. -/
theorem foldl_write (hwrite : ∀ s i k, look (write s i) k = if k = key i then value i else look s k)
    {items : List ι} (hnodup : (items.map key).Nodup) (s : σ) :
    (∀ i ∈ items, look (items.foldl write s) (key i) = value i) ∧
      ∀ k, k ∉ items.map key → look (items.foldl write s) k = look s k := by
  induction items generalizing s with
  | nil => exact ⟨nofun, fun _ _ => rfl⟩
  | cons i rest ih =>
    obtain ⟨hi, hrest⟩ := List.nodup_cons.mp hnodup
    obtain ⟨hmem, hother⟩ := ih hrest (write s i)
    refine ⟨List.forall_mem_cons.mpr ⟨?_, hmem⟩, fun k hk => ?_⟩
    · rw [List.foldl_cons, hother _ hi, hwrite, if_pos rfl]
    · rw [List.map_cons, List.mem_cons, not_or] at hk
      rw [List.foldl_cons, hother k hk.2, hwrite, if_neg hk.1]

end Writes

/-! ## What was read -/

section

variable {F : Type} {python : Python F} {vendorRoot : String} {tree : Tree}

theorem isRecorded_iff {entry : Option (Value F)} {digest : String} :
    isRecorded entry digest = true ↔ entry = some (.str (ofString digest)) := by
  unfold isRecorded
  split
  · rw [decide_eq_true_iff]
    exact ⟨fun h => congrArg _ (congrArg _ h), fun h => Value.str.inj (Option.some.inj h)⟩
  · rename_i hother
    exact iff_of_false Bool.false_ne_true fun h => hother _ h

/-- A source that may be patched. -/
theorem patchSource_eq_ok {files : Members F} {entry : SourcePath × List Replacement}
    {patched : List UInt8} (h : patchSource vendorRoot tree files entry.1 entry.2 = .ok patched) :
    ∃ source, tree entry.1 = .ok source ∧
      (∀ r ∈ entry.2, Splice.count r.original source = r.expectedCount ∧
        ¬ r.replacement <:+: source) ∧
      getItem files (sourceKey entry.1) = some (digestValue source) ∧
      patched = replaceAll entry.2 source := by
  unfold patchSource at h
  split at h
  · cases h
  · rename_i source hsource
    split_ifs at h with hunexpected hrecorded
    refine ⟨source, hsource, fun r hr => ?_, ?_, (Except.ok.inj h).symm⟩
    · rw [List.any_eq_true, not_exists] at hunexpected
      have hexpected : ¬ isUnexpected source r = true := fun h => hunexpected r ⟨hr, h⟩
      rwa [isUnexpected, decide_eq_true_iff, not_or, not_not] at hexpected
    · rw [Bool.not_eq_true', Bool.not_eq_false] at hrecorded
      exact isRecorded_iff.mp hrecorded

/-- A path with something in it, and no part that is more than one. -/
def IsPath (path : SourcePath) : Prop := path ≠ [] ∧ ∀ part ∈ path, '/' ∉ part.toList

theorem splitOn_asPosix {path : SourcePath} (h : IsPath path) :
    (asPosix path).toList.splitOn '/' = path.map String.toList := by
  have hslash : ("/" : String).toList = ['/'] := rfl
  rw [asPosix, String.toList_intercalate, hslash]
  refine List.splitOn_intercalate '/' ?_ (List.map_eq_nil_iff.not.mpr h.1)
  rw [List.forall_mem_map]
  exact h.2

/-- The manifest tells paths apart. -/
theorem sourceKey_inj {path path' : SourcePath} (h : IsPath path) (h' : IsPath path')
    (heq : sourceKey path = sourceKey path') : path = path' := by
  refine List.map_injective_iff.mpr (fun s t => String.toList_inj.mp) ?_
  rw [← splitOn_asPosix h, ← splitOn_asPosix h', PyJson.ofString_injective heq]

/-- The sources that are written, by what becomes of them. -/
theorem patchSources_eq_ok {files : Members F} {patched : List (SourcePath × List UInt8)}
    (h : patchSources vendorRoot tree files = .ok patched) :
    patched.map Prod.fst = patches.map Prod.fst ∧
      ∀ entry ∈ patches, ∃ new, (entry.1, new) ∈ patched ∧
        patchSource vendorRoot tree files entry.1 entry.2 = .ok new := by
  refine ⟨map_eq_of_mapM h fun entry source hsource => ?_, fun entry hentry => ?_⟩
  · obtain ⟨new, -, rfl⟩ := map_eq_ok.mp hsource
    rfl
  · obtain ⟨source, hmem, hsource⟩ := ok_of_mapM h hentry
    obtain ⟨new, hnew, rfl⟩ := map_eq_ok.mp hsource
    exact ⟨new, hmem, hnew⟩

theorem universalNewlines_of_printable {text : List Char} (h : Json.Printable text) :
    universalNewlines text = text := by
  induction text with
  | nil => rfl
  | cons c rest ih =>
    obtain ⟨hc, hrest⟩ := Json.printable_cons.mp h
    rw [universalNewlines, if_neg (by rintro rfl; exact absurd hc (by decide)), ih hrest]

theorem manifestOf_eq_some {v : Value F} {manifest : Manifest F} :
    manifestOf v = some manifest ↔ v = .dict manifest.checksums ∧
      getItem manifest.checksums (ofString "files") = some (.dict manifest.files) := by
  unfold manifestOf
  constructor
  · intro h
    split at h
    · split at h
      · rename_i files hfiles
        obtain rfl := Option.some.inj h
        exact ⟨rfl, hfiles⟩
      · cases h
    · cases h
  · rintro ⟨rfl, hfiles⟩
    simp only [hfiles]

/-- A manifest that is read. -/
theorem readManifest_eq_ok {manifest : Manifest F} :
    readManifest python vendorRoot tree = .ok manifest ↔
      ∃ bytes text, tree checksumPath = .ok bytes ∧ readText python bytes = .ok text ∧
        PyJson.loads python.floats text = some (.dict manifest.checksums) ∧
        getItem manifest.checksums (ofString "files") = some (.dict manifest.files) := by
  unfold readManifest
  constructor
  · intro h
    split at h
    · cases h
    · rename_i bytes hbytes
      obtain ⟨text, htext, h⟩ := bind_eq_ok.mp h
      split at h
      · cases h
      · rename_i checksums hchecksums
        split at h
        · rename_i manifest' hmanifest
          obtain rfl := Except.ok.inj h
          obtain ⟨rfl, hfiles⟩ := manifestOf_eq_some.mp hmanifest
          exact ⟨bytes, text, hbytes, htext, hchecksums, hfiles⟩
        · cases h
  · rintro ⟨bytes, text, hbytes, htext, hchecksums, hfiles⟩
    simp only [hbytes, bind_eq_ok]
    refine ⟨text, htext, ?_⟩
    simp only [hchecksums, manifestOf_eq_some.mpr ⟨rfl, hfiles⟩]

theorem readManifest_canonical {manifest : Manifest F}
    (h : readManifest python vendorRoot tree = .ok manifest) :
    PyJson.Canonical (.dict manifest.checksums) := by
  obtain ⟨_, _, -, -, hloads, -⟩ := readManifest_eq_ok.mp h
  exact PyJson.loads_canonical hloads

/-- **A manifest that was written is read back.** -/
theorem readManifest_dumps {manifest : Manifest F}
    (hcanonical : PyJson.Canonical (.dict manifest.checksums))
    (hfiles : getItem manifest.checksums (ofString "files") = some (.dict manifest.files))
    (hbytes : tree checksumPath = .ok
      (Text.toUtf8 (String.ofList (PyJson.dumps python.floats (.dict manifest.checksums))))) :
    readManifest python vendorRoot tree = .ok manifest := by
  refine readManifest_eq_ok.mpr ⟨_, _, hbytes, ?_, PyJson.loads_dumps _ hcanonical, hfiles⟩
  rw [readText, Text.fromUtf8_toUtf8]
  dsimp only
  rw [String.toList_ofList,
    universalNewlines_of_printable (PyJson.printable_dumps python.floats hcanonical)]

/-! ## What was written -/

variable {manifest : Manifest F} {patched : List (SourcePath × List UInt8)}

/-- The loop over the sources, at its end. -/
def writtenSources (tree : Tree) (manifest : Manifest F)
    (patched : List (SourcePath × List UInt8)) : Writing F :=
  (sortSources patched).foldl Writing.write ⟨tree, manifest.files, []⟩

theorem sortSources_perm (patched : List (SourcePath × List UInt8)) :
    (sortSources patched).Perm patched := List.mergeSort_perm _ _

theorem patches_nodup : (patches.map Prod.fst).Nodup := by simp [patches, shaderRoot]

theorem patches_isPath : ∀ path ∈ patches.map Prod.fst, IsPath path := by
  simp [patches, shaderRoot, IsPath]

/-- Sources at these paths have entries of their own. -/
theorem sourceKeys_nodup {α : Type} {sources : List (SourcePath × α)}
    (hpaths : (sources.map Prod.fst).Perm (patches.map Prod.fst)) :
    (sources.map (sourceKey ·.1)).Nodup := by
  have hpath : ∀ path ∈ sources.map Prod.fst, IsPath path := fun path hmem =>
    patches_isPath path (hpaths.mem_iff.mp hmem)
  have hkeys : ((sources.map Prod.fst).map sourceKey).Nodup :=
    (hpaths.nodup_iff.mpr patches_nodup).map_on fun path hmem path' hmem' =>
      sourceKey_inj (hpath path hmem) (hpath path' hmem')
  rwa [List.map_map] at hkeys

theorem ne_checksumPath : ∀ entry ∈ patches, entry.1 ≠ checksumPath := by
  simp [patches, shaderRoot, checksumPath]

theorem written_tree (hpaths : patched.map Prod.fst = patches.map Prod.fst) :
    (∀ source ∈ patched, (writtenSources tree manifest patched).tree source.1 = .ok source.2) ∧
      ∀ path, path ∉ patches.map Prod.fst →
        (writtenSources tree manifest patched).tree path = tree path := by
  have hperm := (sortSources_perm patched).map Prod.fst
  have hnodup : ((sortSources patched).map Prod.fst).Nodup :=
    hperm.nodup_iff.mpr (hpaths ▸ patches_nodup)
  have hwrite := @foldl_write (Writing F) _ SourcePath _ _ Writing.write Writing.tree Prod.fst
    (fun source => .ok source.2) (fun w source path => Function.update_apply w.tree _ _ path)
    _ hnodup ⟨tree, manifest.files, []⟩
  refine ⟨fun source hsource => hwrite.1 source ((sortSources_perm patched).mem_iff.mpr hsource),
    fun path hpath => hwrite.2 path fun hmem => hpath ?_⟩
  rw [← hpaths]
  exact hperm.mem_iff.mp hmem

theorem written_files (hpaths : patched.map Prod.fst = patches.map Prod.fst) :
    (∀ source ∈ patched, getItem (writtenSources tree manifest patched).files (sourceKey source.1) =
      some (digestValue source.2)) ∧
      ∀ key, key ∉ patches.map (sourceKey ·.1) →
        getItem (writtenSources tree manifest patched).files key = getItem manifest.files key := by
  have hkeys : patched.map (sourceKey ·.1) = patches.map (sourceKey ·.1) := by
    have h := congrArg (List.map sourceKey) hpaths
    rwa [List.map_map, List.map_map] at h
  have hperm := (sortSources_perm patched).map (sourceKey ·.1)
  have hnodup : ((sortSources patched).map (sourceKey ·.1)).Nodup :=
    sourceKeys_nodup (hpaths ▸ (sortSources_perm patched).map Prod.fst)
  have hwrite := @foldl_write (Writing F) _ PyJson.Str _ _ Writing.write
    (fun w key => getItem w.files key) (sourceKey ·.1) (fun source => some (digestValue source.2))
    (fun w source key => PyJson.getItem_setItem w.files _ key _) _ hnodup
    ⟨tree, manifest.files, []⟩
  refine ⟨fun source hsource => hwrite.1 source ((sortSources_perm patched).mem_iff.mpr hsource),
    fun key hkey => hwrite.2 key fun hmem => hkey ?_⟩
  rw [← hkeys]
  exact hperm.mem_iff.mp hmem

theorem written_canonical (h : PyJson.Canonical (.dict manifest.files)) :
    PyJson.Canonical (.dict (writtenSources tree manifest patched).files) := by
  have hall : ∀ (sources : List (SourcePath × List UInt8)) (w : Writing F),
      PyJson.Canonical (.dict w.files) →
        PyJson.Canonical (.dict (sources.foldl Writing.write w).files) := by
    intro sources
    induction sources with
    | nil => exact fun w hw => hw
    | cons source rest ih =>
      exact fun w hw => ih _ (PyJson.canonical_setItem hw (PyJson.joined_ofString _)
        (.str (PyJson.joined_ofString _)))
  exact hall _ _ h

/-- The identity is the digest of the paths and the bytes. -/
theorem written_hashed : (writtenSources tree manifest patched).hashed =
    (sortSources patched).flatMap fun source =>
      Text.toUtf8 (asPosix source.1) ++ 0 :: source.2 := by
  have hall : ∀ (sources : List (SourcePath × List UInt8)) (w : Writing F),
      (sources.foldl Writing.write w).hashed = w.hashed ++ sources.flatMap fun source =>
        Text.toUtf8 (asPosix source.1) ++ 0 :: source.2 := by
    intro sources
    induction sources with
    | nil => exact fun w => (List.append_nil _).symm
    | cons source rest ih =>
      intro w
      rw [List.foldl_cons, ih, List.flatMap_cons, ← List.append_assoc]
      rfl
  exact (hall _ _).trans (List.nil_append _)

theorem prepare_eq_ok : prepare python vendorRoot tree = .ok (manifest, patched) ↔
    readManifest python vendorRoot tree = .ok manifest ∧
      patchSources vendorRoot tree manifest.files = .ok patched := by
  rw [prepare, bind_eq_ok]
  constructor
  · rintro ⟨manifest', hmanifest, hrest⟩
    obtain ⟨patched', hpatched, hpair⟩ := bind_eq_ok.mp hrest
    obtain ⟨rfl, rfl⟩ := Prod.mk.inj (Except.ok.inj hpair)
    exact ⟨hmanifest, hpatched⟩
  · rintro ⟨hmanifest, hpatched⟩
    exact ⟨manifest, hmanifest, bind_eq_ok.mpr ⟨patched, hpatched, rfl⟩⟩

theorem patch_of_prepare (h : prepare python vendorRoot tree = .ok (manifest, patched)) :
    patch python vendorRoot tree = (.ok (writeSources python tree manifest patched).1,
      (writeSources python tree manifest patched).2) := by
  rw [patch, h]

/-- Nothing is written before everything has been read. -/
theorem patch_cases :
    (∃ message, patch python vendorRoot tree = (.error message, tree)) ∨
      ∃ manifest patched, prepare python vendorRoot tree = .ok (manifest, patched) ∧
        patch python vendorRoot tree =
          (.ok (writeSources python tree manifest patched).1,
            (writeSources python tree manifest patched).2) := by
  rcases hprepare : prepare python vendorRoot tree with message | ⟨manifest, patched⟩
  · exact .inl ⟨message, by rw [patch, hprepare]⟩
  · exact .inr ⟨manifest, patched, rfl, patch_of_prepare hprepare⟩

/-! ## The law -/

/-- What becomes of the manifest: the checksums of the sources, and nothing else. -/
structure Updated (tree after : Tree) (before now : Manifest F) : Prop where
  /-- The manifest had the digest of each source. -/
  recorded : ∀ entry ∈ patches, ∀ old, tree entry.1 = .ok old →
    getItem before.files (sourceKey entry.1) = some (digestValue old)
  /-- The manifest has the digest of each patched source. -/
  updated : ∀ entry ∈ patches, ∀ new, after entry.1 = .ok new →
    getItem now.files (sourceKey entry.1) = some (digestValue new)
  /-- The digests of other files are as they were. -/
  otherFiles : ∀ key, key ∉ patches.map (sourceKey ·.1) →
    getItem now.files key = getItem before.files key
  /-- The rest of the manifest is as it was. -/
  otherKeys : ∀ key, key ≠ ofString "files" →
    getItem now.checksums key = getItem before.checksums key

/-- What becomes of a tree. -/
structure Patched (python : Python F) (vendorRoot : String) (tree after : Tree) : Prop where
  /-- Every source had what was expected of it, and it has been replaced. -/
  sources : ∀ entry ∈ patches, ∃ old new, tree entry.1 = .ok old ∧ after entry.1 = .ok new ∧
    (∀ r ∈ entry.2, Splice.count r.original old = r.expectedCount) ∧ Applied entry.2 old new
  /-- The manifest could be read before and can be read now, with the new digests in it. -/
  manifest : ∃ before now, readManifest python vendorRoot tree = .ok before ∧
    readManifest python vendorRoot after = .ok now ∧ Updated tree after before now
  /-- Every other file is as it was. -/
  others : ∀ path, path ≠ checksumPath → path ∉ patches.map Prod.fst → after path = tree path

theorem writeSources_tree (path : SourcePath) :
    (writeSources python tree manifest patched).2 path =
      Function.update (writtenSources tree manifest patched).tree checksumPath
        (.ok (Text.toUtf8 (String.ofList (PyJson.dumps python.floats (.dict (setItem
          manifest.checksums (ofString "files")
          (.dict (writtenSources tree manifest patched).files))))))) path := rfl

variable (python) in
/-- A source that is written, before and afterwards. -/
theorem writeSources_source (hpatched : patchSources vendorRoot tree manifest.files = .ok patched)
    {entry : SourcePath × List Replacement} (hentry : entry ∈ patches) :
    ∃ old, tree entry.1 = .ok old ∧
      (writeSources python tree manifest patched).2 entry.1 = .ok (replaceAll entry.2 old) ∧
      (∀ r ∈ entry.2, Splice.count r.original old = r.expectedCount) ∧
      getItem manifest.files (sourceKey entry.1) = some (digestValue old) ∧
      getItem (writtenSources tree manifest patched).files (sourceKey entry.1) =
        some (digestValue (replaceAll entry.2 old)) := by
  obtain ⟨hpaths, hall⟩ := patchSources_eq_ok hpatched
  obtain ⟨new, hmem, hsource⟩ := hall entry hentry
  obtain ⟨old, hold, hpinned, hrecorded, rfl⟩ := patchSource_eq_ok hsource
  refine ⟨old, hold, ?_, fun r hr => (hpinned r hr).1, hrecorded, (written_files hpaths).1 _ hmem⟩
  rw [writeSources_tree, Function.update_of_ne (ne_checksumPath entry hentry)]
  exact (written_tree hpaths).1 _ hmem

theorem writeSources_patched (hmanifest : readManifest python vendorRoot tree = .ok manifest)
    (hpatched : patchSources vendorRoot tree manifest.files = .ok patched) :
    Patched python vendorRoot tree (writeSources python tree manifest patched).2 where
  sources := by
    intro entry hentry
    obtain ⟨old, hold, hnew, hcounts, -, -⟩ := writeSources_source python hpatched hentry
    exact ⟨old, _, hold, hnew, hcounts,
      applied_replaceAll (patches_independent entry hentry) hcounts⟩
  manifest := by
    obtain ⟨_, _, -, -, -, hfiles⟩ := readManifest_eq_ok.mp hmanifest
    have hcanonical := readManifest_canonical hmanifest
    let w := writtenSources tree manifest patched
    let now : Manifest F := ⟨setItem manifest.checksums (ofString "files") (.dict w.files), w.files⟩
    have hnow : readManifest python vendorRoot (writeSources python tree manifest patched).2 =
        .ok now := by
      have hbytes : (writeSources python tree manifest patched).2 checksumPath = _ :=
        (writeSources_tree checksumPath).trans (Function.update_self _ _ _)
      refine readManifest_dumps ?_ ?_ hbytes
      · exact PyJson.canonical_setItem hcanonical (PyJson.joined_ofString _)
          (written_canonical (PyJson.canonical_getItem hcanonical hfiles))
      · rw [PyJson.getItem_setItem, if_pos rfl]
    refine ⟨manifest, now, hmanifest, hnow, ?_, ?_, ?_, ?_⟩
    · intro entry hentry old hold
      obtain ⟨old', hold', -, -, hrecorded, -⟩ := writeSources_source python hpatched hentry
      exact Except.ok.inj (hold'.symm.trans hold) ▸ hrecorded
    · intro entry hentry new hnew
      obtain ⟨_, -, hnew', -, -, hupdated⟩ := writeSources_source python hpatched hentry
      exact Except.ok.inj (hnew'.symm.trans hnew) ▸ hupdated
    · exact (written_files (patchSources_eq_ok hpatched).1).2
    · intro key hkey
      rw [PyJson.getItem_setItem, if_neg hkey]
  others := by
    intro path hpath hother
    rw [writeSources_tree, Function.update_of_ne hpath]
    exact (written_tree (patchSources_eq_ok hpatched).1).2 path hother

/-- **A tree that has been patched is not patched again.** -/
theorem patch_again {after : Tree} (h : Patched python vendorRoot tree after)
    (otherRoot : String) : ∃ message, patch python otherRoot after = (.error message, after) := by
  rcases @patch_cases F python otherRoot after with herror | ⟨manifest, patched, hprepare, -⟩
  · exact herror
  · exfalso
    obtain ⟨-, hpatched⟩ := prepare_eq_ok.mp hprepare
    have hbuild : (["build.rs"], _) ∈ patches := List.mem_cons_self
    obtain ⟨old, new, -, hnew, -, happlied⟩ := h.sources _ hbuild
    obtain ⟨_, -, hsource⟩ := (patchSources_eq_ok hpatched).2 _ hbuild
    obtain ⟨new', hnew', hpinned, -⟩ := patchSource_eq_ok hsource
    obtain rfl := Except.ok.inj (hnew.symm.trans hnew')
    cases happlied with
    | cons hspliced hrest =>
      cases hrest
      exact (hpinned _ List.mem_cons_self).2 (hspliced.isInfix (by decide))

/-- The bytes of a file that can be read. -/
def bytesAt (tree : Tree) (path : SourcePath) : List UInt8 := (tree path).toOption.getD []

variable (python) in
/-- The sources that are written can be read off the result. -/
theorem patched_eq (hpatched : patchSources vendorRoot tree manifest.files = .ok patched) :
    patched = (patches.map Prod.fst).map fun path =>
      (path, bytesAt (writeSources python tree manifest patched).2 path) := by
  obtain ⟨hpaths, -⟩ := patchSources_eq_ok hpatched
  rw [← hpaths, List.map_map]
  refine (List.map_id' patched).symm.trans (List.map_congr_left fun source hsource => ?_)
  obtain ⟨entry, hentry, hpath⟩ : ∃ entry ∈ patches, entry.1 = source.1 :=
    List.mem_map.mp (hpaths ▸ List.mem_map_of_mem hsource)
  have hbytes : (writeSources python tree manifest patched).2 source.1 = .ok source.2 := by
    rw [writeSources_tree, Function.update_of_ne (hpath ▸ ne_checksumPath entry hentry)]
    exact (written_tree hpaths).1 source hsource
  rw [Function.comp_apply, bytesAt, hbytes]
  rfl

theorem writeSources_identity : (writeSources python tree manifest patched).1 =
    patchIdentityPrefix ++ ":" ++ hexdigest ((sortSources patched).flatMap fun source =>
      Text.toUtf8 (asPosix source.1) ++ 0 :: source.2) :=
  congrArg (fun hashed => patchIdentityPrefix ++ ":" ++ hexdigest hashed) written_hashed

/-- **A tree is patched as a whole, or left alone.**  The identity is that of the sources as they
are then, and a tree that has been patched is not patched again. -/
theorem patch_law (python : Python F) (vendorRoot : String) (tree : Tree) :
    (∀ message, (patch python vendorRoot tree).1 = .error message →
      (patch python vendorRoot tree).2 = tree) ∧
    ∀ identity after, patch python vendorRoot tree = (.ok identity, after) →
      Patched python vendorRoot tree after ∧
      (∃ message, patch python vendorRoot after = (.error message, after)) ∧
      ∀ otherRoot otherTree otherIdentity otherAfter,
        patch python otherRoot otherTree = (.ok otherIdentity, otherAfter) →
        (∀ path ∈ patches.map Prod.fst, otherAfter path = after path) →
          otherIdentity = identity := by
  rcases @patch_cases F python vendorRoot tree with
    ⟨message, herror⟩ | ⟨manifest, patched, hprepare, hok⟩
  · rw [herror]
    exact ⟨fun _ _ => rfl, nofun⟩
  · obtain ⟨hmanifest, hpatched⟩ := prepare_eq_ok.mp hprepare
    rw [hok]
    refine ⟨nofun, fun identity after hafter => ?_⟩
    obtain ⟨hidentity, rfl⟩ := Prod.mk.inj hafter
    obtain rfl := Except.ok.inj hidentity
    have hpatchedTree := writeSources_patched hmanifest hpatched
    refine ⟨hpatchedTree, patch_again hpatchedTree vendorRoot, ?_⟩
    intro otherRoot otherTree otherIdentity otherAfter hother hsame
    rcases @patch_cases F python otherRoot otherTree with
      ⟨message, herror⟩ | ⟨manifest', patched', hprepare', hok'⟩
    · rw [herror] at hother
      cases hother
    · obtain ⟨-, hpatched'⟩ := prepare_eq_ok.mp hprepare'
      rw [hok'] at hother
      obtain ⟨hidentity, rfl⟩ := Prod.mk.inj hother
      obtain rfl := Except.ok.inj hidentity
      have hpatchedSame : patched' = patched := by
        rw [patched_eq python hpatched', patched_eq python hpatched]
        refine List.map_congr_left fun path hpath => ?_
        rw [bytesAt, bytesAt, hsame path hpath]
      rw [writeSources_identity, writeSources_identity, hpatchedSame]

end

/-! ## A tree as it is vendored -/

/-- Sources with the pinned expressions and little else. -/
def vendoredSources : List (SourcePath × List UInt8) :=
  [(["build.rs"], ascii "if !dst.exists() \x7b\nif !dst.exists() \x7b\nif !dst.exists() \x7b\n"),
    (shaderRoot ++ ["topk_moe.comp"], ascii ("const float INFINITY = 1.0 / 0.0;\n" ++
      "-INFINITY\n-INFINITY\n-INFINITY\n-INFINITY\n-INFINITY\n-INFINITY\n")),
    (shaderRoot ++ ["copy_to_quant.comp"], ascii "float vmin = 1.0/0.0;\n"),
    (shaderRoot ++ ["flash_attn_split_k_reduce.comp"], ascii "float m_max = -1.0/0.0;\n"),
    (shaderRoot ++ ["diag.comp"], ascii "data_d[get_doffset() + dst_idx(idx)] = D_TYPE(0);\n"),
    (shaderRoot ++ ["tri.comp"], ascii "data_d[get_doffset() + dst_idx(idx)] = D_TYPE(0);\n")]

/-- Nothing is read here that has a float in it. -/
def noFloats : Python Empty where
  floats := ⟨fun _ => .nan, Empty.elim, nofun, nofun⟩
  undecodable _ := "'utf-8' codec can't decode bytes"
  invalidJson _ := "Expecting value: line 1 column 1 (char 0)"

/-- The digest of a source is recorded. -/
def recordSource (files : Members Empty) (source : SourcePath × List UInt8) : Members Empty :=
  setItem files (sourceKey source.1) (digestValue source.2)

/-- A manifest with the digests of the sources that are patched. -/
def vendoredManifest : Manifest Empty :=
  let files := vendoredSources.foldl recordSource []
  ⟨setItem [] (ofString "files") (.dict files), files⟩

/-- A crate that has these sources and this manifest. -/
def vendoredTree : Tree := fun path =>
  if path = checksumPath then
    .ok (Text.toUtf8 (String.ofList
      (PyJson.dumps noFloats.floats (.dict vendoredManifest.checksums))))
  else
    match vendoredSources.lookup path with
    | some source => .ok source
    | none => .error "No such file or directory"

theorem readManifest_vendored :
    readManifest noFloats "vendor" vendoredTree = .ok vendoredManifest := by
  have hfiles : ∀ (sources : List (SourcePath × List UInt8)) (files : Members Empty),
      PyJson.Canonical (.dict files) →
        PyJson.Canonical (.dict (sources.foldl recordSource files)) := by
    intro sources
    induction sources with
    | nil => exact fun _ h => h
    | cons source rest ih =>
      exact fun _ h => ih _ (PyJson.canonical_setItem h (PyJson.joined_ofString _)
        (.str (PyJson.joined_ofString _)))
  have hbytes : vendoredTree checksumPath = .ok _ := if_pos rfl
  refine readManifest_dumps ?_ ?_ hbytes
  · exact PyJson.canonical_setItem PyJson.canonical_emptyDict (PyJson.joined_ofString _)
      (hfiles _ _ PyJson.canonical_emptyDict)
  · exact (PyJson.getItem_setItem _ _ _ _).trans (if_pos rfl)

theorem vendored_recorded : ∀ source ∈ vendoredSources,
    getItem vendoredManifest.files (sourceKey source.1) = some (digestValue source.2) := by
  have hnodup := sourceKeys_nodup (List.Perm.of_eq (rfl : vendoredSources.map Prod.fst = _))
  exact (@foldl_write (Members Empty) _ PyJson.Str _ _ recordSource getItem (sourceKey ·.1)
    (fun source => some (digestValue source.2))
    (fun files source key => PyJson.getItem_setItem files _ key _) _ hnodup []).1

theorem vendored_pinned : ∀ entry ∈ patches, ∃ source,
    vendoredTree entry.1 = .ok source ∧ (entry.1, source) ∈ vendoredSources ∧
      entry.2.any (isUnexpected source) = false := by
  have hall : ∀ entry ∈ patches, ∃ source ∈ vendoredSources, source.1 = entry.1 ∧
      vendoredSources.lookup entry.1 = some source.2 ∧
      entry.2.any (isUnexpected source.2) = false := by
    decide +kernel
  intro entry hentry
  obtain ⟨source, hmem, hpath, hlookup, hpinned⟩ := hall entry hentry
  refine ⟨source.2, ?_, hpath ▸ hmem, hpinned⟩
  rw [vendoredTree, if_neg (ne_checksumPath entry hentry), hlookup]

theorem patchSource_vendored {entry : SourcePath × List Replacement} (hentry : entry ∈ patches) :
    ∃ new, patchSource "vendor" vendoredTree vendoredManifest.files entry.1 entry.2 = .ok new := by
  obtain ⟨source, htree, hmem, hpinned⟩ := vendored_pinned entry hentry
  have hrecorded := isRecorded_iff.mpr (vendored_recorded _ hmem)
  unfold patchSource
  simp only [htree, hpinned, hrecorded]
  exact ⟨_, rfl⟩

/-- The vendored tree is patched once, and not again. -/
theorem patch_law_vendored : ∃ identity after message,
    patch noFloats "vendor" vendoredTree = (.ok identity, after) ∧
      Patched noFloats "vendor" vendoredTree after ∧
      (patch noFloats "vendor" after).1 = .error message ∧
      (patch noFloats "vendor" after).2 = after := by
  obtain ⟨patched, hpatched⟩ : ∃ patched,
      patchSources "vendor" vendoredTree vendoredManifest.files = .ok patched :=
    mapM_isOk fun entry hentry => (patchSource_vendored hentry).imp' _ fun _ hnew => by
      rw [hnew]
      rfl
  have hprepare : prepare noFloats "vendor" vendoredTree = .ok (vendoredManifest, patched) :=
    prepare_eq_ok.mpr ⟨readManifest_vendored, hpatched⟩
  have hpatch := patch_of_prepare hprepare
  obtain ⟨hpatchedTree, ⟨message, hagain⟩, -⟩ :=
    (patch_law noFloats "vendor" vendoredTree).2 _ _ hpatch
  have hmessage := congrArg Prod.fst hagain
  exact ⟨_, _, message, hpatch, hpatchedTree, hmessage,
    (patch_law noFloats "vendor" _).1 message hmessage⟩

end NativePatch

end SemanticSidecar
