import SemanticSidecar.Prepare.Acquire

/-!
# The names in the cache directory

Three kinds of names live side by side in the cache directory: the cache locks, the partial files
and the final files.  A lock's name and a partial's name never coincide, because they end
differently.  A partial's name gives its model away, because the random part has no dot.

A final name is whatever the request says, so that it is neither of the other two is a condition,
`PlainNames`, and so is that models do not share one, `UniqueNames`.

The ids and file names of the pins are plain in this sense, which is checked once for all of them
(`pinned_names`), so nothing that `prepare` is asked for from the command line is affected by the
conditions.  They matter for requests that are put together otherwise: a final name such as that of
a lock makes an acquisition rename a download over a file that others are locking.
-/

set_option autoImplicit false

namespace SemanticSidecar

/-- The names the cleanup takes for locks. -/
def isLockName (name : String) : Bool := endsWith name ".lock"

/-- The names the cleanup takes for partial files. -/
def isPartialName (name : String) : Bool :=
  startsWith name partialPrefixText && endsWith name partialSuffix

/-- The name of a partial file of a model. -/
def partialName (modelId random : String) : String :=
  Files.tempName (partialPrefix modelId) random partialSuffix

theorem endsWith_iff {text after : String} :
    endsWith text after = true ↔ ∃ before, text.toList = before ++ after.toList := by
  rw [endsWith, List.isSuffixOf_iff_suffix]
  constructor
  · rintro ⟨before, h⟩
    exact ⟨before, h.symm⟩
  · rintro ⟨before, h⟩
    exact ⟨before, h.symm⟩

theorem isLockName_lockName (modelId : String) : isLockName (lockName modelId) = true :=
  endsWith_iff.mpr ⟨modelId.toList, String.toList_append⟩

theorem toList_partialName (modelId random : String) :
    (partialName modelId random).toList =
      partialPrefixText.toList ++ modelId.toList ++ '.' :: random.toList ++
        partialSuffix.toList := by
  simp [partialName, Files.tempName, partialPrefix]

theorem isPartialName_partialName (modelId random : String) :
    isPartialName (partialName modelId random) = true := by
  rw [isPartialName, Bool.and_eq_true]
  constructor
  · rw [startsWith, List.isPrefixOf_iff_prefix, toList_partialName]
    exact ⟨modelId.toList ++ '.' :: random.toList ++ partialSuffix.toList, by simp⟩
  · exact endsWith_iff.mpr ⟨_, toList_partialName modelId random⟩

/-- **A name is not that of a lock and of a partial file at once.** -/
theorem isPartialName_of_isLockName {name : String} (h : isLockName name = true) :
    isPartialName name = false := by
  obtain ⟨before, hlock⟩ := endsWith_iff.mp h
  rw [← Bool.not_eq_true, isPartialName, Bool.and_eq_true]
  rintro ⟨-, hpart⟩
  obtain ⟨before', hpart⟩ := endsWith_iff.mp hpart
  have hlast := congrArg List.getLast? (hlock.symm.trans hpart)
  have hk : ".lock".toList.getLast? = some 'k' := by decide
  have hl : partialSuffix.toList.getLast? = some 'l' := by decide
  rw [List.getLast?_append, List.getLast?_append, hk, hl] at hlast
  exact absurd hlast (by simp)

/-- The text is cut at the last separator. -/
theorem rsplitOnce_append {sep : Char} {before after : List Char} (h : sep ∉ after) :
    rsplitOnce sep (before ++ sep :: after) = some (before, after) := by
  have hne : ∀ c ∈ after.reverse, (c != sep) = true := by
    intro c hc
    rw [bne_iff_ne]
    rintro rfl
    exact h (List.mem_reverse.mp hc)
  have hreverse : (before ++ sep :: after).reverse = after.reverse ++ sep :: before.reverse := by
    simp
  have htake : ((before ++ sep :: after).reverse.takeWhile (· != sep)) = after.reverse := by
    rw [hreverse, List.takeWhile_append_of_pos hne]
    simp
  have hdrop : ((before ++ sep :: after).reverse.dropWhile (· != sep)) = sep :: before.reverse := by
    rw [hreverse, List.dropWhile_append_of_pos hne]
    simp
  rw [rsplitOnce, hdrop, htake]
  simp

theorem stripPrefix_append (before rest : List Char) :
    stripPrefix before (before ++ rest) = some rest := by
  have hprefixed : before.isPrefixOf (before ++ rest) = true :=
    List.isPrefixOf_iff_prefix.mpr (List.prefix_append before rest)
  rw [stripPrefix, if_pos hprefixed, List.drop_left]

theorem stripSuffix_append (rest after : List Char) :
    stripSuffix after (rest ++ after) = some rest := by
  have hsuffixed : after.isSuffixOf (rest ++ after) = true :=
    List.isSuffixOf_iff_suffix.mpr (List.suffix_append rest after)
  rw [stripSuffix, if_pos hsuffixed, List.length_append, Nat.add_sub_cancel, List.take_left]

/-- The model is read off a partial file's name, unless the model or the random part is empty. -/
theorem modelOfPartial_partialName (modelId : String) {random : String}
    (hdot : '.' ∉ random.toList) :
    modelOfPartial (partialName modelId random) =
      if modelId.toList ≠ [] ∧ random.toList ≠ [] then some modelId else none := by
  have hinner : stripPrefix partialPrefixText.toList (partialName modelId random).toList =
      some (modelId.toList ++ '.' :: random.toList ++ partialSuffix.toList) := by
    rw [toList_partialName, List.append_assoc, List.append_assoc, stripPrefix_append]
    simp
  rw [modelOfPartial, hinner]
  simp only [Option.bind_eq_bind, Option.bind_some, stripSuffix_append, rsplitOnce_append hdot,
    String.ofList_toList]
  simp only [Bool.and_eq_true, Bool.not_eq_eq_eq_not, Bool.not_true, List.isEmpty_eq_false_iff,
    ne_eq]

/-- The stem of a cache lock's name is the model. -/
theorem fileStem_lockName {modelId : String} (h : modelId.toList ≠ []) :
    fileStem (lockName modelId) = modelId := by
  have hsplit : rsplitOnce '.' (lockName modelId).toList =
      some (modelId.toList, "lock".toList) := by
    have hlist : (lockName modelId).toList = modelId.toList ++ '.' :: "lock".toList := by
      rw [lockName, String.toList_append]
      rfl
    rw [hlist, rsplitOnce_append (by decide)]
  rw [fileStem, hsplit]
  show (if modelId.toList.isEmpty then _ else _) = modelId
  rw [if_neg (by simpa using h), String.ofList_toList]

/-- **A partial file's name tells its model.** -/
theorem partialName_model {modelId modelId' random random' : String}
    (hdot : '.' ∉ random.toList) (hdot' : '.' ∉ random'.toList)
    (h : partialName modelId random = partialName modelId' random') : modelId = modelId' := by
  have hlist := congrArg String.toList h
  rw [toList_partialName, toList_partialName, List.append_left_inj, List.append_assoc,
    List.append_assoc, List.append_right_inj] at hlist
  have hsplit := congrArg (rsplitOnce '.') hlist
  rw [rsplitOnce_append hdot, rsplitOnce_append hdot', Option.some.injEq, Prod.mk.injEq,
    String.toList_inj] at hsplit
  exact hsplit.1

/-! ## The final names -/

/-- A model has one final name and one digest, and no other model has its final name. -/
structure UniqueNames (mix : PrepareRequest → Bool) : Prop where
  /-- No two models have one final name. -/
  model : ∀ q q', mix q → mix q' → q.fileName = q'.fileName → q.modelId = q'.modelId
  /-- No model has two final names. -/
  fileName : ∀ q q', mix q → mix q' → q.modelId = q'.modelId → q.fileName = q'.fileName
  /-- No model has two digests. -/
  sha256 : ∀ q q', mix q → mix q' → q.modelId = q'.modelId → q.sha256 = q'.sha256

/-- A final name is neither a cache lock's of the mix nor one that looks like a partial file's. -/
structure PlainNames (mix : PrepareRequest → Bool) : Prop where
  /-- No final name is a lock's. -/
  lock : ∀ q q', mix q → mix q' → q.fileName ≠ lockName q'.modelId
  /-- No final name is a partial file's. -/
  isPartial : ∀ q, mix q → isPartialName q.fileName = false

/-- The mix in which one request is made. -/
def only (request q : PrepareRequest) : Bool := q = request

theorem only_unique (request : PrepareRequest) : UniqueNames (only request) := by
  have hsame : ∀ {q q'}, only request q = true → only request q' = true → q = q' := fun h h' =>
    (of_decide_eq_true h).trans (of_decide_eq_true h').symm
  exact ⟨fun q q' h h' _ => congrArg _ (hsame h h'), fun q q' h h' _ => congrArg _ (hsame h h'),
    fun q q' h h' _ => congrArg _ (hsame h h')⟩

theorem only_plain {request : PrepareRequest} (hlock : request.fileName ≠ lockName request.modelId)
    (hpart : isPartialName request.fileName = false) : PlainNames (only request) := by
  refine ⟨fun q q' h h' => ?_, fun q h => ?_⟩
  · rw [of_decide_eq_true h, of_decide_eq_true h']
    exact hlock
  · rw [of_decide_eq_true h]
    exact hpart

/-- What the manifest pins. -/
def pinnedRequests : List PrepareRequest := manifest.map .fromPin

/-- The mix in which only pinned models are asked for. -/
def pinned (request : PrepareRequest) : Bool := pinnedRequests.contains request

/-- **The pinned models have unique and plain names.** -/
theorem pinned_names : UniqueNames pinned ∧ PlainNames pinned := by
  have hall : ∀ q ∈ pinnedRequests, ∀ q' ∈ pinnedRequests,
      (q.fileName = q'.fileName → q.modelId = q'.modelId) ∧
        (q.modelId = q'.modelId → q.fileName = q'.fileName ∧ q.sha256 = q'.sha256) ∧
        q.fileName ≠ lockName q'.modelId ∧ isPartialName q.fileName = false := by
    decide
  have hmem : ∀ {q}, pinned q = true → q ∈ pinnedRequests :=
    fun h => List.contains_iff_mem.mp h
  refine ⟨⟨?_, ?_, ?_⟩, ⟨?_, ?_⟩⟩
  · exact fun q q' h h' => (hall q (hmem h) q' (hmem h')).1
  · exact fun q q' h h' heq => ((hall q (hmem h) q' (hmem h')).2.1 heq).1
  · exact fun q q' h h' heq => ((hall q (hmem h) q' (hmem h')).2.1 heq).2
  · exact fun q q' h h' => (hall q (hmem h) q' (hmem h')).2.2.1
  · exact fun q h => (hall q (hmem h) q (hmem h)).2.2.2

end SemanticSidecar
