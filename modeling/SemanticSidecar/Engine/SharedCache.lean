import SemanticSidecar.Lib.LockedFile
import SemanticSidecar.Engine.BackendSelect
import Mathlib.Data.String.Basic

/-!
# The cache file, shared

The backend cache of `Engine/BackendSelect` is a file, and every process that uses the cache
directory reads and writes it.  Here are `read_runtime_cache`, `write_runtime_cache` and
`invalidate_cached_selection` down to their calls of the file system, as programs of
`Lib/LockedFile`.

`cache_linearized` is what that comes to: no write and no invalidation is lost, in whatever order
the calls of the processes come and whichever of them are killed, and whoever reads the cache
reads what it held at some time.  A process here performs any sequence of reads, writes and
invalidations.

How a cache is read from the bytes of the file is up to `serde_json`, and enters as `fromSlice`;
all that is assumed of it is that it reads what `serde_json` has written.

A write goes as follows: the lock is taken, the file is read, the new text is written to a temporary
file beside it, and this is renamed to the file, in the course of which the process may be killed at
any call.  A mutation counts as done when its rename is.  One that is killed before that leaves the
file as it was, and a temporary file that nobody reads.

Reads take no lock.  They see the file before a rename or after it, so a reader gets what some first
part of the completed mutations makes of the store.
-/

set_option autoImplicit false

namespace SemanticSidecar

namespace SharedCache

open Prog (perform Follows)
open LockedFile (call)

/-! ## The store -/

/-- The `entries` of a `RuntimeCache`, a `BTreeMap`. -/
abbrev Entries := Std.ExtTreeMap String RuntimeCachedChoice

/-- What a cache with these entries says. -/
def verdicts (entries : Entries) : RuntimeCache := fun key => entries[key]?

/-- What the sidecar does to the cache. -/
inductive Mutation where
  /-- A verdict is entered. -/
  | insert (key : String) (choice : RuntimeCachedChoice)
  /-- A verdict is removed. -/
  | remove (key : String)

/-- What a change makes of the entries. -/
def Mutation.apply : Mutation → Entries → Entries
  | .insert key choice, entries => entries.insert key choice
  | .remove key, entries => entries.erase key

/-- The verdicts after it. -/
def Mutation.change : Mutation → RuntimeCache → RuntimeCache
  | .insert key choice, cache => cache.insert key choice
  | .remove key, cache => cache.remove key

theorem verdicts_apply (mutation : Mutation) (entries : Entries) :
    verdicts (mutation.apply entries) = mutation.change (verdicts entries) := by
  funext other
  have hkey : ∀ key : String, compare key other = .eq ↔ other = key := fun key =>
    Std.compare_eq_iff_eq.trans eq_comm
  cases mutation with
  | insert key choice =>
    show (entries.insert key choice)[other]? = if other = key then some choice else entries[other]?
    rw [Std.ExtTreeMap.getElem?_insert]
    simp only [hkey]
  | remove key =>
    show (entries.erase key)[other]? = if other = key then none else entries[other]?
    rw [Std.ExtTreeMap.getElem?_erase]
    simp only [hkey]

/-! ## Its text -/

/-- `Serialize` for an optional value. -/
def optionValue {α : Type} (toValue : α → Json ℕ) : Option α → Json ℕ
  | none => .null
  | some a => toValue a

/-- `Serialize` for `RuntimeCachedChoice`. -/
def choiceValue (choice : RuntimeCachedChoice) : Json ℕ :=
  .object [("requested", .string choice.requested), ("resolved", .string choice.resolved),
    ("degraded_reason", optionValue .string choice.degradedReason), ("cuda", .bool choice.cuda),
    ("metal", .bool choice.metal), ("vulkan", .bool choice.vulkan),
    ("device", .string choice.device), ("device_index", optionValue .number choice.deviceIndex)]

/-- `Serialize` for `RuntimeCache`. -/
def cacheValue (entries : Entries) : Json ℕ :=
  .object [("entries", .object (entries.toList.map fun entry => (entry.1, choiceValue entry.2)))]

/-- `serde_json::to_vec`.  There is no cache that it fails for. -/
def toVec (entries : Entries) : List UInt8 :=
  Text.toUtf8 (String.ofList (Json.render (Nat.toDigits 10) (cacheValue entries)))

theorem optionValue_injective {α : Type} {toValue : α → Json ℕ}
    (hinj : Function.Injective toValue) (hnull : ∀ a, toValue a ≠ .null) :
    Function.Injective (optionValue toValue) := by
  rintro (_ | a) (_ | b) h
  · rfl
  · exact absurd h.symm (hnull b)
  · exact absurd h (hnull a)
  · exact congrArg some (hinj h)

theorem choiceValue_injective : Function.Injective choiceValue := by
  rintro ⟨requested, resolved, reason, cuda, metal, vulkan, device, index⟩
    ⟨requested', resolved', reason', cuda', metal', vulkan', device', index'⟩ h
  simp only [choiceValue, Json.object.injEq, List.cons.injEq, Prod.mk.injEq, Json.string.injEq,
    Json.bool.injEq, true_and, and_true] at h
  obtain ⟨rfl, rfl, hreason, rfl, rfl, rfl, rfl, hindex⟩ := h
  have hsame : reason = reason' :=
    optionValue_injective (fun _ _ heq => Json.string.inj heq) (fun _ heq => nomatch heq) hreason
  have hsame' : index = index' :=
    optionValue_injective (fun _ _ heq => Json.number.inj heq) (fun _ heq => nomatch heq) hindex
  rw [hsame, hsame']

/-- **The text of a cache says what is in it.** -/
theorem toVec_injective : Function.Injective toVec := by
  intro entries entries' h
  have hvalue := Json.render_injective Json.numerals_toDigits
    (String.ofList_injective (Text.toUtf8_inj h))
  simp only [cacheValue, Json.object.injEq, List.cons.injEq, Prod.mk.injEq, true_and,
    and_true] at hvalue
  have hentry : Function.Injective fun entry : String × RuntimeCachedChoice =>
      (entry.1, choiceValue entry.2) := by
    rintro ⟨key, choice⟩ ⟨key', choice'⟩ heq
    obtain ⟨hkey, hchoice⟩ := Prod.mk.inj heq
    exact Prod.ext hkey (choiceValue_injective hchoice)
  exact Std.ExtTreeMap.toList_inj.mp (List.map_injective_iff.mpr hentry hvalue)

/-! ## The programs -/

/-- `SELECTION_CACHE_FILE`. -/
def selectionCacheFile : String := "backend-selection.json"

/-- The name of the lock file. -/
def selectionLockFile : String := "backend-selection.lock"

/-- The calls, with notes of the mutations asked for and of the stores read without the lock. -/
@[reducible] def cacheSig : Sig := LockedFile.sig Entries Mutation

/-- A new file goes out of scope: its name is removed, if that can be done, and it is closed. -/
def dropTemp (name : String) (file : Handle) : Prog cacheSig Unit := do
  let _ ← call (.remove name)
  call (.close file)

/-- The end of `mutate_runtime_cache`, from the new file on. -/
def placeEncoded (lock : Handle) (encoded : List UInt8) : Prog cacheSig Unit := do
  match ← call (.createTemp ".tmp" "") with
  | .error _ => call (.close lock)
  | .ok (random, temporary) =>
    let name := Files.tempName ".tmp" random ""
    match ← call (.write temporary encoded) with
    | .error _ =>
      dropTemp name temporary
      call (.close lock)
    | .ok () =>
      match ← call (.flush temporary) with
      | .error _ =>
        dropTemp name temporary
        call (.close lock)
      | .ok () =>
        match ← call (.rename name selectionCacheFile) with
        | .error _ => dropTemp name temporary
        | .ok () => call (.close temporary)
        let _ ← call (.unlock lock)
        call (.close lock)

section

variable (fromSlice : List UInt8 → Option Entries) (limit : ℕ)

/-- `read_runtime_store`, which takes no lock. -/
def readRuntimeStore : Prog cacheSig Entries := do
  match ← LockedFile.readFile limit selectionCacheFile with
  | .error _ => return ∅
  | .ok raw => return (fromSlice raw).getD ∅

/-- `read_runtime_cache`. -/
def readRuntimeCache (key : String) : Prog cacheSig (Option RuntimeSelection) := do
  let entries ← readRuntimeStore fromSlice limit
  perform (S := cacheSig) (.saw entries)
  return entries[key]?.map fun choice => { choice.intoRuntime with cacheKey := some key }

/-- `mutate_runtime_cache`: under the lock the file is read, changed and replaced. -/
def mutateRuntimeCache (mutation : Mutation) : Prog cacheSig Unit := do
  match ← call .createDirAll with
  | .error _ => return
  | .ok () =>
    match ← call (.openOrCreate selectionLockFile) with
    | .error _ => return
    | .ok lock =>
      match ← call (.lock lock) with
      | .error _ => call (.close lock)
      | .ok () =>
        let entries ← readRuntimeStore fromSlice limit
        placeEncoded lock (toVec (mutation.apply entries))

/-- `write_runtime_cache`. -/
def writeRuntimeCache (key : String) (runtime : RuntimeSelection) : Prog cacheSig Unit := do
  perform (S := cacheSig) (.asked (.insert key (.fromRuntime runtime)))
  mutateRuntimeCache fromSlice limit (.insert key (.fromRuntime runtime))

/-- `invalidate_cached_selection`. -/
def invalidateCachedSelection (runtime : RuntimeSelection) : Prog cacheSig Unit :=
  match runtime.cacheKey with
  | none => return
  | some key => do
    perform (S := cacheSig) (.asked (.remove key))
    mutateRuntimeCache fromSlice limit (.remove key)

/-- One use of the cache. -/
inductive CacheUse where
  /-- A verdict is looked up. -/
  | read (key : String)
  /-- A verdict is entered. -/
  | write (key : String) (runtime : RuntimeSelection)
  /-- The verdict of a selection is removed. -/
  | invalidate (runtime : RuntimeSelection)

/-- The program of a use. -/
def CacheUse.program : CacheUse → Prog cacheSig (Option RuntimeSelection)
  | .read key => readRuntimeCache fromSlice limit key
  | .write key runtime => do
    writeRuntimeCache fromSlice limit key runtime
    return none
  | .invalidate runtime => do
    invalidateCachedSelection fromSlice limit runtime
    return none

/-- One use after the other. -/
def performAll : List CacheUse → Prog cacheSig (List (Option RuntimeSelection))
  | [] => return []
  | use :: rest => do
    let answer ← use.program fromSlice limit
    let answers ← performAll rest
    return answer :: answers

/-- Any number of processes, each with uses of its own, on one cache directory. -/
@[reducible] def cacheProcesses (initial : Files) :
    Machine cacheSig (List CacheUse) (List (Option RuntimeSelection)) :=
  LockedFile.machine (performAll fromSlice limit) initial

end

/-! ## What they keep to -/

/-- `serde_json` reads what it has written. -/
def ReadsBack (fromSlice : List UInt8 → Option Entries) : Prop :=
  ∀ entries, fromSlice (toVec entries) = some entries

section

variable {fromSlice : List UInt8 → Option Entries} {limit : ℕ}

/-- The cache file as one that many processes update. -/
def cacheFile (hread : ReadsBack fromSlice) : LockedFile Entries Mutation where
  target := selectionCacheFile
  lockName := selectionLockFile
  tempBefore := ".tmp"
  tempAfter := ""
  load raw := (raw.bind fromSlice).getD ∅
  encode := toVec
  apply := Mutation.apply
  load_encode entries := by rw [Option.bind_some, hread entries, Option.getD_some]
  target_ne_lock := by decide
  temp_ne random := by
    have hdot : ∀ name : String, name.toList.head? = some 'b' →
        Files.tempName ".tmp" random "" ≠ name := by
      rintro name hhead rfl
      simp [Files.tempName] at hhead
    exact ⟨hdot _ (by decide), hdot _ (by decide)⟩

variable (hread : ReadsBack fromSlice)

theorem readRuntimeStore_follows (held : Option (Mutation × Handle)) :
    Follows (cacheFile hread).protocol (readRuntimeStore fromSlice limit) (.free held)
      fun entries g => g = .known held entries := by
  refine Follows.bind (((cacheFile hread).readFile_follows limit held).mono ?_)
  rintro (err | raw) g rfl
  · exact rfl
  · exact rfl

theorem placeEncoded_follows (mutation : Mutation) (lock : Handle) (entries : Entries) :
    Follows (cacheFile hread).protocol (placeEncoded lock (toVec (mutation.apply entries)))
      (.known (some (mutation, lock)) entries) fun _ g => g = .free none := by
  refine ⟨.makeTemp mutation lock entries, fun made hmade => ?_⟩
  rcases made with err | ⟨random, temporary⟩
  · obtain ⟨s, hok⟩ := hmade
    exact nomatch hok
  refine ⟨.fill mutation lock entries _ temporary, fun written hwritten => ?_⟩
  rcases written with err | ⟨⟩
  · obtain ⟨s, hok⟩ := hwritten
    exact nomatch hok
  refine ⟨.sync mutation lock entries _ temporary, fun flushed hflushed => ?_⟩
  rcases flushed with err | ⟨⟩
  · obtain ⟨s, hok⟩ := hflushed
    exact nomatch hok
  refine ⟨.replace mutation lock entries _ temporary, fun placed hplaced => ?_⟩
  rcases placed with err | ⟨⟩
  · obtain ⟨s, hok⟩ := hplaced
    exact nomatch hok
  refine ⟨.closeTemp lock temporary true, fun _ _ => ⟨.unlock lock, fun unlocked hunlocked => ?_⟩⟩
  rcases unlocked with err | ⟨⟩
  · obtain ⟨s, hok⟩ := hunlocked
    exact nomatch hok
  exact ⟨.closeLock lock false, fun _ _ => rfl⟩

theorem mutateRuntimeCache_follows (mutation : Mutation) :
    Follows (cacheFile hread).protocol (mutateRuntimeCache fromSlice limit mutation)
      (.asked mutation) fun _ g => g = .free none := by
  refine ⟨.makeDir mutation, fun made hmade => ?_⟩
  rcases made with err | ⟨⟩
  · obtain ⟨s, hok⟩ := hmade
    exact nomatch hok
  refine ⟨.openLock mutation, fun opened hopened => ?_⟩
  rcases opened with err | lock
  · obtain ⟨s, hok⟩ := hopened
    exact nomatch hok
  refine ⟨.takeLock mutation lock, fun taken htaken => ?_⟩
  rcases taken with err | ⟨⟩
  · obtain ⟨s, hok⟩ := htaken
    exact nomatch hok
  simp only [Prog.ret_bind]
  refine Follows.bind ((readRuntimeStore_follows hread (some (mutation, lock))).mono ?_)
  rintro entries g rfl
  exact placeEncoded_follows hread mutation lock entries

theorem use_follows (use : CacheUse) :
    Follows (cacheFile hread).protocol (use.program fromSlice limit) (.free none)
      fun _ g => g = .free none := by
  cases use with
  | read key =>
    refine Follows.bind ((readRuntimeStore_follows hread none).mono ?_)
    rintro entries g rfl
    exact ⟨.see entries, fun _ _ => rfl⟩
  | write key runtime =>
    exact ⟨.ask _, fun _ _ => Follows.bind (mutateRuntimeCache_follows hread _)⟩
  | invalidate runtime =>
    show Follows _ (Prog.bind (invalidateCachedSelection fromSlice limit runtime) _) _ _
    unfold invalidateCachedSelection
    split
    · exact rfl
    · exact ⟨.ask _, fun _ _ => Follows.bind (mutateRuntimeCache_follows hread _)⟩

/-- **Every process keeps to the protocol**, whatever it does with the cache. -/
theorem performAll_follows (uses : List CacheUse) :
    Follows (cacheFile hread).protocol (performAll fromSlice limit uses) (.free none)
      fun _ g => g = .free none := by
  induction uses with
  | nil => exact rfl
  | cons use rest ih =>
    refine Follows.bind ((use_follows hread use).mono ?_)
    rintro answer g rfl
    exact Follows.bind ih

end

/-! ## No update is lost -/

/-- What the cache file in a directory says. -/
def storeIn (fromSlice : List UInt8 → Option Entries) (s : Files) : Entries :=
  ((s.content selectionCacheFile).bind fromSlice).getD ∅

/-- The entries once mutations have been made, one after the other. -/
def mutated (mutations : List (ℕ × Mutation)) (entries : Entries) : Entries :=
  mutations.foldl (fun entries entry => entry.2.apply entries) entries

/-- **The verdicts change as if by one process.** -/
theorem verdicts_mutated (mutations : List (ℕ × Mutation)) (entries : Entries) :
    verdicts (mutated mutations entries) =
      mutations.foldl (fun cache entry => entry.2.change cache) (verdicts entries) := by
  induction mutations generalizing entries with
  | nil => rfl
  | cons entry rest ih =>
    rw [List.foldl_cons, ← verdicts_apply]
    exact ih (entry.2.apply entries)

section

variable {fromSlice : List UInt8 → Option Entries} (hread : ReadsBack fromSlice) {limit : ℕ}
  {initial : Files}

/-- **No mutation of the shared cache is lost**, wherever any interleaving of any number of
processes leads, whichever of them have been killed.  The store is what the completed mutations
make of the initial one in the order of their renames; every reader without the lock has got what
the first ones of them make of it; and a process has completed what it asked for, in that order and
once each, except that the last one may be missing, which it is not once the process is through. -/
theorem cache_linearized {c : (cacheProcesses fromSlice limit initial).Config}
    (h : (cacheProcesses fromSlice limit initial).Reachable c) :
    storeIn fromSlice c.shared =
        mutated ((cacheFile hread).completed c.log) (storeIn fromSlice initial) ∧
      (∀ pid before entries r, .called pid before (.saw entries) r ∈ c.log →
        ∃ mutations, mutations <+: (cacheFile hread).completed c.log ∧
          entries = mutated mutations (storeIn fromSlice initial)) ∧
      (∀ pid, ∃ last : Option Mutation, LockedFile.askedBy pid c.log =
        (cacheFile hread).completedBy pid c.log ++ last.toList) ∧
      ∀ pid answers, .finished pid answers ∈ c.log →
        LockedFile.askedBy pid c.log = (cacheFile hread).completedBy pid c.log :=
  LockedFile.linearized (performAll_follows hread) h

end

/-- A reader that knows what is written, and nothing else. -/
theorem readsBack_partialInv : ReadsBack (Function.partialInv toVec) :=
  Function.partialInv_left toVec_injective

set_option maxRecDepth 4000 in
/-- A process writes a verdict, and is killed before it gives the lock up. -/
theorem written_reachable :
    ∃ c : (cacheProcesses (Function.partialInv toVec) 4096 .empty).Config,
      (cacheProcesses (Function.partialInv toVec) 4096 .empty).Reachable c ∧
      (cacheFile readsBack_partialInv).completed c.log =
        [(0, .insert "key" (.fromRuntime cpuRuntime))] := by
  have started := Machine.Reachable.step Machine.Reachable.start
    (Machine.Step.start (M := cacheProcesses (Function.partialInv toVec) 4096 .empty) 0
      [.write "key" cpuRuntime] rfl rfl)
  have asked := started.step (.call 0 () rfl rfl)
  have made := asked.step (.call 0 (Except.ok () : FileOp.Ret .createDirAll) rfl rfl)
  have opened := made.step (.call 0 (Except.ok 0 : FileOp.Ret (.openOrCreate "")) rfl rfl)
  have locked := opened.step (.call 0 (Except.ok () : FileOp.Ret (.lock 0)) rfl rfl)
  have missing := locked.step
    (.call 0 (Except.error ⟨true, "No such file or directory"⟩ : FileOp.Ret (.openRead "")) rfl rfl)
  have temporary := missing.step
    (.call 0 (Except.ok ("abcdef", 1) : FileOp.Ret (.createTemp "" "")) rfl rfl)
  have written := temporary.step (.call 0 (Except.ok () : FileOp.Ret (.write 1 [])) rfl rfl)
  have synced := written.step (.call 0 (Except.ok () : FileOp.Ret (.flush 1)) rfl rfl)
  have renamed := synced.step (.call 0 (Except.ok () : FileOp.Ret (.rename "" "")) rfl rfl)
  have killed := renamed.step (.kill 0 rfl rfl)
  exact ⟨_, killed, rfl⟩

/-- The verdict is in the file all the same. -/
theorem cache_linearized_killed :
    ∃ c : (cacheProcesses (Function.partialInv toVec) 4096 .empty).Config,
      (cacheProcesses (Function.partialInv toVec) 4096 .empty).Reachable c ∧
      storeIn (Function.partialInv toVec) c.shared =
        mutated [(0, .insert "key" (.fromRuntime cpuRuntime))]
          (storeIn (Function.partialInv toVec) .empty) := by
  obtain ⟨c, hreach, hcompleted⟩ := written_reachable
  refine ⟨c, hreach, ?_⟩
  rw [← hcompleted]
  exact (cache_linearized readsBack_partialInv hreach).1

end SharedCache

end SemanticSidecar
