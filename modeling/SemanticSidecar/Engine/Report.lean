import SemanticSidecar.Engine.Load
import SemanticSidecar.Engine.Batch
import Mathlib.Data.Set.Basic

/-!
# The backend an engine reports

An engine reports the backend it asked for, the one it got, the device, the capabilities and a
reason for the difference.  These facts are assembled at one of the exits of `selectRuntimeWith`
and may be overridden by the fallback of `loadFinal`; this file says that whichever way they came
about they describe the weights that were loaded.

The surroundings of a start, the probes, the native loads and the cache file, are arbitrary and may
depend on everything that has happened: a `LoadWorld` records every native call with its answer,
and the statements are about that record.  `Vetted` is what every exit of the selection
guarantees.  It survives the cache because a cached verdict was vetted for a machine with the same
key, and keys are assumed to tell machines apart, so `Written` caches are `vetted` throughout.

The assumption about keys is named `KeysTellApart` and enters nowhere else: among the installations
that share a cache file, equal keys mean equal declared backends and devices.  `Engine/Machine` says
when that is so.

A `LoadWorld` has two parts, the record of the calls and the cache file.  Everything that is said
about an engine is said about the calls in the record: the load that succeeded is the last one of
the candidate that is reported, and a probe that is appealed to was made.
-/

set_option autoImplicit false

namespace SemanticSidecar

/-! ## The surroundings of a start -/

/-- A native call and its answer. -/
inductive NativeCall where
  /-- A candidate is probed. -/
  | probe (candidate : BackendCandidate) (outcome : Except String ProbeTiming)
  /-- `with_devices` of a placement. -/
  | withDevices (indexes : List ℕ) (outcome : Except String Unit)
  /-- `load_from_file` with a placement. -/
  | load (placement : ModelPlacement) (outcome : Except String LlamaModel)

/-- What has happened, oldest first, and what the cache file holds. -/
structure LoadWorld where
  /-- The native calls so far. -/
  calls : List NativeCall
  /-- The entries of the cache file. -/
  cache : RuntimeCache

/-- How the surroundings answer, given what has happened. -/
structure Surroundings where
  /-- The probe of a candidate. -/
  probe : LoadWorld → BackendCandidate → Except String ProbeTiming
  /-- `with_devices` of a placement. -/
  withDevices : LoadWorld → List ℕ → Except String Unit
  /-- `load_from_file` with a placement. -/
  loadFromFile : LoadWorld → ModelPlacement → Except String LlamaModel
  /-- Whether a mutation of the cache file is carried out. -/
  persists : LoadWorld → Bool

/-- The world with one more call on record. -/
def LoadWorld.record (world : LoadWorld) (call : NativeCall) : LoadWorld :=
  { world with calls := world.calls ++ [call] }

namespace Surroundings

variable (env : Surroundings)

/-- A probe, which goes on record. -/
def benchmark (candidate : BackendCandidate) : StateM LoadWorld (Except String ProbeTiming) :=
  fun world => (env.probe world candidate,
    world.record (.probe candidate (env.probe world candidate)))

/-- The loads of weights, which go on record. -/
def native : NativeLoader (StateM LoadWorld) where
  withDevices indexes world := (env.withDevices world indexes,
    world.record (.withDevices indexes (env.withDevices world indexes)))
  loadFromFile placement world := (env.loadFromFile world placement,
    world.record (.load placement (env.loadFromFile world placement)))

/-- The cache file. -/
def store : SelectionStore (StateM LoadWorld) where
  readRuntimeStore world := (world.cache, world)
  mutateRuntimeCache f world :=
    ((), if env.persists world then { world with cache := f world.cache } else world)

end Surroundings

/-! ## Capabilities and candidates -/

theorem has_setCapability (capabilities : BackendCapabilities) {backend : String}
    (h : backend ∈ stableBackends) (available : Bool) (other : String) :
    (setCapability capabilities backend available).has other =
      if other = backend then available else capabilities.has other := by
  simp only [stableBackends, List.mem_cons, List.not_mem_nil, or_false] at h
  rcases h with rfl | rfl | rfl
  · by_cases hother : other = metal
    · simp [setCapability, BackendCapabilities.has, hother]
    · simp [setCapability, BackendCapabilities.has, hother]
  · by_cases hother : other = vulkan
    · simp [setCapability, BackendCapabilities.has, hother, show vulkan ≠ metal by decide]
    · simp [setCapability, BackendCapabilities.has, hother, show vulkan ≠ metal by decide]
  · by_cases hother : other = cuda
    · simp [setCapability, BackendCapabilities.has, hother, show cuda ≠ metal by decide,
        show cuda ≠ vulkan by decide]
    · simp [setCapability, BackendCapabilities.has, hother, show cuda ≠ metal by decide,
        show cuda ≠ vulkan by decide]

theorem setCapability_of_notMem (capabilities : BackendCapabilities) {backend : String}
    (h : backend ∉ stableBackends) (available : Bool) :
    setCapability capabilities backend available = capabilities := by
  simp only [stableBackends, List.mem_cons, List.not_mem_nil, or_false, not_or] at h
  rw [setCapability, if_neg h.1, if_neg h.2.1, if_neg h.2.2]

/-- Setting some backends one after the other sets the accelerators among them. -/
theorem has_setCapabilities (backends : List String) (available : Bool)
    (capabilities : BackendCapabilities) (backend : String) :
    (backends.foldl (fun capabilities backend => setCapability capabilities backend available)
      capabilities).has backend =
      if backend ∈ backends ∧ backend ∈ stableBackends then available
      else capabilities.has backend := by
  induction backends generalizing capabilities with
  | nil => simp
  | cons first rest ih =>
    rw [List.foldl_cons, ih]
    by_cases hstable : first ∈ stableBackends
    · rw [has_setCapability _ hstable]
      by_cases hfirst : backend = first
      · simp [hfirst, hstable]
      · simp [hfirst]
    · rw [setCapability_of_notMem _ hstable]
      have hcons : backend ∈ first :: rest ∧ backend ∈ stableBackends ↔
          backend ∈ rest ∧ backend ∈ stableBackends := by
        rw [List.mem_cons]
        refine and_congr_left fun hbackend => or_iff_right ?_
        rintro rfl
        exact hstable hbackend
      rw [if_congr hcons rfl rfl]

theorem acceleratorDevices_stable {declared : DeclaredBackends} {devices : List RuntimeDevice}
    {entry : String × RuntimeDevice} (h : entry ∈ acceleratorDevices declared devices) :
    entry.1 ∈ stableBackends := by
  obtain ⟨backend, hbackend, hentry⟩ := List.mem_flatMap.mp h
  obtain ⟨device, -, rfl⟩ := List.mem_map.mp hentry
  exact (List.mem_filter.mp hbackend).1

/-- A discovery advertises the backends of the devices it has found. -/
theorem has_discoverCandidates (declared : DeclaredBackends) (devices : List RuntimeDevice)
    (failures : List String) (backend : String) :
    (discoverCandidates declared devices failures).capabilities.has backend = true ↔
      ∃ entry ∈ acceleratorDevices declared devices, entry.1 = backend := by
  have hfold : (discoverCandidates declared devices failures).capabilities =
      ((acceleratorDevices declared devices).map Prod.fst).foldl
        (fun capabilities backend => setCapability capabilities backend true) .cpuOnly := by
    rw [List.foldl_map]
    rfl
  have hnone : BackendCapabilities.cpuOnly.has backend = false := by
    simp [BackendCapabilities.has, BackendCapabilities.cpuOnly]
  rw [hfold, has_setCapabilities, hnone, ite_eq_iff', List.mem_map]
  constructor
  · rintro ⟨-, hnot⟩
    by_contra hno
    exact Bool.false_ne_true (hnot fun h => hno h.1)
  · rintro ⟨entry, hentry, rfl⟩
    exact ⟨fun _ => rfl, fun hnot =>
      absurd ⟨⟨entry, hentry, rfl⟩, acceleratorDevices_stable hentry⟩ hnot⟩

/-- The accelerators of a discovery: each has a stable name, a device of its own and the
capability. -/
theorem mem_accelerators {declared : DeclaredBackends} {devices : List RuntimeDevice}
    {failures : List String} {candidate : BackendCandidate}
    (h : candidate ∈ (discoverCandidates declared devices failures).candidates.tail) :
    candidate.backend ∈ stableBackends ∧ (∃ index, candidate.deviceIndex = some index) ∧
      (discoverCandidates declared devices failures).capabilities.has candidate.backend = true := by
  obtain ⟨entry, hentry, rfl⟩ := List.mem_map.mp h
  refine ⟨acceleratorDevices_stable hentry, ⟨_, rfl⟩, ?_⟩
  exact (has_discoverCandidates declared devices failures _).mpr ⟨entry, hentry, rfl⟩

theorem stable_ne_cpu {backend : String} (h : backend ∈ stableBackends) : backend ≠ cpu := by
  rintro rfl
  exact absurd h (by decide)

/-! ## What a selection guarantees -/

/-- What every exit of the selection guarantees on a machine, whatever the probes have shown. -/
structure Vetted (discovery : Discovery) (forced : Option String) (runtime : RuntimeSelection) :
    Prop where
  /-- What is accelerated is what is not the CPU. -/
  derived : runtime.selection.accelerated = (runtime.selection.resolved != cpu)
  /-- It names the CPU, or one of the accelerators, with its capability. -/
  placed : runtime.candidate = cpuCandidate ∨ runtime.candidate ∈ discovery.candidates.tail ∧
    runtime.capabilities.has runtime.selection.resolved = true
  /-- Where another backend is used than was asked for there is a reason. -/
  honest : runtime.selection.requested ≠ runtime.selection.resolved →
    runtime.selection.degradedReason ≠ none
  /-- The CPU without a reason was forced, or there is nothing else. -/
  undegraded : runtime.selection.resolved = cpu → runtime.selection.degradedReason = none →
    forced = some cpu ∨ discovery.declaredAccelerators = []

theorem vetted_cpuRuntime (discovery : Discovery) : Vetted discovery (some cpu) cpuRuntime where
  derived := by decide
  placed := Or.inl rfl
  honest h := absurd rfl h
  undegraded _ _ := Or.inl rfl

theorem vetted_degraded (discovery : Discovery) (forced : Option String)
    (capabilities : BackendCapabilities) (requested reason : String) (key : Option String) :
    Vetted discovery forced
      ⟨.degradedToCpu requested reason, capabilities, cpu, none, key⟩ where
  derived := rfl
  placed := Or.inl rfl
  honest _ h := absurd h (by simp [Selection.degradedToCpu, Selection.new])
  undegraded _ h := absurd h (by simp [Selection.degradedToCpu, Selection.new])

theorem vetted_refused {discovery : Discovery} {forced : Option String}
    {runtime : RuntimeSelection} (h : refuseForced discovery forced = some runtime) :
    Vetted discovery forced runtime := by
  rw [refuseForced.eq_def] at h
  split at h
  · exact absurd h (by simp)
  · rename_i requested
    split at h
    · exact Option.some.inj h ▸ vetted_degraded _ _ _ _ _ _
    · split at h
      · exact absurd h (by simp)
      · exact Option.some.inj h ▸ vetted_degraded _ _ _ _ _ _

/-- A tally only knows accelerators it was given, and the fastest of them is usable. -/
def Tally.Of (discovery : Discovery) (tally : Tally) : Prop :=
  ∀ candidate timing, tally.fastest = some (candidate, timing) →
    candidate ∈ discovery.candidates.tail ∧ candidate.backend ∈ tally.usableBackends

theorem Tally.Of.record {discovery : Discovery} {tally : Tally} (h : tally.Of discovery)
    {candidate : BackendCandidate} (hmem : candidate ∈ discovery.candidates.tail)
    (outcome : Except String ProbeTiming) : (tally.record candidate outcome).Of discovery := by
  rcases outcome with reason | timing
  · exact h
  · intro winner best hfastest
    simp only [Tally.record] at hfastest ⊢
    split at hfastest
    · obtain ⟨rfl, rfl⟩ := Prod.mk.inj (Option.some.inj hfastest)
      exact ⟨hmem, List.mem_cons_self⟩
    · obtain ⟨hwinner, husable⟩ := h winner best hfastest
      exact ⟨hwinner, List.mem_cons_of_mem _ husable⟩

/-- The verdict of a comparison is vetted. -/
theorem vetted_decideRuntime {declared : DeclaredBackends} {devices : List RuntimeDevice}
    {failures : List String} {forced : Option String} {tally : Tally}
    (h : tally.Of (discoverCandidates declared devices failures)) (cpuTiming : ProbeTiming) :
    Vetted (discoverCandidates declared devices failures) forced
      (decideRuntime ((discoverCandidates declared devices failures).requested forced)
        (tally.capabilities (discoverCandidates declared devices failures).capabilities)
        cpuTiming tally) := by
  rw [decideRuntime.eq_def]
  split
  · rename_i winner timing hfastest
    obtain ⟨hwinner, husable⟩ := h winner timing hfastest
    obtain ⟨hstable, -, hhas⟩ := mem_accelerators hwinner
    split
    · refine ⟨rfl, Or.inr ⟨hwinner, ?_⟩, fun hne => absurd rfl hne, fun hcpu => ?_⟩
      · refine ((has_setCapabilities _ _ _ _).trans (if_neg ?_)).trans hhas
        rintro ⟨hdisabled, -⟩
        have hnot : winner.backend ∉ tally.usableBackends :=
          of_decide_eq_true (List.mem_filter.mp hdisabled).2
        exact hnot husable
      · exact absurd hcpu (stable_ne_cpu hstable)
    · exact vetted_degraded _ _ _ _ _ _
  · split
    · exact vetted_degraded _ _ _ _ _ _
    · rename_i hrequested
      refine ⟨rfl, Or.inl rfl, fun hne => absurd rfl hne, fun _ _ => Or.inr ?_⟩
      rw [Discovery.requested, Option.orElse_eq_orElse, Option.orElse_eq_or,
        Option.or_eq_none_iff] at hrequested
      exact List.head?_eq_none_iff.mp hrequested.2

theorem decideRuntime_cacheKey (requested : Option String) (capabilities : BackendCapabilities)
    (cpuTiming : ProbeTiming) (tally : Tally) :
    (decideRuntime requested capabilities cpuTiming tally).cacheKey = none := by
  rw [decideRuntime.eq_def]
  split
  · split
    · rfl
    · rfl
  · split
    · rfl
    · rfl

/-- The key is no part of what is guaranteed. -/
theorem Vetted.withKey {discovery : Discovery} {forced : Option String}
    {runtime : RuntimeSelection} (h : Vetted discovery forced runtime) (key : Option String) :
    Vetted discovery forced { runtime with cacheKey := key } :=
  ⟨h.derived, h.placed, h.honest, h.undegraded⟩

/-! ## The cache -/

/-- A build on a machine, as far as the key of a verdict depends on it. -/
structure Installation where
  /-- What a verdict depends on besides the machine. -/
  context : SelectionContext
  /-- The backends that the build declares. -/
  declared : DeclaredBackends
  /-- The devices of the machine. -/
  devices : List RuntimeDevice

/-- What a start on the installation discovers. -/
def Installation.discovery (i : Installation) (failures : List String) : Discovery :=
  discoverCandidates i.declared i.devices failures

variable (sha256 : List UInt8 → List UInt8)

/-- The key of its verdicts; module failures are no part of it. -/
def Installation.key (i : Installation) : String :=
  runtimeCacheKey sha256 i.context (i.discovery []).machine

/-- An equal cache key implies equal declared backends and devices. -/
def KeysTellApart (installations : Set Installation) : Prop :=
  ∀ i ∈ installations, ∀ j ∈ installations, i.key sha256 = j.key sha256 →
    i.declared = j.declared ∧ i.devices = j.devices

/-- The contents of a cache file that earlier starts have written: verdicts of theirs were
inserted, after a miss, and entries were removed, in any order. -/
inductive Written (installations : Set Installation) : RuntimeCache → Prop
  /-- Nothing has been written. -/
  | empty : Written installations fun _ => none
  /-- A start has written its verdict after a miss. -/
  | insert {cache : RuntimeCache} (h : Written installations cache) {i : Installation}
      (hi : i ∈ installations) (env : Surroundings) (forced : Option String)
      (failures : List String) (world world' : LoadWorld) (runtime : RuntimeSelection)
      (hmiss : world.cache (i.key sha256) = none)
      (hrun : (selectRuntimeWith env.store sha256 env.benchmark i.context forced
        (i.discovery failures)).run world = (.ok runtime, world'))
      (hkey : runtime.cacheKey = some (i.key sha256)) :
      Written installations (cache.insert (i.key sha256) (.fromRuntime runtime))
  /-- An entry has been removed. -/
  | remove {cache : RuntimeCache} (h : Written installations cache) (key : String) :
      Written installations (cache.remove key)

/-! ## What a selection does -/

/-- The forced backend, as the selection compares it. -/
def normalizeForced (forced : Option String) : Option String :=
  forced.map fun value => (Text.trim value).toLower

/-- A probe that is not a failure of the CPU's. -/
def NativeCall.Harmless (call : NativeCall) : Prop :=
  ∃ candidate outcome, call = .probe candidate outcome ∧
    (candidate.backend = cpu → ∃ timing, outcome = .ok timing)

/-- The outcomes of a selection. -/
inductive Selects (env : Surroundings) (i : Installation) (forced : Option String)
    (failures : List String) (world : LoadWorld) :
    Except String RuntimeSelection × LoadWorld → Prop
  /-- The probe of the CPU fails. -/
  | failed (reason message : String) :
      Selects env i forced failures world
        (.error message, world.record (.probe cpuCandidate (.error reason)))
  /-- The cache has the verdict. -/
  | cached (choice : RuntimeCachedChoice) (hforced : forced = none)
      (hhit : world.cache (i.key sha256) = some choice) :
      Selects env i forced failures world (.ok (placeCached (i.discovery failures)
        { choice.intoRuntime with cacheKey := some (i.key sha256) }), world)
  /-- There is a verdict, after probes that did no harm. -/
  | decided (runtime : RuntimeSelection) (probes : List NativeCall) (world' : LoadWorld)
      (hvetted : Vetted (i.discovery failures) forced runtime)
      (hprobes : ∀ call ∈ probes, call.Harmless) (hcalls : world'.calls = world.calls ++ probes)
      (hkey : runtime.cacheKey = none ∨ runtime.cacheKey = some (i.key sha256) ∧ forced = none ∧
        world.cache (i.key sha256) = none)
      (hcache : world'.cache = world.cache ∨ runtime.cacheKey = some (i.key sha256) ∧
        world'.cache = world.cache.insert (i.key sha256) (.fromRuntime runtime)) :
      Selects env i forced failures world (.ok runtime, world')

variable {sha256} (env : Surroundings)

theorem mutate_run (f : RuntimeCache → RuntimeCache) (world : LoadWorld) :
    ((env.store.mutateRuntimeCache f).run world).2 =
      if env.persists world then { world with cache := f world.cache } else world := rfl

theorem mutate_calls (f : RuntimeCache → RuntimeCache) (world : LoadWorld) :
    ((env.store.mutateRuntimeCache f).run world).2.calls = world.calls := by
  rw [mutate_run]
  split
  · rfl
  · rfl

theorem mutate_cache (f : RuntimeCache → RuntimeCache) (world : LoadWorld) :
    ((env.store.mutateRuntimeCache f).run world).2.cache = world.cache ∨
      ((env.store.mutateRuntimeCache f).run world).2.cache = f world.cache := by
  rw [mutate_run]
  split
  · exact Or.inr rfl
  · exact Or.inl rfl

/-- What the probes of accelerators leave. -/
theorem probeAll_run {discovery : Discovery} {candidates : List BackendCandidate}
    (hsub : ∀ candidate ∈ candidates, candidate ∈ discovery.candidates.tail ∧
      candidate.backend ≠ cpu) {tally : Tally}
    (h : tally.Of discovery) (world : LoadWorld) :
    ((probeAll env.benchmark candidates tally).run world).1.Of discovery ∧
      (∃ more, ((probeAll env.benchmark candidates tally).run world).1.failures =
        tally.failures ++ more) ∧
      ((probeAll env.benchmark candidates tally).run world).2.cache = world.cache ∧
      ∃ probes, ((probeAll env.benchmark candidates tally).run world).2.calls =
        world.calls ++ probes ∧ ∀ call ∈ probes, call.Harmless := by
  induction candidates generalizing tally world with
  | nil => exact ⟨h, ⟨[], (List.append_nil _).symm⟩, rfl, [], (List.append_nil _).symm, by simp⟩
  | cons candidate rest ih =>
    obtain ⟨hmem, hcpu⟩ := hsub candidate List.mem_cons_self
    obtain ⟨hof, ⟨more, hmore⟩, hcache, probes, hcalls, hprobes⟩ :=
      ih (fun c hc => hsub c (List.mem_cons_of_mem _ hc))
        (h.record hmem (env.probe world candidate))
        (world.record (.probe candidate (env.probe world candidate)))
    have hfailures : ∃ extra, (tally.record candidate (env.probe world candidate)).failures =
        tally.failures ++ extra := by
      rcases env.probe world candidate with reason | timing
      · exact ⟨_, rfl⟩
      · exact ⟨[], (List.append_nil _).symm⟩
    obtain ⟨extra, hextra⟩ := hfailures
    refine ⟨hof, ⟨extra ++ more, ?_⟩, hcache,
      .probe candidate (env.probe world candidate) :: probes, ?_, ?_⟩
    · rw [← List.append_assoc, ← hextra]
      exact hmore
    · refine hcalls.trans ?_
      rw [LoadWorld.record, List.append_assoc, List.singleton_append]
    · rintro call hcall
      rcases List.mem_cons.mp hcall with rfl | hcall
      · exact ⟨candidate, _, rfl, fun heq => absurd heq hcpu⟩
      · exact hprobes call hcall

theorem refused_cacheKey {discovery : Discovery} {forced : Option String}
    {runtime : RuntimeSelection} (h : refuseForced discovery forced = some runtime) :
    runtime.cacheKey = none := by
  rw [refuseForced.eq_def] at h
  split at h
  · exact absurd h (by simp)
  · split at h
    · exact Option.some.inj h ▸ rfl
    · split at h
      · exact absurd h (by simp)
      · exact Option.some.inj h ▸ rfl

theorem consultCache_run (key : String) (forced : Option String) (discovery : Discovery)
    (world : LoadWorld) :
    (consultCache env.store key forced discovery).run world =
      (if discovery.isCacheable forced discovery.acceleratorFailures then
        (world.cache key).map fun choice => { choice.intoRuntime with cacheKey := some key }
      else none, world) := by
  rw [consultCache]
  split
  · rfl
  · rfl

theorem isCacheable_iff {discovery : Discovery} {forced : Option String}
    {failures : List String} : discovery.isCacheable forced failures = true ↔
      forced = none ∧ discovery.machine.cacheable = true ∧ failures = [] := by
  rw [Discovery.isCacheable, Bool.and_eq_true, Bool.and_eq_true, Option.isNone_iff_eq_none,
    List.isEmpty_iff, and_assoc]

/-- The probes are of accelerators. -/
theorem mem_probed {i : Installation} {failures : List String} {forced : Option String}
    {candidate : BackendCandidate} (h : candidate ∈ (i.discovery failures).accelerators forced) :
    candidate ∈ (i.discovery failures).candidates.tail ∧ candidate.backend ≠ cpu := by
  have hmem := (List.mem_filter.mp h).1
  exact ⟨hmem, stable_ne_cpu (mem_accelerators hmem).1⟩

/-- What is done on a miss. -/
theorem compareRuntimes_selects (i : Installation) (forced : Option String)
    (failures : List String) (world : LoadWorld)
    (hmiss : (i.discovery failures).isCacheable forced failures = true →
      world.cache (i.key sha256) = none) :
    Selects sha256 env i forced failures world
      ((compareRuntimes env.store env.benchmark (i.key sha256) forced
        (i.discovery failures)).run world) := by
  rw [compareRuntimes, run_bind_state]
  have hbench : (env.benchmark (i.discovery failures).first).run world =
      (env.probe world cpuCandidate,
        world.record (.probe cpuCandidate (env.probe world cpuCandidate))) := rfl
  rcases hcpu : env.probe world cpuCandidate with reason | cpuTiming
  · rw [hbench, hcpu]
    exact .failed reason _
  · rw [hbench, hcpu]
    dsimp only
    rw [run_bind_state]
    have hsub : ∀ candidate ∈ (i.discovery failures).accelerators forced,
        candidate ∈ (i.discovery failures).candidates.tail ∧ candidate.backend ≠ cpu :=
      fun candidate => mem_probed
    have hstart : Tally.Of (i.discovery failures)
        ⟨none, (i.discovery failures).acceleratorFailures, [], []⟩ :=
      fun _ _ hfastest => absurd hfastest (by simp)
    have hrun := probeAll_run env hsub hstart
      (world.record (.probe cpuCandidate (.ok cpuTiming)))
    generalize (probeAll env.benchmark ((i.discovery failures).accelerators forced)
      ⟨none, (i.discovery failures).acceleratorFailures, [], []⟩).run
      (world.record (.probe cpuCandidate (.ok cpuTiming))) = run at hrun ⊢
    rcases run with ⟨tally, world'⟩
    obtain ⟨hof, ⟨more, hmore⟩, hcache, probes, hcalls, hprobes⟩ := hrun
    have hvetted : Vetted (i.discovery failures) forced
        (decideRuntime ((i.discovery failures).requested forced)
          (tally.capabilities (i.discovery failures).capabilities) cpuTiming tally) :=
      vetted_decideRuntime hof cpuTiming
    have hall : ∀ call ∈ NativeCall.probe cpuCandidate (.ok cpuTiming) :: probes,
        call.Harmless := by
      rintro call hcall
      rcases List.mem_cons.mp hcall with rfl | hcall
      · exact ⟨_, _, rfl, fun _ => ⟨cpuTiming, rfl⟩⟩
      · exact hprobes call hcall
    have hcalls' : world'.calls =
        world.calls ++ .probe cpuCandidate (.ok cpuTiming) :: probes := by
      refine hcalls.trans ?_
      rw [LoadWorld.record, List.append_assoc, List.singleton_append]
    dsimp only
    split
    · -- A verdict for the cache.
      rename_i hcacheable
      obtain ⟨hforced, hmachine, hnone⟩ := isCacheable_iff.mp hcacheable
      have hclean : failures = [] := (List.append_eq_nil_iff.mp (hmore.symm.trans hnone)).1
      have hempty := hmiss (isCacheable_iff.mpr ⟨hforced, hmachine, hclean⟩)
      generalize decideRuntime _ _ cpuTiming tally = result at hvetted ⊢
      have hcalled : ((writeRuntimeCache env.store (i.key sha256)
          { result with cacheKey := some (i.key sha256) }).run world').2.calls = world'.calls :=
        mutate_calls env _ world'
      have hstored : ((writeRuntimeCache env.store (i.key sha256)
            { result with cacheKey := some (i.key sha256) }).run world').2.cache = world'.cache ∨
          ((writeRuntimeCache env.store (i.key sha256)
            { result with cacheKey := some (i.key sha256) }).run world').2.cache =
              world'.cache.insert (i.key sha256) (.fromRuntime result) :=
        mutate_cache env _ world'
      rw [show world'.cache = world.cache from hcache] at hstored
      rw [run_bind_state]
      exact .decided _ _ _ (hvetted.withKey _) hall (hcalled.trans hcalls')
        (Or.inr ⟨rfl, hforced, hempty⟩) (hstored.imp id fun h => ⟨rfl, h⟩)
    · exact .decided _ _ world' hvetted hall hcalls' (Or.inl (decideRuntime_cacheKey _ _ _ _))
        (Or.inl hcache)

/-- **What a selection does**, exit by exit. -/
theorem selectRuntimeWith_selects (i : Installation) (forced : Option String)
    (failures : List String) (world : LoadWorld) :
    Selects sha256 env i (normalizeForced forced) failures world
      ((selectRuntimeWith env.store sha256 env.benchmark i.context forced
        (i.discovery failures)).run world) := by
  simp only [selectRuntimeWith]
  rw [show (forced.map fun value => (Text.trim value).toLower) = normalizeForced forced from rfl]
  generalize normalizeForced forced = requested
  by_cases hcpu : requested = some cpu
  · rw [if_pos hcpu, hcpu]
    exact .decided cpuRuntime [] world (vetted_cpuRuntime _) (by simp) (List.append_nil _).symm
      (Or.inl rfl) (Or.inl rfl)
  rw [if_neg hcpu]
  rcases hrefuse : refuseForced (i.discovery failures) requested with _ | runtime
  swap
  · exact .decided runtime [] world (vetted_refused hrefuse) (by simp) (List.append_nil _).symm
      (Or.inl (refused_cacheKey hrefuse)) (Or.inl rfl)
  dsimp only
  rw [run_bind_state, consultCache_run]
  have hkey : runtimeCacheKey sha256 i.context (i.discovery failures).machine = i.key sha256 := rfl
  rw [hkey]
  by_cases hcacheable : (i.discovery failures).isCacheable requested failures = true
  · have hcacheable' : (i.discovery failures).isCacheable requested
        (i.discovery failures).acceleratorFailures = true := hcacheable
    rw [if_pos hcacheable']
    rcases hhit : world.cache (i.key sha256) with _ | choice
    · exact compareRuntimes_selects env i requested failures world fun _ => hhit
    · exact .cached choice (isCacheable_iff.mp hcacheable).1 hhit
  · have hcacheable' : ¬ (i.discovery failures).isCacheable requested
        (i.discovery failures).acceleratorFailures = true := hcacheable
    rw [if_neg hcacheable']
    exact compareRuntimes_selects env i requested failures world fun h => absurd h hcacheable

/-! ## What survives the cache -/

/-- Module failures are no part of what is guaranteed. -/
theorem Vetted.withFailures {declared : DeclaredBackends} {devices : List RuntimeDevice}
    {failures : List String} {forced : Option String} {runtime : RuntimeSelection}
    (h : Vetted (discoverCandidates declared devices failures) forced runtime)
    (failures' : List String) :
    Vetted (discoverCandidates declared devices failures') forced runtime :=
  ⟨h.derived, h.placed, h.honest, h.undegraded⟩

/-- Reading back what was stored keeps the guarantees. -/
theorem Vetted.restored {discovery : Discovery} {forced : Option String}
    {runtime : RuntimeSelection} (h : Vetted discovery forced runtime) :
    Vetted discovery forced (RuntimeCachedChoice.fromRuntime runtime).intoRuntime :=
  ⟨rfl, h.placed, h.honest, h.undegraded⟩

/-- A vetted verdict has the index of its device. -/
theorem Vetted.placeCached {declared : DeclaredBackends} {devices : List RuntimeDevice}
    {failures : List String} {forced : Option String} {runtime : RuntimeSelection}
    (h : Vetted (discoverCandidates declared devices failures) forced runtime) :
    placeCached (discoverCandidates declared devices failures) runtime = runtime := by
  rw [SemanticSidecar.placeCached, if_neg]
  rw [Bool.and_eq_true, not_and]
  rintro hindex hresolved
  rcases h.placed with hcpu | ⟨haccelerator, -⟩
  · have hbackend : runtime.selection.resolved = cpu := congrArg BackendCandidate.backend hcpu
    rw [hbackend] at hresolved
    exact absurd hresolved (by simp)
  · obtain ⟨-, ⟨index, hsome⟩, -⟩ := mem_accelerators haccelerator
    have hdevice : runtime.deviceIndex = some index := hsome
    rw [hdevice] at hindex
    exact absurd hindex (by simp)

variable {env} {installations : Set Installation}

/-- Every verdict in the cache file was vetted on a machine with its key. -/
theorem Written.vetted {cache : RuntimeCache} (h : Written sha256 installations cache)
    {key : String} {choice : RuntimeCachedChoice} (hchoice : cache key = some choice) :
    ∃ i ∈ installations, i.key sha256 = key ∧ ∃ failures runtime,
      Vetted (i.discovery failures) none runtime ∧ choice = .fromRuntime runtime := by
  induction h with
  | empty => exact absurd hchoice (by simp)
  | @insert cache _ i hi env forced failures world world' runtime hmiss hrun hkey ih =>
    rw [RuntimeCache.insert] at hchoice
    split at hchoice
    · rename_i heq
      have hselects : Selects sha256 env i (normalizeForced forced) failures world
          (.ok runtime, world') := hrun ▸ selectRuntimeWith_selects env i forced failures world
      rcases hselects with _ | ⟨choice', -, hhit⟩ |
        ⟨runtime, probes, world', hvetted, -, -, hkeyed, -⟩
      · rw [hmiss] at hhit
        exact absurd hhit (by simp)
      · rcases hkeyed with hnone | ⟨-, hforced, -⟩
        · rw [hkey] at hnone
          exact absurd hnone (by simp)
        · rw [hforced] at hvetted
          exact ⟨i, hi, heq.symm, failures, runtime, hvetted, (Option.some.inj hchoice).symm⟩
    · exact ih hchoice
  | @remove cache _ removed ih =>
    rw [RuntimeCache.remove] at hchoice
    split at hchoice
    · exact absurd hchoice (by simp)
    · exact ih hchoice

/-- **Whatever a selection returns is vetted**, also what it takes from the cache. -/
theorem Selects.vetted {i : Installation} {forced : Option String} {failures : List String}
    {world world' : LoadWorld} {runtime : RuntimeSelection}
    (h : Selects sha256 env i forced failures world (.ok runtime, world'))
    (hkeys : KeysTellApart sha256 installations) (hi : i ∈ installations)
    (hcache : Written sha256 installations world.cache) :
    Vetted (i.discovery failures) forced runtime := by
  rcases h with _ | ⟨choice, hforced, hhit⟩ | ⟨_, probes, _, hvetted, -, -, -, -⟩
  · obtain ⟨j, hj, hkey, failures', stored, hstored, rfl⟩ := hcache.vetted hhit
    obtain ⟨hdeclared, hdevices⟩ := hkeys j hj i hi hkey
    rw [Installation.discovery, hdeclared, hdevices] at hstored
    have hread := (hstored.restored.withFailures failures).withKey (some (i.key sha256))
    rw [hforced]
    exact hread.placeCached.symm ▸ hread
  · exact hvetted

end SemanticSidecar
