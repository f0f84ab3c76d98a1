import SemanticSidecar.EngineTrait
import SemanticSidecar.Health
import SemanticSidecar.Prepare.Acquire

/-!
# Backend selection

`selectRuntimeWith` decides which llama.cpp device the engine loads on.  A forced CPU is taken at
its word; otherwise the accelerators of the discovery are timed against the CPU, and only a faster
one wins.  A verdict that no failure has tainted is cached under a key of the build and the
machine, and a later start with the same key takes it from there.

The file of the cache is a store of verdicts by key.  Reading it never fails, as a file that
cannot be read is an empty store, and a mutation that cannot be carried out is passed over; which
ones can is up to the monad, in which the probes have their effects too.

Every exit assembles a `RuntimeSelection` of its own, so each has its own name here:
`cpuRuntime`, `degradedRuntime`, `RuntimeCachedChoice.intoRuntime`, and `decide` for the three
outcomes of a comparison.

What is given from outside is listed by the device library, the clock and the file system: the
devices, the outcome of a probe, and what is in the cache file.  All of them are calls in a monad
`m`, so that the results hold for any surroundings and any order of effects in them.  The order of
the calls is the one of the source, which matters because a probe may start a process and a mutation
of the cache takes a lock.

There is nothing to be proved in this module but what the definitions need.  Optimality is in
`Engine/Fastest`, the cache across starts in `Engine/Recall`, the capabilities that are reported in
`Engine/Capabilities`.
-/

set_option autoImplicit false

namespace SemanticSidecar

/-! ## Backends and devices -/

/-- Canonical name of the backend every build can serve. -/
def cpu : String := "cpu"

/-- `METAL`. -/
def metal : String := "metal"

/-- `VULKAN`. -/
def vulkan : String := "vulkan"

/-- `CUDA`. -/
def cuda : String := "cuda"

/-- Backends the sidecar package declares. -/
structure DeclaredBackends where
  /-- The feature `metal`. -/
  metal : Bool
  /-- The feature `vulkan`. -/
  vulkan : Bool
  /-- The feature `cuda`. -/
  cuda : Bool
  /-- The feature `rocm`, which has no candidates. -/
  rocm : Bool
  /-- The feature `dynamic-backends`: modules are loaded from beside the executable. -/
  dynamicBackends : Bool
  deriving DecidableEq, Repr

/-- The build can run on the backend. -/
def DeclaredBackends.supports (declared : DeclaredBackends) (backend : String) : Bool :=
  if backend = SemanticSidecar.metal then declared.metal
  else if backend = SemanticSidecar.vulkan then declared.vulkan
  else if backend = SemanticSidecar.cuda then declared.cuda
  else backend = cpu

/-- The accelerators a candidate can be of, in the order they are looked for. -/
def stableBackends : List String := [metal, vulkan, cuda]

/-- The declared ones among them. -/
def DeclaredBackends.stableAccelerators (declared : DeclaredBackends) : List String :=
  stableBackends.filter declared.supports

/-- Device facts returned by llama.cpp. -/
structure RuntimeDevice where
  /-- The backend the device belongs to, as llama.cpp names it. -/
  backend : String
  /-- The number llama.cpp gives the device. -/
  index : ℕ
  /-- The name of the device. -/
  name : String
  /-- The description of the device. -/
  description : String
  /-- Its memory, in bytes. -/
  memoryTotal : ℕ
  /-- The identity of its driver. -/
  driver : String
  /-- The identity of the driver was found out. -/
  driverCacheable : Bool
  deriving DecidableEq, Repr

/-- A backend that can be placed explicitly for a probe or a final load. -/
structure BackendCandidate where
  /-- The backend. -/
  backend : String
  /-- The device, as the health report names it. -/
  device : String
  /-- The number of the device; the CPU has none. -/
  deviceIndex : Option ℕ
  deriving DecidableEq, Repr

/-- The candidate of every machine. -/
def cpuCandidate : BackendCandidate := ⟨cpu, cpu, none⟩

/-- Identity of the machine's accelerators. -/
structure MachineIdentity where
  /-- The accelerators, joined into a text. -/
  gpu : String
  /-- Their drivers, joined into a text. -/
  driver : String
  /-- Every driver was found out, so that a verdict can be cached. -/
  cacheable : Bool
  deriving DecidableEq, Repr

/-- `Machine::none`. -/
def MachineIdentity.none : MachineIdentity := ⟨"none", "none", true⟩

/-- Candidates and the machine identity that makes their verdict cacheable.  The CPU is a
candidate of every discovery. -/
structure Discovery where
  /-- The candidates, of which the CPU is the first. -/
  candidates : List BackendCandidate
  /-- Which backends have a device. -/
  capabilities : BackendCapabilities
  /-- The identity of the machine. -/
  machine : MachineIdentity
  /-- Why modules of accelerators could not be loaded. -/
  acceleratorFailures : List String
  /-- The accelerators that the build declares. -/
  declaredAccelerators : List String
  /-- There is a candidate. -/
  nonempty : candidates ≠ []

/-- Capability of one accelerator. -/
def setCapability (capabilities : BackendCapabilities) (backend : String) (available : Bool) :
    BackendCapabilities :=
  if backend = metal then { capabilities with metal := available }
  else if backend = vulkan then { capabilities with vulkan := available }
  else if backend = cuda then { capabilities with cuda := available }
  else capabilities

/-- Whether an accelerator's capability is advertised. -/
def BackendCapabilities.has (capabilities : BackendCapabilities) (backend : String) : Bool :=
  if backend = SemanticSidecar.metal then capabilities.metal
  else if backend = SemanticSidecar.vulkan then capabilities.vulkan
  else if backend = SemanticSidecar.cuda then capabilities.cuda
  else false

/-- `normalize_backend`: the accelerator that a device's backend is, if it is one. -/
def normalizeBackend (backend : String) : Option String :=
  if eqIgnoreAsciiCase backend cpu then some cpu
  else if eqIgnoreAsciiCase backend metal || eqIgnoreAsciiCase backend "MTL" then some metal
  else if eqIgnoreAsciiCase backend vulkan then some vulkan
  else if eqIgnoreAsciiCase backend cuda then some cuda
  else none

/-- The devices of a backend. -/
def devicesOf (devices : List RuntimeDevice) (backend : String) : List RuntimeDevice :=
  devices.filter fun device => normalizeBackend device.backend = some backend

/-- Every device of a declared accelerator, with the accelerator's name. -/
def acceleratorDevices (declared : DeclaredBackends) (devices : List RuntimeDevice) :
    List (String × RuntimeDevice) :=
  declared.stableAccelerators.flatMap fun backend =>
    (devicesOf devices backend).map fun device => (backend, device)

/-- The candidate of an accelerator that was found. -/
def candidateOf : String × RuntimeDevice → BackendCandidate
  | (backend, device) =>
    ⟨backend, if (Text.trim device.description).isEmpty then device.name else device.description,
      some device.index⟩

/-- What the text of the accelerators says of one of them. -/
def identityPart : String × RuntimeDevice → String
  | (backend, device) => backend ++ ":" ++ toString device.index ++ ":" ++ device.name ++ ":" ++
      device.description ++ ":" ++ toString device.memoryTotal

/-- What the text of the drivers says of one of them. -/
def driverPart : String × RuntimeDevice → String
  | (backend, device) => backend ++ ":" ++ toString device.index ++ ":" ++ device.driver

/-- Intersects the declared backends with the enumerated devices.  The failures are those of the
modules that were loaded before. -/
def discoverCandidates (declared : DeclaredBackends) (devices : List RuntimeDevice)
    (acceleratorFailures : List String) : Discovery :=
  let found := acceleratorDevices declared devices
  { candidates := cpuCandidate :: found.map candidateOf
    capabilities := found.foldl (fun capabilities entry => setCapability capabilities entry.1 true)
      .cpuOnly
    machine :=
      if found.isEmpty then .none
      else ⟨String.intercalate "," (found.map identityPart),
        String.intercalate "," (found.map driverPart),
        found.all fun entry => entry.2.driverCacheable⟩
    acceleratorFailures
    declaredAccelerators := declared.stableAccelerators
    nonempty := List.cons_ne_nil _ _ }

/-- `candidates[0]`. -/
def Discovery.first (discovery : Discovery) : BackendCandidate :=
  discovery.candidates.head discovery.nonempty

/-! ## Selections -/

/-- The backend decision, in the shape `health` reports it. -/
structure Selection where
  /-- The backend that was asked for. -/
  requested : String
  /-- The backend that is used. -/
  resolved : String
  /-- The backend that is used is not the CPU. -/
  accelerated : Bool
  /-- Why it is not the backend that was asked for. -/
  degradedReason : Option String
  deriving DecidableEq, Repr

/-- Builds a selection, deriving `accelerated` from the resolved backend. -/
def Selection.new (requested resolved : String) (degradedReason : Option String) : Selection :=
  ⟨requested, resolved, resolved != SemanticSidecar.cpu, degradedReason⟩

/-- The undegraded floor. -/
def Selection.cpu : Selection := .new SemanticSidecar.cpu SemanticSidecar.cpu none

/-- An accelerated backend was asked for and the CPU answered instead. -/
def Selection.degradedToCpu (requested reason : String) : Selection :=
  .new requested SemanticSidecar.cpu (some reason)

/-- A selection plus the placement and the capabilities proven by probing. -/
structure RuntimeSelection where
  /-- The decision. -/
  selection : Selection
  /-- The capabilities proven by probing. -/
  capabilities : BackendCapabilities
  /-- The device. -/
  device : String
  /-- The number of the device. -/
  deviceIndex : Option ℕ
  /-- The key of the verdict, if it is cached. -/
  cacheKey : Option String
  deriving DecidableEq, Repr

/-- What a forced CPU resolves to. -/
def cpuRuntime : RuntimeSelection := ⟨.cpu, .cpuOnly, cpu, none, none⟩

/-- `degraded_runtime`: the CPU, and why it is no better. -/
def degradedRuntime (requested reason : String) : RuntimeSelection :=
  ⟨.degradedToCpu requested reason, .cpuOnly, cpu, none, none⟩

/-- Measurements of the fixed probes, in nanoseconds. -/
structure ProbeTiming where
  /-- The time of a batch of one text. -/
  batch1 : ℕ
  /-- The time of a batch of sixteen texts. -/
  batch16 : ℕ
  deriving DecidableEq, Repr

/-- `Duration::MAX`. -/
def durationMax : ℕ := (2 ^ 64 - 1) * 10 ^ 9 + 999999999

/-- The sum of the two, saturating. -/
def ProbeTiming.total (timing : ProbeTiming) : ℕ := min (timing.batch1 + timing.batch16) durationMax

/-! ## The cache -/

/-- Cache-key components known before discovery. -/
structure SelectionContext where
  /-- The version of the sidecar. -/
  sidecarVersion : String
  /-- The digest of the model file. -/
  modelSha256 : String
  /-- The identity of the native build. -/
  nativeBuildIdentity : String
  /-- The identity of the packaged modules. -/
  packagedBackendIdentity : String
  deriving DecidableEq, Repr

/-- A cached verdict, as it is stored. -/
structure RuntimeCachedChoice where
  /-- The backend that was asked for. -/
  requested : String
  /-- The backend that was selected. -/
  resolved : String
  /-- Why it was not the one that was asked for. -/
  degradedReason : Option String
  /-- CUDA has been proven. -/
  cuda : Bool
  /-- Metal has been proven. -/
  metal : Bool
  /-- Vulkan has been proven. -/
  vulkan : Bool
  /-- The device. -/
  device : String
  /-- The number of the device. -/
  deviceIndex : Option ℕ
  deriving DecidableEq, Repr

/-- `RuntimeCachedChoice::from_runtime`. -/
def RuntimeCachedChoice.fromRuntime (runtime : RuntimeSelection) : RuntimeCachedChoice where
  requested := runtime.selection.requested
  resolved := runtime.selection.resolved
  degradedReason := runtime.selection.degradedReason
  cuda := runtime.capabilities.cuda
  metal := runtime.capabilities.metal
  vulkan := runtime.capabilities.vulkan
  device := runtime.device
  deviceIndex := runtime.deviceIndex

/-- `RuntimeCachedChoice::into_runtime`. -/
def RuntimeCachedChoice.intoRuntime (choice : RuntimeCachedChoice) : RuntimeSelection where
  selection := .new choice.requested choice.resolved choice.degradedReason
  capabilities := ⟨true, choice.cuda, false, false, choice.metal, choice.vulkan⟩
  device := choice.device
  deviceIndex := choice.deviceIndex
  cacheKey := none

/-- The verdicts in the cache file, by key. -/
abbrev RuntimeCache := String → Option RuntimeCachedChoice

/-- The cache with an entry more. -/
def RuntimeCache.insert (cache : RuntimeCache) (key : String) (choice : RuntimeCachedChoice) :
    RuntimeCache :=
  fun k => if k = key then some choice else cache k

/-- The cache without an entry. -/
def RuntimeCache.remove (cache : RuntimeCache) (key : String) : RuntimeCache :=
  fun k => if k = key then none else cache k

/-- `to_le_bytes` of a 64-bit length. -/
def lengthBytes (n : ℕ) : List UInt8 := (List.range 8).map fun i => UInt8.ofNat (n / 256 ^ i)

/-- The key of a verdict: a digest of what it depends on. -/
def runtimeCacheKey (sha256 : List UInt8 → List UInt8) (context : SelectionContext)
    (machine : MachineIdentity) : String :=
  hex (sha256 ([context.sidecarVersion, context.modelSha256, context.nativeBuildIdentity,
    context.packagedBackendIdentity, machine.gpu, machine.driver].flatMap fun component =>
      lengthBytes (Text.toUtf8 component).length ++ Text.toUtf8 component))

/-- The cache file. -/
structure SelectionStore (m : Type → Type) where
  /-- The verdicts; a file that cannot be read has none. -/
  readRuntimeStore : m RuntimeCache
  /-- A mutation under the lock of the file, passed over when it cannot be carried out. -/
  mutateRuntimeCache : (RuntimeCache → RuntimeCache) → m Unit

section

variable {m : Type → Type} [Monad m] (store : SelectionStore m)

/-- `read_runtime_cache`. -/
def readRuntimeCache (key : String) : m (Option RuntimeSelection) := do
  let cache ← store.readRuntimeStore
  pure ((cache key).map fun choice => { choice.intoRuntime with cacheKey := some key })

/-- `write_runtime_cache`. -/
def writeRuntimeCache (key : String) (runtime : RuntimeSelection) : m Unit :=
  store.mutateRuntimeCache fun cache => cache.insert key (.fromRuntime runtime)

/-- `invalidate_cached_selection`. -/
def invalidateCachedSelection (runtime : RuntimeSelection) : m Unit :=
  match runtime.cacheKey with
  | none => pure ()
  | some key => store.mutateRuntimeCache fun cache => cache.remove key

end

/-! ## The comparison -/

/-- What the probes of the accelerators have shown so far. -/
structure Tally where
  /-- The fastest accelerator so far, with its times. -/
  fastest : Option (BackendCandidate × ProbeTiming)
  /-- Why accelerators have failed. -/
  failures : List String
  /-- The backends of the accelerators that have come through. -/
  usableBackends : List String
  /-- The backends of the accelerators that have failed. -/
  failedBackends : List String

/-- The probe of one more accelerator. -/
def Tally.record (tally : Tally) (candidate : BackendCandidate) :
    Except String ProbeTiming → Tally
  | .ok timing =>
    { tally with
      usableBackends := candidate.backend :: tally.usableBackends
      fastest :=
        if tally.fastest.all fun current => timing.total < current.2.total then
          some (candidate, timing)
        else tally.fastest }
  | .error reason =>
    { tally with
      failedBackends := candidate.backend :: tally.failedBackends
      failures := tally.failures ++ [candidate.backend ++ " probe failed: " ++ reason] }

/-- The capabilities of a discovery, less the backends whose every probe failed. -/
def Tally.capabilities (tally : Tally) (capabilities : BackendCapabilities) :
    BackendCapabilities :=
  (tally.failedBackends.filter (· ∉ tally.usableBackends)).foldl
    (fun capabilities backend => setCapability capabilities backend false) capabilities

/-- The accelerators that are probed. -/
def Discovery.accelerators (discovery : Discovery) (forced : Option String) :
    List BackendCandidate :=
  discovery.candidates.tail.filter fun candidate =>
    forced.all fun requested => candidate.backend = requested

/-- The backend that is asked for: the forced one, or what the machine would have. -/
def Discovery.requested (discovery : Discovery) (forced : Option String) : Option String :=
  (forced <|> (discovery.accelerators forced).head?.map BackendCandidate.backend) <|>
    discovery.declaredAccelerators.head?

/-- The verdict of a comparison. -/
def decideRuntime (requested : Option String) (capabilities : BackendCapabilities) (cpuTiming : ProbeTiming)
    (tally : Tally) : RuntimeSelection :=
  match tally.fastest with
  | some (winner, timing) =>
    if timing.total < cpuTiming.total then
      ⟨.new winner.backend winner.backend none, capabilities, winner.device, winner.deviceIndex,
        none⟩
    else
      ⟨.degradedToCpu (requested.getD cpu) "accelerated backend did not beat cpu", capabilities,
        cpu, none, none⟩
  | none =>
    match requested with
    | some requested =>
      ⟨.degradedToCpu requested (if tally.failures.isEmpty then "requested backend is unavailable"
        else String.intercalate "; " tally.failures), capabilities, cpu, none, none⟩
    | none => ⟨.cpu, capabilities, cpu, none, none⟩

/-- What a forced backend that cannot be probed resolves to. -/
def refuseForced (discovery : Discovery) (forced : Option String) : Option RuntimeSelection :=
  match forced with
  | none => none
  | some requested =>
    if requested ∉ stableBackends then some (degradedRuntime requested "unknown forced backend")
    else if discovery.candidates.any fun candidate => candidate.backend = requested then none
    else
      some (degradedRuntime requested (if discovery.acceleratorFailures.isEmpty then
        "requested backend is unavailable"
      else String.intercalate "; " discovery.acceleratorFailures))

/-- A cached verdict from before device indexes were stored gets that of the first device of its
backend. -/
def placeCached (discovery : Discovery) (cached : RuntimeSelection) : RuntimeSelection :=
  if cached.deviceIndex.isNone && cached.selection.resolved != cpu then
    { cached with deviceIndex := (discovery.candidates.find? fun candidate =>
        candidate.backend = cached.selection.resolved).bind BackendCandidate.deviceIndex }
  else cached

section

variable {m : Type → Type} [Monad m] (store : SelectionStore m)
  (sha256 : List UInt8 → List UInt8)
  (benchmark : BackendCandidate → m (Except String ProbeTiming))

/-- The probes of the accelerators, one after the other. -/
def probeAll : List BackendCandidate → Tally → m Tally
  | [], tally => pure tally
  | candidate :: rest, tally => do
    let outcome ← benchmark candidate
    probeAll rest (tally.record candidate outcome)

/-- Whether a verdict for this start may come from the cache or go there. -/
def Discovery.isCacheable (discovery : Discovery) (forced : Option String)
    (failures : List String) : Bool :=
  forced.isNone && discovery.machine.cacheable && failures.isEmpty

/-- The cached verdict, where one may be used. -/
def consultCache (key : String) (forced : Option String) (discovery : Discovery) :
    m (Option RuntimeSelection) :=
  if discovery.isCacheable forced discovery.acceleratorFailures then readRuntimeCache store key
  else pure none

/-- The probes, their verdict, and the cache entry for it. -/
def compareRuntimes (key : String) (forced : Option String) (discovery : Discovery) :
    m (Except String RuntimeSelection) := do
  match ← benchmark discovery.first with
  | .error reason => pure (.error ("cpu probe failed: " ++ reason))
  | .ok cpuTiming =>
    let tally ← probeAll benchmark (discovery.accelerators forced)
      ⟨none, discovery.acceleratorFailures, [], []⟩
    let result := decideRuntime (discovery.requested forced)
      (tally.capabilities discovery.capabilities) cpuTiming tally
    if discovery.isCacheable forced tally.failures then
      writeRuntimeCache store key { result with cacheKey := some key }
      pure (.ok { result with cacheKey := some key })
    else pure (.ok result)

/-- Resolves a backend from a discovery and inference probes. -/
def selectRuntimeWith (context : SelectionContext) (forced : Option String)
    (discovery : Discovery) : m (Except String RuntimeSelection) :=
  let forced := forced.map fun value => (Text.trim value).toLower
  if forced = some cpu then pure (.ok cpuRuntime)
  else
    match refuseForced discovery forced with
    | some runtime => pure (.ok runtime)
    | none => do
      let key := runtimeCacheKey sha256 context discovery.machine
      match ← consultCache store key forced discovery with
      | some cached => pure (.ok (placeCached discovery cached))
      | none => compareRuntimes store benchmark key forced discovery

end

end SemanticSidecar
