import SemanticSidecar.Broker.Engine
import SemanticSidecar.Engine.Benchmark
import SemanticSidecar.Engine.Drivers
import SemanticSidecar.Lib.Recorded
import SemanticSidecar.Package.Whitelist

/-!
# A load under a policy

`loadGuarded` is the whole of a load once the weights have been checked: which backend is forced,
which modules are loaded beside the executable, what devices there are, which backend is selected,
and the load on it.  A broker that does not hold the accelerator lease loads under the policy
`cpuOnly`, and so does one that has given its accelerator up; an operator can ask for the same
through the environment.

Such a load goes past everything that accelerators are known by.  `loadGuarded_forcedCpu` says so
of every call it makes: modules of the CPU are scored and one is loaded, and the weights are placed
without devices and without offloaded layers.  No device is listed, no tool is asked, no probe is
run and no cached verdict is read or written.  The two closures of `load_guarded` that panic are
never called.
-/

set_option autoImplicit false

namespace SemanticSidecar

open Recorded (Yields Host ask)

/-! ## What a load calls on -/

/-- The calls of a load. -/
inductive LoadOp where
  /-- `std::env::var(FORCE_BACKEND_ENV)`. -/
  | forceBackendVar
  /-- `std::env::current_exe`. -/
  | currentExe
  /-- The identity of the modules beside the executable is worked out. -/
  | packagedBackendIdentity (executable : String)
  /-- The directory of the executable is looked at. -/
  | moduleDir (executable : String)
  /-- A variant of the CPU's module is asked for its score. -/
  | scoreCpuVariant (path : String)
  /-- A module is loaded. -/
  | loadNativeModule (path : String)
  /-- `LlamaBackend::init`. -/
  | initBackend
  /-- `list_llama_ggml_backend_devices`. -/
  | listDevices
  /-- A tool of a vendor is run. -/
  | spawn (program : String) (args : List String)
  /-- The cache file is read. -/
  | readRuntimeStore
  /-- The cache file is changed. -/
  | mutateRuntimeCache (mutate : RuntimeCache → RuntimeCache)
  /-- `LlamaModelParams::with_devices`. -/
  | withDevices (indexes : List ℕ)
  /-- `LlamaModel::load_from_file` with a placement. -/
  | loadFromFile (placement : ModelPlacement)
  /-- `embed` of a probe. -/
  | embed (placement : ModelPlacement) (engine : LlamaEngine) (texts : List String) (role : Role)
  /-- The time a probe took. -/
  | elapsed

/-- What a call of a load is answered with. -/
@[reducible] def LoadOp.Ret : LoadOp → Type
  | .forceBackendVar => Option String
  | .currentExe => Except String String
  | .packagedBackendIdentity _ => String
  | .moduleDir _ => Option ParentDir
  | .scoreCpuVariant _ => Except String ℤ
  | .loadNativeModule _ => Except String Unit
  | .initBackend => Except String Unit
  | .listDevices => List GgmlBackendDevice
  | .spawn _ _ => Option CommandEnd
  | .readRuntimeStore => RuntimeCache
  | .mutateRuntimeCache _ => Unit
  | .withDevices _ => Except String Unit
  | .loadFromFile _ => Except String LlamaModel
  | .embed _ _ _ _ => Except EngineError EmbedOutput
  | .elapsed => ℕ

/-- The calls of a load and their answers. -/
@[reducible] def loadSig : Sig := ⟨LoadOp, LoadOp.Ret⟩

/-- A closure that is not to be called. -/
inductive Panicked where
  /-- The closure that discovers, where the CPU is forced. -/
  | discovery
  /-- The closure that probes, where the CPU is forced. -/
  | benchmark

/-- A load, which may panic. -/
abbrev LoadM : Type → Type := Recorded loadSig Panicked

/-- What is settled when the program is built. -/
structure BuildFacts where
  /-- The system it is built for. -/
  os : TargetOs
  /-- The backends it declares. -/
  declared : DeclaredBackends
  /-- The identity of the native build. -/
  nativeBuildIdentity : String

/-- The build is for Windows. -/
def BuildFacts.windows (build : BuildFacts) : Bool := build.os == .windows

/-- Reads `JULIE_SIDECAR_FORCE_BACKEND`, treating an empty value as unset. -/
def forcedBackend (value : Option String) : Option String :=
  (value.map Text.trim).filter fun trimmed => !trimmed.isEmpty

/-- The CPU is forced. -/
def isForcedCpu (forced : Option String) : Bool :=
  forced.any fun value => eqIgnoreAsciiCase value cpu

/-! ## The load -/

section

variable {m : Type → Type} [Monad m] (store : SelectionStore m)
  (sha256 : List UInt8 → List UInt8)

/-- `select_runtime_with`: there is a discovery only where it is needed. -/
def selectDiscovered (discover : m Discovery)
    (benchmark : BackendCandidate → m (Except String ProbeTiming)) (context : SelectionContext)
    (forced : Option String) : m (Except String RuntimeSelection) :=
  if (forced.map fun value => (Text.trim value).toLower) = some cpu then pure (.ok cpuRuntime)
  else do
    let discovery ← discover
    selectRuntimeWith store sha256 benchmark context forced discovery

/-- `forced_cpu_runtime_with`: the modules are loaded, and the CPU is selected. -/
def forcedCpuRuntimeWith (loadModules : m (Except String Unit)) (discover : m Discovery)
    (benchmark : BackendCandidate → m (Except String ProbeTiming)) (context : SelectionContext) :
    m (Except EngineError RuntimeSelection) := do
  match ← loadModules with
  | .error reason => pure (.error (.new "BackendDiscovery" reason))
  | .ok () =>
    match ← selectDiscovered store sha256 discover benchmark context (some cpu) with
    | .error reason => pure (.error (.new "BackendProbe" reason))
    | .ok runtime => pure (.ok runtime)

end

section

variable (host : Host loadSig) (build : BuildFacts) (sha256 : List UInt8 → List UInt8)
  (pin : ModelPin)

/-- A call of a load. -/
def call (o : LoadOp) : LoadM o.Ret := ask (S := loadSig) host o

/-- The loads of weights as calls. -/
def nativeOf : NativeLoader LoadM where
  withDevices indexes := call host (.withDevices indexes)
  loadFromFile placement := call host (.loadFromFile placement)

/-- The cache file as calls. -/
def storeOf : SelectionStore LoadM where
  readRuntimeStore := call host .readRuntimeStore
  mutateRuntimeCache mutate := call host (.mutateRuntimeCache mutate)

/-- The probes as calls. -/
def probesOf : ProbeHost LoadM where
  native := nativeOf host
  embed placement engine texts role := call host (.embed placement engine texts role)
  elapsed := call host .elapsed

/-- The modules beside the executable; a static build has none. -/
def loadModules (includeAccelerators : Bool) (executable : String) :
    LoadM (Except String ModuleLoadReport) :=
  if build.declared.dynamicBackends then do
    let parent ← call host (.moduleDir executable)
    loadPackagedModulesWith build.windows (fun path => call host (.scoreCpuVariant path))
      (fun path => call host (.loadNativeModule path)) parent build.declared includeAccelerators
  else pure (.ok ⟨[]⟩)

/-- `load_packaged_cpu_modules_from_executable`. -/
def loadCpuModules (executable : String) : LoadM (Except String Unit) := do
  match ← loadModules host build false executable with
  | .error reason => pure (.error reason)
  | .ok _ => pure (.ok ())

/-- What a verdict depends on, given the identity of the package. -/
def contextOf (packagedBackendIdentity : String) : SelectionContext :=
  ⟨sidecarVersion, pin.sha256, build.nativeBuildIdentity, packagedBackendIdentity⟩

/-- The backend is initialised, and then comes the rest. -/
def withBackend {α : Type} (rest : LoadM (Except EngineError α)) :
    LoadM (Except EngineError α) := do
  match ← call host .initBackend with
  | .error err => pure (.error (.new "BackendInit" err))
  | .ok () => rest

/-- `load_guarded` where the CPU is forced. -/
def loadForcedCpu (executable : String) : LoadM (Except EngineError ServedEngine) := do
  match ← forcedCpuRuntimeWith (storeOf host) sha256 (loadCpuModules host build executable)
      (throw .discovery) (fun _ => throw .benchmark) (contextOf build pin "forced-cpu") with
  | .error err => pure (.error err)
  | .ok runtime => withBackend host (loadFinal (nativeOf host) (storeOf host) pin runtime)

/-- `load_guarded` where it is not. -/
def loadSelected (forced : Option String) (executable : String) :
    LoadM (Except EngineError ServedEngine) := do
  let identity ← call host (.packagedBackendIdentity executable)
  match ← loadModules host build true executable with
  | .error reason => pure (.error (.new "BackendDiscovery" reason))
  | .ok report =>
    withBackend host do
      let devices ← runtimeDevices build.os
        (commandOutput fun program args => call host (.spawn program args))
        (call host .listDevices)
      let discovery := discoverCandidates build.declared devices report.acceleratorFailures
      match ← selectDiscovered (storeOf host) sha256 (pure discovery)
          (benchmarkCandidate (probesOf host) pin) (contextOf build pin identity) forced with
      | .error reason => pure (.error (.new "BackendProbe" reason))
      | .ok runtime => loadFinal (nativeOf host) (storeOf host) pin runtime

/-- What the policy, or the environment, forces. -/
def forcedUnder : BackendPolicy → LoadM (Option String)
  | .auto => do
    let value ← call host .forceBackendVar
    pure (forcedBackend value)
  | .cpuOnly => pure (some cpu)

/-- `load_guarded`. -/
def loadGuarded (policy : BackendPolicy) : LoadM (Except EngineError ServedEngine) := do
  let forced ← forcedUnder host policy
  match ← call host .currentExe with
  | .error err =>
    pure (.error (.new "BackendDiscovery" ("cannot resolve executable: " ++ err)))
  | .ok executable =>
    if isForcedCpu forced then loadForcedCpu host build sha256 pin executable
    else loadSelected host build sha256 pin forced executable

end

/-! ## What is selected from -/

/-- Where the discovery is at hand it makes no difference when it is asked for. -/
theorem selectDiscovered_pure {m : Type → Type} [Monad m] [LawfulMonad m] (store : SelectionStore m)
    (sha256 : List UInt8 → List UInt8)
    (benchmark : BackendCandidate → m (Except String ProbeTiming)) (context : SelectionContext)
    (forced : Option String) (discovery : Discovery) :
    selectDiscovered store sha256 (pure discovery) benchmark context forced =
      selectRuntimeWith store sha256 benchmark context forced discovery := by
  rw [selectDiscovered]
  split
  · rename_i hcpu
    rw [selectRuntimeWith, if_pos hcpu]
  · rw [pure_bind]

/-- **The rest of a load that is not forced** is a selection and the load that follows it, with the
devices that are listed and the failures of the modules. -/
theorem loadSelected_eq (host : Host loadSig) (build : BuildFacts)
    (sha256 : List UInt8 → List UInt8) (pin : ModelPin) (forced : Option String)
    (executable : String) :
    loadSelected host build sha256 pin forced executable = (do
      let identity ← call host (.packagedBackendIdentity executable)
      match ← loadModules host build true executable with
      | .error reason => pure (.error (.new "BackendDiscovery" reason))
      | .ok report =>
        withBackend host do
          let devices ← runtimeDevices build.os
            (commandOutput fun program args => call host (.spawn program args))
            (call host .listDevices)
          selectAndLoad (nativeOf host) (storeOf host) pin sha256
            (benchmarkCandidate (probesOf host) pin) (contextOf build pin identity) forced
            (discoverCandidates build.declared devices report.acceleratorFailures)) := by
  simp only [loadSelected, selectDiscovered_pure]
  rfl

/-! ## What a forced CPU calls -/

/-- A call that has to do with the CPU only. -/
def LoadOp.CpuOnly (windows : Bool) : LoadOp → Prop
  | .forceBackendVar | .currentExe | .moduleDir _ | .initBackend => True
  | .scoreCpuVariant path => isCpuVariant windows path = true
  | .loadNativeModule path => IsCpuModule windows path
  | .loadFromFile placement => placement = ⟨some 0, []⟩
  | _ => False

section

variable {host : Host loadSig} {build : BuildFacts} {sha256 : List UInt8 → List UInt8}
  {pin : ModelPin} {log : List (Prog.Called loadSig)}

/-- The best variant so far is one. -/
def Scoring.IsVariant (windows : Bool) (scoring : Scoring) : Prop :=
  ∀ best, scoring.best = some best → isCpuVariant windows best.1 = true

theorem isVariant_record {windows : Bool} {scoring : Scoring} (h : scoring.IsVariant windows)
    {path : String} (hpath : isCpuVariant windows path = true) (directory : String)
    (outcome : Except String ℤ) :
    (scoring.record windows directory path outcome).IsVariant windows := by
  rcases outcome with reason | score
  · exact h
  · rw [Scoring.record]
    split
    · rintro best hbest
      obtain rfl := Option.some.inj hbest
      exact hpath
    · exact h

theorem scoreVariants_yields {windows : Bool} (directory : String) (paths : List String)
    (hpaths : ∀ path ∈ paths, isCpuVariant windows path = true) (scoring : Scoring)
    (hscoring : scoring.IsVariant windows) :
    Yields (LoadOp.CpuOnly windows) (scoreVariants windows
      (fun path => call host (.scoreCpuVariant path)) directory paths scoring) log
      fun scoring => scoring.IsVariant windows := by
  induction paths generalizing scoring log with
  | nil => exact Yields.pure hscoring
  | cons path rest ih =>
    have hpath := hpaths path List.mem_cons_self
    refine Yields.askAny hpath fun outcome log' => ?_
    exact ih (fun other hother => hpaths other (List.mem_cons_of_mem path hother)) _
      (isVariant_record hscoring hpath directory outcome)

/-- Without accelerators one module is loaded, and it is one of the CPU's. -/
theorem loadModulePaths_yields {windows : Bool} (directory : String) (paths : List String) :
    Yields (LoadOp.CpuOnly windows) (loadModulePaths windows
      (fun path => call host (.scoreCpuVariant path))
      (fun path => call host (.loadNativeModule path)) directory false paths) log
      fun _ => True := by
  refine Yields.bind (scoreVariants_yields directory _
    (fun path hpath => (List.mem_filter.mp hpath).2) ⟨none, []⟩ fun _ hbest => by cases hbest)
    fun scoring log' hscoring => ?_
  split
  · exact Yields.pure True.intro
  · rename_i chosen hchosen
    have hcpu : IsCpuModule windows chosen := by
      rw [Option.orElse_eq_orElse, Option.orElse_eq_or, Option.or_eq_some_iff] at hchosen
      rcases hchosen with hvariant | ⟨-, hbase⟩
      · obtain ⟨best, hbest, rfl⟩ := Option.map_eq_some_iff.mp hvariant
        exact Or.inr (hscoring best hbest)
      · have hname := List.find?_some hbase
        exact Or.inl (of_decide_eq_true hname)
    refine Yields.askAny hcpu fun loaded log' => ?_
    rcases loaded with reason | ⟨⟩
    · exact Yields.pure True.intro
    · exact Yields.pure True.intro

theorem loadCpuModules_yields (executable : String) :
    Yields (LoadOp.CpuOnly build.windows) (loadCpuModules host build executable) log
      fun _ => True := by
  have hmodules : Yields (LoadOp.CpuOnly build.windows) (loadModules host build false executable)
      log fun _ => True := by
    rw [loadModules]
    split
    · refine Yields.askAny True.intro fun parent log' => ?_
      rw [loadPackagedModulesWith, loadModulesFromExecutableWith]
      split
      · exact Yields.pure True.intro
      · split
        · exact Yields.pure True.intro
        · exact loadModulePaths_yields _ _
    · exact Yields.pure True.intro
  refine hmodules.bind fun report log' _ => ?_
  rcases report with reason | report
  · exact Yields.pure True.intro
  · exact Yields.pure True.intro

/-- What an engine says of itself that was loaded on the CPU by force. -/
def ServedEngine.IsForcedCpu (served : ServedEngine) : Prop :=
  served.selection = .cpu ∧ served.device = cpu ∧ served.capabilities = .cpuOnly

/-- A result that is such an engine, if it is one. -/
def OnCpu (result : Except EngineError ServedEngine) : Prop :=
  ∀ served, result = .ok served → served.IsForcedCpu

theorem onCpu_error (err : EngineError) : OnCpu (.error err) := fun _ h => by cases h

/-- The selection of a forced CPU is loaded without devices, and there is nothing to fall back
on. -/
theorem loadFinal_yields (windows : Bool) :
    Yields (LoadOp.CpuOnly windows) (loadFinal (nativeOf host) (storeOf host) pin cpuRuntime) log
      OnCpu := by
  have hcandidate : Yields (LoadOp.CpuOnly windows)
      (loadCandidate (nativeOf host) pin cpuRuntime.candidate .cpu .cpuOnly) log OnCpu := by
    have hparams : modelParamsForCandidate (nativeOf host) cpuRuntime.candidate =
        pure (.ok ⟨some 0, []⟩) := rfl
    have hweights : Yields (LoadOp.CpuOnly windows) (loadWeights (nativeOf host) pin ⟨some 0, []⟩)
        log fun _ => True := by
      have hplaced : LoadOp.CpuOnly windows (.loadFromFile ⟨some 0, []⟩) := rfl
      refine Yields.askAny hplaced fun loaded log' => ?_
      rcases loaded with err | model
      · exact Yields.pure True.intro
      · exact Yields.pure True.intro
    rw [loadCandidate, hparams, pure_bind]
    refine hweights.bind fun engine log' _ => ?_
    rcases engine with err | engine
    · exact Yields.pure (onCpu_error err)
    · refine Yields.pure fun served hserved => ?_
      obtain rfl := Except.ok.inj hserved
      exact ⟨rfl, rfl, rfl⟩
  refine hcandidate.bind fun result log' hresult => ?_
  rcases result with err | served
  · exact Yields.pure (onCpu_error err)
  · exact Yields.pure hresult

/-- **A forced CPU never comes near an accelerator.**  Under the policy `cpuOnly`, or where the
environment forces the CPU, a load does not panic, makes calls that have to do with the CPU only,
and can only end in an engine that reports the CPU, chosen and used. -/
theorem loadGuarded_forcedCpu (host : Host loadSig) (build : BuildFacts)
    (sha256 : List UInt8 → List UInt8) (pin : ModelPin) (policy : BackendPolicy)
    (log : List (Prog.Called loadSig))
    (hforced : policy = .auto → isForcedCpu (forcedBackend (host log .forceBackendVar)) = true) :
    ∃ result calls,
      (loadGuarded host build sha256 pin policy).run log = (.ok result, log ++ calls) ∧
      (∀ call ∈ calls, call.op.CpuOnly build.windows) ∧
      ∀ served, result = .ok served → served.IsForcedCpu := by
  have hunder : Yields (LoadOp.CpuOnly build.windows) (forcedUnder host policy) log
      fun forced => isForcedCpu forced = true := by
    cases policy with
    | cpuOnly => exact Yields.pure rfl
    | auto =>
      refine Yields.bind (Yields.ask (R := fun value => isForcedCpu (forcedBackend value) = true)
        True.intro (hforced rfl)) fun value log' hvalue => Yields.pure hvalue
  have hload : Yields (LoadOp.CpuOnly build.windows) (loadGuarded host build sha256 pin policy) log
      OnCpu := by
    refine hunder.bind fun forced log₁ hcpu => ?_
    refine Yields.askAny True.intro fun executable log₂ => ?_
    rcases executable with err | executable
    · exact Yields.pure (onCpu_error _)
    simp only [hcpu, if_true]
    have hruntime : Yields (LoadOp.CpuOnly build.windows)
        (forcedCpuRuntimeWith (storeOf host) sha256 (loadCpuModules host build executable)
          (throw .discovery) (fun _ => throw .benchmark) (contextOf build pin "forced-cpu"))
        log₂ fun result => ∀ runtime, result = .ok runtime → runtime = cpuRuntime := by
      refine (loadCpuModules_yields executable).bind fun loaded log₃ _ => ?_
      rcases loaded with reason | ⟨⟩
      · exact Yields.pure fun _ h => by cases h
      have hselect : selectDiscovered (storeOf host) sha256 (throw .discovery)
          (fun _ => throw .benchmark) (contextOf build pin "forced-cpu") (some cpu) =
            pure (.ok cpuRuntime) := by
        rw [selectDiscovered, if_pos]
        decide +kernel
      rw [hselect, pure_bind]
      exact Yields.pure fun runtime h => (Except.ok.inj h).symm
    refine hruntime.bind fun result log₃ hresult => ?_
    rcases result with err | runtime
    · exact Yields.pure (onCpu_error err)
    obtain rfl := hresult runtime rfl
    refine Yields.askAny True.intro fun ready log₄ => ?_
    rcases ready with err | ⟨⟩
    · exact Yields.pure (onCpu_error _)
    · exact loadFinal_yields build.windows
  exact hload

/-! ## A package that brings modules of its own -/

/-- The modules of a package: two variants of the CPU's, its base module, and one of Vulkan. -/
def packagedNames : List String :=
  ["libggml-cpu-haswell.so", "libggml-cpu-x64.so", "libggml-cpu.so", "libggml-vulkan.so"]

/-- A directory with these modules. -/
def packagedParent : ParentDir where
  path := Text.toUtf8 "/opt/sidecar"
  listing := .entries ⟨packagedNames.map emptyFile, by decide⟩

/-- A machine with this package on which the operator forces the CPU; one variant is better than the
other, and whatever is to be loaded loads. -/
def packagedHost : Host loadSig := fun _ o =>
  match o with
  | .forceBackendVar => some " CPU "
  | .currentExe => .ok "/opt/sidecar/julie-semantic-sidecar"
  | .packagedBackendIdentity _ => ""
  | .moduleDir _ => some packagedParent
  | .scoreCpuVariant path => if path = "libggml-cpu-haswell.so" then .ok 3 else .ok 1
  | .loadNativeModule _ => .ok ()
  | .initBackend => .ok ()
  | .listDevices => []
  | .spawn _ _ => none
  | .readRuntimeStore => fun _ => none
  | .mutateRuntimeCache _ => ()
  | .withDevices _ => .error "no device"
  | .loadFromFile _ => .ok ⟨fun _ _ => .ok [0], fun _ _ _ _ => .ok []⟩
  | .embed _ _ _ _ => .error (.new "Encode" "no memory")
  | .elapsed => 0

/-- A build that can load Vulkan, and loads its modules when it is run. -/
def vulkanBuild : BuildFacts := ⟨.unix, ⟨false, true, false, false, true⟩, "target=x"⟩

/-- The names of empty files. -/
theorem fileNames_emptyFiles (names : List String) (hnodup) :
    Directory.fileNames ⟨names.map emptyFile, hnodup⟩ = names := by
  have hfiles : (names.map emptyFile).filter DirEntry.isFile = names.map emptyFile := by
    refine List.filter_eq_self.mpr fun entry hentry => ?_
    obtain ⟨name, -, rfl⟩ := List.mem_map.mp hentry
    rfl
  have hname : ((fun entry : DirEntry => Text.fromUtf8 entry.name) ∘ emptyFile) = some :=
    funext Text.fromUtf8_toUtf8
  rw [Directory.fileNames, hfiles, List.filterMap_map, hname, List.filterMap_some]

theorem checkedParent_packaged :
    checkedParent (some packagedParent) = .ok ("/opt/sidecar", packagedParent.listing) := by
  rw [checkedParent, show Text.fromUtf8 packagedParent.path = some "/opt/sidecar" from
    Text.fromUtf8_toUtf8 _]
  dsimp only
  rw [if_neg (by decide)]
  rfl

/-- Without accelerators the modules of the CPU are what there is to load. -/
theorem modulePaths_packaged :
    packagedModulePathsForScope false packagedParent.listing vulkanBuild.declared false =
      .ok ["libggml-cpu-haswell.so", "libggml-cpu-x64.so", "libggml-cpu.so"] := by
  show Except.ok (sortNames ((Directory.fileNames ⟨packagedNames.map emptyFile, _⟩).filter _)) = _
  rw [fileNames_emptyFiles, sortNames, List.mergeSort_of_pairwise]
  · decide +kernel
  · decide +kernel

/-- The variants are scored, and the better one is loaded. -/
theorem loadCpuModules_packaged (log : List (Prog.Called loadSig)) :
    (loadCpuModules packagedHost vulkanBuild "/opt/sidecar/julie-semantic-sidecar").run log =
      (.ok (.ok ()), log ++ [⟨.moduleDir "/opt/sidecar/julie-semantic-sidecar", some packagedParent⟩]
        ++ [⟨.scoreCpuVariant "libggml-cpu-haswell.so", .ok 3⟩]
        ++ [⟨.scoreCpuVariant "libggml-cpu-x64.so", .ok 1⟩]
        ++ [⟨.loadNativeModule "libggml-cpu-haswell.so", .ok ()⟩]) := by
  have hload : loadPackagedModulesWith false (fun path => call packagedHost (.scoreCpuVariant path))
      (fun path => call packagedHost (.loadNativeModule path)) (some packagedParent)
      vulkanBuild.declared false = loadModulePaths false
        (fun path => call packagedHost (.scoreCpuVariant path))
        (fun path => call packagedHost (.loadNativeModule path)) "/opt/sidecar" false
        ["libggml-cpu-haswell.so", "libggml-cpu-x64.so", "libggml-cpu.so"] := by
    rw [loadPackagedModulesWith, loadModulesFromExecutableWith, checkedParent_packaged]
    dsimp only
    rw [modulePaths_packaged]
  have hparent : (call packagedHost (.moduleDir "/opt/sidecar/julie-semantic-sidecar")).run log =
      (.ok (some packagedParent), log ++
        [⟨.moduleDir "/opt/sidecar/julie-semantic-sidecar", some packagedParent⟩]) := rfl
  rw [loadCpuModules, loadModules, if_pos (show vulkanBuild.declared.dynamicBackends = true from rfl),
    bind_assoc, Recorded.run_bind hparent]
  rw [show vulkanBuild.windows = false from rfl, hload]
  rfl

/-- The load goes well, with the better variant. -/
theorem loadGuarded_packaged : ∃ served calls,
    (loadGuarded packagedHost vulkanBuild (fun _ => []) qwen3 .auto).run [] =
      (.ok (.ok served), calls) ∧
    ⟨.loadNativeModule "libggml-cpu-haswell.so", .ok ()⟩ ∈ calls := by
  have hforced : (forcedUnder packagedHost .auto).run [] =
      (.ok (some "CPU"), [⟨.forceBackendVar, some " CPU "⟩]) := by
    have hvalue : forcedBackend (some " CPU ") = some "CPU" := by decide +kernel
    show (Except.ok (forcedBackend (some " CPU ")), _) = _
    rw [hvalue]
    rfl
  have hexecutable (log : List (Prog.Called loadSig)) : (call packagedHost .currentExe).run log =
      (.ok (.ok "/opt/sidecar/julie-semantic-sidecar"), log ++ [⟨.currentExe, _⟩]) := rfl
  rw [loadGuarded, Recorded.run_bind hforced, Recorded.run_bind (hexecutable _)]
  dsimp only
  rw [if_pos (by decide +kernel), loadForcedCpu, forcedCpuRuntimeWith, bind_assoc,
    Recorded.run_bind (loadCpuModules_packaged _), selectDiscovered, if_pos (by decide +kernel)]
  exact ⟨_, _ ++ [⟨.initBackend, .ok ()⟩] ++ [⟨.loadFromFile ⟨some 0, []⟩, _⟩], rfl, by simp⟩

/-- Nothing of it was about Vulkan, and the engine reports the CPU. -/
theorem loadGuarded_forcedCpu_packaged : ∃ served calls,
    (loadGuarded packagedHost vulkanBuild (fun _ => []) qwen3 .auto).run [] =
      (.ok (.ok served), calls) ∧
    ⟨.loadNativeModule "libggml-cpu-haswell.so", .ok ()⟩ ∈ calls ∧
    (∀ call ∈ calls, call.op.CpuOnly vulkanBuild.windows) ∧ served.IsForcedCpu := by
  obtain ⟨served, calls, hrun, hloaded⟩ := loadGuarded_packaged
  obtain ⟨result, calls', hrun', hcalls, hserved⟩ :=
    loadGuarded_forcedCpu packagedHost vulkanBuild (fun _ => []) qwen3 .auto [] fun _ => by
      decide +kernel
  rw [hrun, List.nil_append] at hrun'
  cases hrun'
  exact ⟨served, calls, hrun, hloaded, hcalls, hserved served rfl⟩

end

end SemanticSidecar
