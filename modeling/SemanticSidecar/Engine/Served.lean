import SemanticSidecar.Engine.Report

/-!
# The engine a start serves

The composition of the selection and the final load.  `start` is one start of the engine on an
installation, in a world where nothing has been called yet, and `selected` its selection alone.

`loadCandidate_run` describes one load by the calls it adds to the record; the last of them is the
load of the weights.  `loadFinal` is one load or two, and `LoadsFinal.reports` puts what it adds on top
of what every selection guarantees.

`start_isTruthful` has three parts.  A start fails exactly if the probe or the load of the CPU does,
since there is nothing to fall back on then.  What an engine reports is true of the load it came
from.  And a verdict is removed from the cache for an accelerator that did not load and for no other
reason, and is removed whenever the cache file can be rewritten.

The machine of the last part has one card, on which the probe succeeds and the load does not: the
engine is a CPU engine that says why, and its capabilities do not have the card.
-/

set_option autoImplicit false

namespace SemanticSidecar

/-! ## One load -/

/-- The call is what makes a load with this placement fail. -/
def NativeCall.FailsLoad (pin : ModelPin) (placement : ModelPlacement) : NativeCall → Prop
  | .withDevices indexes (.error _) => indexes = placement.deviceIndexes
  | .load other (.error _) => other = placement
  | .load other (.ok model) => other = placement ∧ ∃ err, LlamaEngine.ofModel pin model = .error err
  | _ => False

/-- The record has a load of this candidate that failed. -/
def LoadFailed (pin : ModelPin) (candidate : BackendCandidate) (calls : List NativeCall) : Prop :=
  ∃ call ∈ calls, call.FailsLoad pin (placementForCandidate candidate)

/-- The call belongs to a load with this placement. -/
def NativeCall.Loads (placement : ModelPlacement) : NativeCall → Prop
  | .withDevices indexes _ => indexes = placement.deviceIndexes ∧ indexes ≠ []
  | .load other _ => other = placement
  | .probe _ _ => False

theorem loadFailed_append (pin : ModelPin) (candidate : BackendCandidate)
    (front back : List NativeCall) :
    LoadFailed pin candidate (front ++ back) ↔
      LoadFailed pin candidate front ∨ LoadFailed pin candidate back := by
  simp only [LoadFailed, List.mem_append, or_and_right, exists_or]

theorem placement_cpu {candidate : BackendCandidate} (h : candidate.backend = cpu) :
    placementForCandidate candidate = ⟨some 0, []⟩ :=
  if_pos h

theorem placement_accelerator {candidate : BackendCandidate} (h : candidate.backend ≠ cpu) :
    placementForCandidate candidate = ⟨none, candidate.deviceIndex.toList⟩ :=
  if_neg h

/-- No call of the CPU's load fails an accelerator's, or the other way round. -/
theorem not_loadFailed_of_loads {pin : ModelPin} {candidate other : BackendCandidate}
    {calls : List NativeCall}
    (hcalls : ∀ call ∈ calls, call.Loads (placementForCandidate candidate))
    (hother : candidate.backend = cpu ↔ other.backend ≠ cpu) : ¬ LoadFailed pin other calls := by
  rintro ⟨call, hcall, hfails⟩
  have hloads := hcalls call hcall
  have hne : placementForCandidate candidate ≠ placementForCandidate other := by
    intro heq
    by_cases hcpu : candidate.backend = cpu
    · rw [placement_cpu hcpu, placement_accelerator (hother.mp hcpu)] at heq
      exact absurd (congrArg ModelPlacement.nGpuLayers heq) (by simp)
    · rw [placement_accelerator hcpu, placement_cpu (not_not.mp (mt hother.mpr hcpu))] at heq
      exact absurd (congrArg ModelPlacement.nGpuLayers heq) (by simp)
  rcases call with ⟨_, _⟩ | ⟨indexes, err | _⟩ | ⟨placement, err | model⟩
  · exact hloads
  · obtain ⟨hindexes, hnonempty⟩ := hloads
    by_cases hcpu : candidate.backend = cpu
    · rw [placement_cpu hcpu] at hindexes
      exact hnonempty hindexes
    · have hcpu' : other.backend = cpu := not_not.mp (mt hother.mpr hcpu)
      have hnone : indexes = [] := by
        rw [placement_cpu hcpu'] at hfails
        exact hfails
      exact hnonempty hnone
  · exact hfails
  · exact hne (hloads.symm.trans hfails)
  · exact hne (hloads.symm.trans hfails.1)

/-- What a load adds to the record, and what comes of it. -/
structure LoadRun (pin : ModelPin) (candidate : BackendCandidate) (selection : Selection)
    (capabilities : BackendCapabilities) (world : LoadWorld)
    (run : Except EngineError ServedEngine × LoadWorld) (calls : List NativeCall) : Prop where
  /-- The calls go on record, and the cache stays. -/
  world : run.2 = { world with calls := world.calls ++ calls }
  /-- The calls are those of a load with the placement of the candidate. -/
  loads : ∀ call ∈ calls, call.Loads (placementForCandidate candidate)
  /-- It fails exactly if one of the calls does. -/
  failed : (∃ err, run.1 = .error err) ↔ LoadFailed pin candidate calls
  /-- The engine reports the candidate, and is of the weights that were loaded last. -/
  served : ∀ engine, run.1 = .ok engine → engine.device = candidate.device ∧
    engine.selection = selection ∧ engine.capabilities = capabilities ∧
    calls.getLast? = some (.load (placementForCandidate candidate) (.ok engine.engine.model))

variable (env : Surroundings)

/-- The load of the weights: one call, and a failure exactly if the call is one. -/
theorem loadWeights_run (pin : ModelPin) (placement : ModelPlacement) (world : LoadWorld) :
    ∃ outcome, ((loadWeights env.native pin placement).run world).2 =
        world.record (.load placement outcome) ∧
      ((∃ err, ((loadWeights env.native pin placement).run world).1 = .error err) ↔
        (NativeCall.load placement outcome).FailsLoad pin placement) ∧
      ∀ engine, ((loadWeights env.native pin placement).run world).1 = .ok engine →
        outcome = .ok engine.model := by
  refine ⟨env.loadFromFile world placement, ?_⟩
  rw [loadWeights, run_bind_state]
  have hcall : (env.native.loadFromFile placement).run world = (env.loadFromFile world placement,
      world.record (.load placement (env.loadFromFile world placement))) := rfl
  rw [hcall]
  rcases env.loadFromFile world placement with err | model
  · exact ⟨rfl, ⟨fun _ => rfl, fun _ => ⟨_, rfl⟩⟩, fun engine h => absurd h (by simp)⟩
  · refine ⟨rfl, ⟨fun h => ⟨rfl, h⟩, fun h => h.2⟩, fun engine h => ?_⟩
    rw [(ofModel_ok h).2]

/-- What a start makes of the loaded weights. -/
def engineLoaded (candidate : BackendCandidate) (selection : Selection)
    (capabilities : BackendCapabilities) :
    Except EngineError LlamaEngine → StateM LoadWorld (Except EngineError ServedEngine)
  | .error err => pure (.error err)
  | .ok engine => pure (.ok ⟨engine, candidate.device, selection, capabilities⟩)

theorem loadCandidate_run (pin : ModelPin) (candidate : BackendCandidate) (selection : Selection)
    (capabilities : BackendCapabilities) (world : LoadWorld) :
    ∃ calls, LoadRun pin candidate selection capabilities world
      ((loadCandidate env.native pin candidate selection capabilities).run world) calls := by
  -- What the load of the weights comes to, after the calls `before` that have gone well.
  have hweights : ∀ before : List NativeCall,
      (∀ call ∈ before, call.Loads (placementForCandidate candidate) ∧
        ¬ call.FailsLoad pin (placementForCandidate candidate)) →
      ∀ world₁, world₁ = { world with calls := world.calls ++ before } →
      ∃ calls, LoadRun pin candidate selection capabilities world
        ((loadWeights env.native pin (placementForCandidate candidate) >>=
          engineLoaded candidate selection capabilities).run world₁) calls := by
    rintro before hbefore _ rfl
    obtain ⟨outcome, hworld, hfailed, hserved⟩ := loadWeights_run env pin
      (placementForCandidate candidate) { world with calls := world.calls ++ before }
    rw [run_bind_state]
    refine ⟨before ++ [.load (placementForCandidate candidate) outcome], ?_⟩
    have hloads : ∀ outcome, ∀ call ∈ before ++ [.load (placementForCandidate candidate) outcome],
        call.Loads (placementForCandidate candidate) := by
      intro outcome call hcall
      rcases List.mem_append.mp hcall with hcall | hcall
      · exact (hbefore call hcall).1
      · obtain rfl := List.mem_singleton.mp hcall
        rfl
    have hiff : LoadFailed pin candidate
        (before ++ [.load (placementForCandidate candidate) outcome]) ↔
        (NativeCall.load (placementForCandidate candidate) outcome).FailsLoad pin
          (placementForCandidate candidate) := by
      rw [loadFailed_append]
      refine ⟨fun h => h.elim (fun ⟨call, hcall, hfails⟩ => absurd hfails (hbefore call hcall).2)
        fun ⟨call, hcall, hfails⟩ => List.mem_singleton.mp hcall ▸ hfails,
        fun h => Or.inr ⟨_, List.mem_singleton_self _, h⟩⟩
    generalize hresult : (loadWeights env.native pin (placementForCandidate candidate)).run
      { world with calls := world.calls ++ before } = result at hworld hfailed hserved ⊢
    rcases result with ⟨err | engine, world₂⟩
    · refine ⟨?_, ?_, ?_, fun engine h => absurd h (by simp [engineLoaded])⟩
      · exact hworld.trans (congrArg (LoadWorld.mk · world.cache) (List.append_assoc _ _ _))
      · exact hloads outcome
      · exact ⟨fun _ => hiff.mpr (hfailed.mp ⟨err, rfl⟩), fun _ => ⟨err, rfl⟩⟩
    · refine ⟨?_, ?_, ?_, fun served h => ?_⟩
      · exact hworld.trans (congrArg (LoadWorld.mk · world.cache) (List.append_assoc _ _ _))
      · exact hloads outcome
      · constructor
        · rintro ⟨_, h⟩
          exact absurd h (by simp [engineLoaded])
        · intro h
          obtain ⟨_, h⟩ := hfailed.mpr (hiff.mp h)
          exact absurd h (by simp)
      · obtain rfl := Except.ok.inj h
        refine ⟨rfl, rfl, rfl, ?_⟩
        rw [List.getLast?_append, hserved engine rfl]
        rfl
  rw [loadCandidate, modelParamsForCandidate]
  by_cases hnone : (placementForCandidate candidate).deviceIndexes.isEmpty = true
  · simp only [hnone, if_true, pure_bind]
    exact hweights [] (by simp) world (by simp)
  simp only [hnone, Bool.false_eq_true, if_false]
  rw [run_bind_state, run_bind_state]
  have hcall : (env.native.withDevices (placementForCandidate candidate).deviceIndexes).run world =
      (env.withDevices world (placementForCandidate candidate).deviceIndexes,
        world.record (.withDevices (placementForCandidate candidate).deviceIndexes
          (env.withDevices world (placementForCandidate candidate).deviceIndexes))) := rfl
  rw [hcall]
  have hnonempty : (placementForCandidate candidate).deviceIndexes ≠ [] :=
    mt List.isEmpty_iff.mpr hnone
  rcases env.withDevices world (placementForCandidate candidate).deviceIndexes with err | ⟨⟩
  · refine ⟨[.withDevices (placementForCandidate candidate).deviceIndexes (.error err)], rfl, ?_,
      ⟨fun _ => ⟨_, List.mem_singleton_self _, rfl⟩, fun _ => ⟨_, rfl⟩⟩, fun engine h => ?_⟩
    swap
    · have herr : Except.error (EngineError.new "BackendPlacement" err) = Except.ok engine := h
      exact absurd herr (by simp)
    intro call hcall
    obtain rfl := List.mem_singleton.mp hcall
    exact ⟨rfl, hnonempty⟩
  · refine hweights [.withDevices (placementForCandidate candidate).deviceIndexes (.ok ())] ?_ _ rfl
    intro call hcall
    obtain rfl := List.mem_singleton.mp hcall
    exact ⟨⟨rfl, hnonempty⟩, not_false⟩

/-! ## The final load -/

/-- The loads that a final load is made of: of what was selected, or of the CPU after an accelerator
that did not load. -/
inductive LoadsFinal (pin : ModelPin) (runtime : RuntimeSelection) (world : LoadWorld) :
    Except EngineError ServedEngine × LoadWorld → List NativeCall → Prop
  /-- What was selected is loaded, or is the CPU and does not load. -/
  | direct (run : Except EngineError ServedEngine × LoadWorld) (calls : List NativeCall)
      (hrun : LoadRun pin runtime.candidate runtime.selection runtime.capabilities world run calls)
      (hdone : runtime.candidate.backend ≠ cpu → ∃ engine, run.1 = .ok engine) :
      LoadsFinal pin runtime world run calls
  /-- The accelerator did not load, its verdict is invalidated, and the CPU is loaded. -/
  | fallback (err : EngineError) (world₁ : LoadWorld) (first : List NativeCall)
      (run : Except EngineError ServedEngine × LoadWorld) (calls : List NativeCall)
      (hfirst : LoadRun pin runtime.candidate runtime.selection runtime.capabilities world
        (.error err, world₁) first)
      (haccelerator : runtime.candidate.backend ≠ cpu)
      (hrun : LoadRun pin cpuCandidate (fallbackSelection runtime.candidate err)
        (disableCapability runtime.capabilities runtime.candidate.backend)
        ((invalidateCachedSelection env.store runtime).run world₁).2 run calls) :
      LoadsFinal pin runtime world run (first ++ calls)

theorem loadFinal_run (pin : ModelPin) (runtime : RuntimeSelection) (world : LoadWorld) :
    ∃ calls, LoadsFinal env pin runtime world
      ((loadFinal env.native env.store pin runtime).run world) calls := by
  rw [loadFinal, run_bind_state]
  obtain ⟨first, hfirst⟩ := loadCandidate_run env pin runtime.candidate runtime.selection
    runtime.capabilities world
  generalize (loadCandidate env.native pin runtime.candidate runtime.selection
    runtime.capabilities).run world = result at hfirst ⊢
  rcases result with ⟨err | engine, world₁⟩
  · dsimp only
    by_cases haccelerator : runtime.candidate.backend ≠ cpu
    · rw [if_pos haccelerator, run_bind_state]
      obtain ⟨calls, hcalls⟩ := loadCandidate_run env pin cpuCandidate
        (fallbackSelection runtime.candidate err)
        (disableCapability runtime.capabilities runtime.candidate.backend)
        ((invalidateCachedSelection env.store runtime).run world₁).2
      exact ⟨first ++ calls, .fallback err world₁ first _ calls hfirst haccelerator hcalls⟩
    · rw [if_neg haccelerator]
      exact ⟨first, .direct _ first hfirst fun h => absurd h haccelerator⟩
  · exact ⟨first, .direct _ first hfirst fun _ => ⟨engine, rfl⟩⟩

theorem invalidate_calls (runtime : RuntimeSelection) (world : LoadWorld) :
    ((invalidateCachedSelection env.store runtime).run world).2.calls = world.calls := by
  rw [invalidateCachedSelection.eq_def]
  split
  · rfl
  · exact mutate_calls env _ world

/-- A rewritten cache has lost the verdict. -/
theorem invalidate_cache {runtime : RuntimeSelection} {key : String}
    (hkey : runtime.cacheKey = some key) (world : LoadWorld) (hpersists : env.persists world = true) :
    ((invalidateCachedSelection env.store runtime).run world).2.cache key = none := by
  rw [invalidateCachedSelection.eq_def, hkey]
  dsimp only
  rw [mutate_run, if_pos hpersists]
  exact if_pos rfl

/-! ## What is reported -/

/-- What an engine reports describes the load that the record `calls` of its start ends with. -/
structure Reports (i : Installation) (forced : Option String) (failures : List String)
    (calls : List NativeCall) (engine : ServedEngine) : Prop where
  /-- It is accelerated exactly if it is not on the CPU. -/
  accelerated : engine.selection.accelerated = true ↔ engine.selection.resolved ≠ cpu
  /-- The last load was with the placement of the device that is reported. -/
  loaded : ∃ candidate ∈ (i.discovery failures).candidates,
    candidate.backend = engine.selection.resolved ∧ candidate.device = engine.device ∧
    calls.getLast? = some (.load (placementForCandidate candidate) (.ok engine.engine.model))
  /-- An accelerator's placement names its device, the CPU's none. -/
  placed : engine.selection.resolved ≠ cpu ↔
    ∃ index, calls.getLast? = some (.load ⟨none, [index]⟩ (.ok engine.engine.model))
  /-- Where another backend is used than was asked for there is a reason. -/
  honest : engine.selection.requested ≠ engine.selection.resolved →
    engine.selection.degradedReason ≠ none
  /-- The CPU without a reason was forced, or there is nothing else. -/
  undegraded : engine.selection.resolved = cpu → engine.selection.degradedReason = none →
    forced = some cpu ∨ (i.discovery failures).declaredAccelerators = []
  /-- The capability of the accelerator that is used is reported. -/
  capable : engine.selection.resolved ≠ cpu →
    engine.capabilities.has engine.selection.resolved = true

/-- The engine of a load reports it, when what was selected is vetted. -/
theorem Vetted.reports {i : Installation} {forced : Option String} {failures : List String}
    {runtime : RuntimeSelection} (h : Vetted (i.discovery failures) forced runtime)
    {pin : ModelPin} {world : LoadWorld} {run : Except EngineError ServedEngine × LoadWorld}
    {calls : List NativeCall} (hrun : LoadRun pin runtime.candidate runtime.selection
      runtime.capabilities world run calls) {engine : ServedEngine} (hok : run.1 = .ok engine)
    (front : List NativeCall) : Reports i forced failures (front ++ calls) engine := by
  obtain ⟨hdevice, hselection, hcapabilities, hlast⟩ := hrun.served engine hok
  have hlast' : (front ++ calls).getLast? =
      some (.load (placementForCandidate runtime.candidate) (.ok engine.engine.model)) := by
    rw [List.getLast?_append, hlast]
    rfl
  have hmem : runtime.candidate ∈ (i.discovery failures).candidates :=
    h.placed.elim (fun hcpu => hcpu ▸ List.mem_cons_self) fun hacc => List.mem_of_mem_tail hacc.1
  have hresolved : engine.selection.resolved = runtime.candidate.backend :=
    congrArg Selection.resolved hselection
  refine ⟨?_, ⟨_, hmem, hresolved.symm, hdevice.symm, hlast'⟩, ?_, ?_, ?_, ?_⟩
  · rw [hselection, h.derived, bne_iff_ne]
  · rw [hresolved, hlast']
    constructor
    · intro haccelerator
      obtain ⟨hacc, -⟩ := h.placed.resolve_left fun hcpu =>
        haccelerator (congrArg BackendCandidate.backend hcpu)
      obtain ⟨-, ⟨index, hindex⟩, -⟩ := mem_accelerators hacc
      refine ⟨index, ?_⟩
      rw [placement_accelerator haccelerator, hindex]
      rfl
    · rintro ⟨index, heq⟩ hcpu
      rw [placement_cpu hcpu] at heq
      exact absurd heq (by simp)
  · rw [hselection]
    exact h.honest
  · rw [hselection]
    exact h.undegraded
  · rw [hselection, hcapabilities]
    exact fun haccelerator => (h.placed.resolve_left fun hcpu =>
      haccelerator (congrArg BackendCandidate.backend hcpu)).2

/-- A probe of the CPU was run and failed. -/
def CpuProbeFailed (calls : List NativeCall) : Prop :=
  ∃ reason, .probe cpuCandidate (.error reason) ∈ calls

section Start

variable {env} {sha256 : List UInt8 → List UInt8} {pin : ModelPin} {runtime : RuntimeSelection}
  {world : LoadWorld} {run : Except EngineError ServedEngine × LoadWorld} {calls : List NativeCall}

theorem LoadsFinal.calls_eq (h : LoadsFinal env pin runtime world run calls) :
    run.2.calls = world.calls ++ calls := by
  rcases h with ⟨_, _, hrun, -⟩ | ⟨err, world₁, first, _, calls, hfirst, -, hrun⟩
  · exact congrArg LoadWorld.calls hrun.world
  · have hfirst' : world₁ = { world with calls := world.calls ++ first } := hfirst.world
    rw [hrun.world]
    dsimp only
    rw [invalidate_calls, hfirst', List.append_assoc]

theorem LoadsFinal.loads (h : LoadsFinal env pin runtime world run calls) :
    ∀ call ∈ calls, ∃ placement, call.Loads placement := by
  rcases h with ⟨_, _, hrun, -⟩ | ⟨err, world₁, first, _, calls, hfirst, -, hrun⟩
  · exact fun call hcall => ⟨_, hrun.loads call hcall⟩
  · intro call hcall
    rcases List.mem_append.mp hcall with hcall | hcall
    · exact ⟨_, hfirst.loads call hcall⟩
    · exact ⟨_, hrun.loads call hcall⟩

/-- A final load fails with the CPU's load. -/
theorem LoadsFinal.failed_iff (h : LoadsFinal env pin runtime world run calls)
    (hcandidate : runtime.candidate.backend = cpu → runtime.candidate = cpuCandidate) :
    (∃ err, run.1 = .error err) ↔ LoadFailed pin cpuCandidate calls := by
  rcases h with ⟨_, _, hrun, hdone⟩ | ⟨err, world₁, first, _, calls, hfirst, hacc, hrun⟩
  · by_cases hcpu : runtime.candidate.backend = cpu
    · rw [← hcandidate hcpu]
      exact hrun.failed
    · obtain ⟨engine, hengine⟩ := hdone hcpu
      rw [hengine]
      refine iff_of_false (fun ⟨_, herr⟩ => absurd herr (by simp)) ?_
      exact not_loadFailed_of_loads hrun.loads
        (iff_of_false hcpu fun hne => hne rfl)
  · rw [loadFailed_append, hrun.failed]
    refine (or_iff_right ?_).symm
    exact not_loadFailed_of_loads hfirst.loads (iff_of_false hacc fun hne => hne rfl)

/-- An accelerator's final load has failed exactly if the fallback was taken. -/
theorem LoadsFinal.loadFailed_iff (h : LoadsFinal env pin runtime world run calls)
    (hacc : runtime.candidate.backend ≠ cpu) :
    LoadFailed pin runtime.candidate calls ↔ ∃ err world₁ first back,
      LoadRun pin runtime.candidate runtime.selection runtime.capabilities world
        (.error err, world₁) first ∧
      LoadRun pin cpuCandidate (fallbackSelection runtime.candidate err)
        (disableCapability runtime.capabilities runtime.candidate.backend)
        ((invalidateCachedSelection env.store runtime).run world₁).2 run back ∧
      calls = first ++ back := by
  constructor
  · intro hfailed
    rcases h with ⟨_, _, hrun, hdone⟩ | ⟨err, world₁, first, _, back, hfirst, -, hrun⟩
    · obtain ⟨engine, hengine⟩ := hdone hacc
      obtain ⟨err, herr⟩ := hrun.failed.mpr hfailed
      rw [hengine] at herr
      exact absurd herr (by simp)
    · exact ⟨err, world₁, first, back, hfirst, hrun, rfl⟩
  · rintro ⟨err, world₁, first, back, hfirst, -, rfl⟩
    exact (loadFailed_append pin _ _ _).mpr (Or.inl (hfirst.failed.mp ⟨err, rfl⟩))

/-- The verdict is only removed for an accelerator that did not load. -/
theorem LoadsFinal.removed_only (h : LoadsFinal env pin runtime world run calls) {key : String}
    (hkept : world.cache key ≠ none) (hremoved : run.2.cache key = none) :
    runtime.candidate.backend ≠ cpu ∧ LoadFailed pin runtime.candidate calls := by
  have hfull := h
  rcases h with ⟨_, _, hrun, -⟩ | ⟨err, world₁, first, _, back, hfirst, hacc, hrun⟩
  · rw [hrun.world] at hremoved
    exact absurd hremoved hkept
  · exact ⟨hacc, (hfull.loadFailed_iff hacc).mpr ⟨err, world₁, first, back, hfirst, hrun, rfl⟩⟩

/-- The verdict of an accelerator that did not load is removed, if the cache file can be
rewritten. -/
theorem LoadsFinal.removed_when (h : LoadsFinal env pin runtime world run calls) {key : String}
    (hkey : runtime.cacheKey = some key) (hpersists : ∀ world, env.persists world = true)
    (hacc : runtime.candidate.backend ≠ cpu) (hfailed : LoadFailed pin runtime.candidate calls) :
    run.2.cache key = none := by
  obtain ⟨err, world₁, first, back, -, hrun, -⟩ := (h.loadFailed_iff hacc).mp hfailed
  rw [hrun.world]
  exact invalidate_cache env hkey world₁ (hpersists world₁)

/-- What the loads leave of the cache. -/
theorem LoadsFinal.cache_eq (h : LoadsFinal env pin runtime world run calls) :
    run.2.cache = world.cache ∨ ∃ key, run.2.cache = world.cache.remove key := by
  rcases h with ⟨_, _, hrun, -⟩ | ⟨err, world₁, first, _, back, hfirst, -, hrun⟩
  · rw [hrun.world]
    exact Or.inl rfl
  · have hfirst' : world₁.cache = world.cache := by
      rw [show world₁ = { world with calls := world.calls ++ first } from hfirst.world]
    rw [hrun.world]
    dsimp only
    rw [invalidateCachedSelection.eq_def, ← hfirst']
    split
    · exact Or.inl rfl
    · rename_i key _
      exact (mutate_cache env _ world₁).imp id fun h => ⟨key, h⟩

/-- The engine of a final load reports it. -/
theorem LoadsFinal.reports {i : Installation} {forced : Option String} {failures : List String}
    (h : LoadsFinal env pin runtime world run calls)
    (hvetted : Vetted (i.discovery failures) forced runtime) {engine : ServedEngine}
    (hok : run.1 = .ok engine) (front : List NativeCall) :
    Reports i forced failures (front ++ calls) engine := by
  rcases h with ⟨_, _, hrun, -⟩ | ⟨err, world₁, first, _, back, hfirst, hacc, hrun⟩
  · exact hvetted.reports hrun hok front
  · have hfallback : Vetted (i.discovery failures) forced ⟨fallbackSelection runtime.candidate err,
        disableCapability runtime.capabilities runtime.candidate.backend, cpu, none, none⟩ :=
      vetted_degraded _ _ _ _ _ _
    rw [← List.append_assoc]
    exact hfallback.reports hrun hok (front ++ first)

/-- The capability of an accelerator that did not load is not advertised. -/
theorem LoadsFinal.disabled {discovery : Discovery} {forced : Option String}
    (h : LoadsFinal env pin runtime world run calls) (hvetted : Vetted discovery forced runtime)
    (hstable : ∀ candidate ∈ discovery.candidates.tail, candidate.backend ∈ stableBackends)
    (hacc : runtime.candidate.backend ≠ cpu) (hfailed : LoadFailed pin runtime.candidate calls)
    {engine : ServedEngine} (hok : run.1 = .ok engine) :
    engine.capabilities.has runtime.candidate.backend = false := by
  obtain ⟨err, world₁, first, back, -, hrun, -⟩ := (h.loadFailed_iff hacc).mp hfailed
  obtain ⟨hmem, -⟩ := hvetted.placed.resolve_left fun hcpu =>
    hacc (congrArg BackendCandidate.backend hcpu)
  rw [(hrun.served engine hok).2.2.1, disableCapability,
    has_setCapability _ (hstable _ hmem), if_pos rfl]

end Start

/-! ## A start -/

section

variable (sha256 : List UInt8 → List UInt8) (pin : ModelPin) (i : Installation)
  (forced : Option String) (failures : List String) (cache : RuntimeCache)

/-- What a start on the installation selects, and what has happened by then. -/
def selected : Except String RuntimeSelection × LoadWorld :=
  (selectRuntimeWith env.store sha256 env.benchmark i.context forced
    (i.discovery failures)).run ⟨[], cache⟩

/-- One start of the engine on the installation. -/
def start : Except EngineError ServedEngine × LoadWorld :=
  (selectAndLoad env.native env.store pin sha256 env.benchmark i.context forced
    (i.discovery failures)).run ⟨[], cache⟩

variable {sha256} {pin} {i} {forced} {failures} {cache}

theorem start_of_refused {reason : String} {world : LoadWorld}
    (h : selected env sha256 i forced failures cache = (.error reason, world)) :
    start env sha256 pin i forced failures cache =
      (.error (.new "BackendProbe" reason), world) := by
  rw [selected] at h
  rw [start, selectAndLoad, run_bind_state, h]
  rfl

theorem start_of_selected {runtime : RuntimeSelection} {world : LoadWorld}
    (h : selected env sha256 i forced failures cache = (.ok runtime, world)) :
    start env sha256 pin i forced failures cache =
      (loadFinal env.native env.store pin runtime).run world := by
  rw [selected] at h
  rw [start, selectAndLoad, run_bind_state, h]

/-- The calls of a selection are probes, none of which is a failure of the CPU's. -/
theorem Selects.calls_harmless {env : Surroundings} {runtime : RuntimeSelection}
    {world : LoadWorld} (h : Selects sha256 env i forced failures ⟨[], cache⟩ (.ok runtime, world)) :
    ∀ call ∈ world.calls, call.Harmless := by
  rcases h with _ | ⟨choice, -, -⟩ | ⟨_, probes, _, -, hprobes, hcalls, -, -⟩
  · exact fun call hcall => absurd hcall (by simp)
  · rw [hcalls]
    exact hprobes

theorem not_loadFailed_of_harmless {calls : List NativeCall}
    (h : ∀ call ∈ calls, call.Harmless) (candidate : BackendCandidate) :
    ¬ LoadFailed pin candidate calls := by
  rintro ⟨call, hcall, hfails⟩
  obtain ⟨_, _, rfl, -⟩ := h call hcall
  exact hfails

theorem not_cpuProbeFailed_of_harmless {calls : List NativeCall}
    (h : ∀ call ∈ calls, call.Harmless) : ¬ CpuProbeFailed calls := by
  rintro ⟨reason, hcall⟩
  obtain ⟨candidate, outcome, heq, hok⟩ := h _ hcall
  obtain ⟨rfl, rfl⟩ := NativeCall.probe.inj heq
  obtain ⟨_, htiming⟩ := hok rfl
  exact absurd htiming (by simp)

/-- The cache file after a start is again one that starts have written. -/
theorem start_written {installations : Set Installation} (hi : i ∈ installations)
    (hcache : Written sha256 installations cache) :
    Written sha256 installations (start env sha256 pin i forced failures cache).2.cache := by
  have hselects : Selects sha256 env i (normalizeForced forced) failures ⟨[], cache⟩
      (selected env sha256 i forced failures cache) :=
    selectRuntimeWith_selects env i forced failures ⟨[], cache⟩
  generalize hrun : selected env sha256 i forced failures cache = result at hselects
  rcases result with ⟨reason | runtime, world⟩
  · rw [start_of_refused env hrun]
    rcases hselects with ⟨reason, _⟩ | _ | _
    exact hcache
  · rw [start_of_selected env hrun]
    obtain ⟨calls, hfinal⟩ := loadFinal_run env pin runtime world
    have hworld : Written sha256 installations world.cache := by
      rcases hselects with _ | ⟨choice, -, -⟩ | ⟨_, probes, _, -, -, -, hkey, hstored⟩
      · exact hcache
      · rcases hstored with hstored | ⟨hkeyed, hstored⟩
        · exact hstored.symm ▸ hcache
        · rw [hstored]
          obtain ⟨-, -, hmiss⟩ := hkey.resolve_left (by simp [hkeyed])
          exact hcache.insert hi env forced failures ⟨[], cache⟩ world runtime hmiss hrun hkeyed
    rcases hfinal.cache_eq with heq | ⟨key, heq⟩
    · exact heq.symm ▸ hworld
    · exact heq.symm ▸ hworld.remove key

/-- **What an engine reports is true of the load it came from.**  A start fails exactly if a probe
of the CPU failed or a load of the CPU did; the capability of an accelerator that did not load is
withdrawn; and a verdict is removed from the cache only for such an accelerator, and whenever the
cache file can be rewritten. -/
theorem start_isTruthful {installations : Set Installation}
    (hkeys : KeysTellApart sha256 installations) (hi : i ∈ installations)
    (hcache : Written sha256 installations cache) :
    ((∃ err, (start env sha256 pin i forced failures cache).1 = .error err) ↔
      CpuProbeFailed (start env sha256 pin i forced failures cache).2.calls ∨
      LoadFailed pin cpuCandidate (start env sha256 pin i forced failures cache).2.calls) ∧
    (∀ engine, (start env sha256 pin i forced failures cache).1 = .ok engine →
      Reports i (normalizeForced forced) failures
        (start env sha256 pin i forced failures cache).2.calls engine) ∧
    ∀ runtime world, selected env sha256 i forced failures cache = (.ok runtime, world) →
      (∀ engine, (start env sha256 pin i forced failures cache).1 = .ok engine →
        runtime.candidate.backend ≠ cpu →
        LoadFailed pin runtime.candidate
          (start env sha256 pin i forced failures cache).2.calls →
        engine.capabilities.has runtime.candidate.backend = false) ∧
      ∀ key, runtime.cacheKey = some key → world.cache key ≠ none →
        ((start env sha256 pin i forced failures cache).2.cache key = none →
          runtime.candidate.backend ≠ cpu ∧ LoadFailed pin runtime.candidate
            (start env sha256 pin i forced failures cache).2.calls) ∧
        ((∀ world, env.persists world = true) → runtime.candidate.backend ≠ cpu →
          LoadFailed pin runtime.candidate
            (start env sha256 pin i forced failures cache).2.calls →
          (start env sha256 pin i forced failures cache).2.cache key = none) := by
  have hselects : Selects sha256 env i (normalizeForced forced) failures ⟨[], cache⟩
      (selected env sha256 i forced failures cache) :=
    selectRuntimeWith_selects env i forced failures ⟨[], cache⟩
  generalize hrun : selected env sha256 i forced failures cache = result at hselects
  rcases result with ⟨reason | runtime, world⟩
  · rw [start_of_refused env hrun]
    refine ⟨iff_of_true ⟨_, rfl⟩ (Or.inl ?_), fun engine h => absurd h (by simp),
      fun runtime world h => absurd h (by simp)⟩
    rcases hselects with ⟨reason, _⟩ | _ | _
    exact ⟨reason, List.mem_singleton_self _⟩
  · have hvetted := hselects.vetted hkeys hi hcache
    have hharmless := hselects.calls_harmless
    obtain ⟨calls, hfinal⟩ := loadFinal_run env pin runtime world
    rw [start_of_selected env hrun]
    generalize (loadFinal env.native env.store pin runtime).run world = run at hfinal
    have hcpu : runtime.candidate.backend = cpu → runtime.candidate = cpuCandidate := fun hcpu =>
      hvetted.placed.resolve_right fun hacc =>
        stable_ne_cpu (mem_accelerators hacc.1).1 hcpu
    have hfailed : ∀ candidate, LoadFailed pin candidate run.2.calls ↔
        LoadFailed pin candidate calls := fun candidate => by
      rw [hfinal.calls_eq, loadFailed_append]
      exact or_iff_right (not_loadFailed_of_harmless hharmless candidate)
    simp only [hfailed]
    refine ⟨?_, fun engine hok => ?_, fun runtime' world' heq => ?_⟩
    · rw [hfinal.failed_iff hcpu]
      refine (or_iff_right ?_).symm
      rintro ⟨reason, hcall⟩
      rw [hfinal.calls_eq] at hcall
      rcases List.mem_append.mp hcall with hcall | hcall
      · exact not_cpuProbeFailed_of_harmless hharmless ⟨reason, hcall⟩
      · obtain ⟨_, hloads⟩ := hfinal.loads _ hcall
        exact hloads
    · rw [hfinal.calls_eq]
      exact hfinal.reports hvetted hok world.calls
    · obtain ⟨hruntime, rfl⟩ := Prod.mk.inj heq
      obtain rfl := Except.ok.inj hruntime
      refine ⟨fun engine hok hacc hload => ?_, fun key hkey hkept =>
        ⟨hfinal.removed_only hkept, hfinal.removed_when hkey⟩⟩
      exact hfinal.disabled hvetted (fun candidate hmem => (mem_accelerators hmem).1) hacc hload hok

end

/-! ## An accelerator that is full

A machine with one CUDA device, on which the probes fit and the final load does not. -/

/-- A machine with one card that CUDA can use. -/
def cudaMachine : Installation where
  context := ⟨"0", "", "", ""⟩
  declared := ⟨false, false, true, false, true⟩
  devices := [⟨"CUDA", 0, "cuda0", "", 0, "driver", true⟩]

/-- Surroundings in which the card has no memory left, after its probe went well. -/
def crowdedCuda (persists : Bool) : Surroundings where
  probe _ candidate := .ok ⟨if candidate.backend = cpu then 2 else 1, 0⟩
  withDevices _ _ := .ok ()
  loadFromFile _ placement :=
    if placement = ⟨some 0, []⟩ then .ok LlamaEngine.byteModel else .error "out of memory"
  persists _ := persists

/-- SHA-256 of the machine's key material, which is all that is digested there. -/
def cudaDigest (_ : List UInt8) : List UInt8 :=
  [210, 15, 129, 77, 56, 24, 251, 69, 136, 131, 0, 46, 12, 223, 66, 123, 234, 253, 44, 113, 174,
    123, 140, 123, 221, 57, 148, 88, 152, 156, 252, 43]

/-- The key of the machine's verdict, which is a SHA-256 digest. -/
def cudaKey : String := "d20f814d3818fb458883002e0cdf427beafd2c71ae7b8c7bdd399458989cfc2b"

/-- What the machine selects. -/
def cudaRuntime : RuntimeSelection :=
  ⟨.new cuda cuda none, ⟨true, true, false, false, false, false⟩, "cuda0", some 0, some cudaKey⟩

/-- The cache file after the selection. -/
def cudaCache : RuntimeCache :=
  RuntimeCache.insert (fun _ => none) cudaKey (.fromRuntime cudaRuntime)

theorem cudaMachine_keys : KeysTellApart cudaDigest {cudaMachine} := by
  rintro i rfl j rfl -
  exact ⟨rfl, rfl⟩

theorem selected_cudaMachine : ∃ calls,
    selected (crowdedCuda true) cudaDigest cudaMachine none [] (fun _ => none) =
      (.ok cudaRuntime, ⟨calls, cudaCache⟩) :=
  ⟨_, rfl⟩

theorem cudaCache_written : Written cudaDigest {cudaMachine} cudaCache := by
  obtain ⟨calls, hselected⟩ := selected_cudaMachine
  exact Written.empty.insert (Set.mem_singleton cudaMachine) (crowdedCuda true) none []
    ⟨[], fun _ => none⟩ ⟨calls, cudaCache⟩ cudaRuntime rfl hselected rfl

/-- The engine of the full accelerator serves from the CPU, and says so. -/
theorem start_isTruthful_cudaMachine : ∃ engine,
    (start (crowdedCuda true) cudaDigest qwen3 cudaMachine none [] cudaCache).1 = .ok engine ∧
    Reports cudaMachine none []
      (start (crowdedCuda true) cudaDigest qwen3 cudaMachine none [] cudaCache).2.calls engine ∧
    engine.capabilities.has cuda = false ∧
    (start (crowdedCuda true) cudaDigest qwen3 cudaMachine none [] cudaCache).2.cache cudaKey =
      none := by
  have hfailed : LoadFailed qwen3 cudaRuntime.candidate
      (start (crowdedCuda true) cudaDigest qwen3 cudaMachine none [] cudaCache).2.calls :=
    ⟨.load ⟨none, [0]⟩ (.error "out of memory"), List.mem_cons_of_mem _ List.mem_cons_self, rfl⟩
  obtain ⟨-, hreports, hruntime⟩ := @start_isTruthful (crowdedCuda true) cudaDigest qwen3
    cudaMachine none [] cudaCache {cudaMachine} cudaMachine_keys (Set.mem_singleton cudaMachine)
    cudaCache_written
  obtain ⟨hdisabled, hcached⟩ := hruntime cudaRuntime ⟨[], cudaCache⟩ rfl
  obtain ⟨-, hremoved⟩ := hcached cudaKey rfl (by simp [cudaCache, RuntimeCache.insert])
  exact ⟨_, rfl, hreports _ rfl, hdisabled _ rfl (by decide) hfailed,
    hremoved (fun _ => rfl) (by decide) hfailed⟩

/-- With a cache file that cannot be rewritten, the verdict stays although its load has failed. -/
theorem start_keeps_verdict :
    KeysTellApart cudaDigest {cudaMachine} ∧ Written cudaDigest {cudaMachine} cudaCache ∧
    selected (crowdedCuda false) cudaDigest cudaMachine none [] cudaCache =
      (.ok cudaRuntime, ⟨[], cudaCache⟩) ∧
    cudaRuntime.candidate.backend ≠ cpu ∧
    LoadFailed qwen3 cudaRuntime.candidate
      (start (crowdedCuda false) cudaDigest qwen3 cudaMachine none [] cudaCache).2.calls ∧
    (start (crowdedCuda false) cudaDigest qwen3 cudaMachine none [] cudaCache).2.cache cudaKey ≠
      none :=
  ⟨cudaMachine_keys, cudaCache_written, rfl, by decide,
    ⟨.load ⟨none, [0]⟩ (.error "out of memory"), List.mem_cons_of_mem _ List.mem_cons_self, rfl⟩,
    by rw [show (start (crowdedCuda false) cudaDigest qwen3 cudaMachine none []
        cudaCache).2.cache = cudaCache from rfl]; simp [cudaCache, RuntimeCache.insert]⟩

end SemanticSidecar
