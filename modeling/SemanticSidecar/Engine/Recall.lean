import SemanticSidecar.Engine.Fastest

/-!
# The verdict that is remembered

The cache file is shared: by the starts of one build, and by those of every other build, model and
machine that keeps its verdicts in the same directory.  This file is about what a single selection
or invalidation does to it.

`Resolves` splits a selection into the ways it can go, only the last of which may write.
`select_frames_cache` says under what circumstances it does, and that a write adds one entry and
leaves the others alone.  `warmStart_eq_coldStart` then puts two selections together: a verdict
that has been written comes back whole, although a `RuntimeCachedChoice` has less fields than a
`RuntimeSelection`, whatever has been done under other keys in between.

`Resolves` has three cases: no probe has a say and nothing is cached, the cache has the verdict, or
the candidates are compared.  A comparison writes only if nothing was forced, the machine can be
told apart, no device failed to be identified and no probe failed.

The frame is for all other keys, over any store: a selection leaves their entries alone even if it
writes, and an invalidation even if it removes.  A machine with one accelerator that is dead shows
that a failed probe keeps a verdict out of the file.
-/

set_option autoImplicit false

namespace SemanticSidecar

/-! ## The failures of a comparison -/

/-- What is said of a probe that has failed. -/
def ProbeOutcome.failure : ProbeOutcome → Option String
  | (_, .ok _) => none
  | (candidate, .error reason) => some (candidate.backend ++ " probe failed: " ++ reason)

theorem failures_tallyOf (discovery : Discovery) (outcomes : List ProbeOutcome) :
    (tallyOf discovery outcomes).failures =
      discovery.acceleratorFailures ++ outcomes.filterMap ProbeOutcome.failure := by
  induction outcomes using List.reverseRecOn with
  | nil => exact (List.append_nil _).symm
  | append_singleton outcomes outcome ih =>
    rw [tallyOf_concat, List.filterMap_append, ← List.append_assoc, ← ih]
    rcases outcome with ⟨candidate, reason | timing⟩
    · rfl
    · exact (List.append_nil _).symm

/-- Nothing has failed if every module loads and every probe completes. -/
theorem failures_eq_nil_iff {discovery : Discovery} {outcomes : List ProbeOutcome} :
    (tallyOf discovery outcomes).failures = [] ↔ discovery.acceleratorFailures = [] ∧
      ∀ outcome ∈ outcomes, ∃ timing, outcome.2 = .ok timing := by
  rw [failures_tallyOf, List.append_eq_nil_iff, List.filterMap_eq_nil_iff]
  refine and_congr_right fun _ => forall₂_congr fun outcome _ => ?_
  rcases outcome with ⟨candidate, reason | timing⟩
  · exact iff_of_false (Option.some_ne_none _) fun ⟨_, h⟩ => error_ne_ok h
  · exact iff_of_true rfl ⟨timing, rfl⟩

/-! ## The ways a selection goes -/

variable (env : Surroundings) (sha256 : List UInt8 → List UInt8)

/-- A selection has a floor that no probe has a say in, or recalls a verdict, or compares. -/
inductive Resolves (context : SelectionContext) (forced : Option String) (discovery : Discovery)
    (world : LoadWorld) : Except String RuntimeSelection × LoadWorld → Prop
  /-- No probe has a say, and nothing is cached. -/
  | floor (runtime : RuntimeSelection) (hkey : runtime.cacheKey = none) :
      Resolves context forced discovery world (.ok runtime, world)
  /-- The cache has the verdict. -/
  | recalled (choice : RuntimeCachedChoice)
      (hcacheable : discovery.isCacheable (normalizeForced forced)
        discovery.acceleratorFailures = true)
      (hhit : world.cache (runtimeCacheKey sha256 context discovery.machine) = some choice) :
      Resolves context forced discovery world
        (.ok (placeCached discovery { choice.intoRuntime with
          cacheKey := some (runtimeCacheKey sha256 context discovery.machine) }), world)
  /-- The candidates are probed and compared. -/
  | compared (h : ReachesProbing sha256 context forced discovery world.cache) :
      Resolves context forced discovery world
        ((compareRuntimes env.store env.benchmark
          (runtimeCacheKey sha256 context discovery.machine) (normalizeForced forced)
          discovery).run world)

/-- What a selection recalls. -/
theorem selectRuntimeWith_recalls {context : SelectionContext} {forced : Option String}
    {discovery : Discovery} {world : LoadWorld} {choice : RuntimeCachedChoice}
    (hcacheable : discovery.isCacheable (normalizeForced forced)
      discovery.acceleratorFailures = true)
    (hhit : world.cache (runtimeCacheKey sha256 context discovery.machine) = some choice) :
    env.select sha256 context forced discovery world =
      (.ok (placeCached discovery { choice.intoRuntime with
        cacheKey := some (runtimeCacheKey sha256 context discovery.machine) }), world) := by
  have hforced := (isCacheable_iff.mp hcacheable).1
  rw [hforced] at hcacheable
  rw [Surroundings.select, selectRuntimeWith_eq, hforced, if_neg (Option.some_ne_none _).symm, refuseForced]
  dsimp only
  rw [run_bind_state, consultCache_run, if_pos hcacheable, hhit]
  rfl

theorem selectRuntimeWith_resolves (context : SelectionContext) (forced : Option String)
    (discovery : Discovery) (world : LoadWorld) :
    Resolves env sha256 context forced discovery world
      (env.select sha256 context forced discovery world) := by
  by_cases hcpu : normalizeForced forced = some cpu
  · have hrun : env.select sha256 context forced discovery world = (.ok cpuRuntime, world) := by
      rw [Surroundings.select, selectRuntimeWith_eq, if_pos hcpu]
      rfl
    rw [hrun]
    exact .floor cpuRuntime rfl
  rcases hrefuse : refuseForced discovery (normalizeForced forced) with _ | runtime
  swap
  · have hrun : env.select sha256 context forced discovery world = (.ok runtime, world) := by
      rw [Surroundings.select, selectRuntimeWith_eq, if_neg hcpu, hrefuse]
      rfl
    rw [hrun]
    exact .floor runtime (refused_cacheKey hrefuse)
  by_cases hcacheable : discovery.isCacheable (normalizeForced forced)
      discovery.acceleratorFailures = true
  · rcases hhit : world.cache (runtimeCacheKey sha256 context discovery.machine) with _ | choice
    · have hreaches : ReachesProbing sha256 context forced discovery world.cache :=
        ⟨hcpu, hrefuse, fun _ => hhit⟩
      rw [selectRuntimeWith_probes env hreaches]
      exact .compared hreaches
    · rw [selectRuntimeWith_recalls env sha256 hcacheable hhit]
      exact .recalled choice hcacheable hhit
  · have hreaches : ReachesProbing sha256 context forced discovery world.cache :=
      ⟨hcpu, hrefuse, fun h => absurd h hcacheable⟩
    rw [selectRuntimeWith_probes env hreaches]
    exact .compared hreaches

/-! ## What a selection leaves of the cache file -/

variable {env sha256}

theorem Compares.cache {key : String} {forced : Option String} {discovery : Discovery}
    {world : LoadWorld} {cpuOutcome : Except String ProbeTiming} {outcomes : List ProbeOutcome}
    {run : Except String RuntimeSelection × LoadWorld}
    (h : Compares env key forced discovery world cpuOutcome outcomes run)
    (hchanged : run.2.cache ≠ world.cache) :
    discovery.isCacheable forced (tallyOf discovery outcomes).failures = true ∧
      (∃ cpuTiming, cpuOutcome = .ok cpuTiming) ∧
      ∃ runtime, run.1 = .ok runtime ∧
        run.2.cache = world.cache.insert key (.fromRuntime runtime) := by
  rcases h with reason | _ | ⟨cpuTiming, outcomes, -, hyes, world', hworld⟩
  · exact absurd rfl hchanged
  · exact absurd rfl hchanged
  · refine ⟨hyes, ⟨cpuTiming, rfl⟩, _, rfl, ?_⟩
    have hcache := mutate_cache env (fun cache => cache.insert key
      (.fromRuntime (verdict discovery forced cpuTiming outcomes)))
      (world.probed ((discovery.first, .ok cpuTiming) :: outcomes))
    rw [hworld] at hchanged ⊢
    exact hcache.resolve_left hchanged

theorem Compares.cacheKey {key : String} {forced : Option String} {discovery : Discovery}
    {world world' : LoadWorld} {cpuOutcome : Except String ProbeTiming}
    {outcomes : List ProbeOutcome} {runtime : RuntimeSelection}
    (h : Compares env key forced discovery world cpuOutcome outcomes (.ok runtime, world'))
    (hkey : runtime.cacheKey ≠ none) : runtime.cacheKey = some key ∧
      ∃ before, before.cache = world.cache ∧
        ((writeRuntimeCache env.store key runtime).run before).2 = world' := by
  rcases h with _ | _ | ⟨cpuTiming, outcomes, -, -, world', hworld⟩
  · exact absurd (decideRuntime_cacheKey _ _ _ _) hkey
  · exact ⟨rfl, world.probed ((discovery.first, .ok cpuTiming) :: outcomes), rfl, hworld.symm⟩

theorem placeCached_cacheKey (discovery : Discovery) (runtime : RuntimeSelection) :
    (placeCached discovery runtime).cacheKey = runtime.cacheKey := by
  rw [placeCached]
  split
  · rfl
  · rfl

section

variable {m : Type → Type} [Monad m] (store : SelectionStore m)
  (benchmark : BackendCandidate → m (Except String ProbeTiming))

/-- A forced selection comes to the same program whatever the store is. -/
theorem selectRuntimeWith_forced (context : SelectionContext) (value : String)
    (discovery : Discovery) (store' : SelectionStore m) :
    selectRuntimeWith store sha256 benchmark context (some value) discovery =
      selectRuntimeWith store' sha256 benchmark context (some value) discovery := by
  rw [selectRuntimeWith_eq, selectRuntimeWith_eq]
  have hno : ∀ failures, discovery.isCacheable (normalizeForced (some value)) failures = false :=
    fun failures => rfl
  simp only [consultCache, compareRuntimes, hno, Bool.false_eq_true, if_false]

end

variable {context : SelectionContext} {forced : Option String} {discovery : Discovery}
  {world world' : LoadWorld} {runtime : RuntimeSelection}

/-- When a selection changes the file, and to what. -/
theorem select_changes (hchanged : (env.select sha256 context forced discovery world).2.cache ≠
      world.cache) :
    forced = none ∧ discovery.machine.cacheable = true ∧ discovery.acceleratorFailures = [] ∧
    world.cache (runtimeCacheKey sha256 context discovery.machine) = none ∧
    (∃ probes,
      (env.select sha256 context forced discovery world).2.calls = world.calls ++ probes ∧
      ∀ call ∈ probes, ∃ candidate timing, call = .probe candidate (.ok timing)) ∧
    ∃ runtime, (env.select sha256 context forced discovery world).1 = .ok runtime ∧
      (env.select sha256 context forced discovery world).2.cache =
        world.cache.insert (runtimeCacheKey sha256 context discovery.machine)
          (.fromRuntime runtime) := by
  have hresolves := selectRuntimeWith_resolves env sha256 context forced discovery world
  generalize env.select sha256 context forced discovery world = run at hresolves hchanged ⊢
  rcases hresolves with runtime | choice | hreaches
  · exact absurd rfl hchanged
  · exact absurd rfl hchanged
  obtain ⟨cpuOutcome, outcomes, hcompares⟩ := compareRuntimes_compares env
    (runtimeCacheKey sha256 context discovery.machine) (normalizeForced forced) discovery world
  obtain ⟨hyes, ⟨cpuTiming, rfl⟩, hinserted⟩ := hcompares.cache hchanged
  obtain ⟨hforced, hmachine, hnothing⟩ := isCacheable_iff.mp hyes
  obtain ⟨hloaded, hprobed⟩ := failures_eq_nil_iff.mp hnothing
  refine ⟨Option.map_eq_none_iff.mp hforced, hmachine, hloaded,
    hreaches.miss (isCacheable_iff.mpr ⟨hforced, hmachine, hloaded⟩),
    ⟨_, hcompares.calls, ?_⟩, hinserted⟩
  rintro call hcall
  rcases List.mem_cons.mp hcall with rfl | hcall
  · exact ⟨_, cpuTiming, rfl⟩
  · obtain ⟨outcome, houtcome, rfl⟩ := List.mem_map.mp hcall
    obtain ⟨timing, htiming⟩ := hprobed outcome houtcome
    exact ⟨outcome.1, timing, congrArg (NativeCall.probe outcome.1) htiming⟩

theorem invalidate_frame (env : Surroundings) (world : LoadWorld) {other : String}
    (hother : runtime.cacheKey ≠ some other) :
    ((invalidateCachedSelection env.store runtime).run world).2.cache other =
      world.cache other := by
  rw [invalidateCachedSelection.eq_def]
  split
  · rfl
  rename_i key hkey
  rcases mutate_cache env (fun cache => cache.remove key) world with hcache | hcache
  · rw [hcache]
  · rw [hcache, RuntimeCache.remove, if_neg]
    rintro rfl
    exact hother hkey

/-- A selection with a key has its verdict from the file, or has handed it to the file. -/
theorem select_cacheKey
    (hrun : env.select sha256 context forced discovery world = (.ok runtime, world'))
    (hkey : runtime.cacheKey ≠ none) :
    runtime.cacheKey = some (runtimeCacheKey sha256 context discovery.machine) ∧
      ((∃ choice, world.cache (runtimeCacheKey sha256 context discovery.machine) = some choice ∧
        runtime = placeCached discovery { choice.intoRuntime with
          cacheKey := some (runtimeCacheKey sha256 context discovery.machine) }) ∨
      ∃ before, before.cache = world.cache ∧
        ((writeRuntimeCache env.store (runtimeCacheKey sha256 context discovery.machine)
          runtime).run before).2 = world') := by
  have hresolves := selectRuntimeWith_resolves env sha256 context forced discovery world
  rw [hrun] at hresolves
  generalize hanswer : (Except.ok runtime, world') = answer at hresolves
  rcases hresolves with ⟨floor, hfloor⟩ | ⟨choice, -, hhit⟩ | hreaches
  · obtain rfl := Except.ok.inj (Prod.mk.inj hanswer).1
    exact absurd hfloor hkey
  · obtain rfl := Except.ok.inj (Prod.mk.inj hanswer).1
    exact ⟨placeCached_cacheKey _ _, Or.inl ⟨choice, hhit, rfl⟩⟩
  · obtain ⟨cpuOutcome, outcomes, hcompares⟩ := compareRuntimes_compares env
      (runtimeCacheKey sha256 context discovery.machine) (normalizeForced forced) discovery world
    rw [← hanswer] at hcompares
    obtain ⟨hkeyed, hwritten⟩ := hcompares.cacheKey hkey
    exact ⟨hkeyed, Or.inr hwritten⟩

variable (sha256 context forced discovery)

/-- **What a selection or an invalidation does to the cache file.**  A selection changes it only
by adding the verdict it returns under the key it has looked for in vain, and only if nothing was
forced, the machine can be told apart and nothing has failed.  A forced selection has no use for
the file.  An invalidation removes the entry of the selection's own key at most, and a selection
has a key only if it was read from the file or written to it. -/
theorem select_frames_cache :
    (∀ (env : Surroundings) (world : LoadWorld),
      (env.select sha256 context forced discovery world).2.cache ≠ world.cache →
      forced = none ∧ discovery.machine.cacheable = true ∧ discovery.acceleratorFailures = [] ∧
      world.cache (runtimeCacheKey sha256 context discovery.machine) = none ∧
      (∃ probes,
        (env.select sha256 context forced discovery world).2.calls = world.calls ++ probes ∧
        ∀ call ∈ probes, ∃ candidate timing, call = .probe candidate (.ok timing)) ∧
      ∃ runtime, (env.select sha256 context forced discovery world).1 = .ok runtime ∧
        (env.select sha256 context forced discovery world).2.cache =
          world.cache.insert (runtimeCacheKey sha256 context discovery.machine)
            (.fromRuntime runtime)) ∧
    (∀ value, forced = some value → ∀ (m : Type → Type) [Monad m] (store store' : SelectionStore m)
      (benchmark : BackendCandidate → m (Except String ProbeTiming)),
      selectRuntimeWith store sha256 benchmark context forced discovery =
        selectRuntimeWith store' sha256 benchmark context forced discovery) ∧
    (∀ (env : Surroundings) (world : LoadWorld) (runtime : RuntimeSelection) (other : String),
      runtime.cacheKey ≠ some other →
      ((invalidateCachedSelection env.store runtime).run world).2.cache other =
        world.cache other) ∧
    (∀ runtime : RuntimeSelection, runtime.cacheKey = none →
      ∀ (m : Type → Type) [Monad m] (store : SelectionStore m),
        invalidateCachedSelection store runtime = pure ()) ∧
    ∀ (env : Surroundings) (world world' : LoadWorld) (runtime : RuntimeSelection),
      env.select sha256 context forced discovery world = (.ok runtime, world') →
      runtime.cacheKey ≠ none →
      runtime.cacheKey = some (runtimeCacheKey sha256 context discovery.machine) ∧
        ((∃ choice, world.cache (runtimeCacheKey sha256 context discovery.machine) = some choice ∧
          runtime = placeCached discovery { choice.intoRuntime with
            cacheKey := some (runtimeCacheKey sha256 context discovery.machine) }) ∨
        ∃ before, before.cache = world.cache ∧
          ((writeRuntimeCache env.store (runtimeCacheKey sha256 context discovery.machine)
            runtime).run before).2 = world') := by
  refine ⟨fun env world => select_changes, ?_, fun env world runtime other =>
    invalidate_frame env world, fun runtime hkey m _ store => ?_,
    fun env world world' runtime => select_cacheKey⟩
  · rintro value rfl m _ store store' benchmark
    exact selectRuntimeWith_forced store benchmark context value discovery store'
  · rw [invalidateCachedSelection, hkey]

/-! ## A verdict that comes back -/

/-- The capabilities that a choice can hold. -/
def BackendCapabilities.Plain (capabilities : BackendCapabilities) : Prop :=
  capabilities.cpu = true ∧ capabilities.directml = false ∧ capabilities.mps = false

theorem BackendCapabilities.Plain.set {capabilities : BackendCapabilities}
    (h : capabilities.Plain) (backend : String) (available : Bool) :
    (setCapability capabilities backend available).Plain := by
  rw [setCapability]
  split
  · exact h
  split
  · exact h
  split
  · exact h
  · exact h

theorem plain_discovery (i : Installation) (failures : List String) :
    (i.discovery failures).capabilities.Plain := by
  refine List.foldlRecOn _ _ (motive := BackendCapabilities.Plain) ⟨rfl, rfl, rfl⟩ ?_
  exact fun _ h entry _ => h.set entry.1 true

theorem BackendCapabilities.Plain.tally {capabilities : BackendCapabilities}
    (h : capabilities.Plain) (tally : Tally) : (tally.capabilities capabilities).Plain := by
  refine List.foldlRecOn _ _ (motive := BackendCapabilities.Plain) h ?_
  exact fun _ h backend _ => h.set backend false

theorem decideRuntime_capabilities (requested : Option String)
    (capabilities : BackendCapabilities) (cpuTiming : ProbeTiming) (tally : Tally) :
    (decideRuntime requested capabilities cpuTiming tally).capabilities = capabilities := by
  rw [decideRuntime.eq_def]
  split
  · split
    · rfl
    · rfl
  · split
    · rfl
    · rfl

/-- A choice holds the whole of a verdict. -/
theorem intoRuntime_fromRuntime (hderived : runtime.selection.accelerated =
      (runtime.selection.resolved != cpu)) (hplain : runtime.capabilities.Plain) :
    { (RuntimeCachedChoice.fromRuntime runtime).intoRuntime with cacheKey := runtime.cacheKey } =
      runtime := by
  obtain ⟨⟨requested, resolved, accelerated, reason⟩, capabilities, device, index, key⟩ := runtime
  obtain ⟨cpu, cuda, directml, mps, metal, vulkan⟩ := capabilities
  obtain ⟨rfl, rfl, rfl⟩ : cpu = true ∧ directml = false ∧ mps = false := hplain
  obtain rfl : accelerated = (resolved != SemanticSidecar.cpu) := hderived
  rfl

/-- What goes on in between, as far as the entry under a key is concerned: native calls, and
writes and invalidations under other keys. -/
inductive Elsewhere (key : String) (world : LoadWorld) : LoadWorld → Prop
  /-- Nothing has happened. -/
  | refl : Elsewhere key world world
  /-- A native call is made. -/
  | call {world' : LoadWorld} (h : Elsewhere key world world') (call : NativeCall) :
      Elsewhere key world (world'.record call)
  /-- A verdict is written under another key. -/
  | write {world' : LoadWorld} (h : Elsewhere key world world') (env : Surroundings)
      {other : String} (hother : other ≠ key) (runtime : RuntimeSelection) :
      Elsewhere key world ((writeRuntimeCache env.store other runtime).run world').2
  /-- A verdict under another key is invalidated. -/
  | invalidate {world' : LoadWorld} (h : Elsewhere key world world') (env : Surroundings)
      {runtime : RuntimeSelection} (hother : runtime.cacheKey ≠ some key) :
      Elsewhere key world ((invalidateCachedSelection env.store runtime).run world').2

theorem Elsewhere.cache {key : String} (h : Elsewhere key world world') :
    world'.cache key = world.cache key := by
  induction h with
  | refl => rfl
  | call _ _ ih => exact ih
  | @write world' _ env other hother runtime ih =>
    refine Eq.trans ?_ ih
    rcases mutate_cache env (fun cache => cache.insert other (.fromRuntime runtime)) world' with
      hcache | hcache
    · exact congrFun hcache key
    · exact (congrFun hcache key).trans (if_neg hother.symm)
  | invalidate _ env hother ih => exact (invalidate_frame env _ hother).trans ih

/-- A first selection without a failure leaves its verdict in the file. -/
theorem select_stores {i : Installation}
    (hcacheable : (i.discovery []).machine.cacheable = true)
    (hmiss : world.cache (i.key sha256) = none) (hpersists : ∀ world, env.persists world = true)
    (hcold : env.select sha256 i.context none (i.discovery []) world = (.ok runtime, world'))
    (hclean : ∀ probes, world'.calls = world.calls ++ probes →
      ∀ candidate reason, .probe candidate (.error reason) ∉ probes) :
    world'.cache (i.key sha256) = some (.fromRuntime runtime) ∧
      runtime.cacheKey = some (i.key sha256) ∧ runtime.capabilities.Plain := by
  have hreaches : ReachesProbing sha256 i.context none (i.discovery []) world.cache :=
    ⟨(Option.some_ne_none _).symm, rfl, fun _ => hmiss⟩
  rw [selectRuntimeWith_probes env hreaches] at hcold
  obtain ⟨cpuOutcome, outcomes, hcompares⟩ := compareRuntimes_compares env (i.key sha256) none
    (i.discovery []) world
  have hcold' : (compareRuntimes env.store env.benchmark (i.key sha256) none
      (i.discovery [])).run world = (.ok runtime, world') := hcold
  rw [hcold'] at hcompares
  have hcalls := hcompares.calls
  rcases hcompares with _ | ⟨cpuTiming, outcomes, -, hno⟩ |
    ⟨cpuTiming, outcomes, -, -, world', hworld⟩
  · -- A failure would have shown.
    refine absurd (isCacheable_iff.mpr ⟨rfl, hcacheable, failures_eq_nil_iff.mpr ⟨rfl, ?_⟩⟩)
      (Bool.eq_false_iff.mp hno)
    rintro ⟨candidate, reason | timing⟩ houtcome
    · exact absurd (List.mem_cons_of_mem _ (List.mem_map_of_mem houtcome))
        (hclean _ hcalls candidate reason)
    · exact ⟨timing, rfl⟩
  · refine ⟨?_, rfl, ?_⟩
    · rw [hworld, writeRuntimeCache, mutate_run, if_pos (hpersists _)]
      exact if_pos rfl
    · rw [verdict, decideRuntime_capabilities]
      exact (plain_discovery i []).tally _

theorem select_vetted {i : Installation} (hmiss : world.cache (i.key sha256) = none)
    (hcold : env.select sha256 i.context none (i.discovery []) world = (.ok runtime, world')) :
    Vetted (i.discovery []) none runtime := by
  have hselects : Selects sha256 env i none [] world (.ok runtime, world') :=
    hcold ▸ selectRuntimeWith_selects env i none [] world
  rcases hselects with _ | ⟨choice, -, hhit⟩ | ⟨_, _, _, hvetted, -, -, -, -⟩
  · exact absurd (hhit.symm.trans hmiss) (Option.some_ne_none _)
  · exact hvetted

/-- **A warm start is told what the cold start has found.**  If a selection that nothing was forced
on has missed, and no probe has failed, then a later one on the same machine returns the very same
selection without a probe, whatever has been done under other keys; and once it is invalidated the
next one probes again. -/
theorem warmStart_eq_coldStart (env env' : Surroundings) (i : Installation)
    (world₁ world₂ world₃ : LoadWorld) (runtime : RuntimeSelection)
    (hcacheable : (i.discovery []).machine.cacheable = true)
    (hmiss : world₁.cache (i.key sha256) = none) (hpersists : ∀ world, env.persists world = true)
    (hcold : env.select sha256 i.context none (i.discovery []) world₁ = (.ok runtime, world₂))
    (hclean : ∀ probes, world₂.calls = world₁.calls ++ probes →
      ∀ candidate reason, .probe candidate (.error reason) ∉ probes)
    (helsewhere : Elsewhere (i.key sha256) world₂ world₃) :
    env'.select sha256 i.context none (i.discovery []) world₃ = (.ok runtime, world₃) ∧
    ∀ (env'' : Surroundings) (world₄ : LoadWorld), env''.persists world₃ = true →
      Elsewhere (i.key sha256) ((invalidateCachedSelection env''.store runtime).run world₃).2
        world₄ →
      ∃ outcome rest, (env'.select sha256 i.context none (i.discovery []) world₄).2.calls =
        world₄.calls ++ .probe cpuCandidate outcome :: rest := by
  obtain ⟨hstored, hkey, hplain⟩ := select_stores sha256 hcacheable hmiss hpersists hcold hclean
  refine ⟨?_, fun env'' world₄ hremoves helsewhere' => ?_⟩
  · have hhit : world₃.cache (i.key sha256) = some (.fromRuntime runtime) :=
      helsewhere.cache.trans hstored
    have hvetted := select_vetted sha256 hmiss hcold
    have hrestored := intoRuntime_fromRuntime hvetted.derived hplain
    rw [hkey] at hrestored
    refine (selectRuntimeWith_recalls env' sha256 (isCacheable_iff.mpr ⟨rfl, hcacheable, rfl⟩)
      hhit).trans ?_
    have hplaced := hvetted.placeCached
    rw [← hrestored] at hplaced
    exact congrArg (fun placed => (Except.ok placed, world₃)) (hplaced.trans hrestored)
  · have hremoved : world₄.cache (i.key sha256) = none :=
      helsewhere'.cache.trans (invalidate_cache env'' hkey world₃ hremoves)
    have hreaches : ReachesProbing sha256 i.context none (i.discovery []) world₄.cache :=
      ⟨(Option.some_ne_none _).symm, rfl, fun _ => hremoved⟩
    rw [selectRuntimeWith_probes env' hreaches]
    obtain ⟨cpuOutcome, outcomes, hcompares⟩ := compareRuntimes_compares env' (i.key sha256) none
      (i.discovery []) world₄
    exact ⟨cpuOutcome, _, hcompares.calls⟩

/-! ## The machine with one accelerator -/

/-- Nothing works any more. -/
def deadCuda : Surroundings where
  probe _ _ := .error "no device"
  withDevices _ _ := .error "no device"
  loadFromFile _ _ := .error "no device"
  persists _ := false

/-- The first start, in a cache directory that has a verdict of another build, leaves that where
it is. -/
theorem select_frames_cache_cudaMachine :
    ((crowdedCuda true).select cudaDigest cudaMachine.context none (cudaMachine.discovery [])
      ⟨[], RuntimeCache.insert (fun _ => none) "other" (.fromRuntime cpuRuntime)⟩).2.cache =
        (RuntimeCache.insert (fun _ => none) "other" (.fromRuntime cpuRuntime)).insert cudaKey
          (.fromRuntime cudaRuntime) := by
  obtain ⟨-, -, -, -, -, runtime, hruntime, hcache⟩ :=
    (select_frames_cache cudaDigest cudaMachine.context none (cudaMachine.discovery [])).1
      (crowdedCuda true)
      ⟨[], RuntimeCache.insert (fun _ => none) "other" (.fromRuntime cpuRuntime)⟩
      (fun hsame => absurd (congrFun hsame cudaKey) (by decide))
  obtain rfl : cudaRuntime = runtime := Except.ok.inj hruntime
  exact hcache

/-- What has happened by the end of the first start. -/
def cudaCalls : List NativeCall :=
  [.probe cpuCandidate (.ok ⟨2, 0⟩), .probe ⟨cuda, "cuda0", some 0⟩ (.ok ⟨1, 0⟩)]

/-- The second start has the device of the first one, although it is gone. -/
theorem warmStart_eq_coldStart_cudaMachine :
    deadCuda.select cudaDigest cudaMachine.context none (cudaMachine.discovery [])
      ((writeRuntimeCache (crowdedCuda true).store "other" cpuRuntime).run
        ⟨cudaCalls, cudaCache⟩).2 =
      (.ok cudaRuntime, ((writeRuntimeCache (crowdedCuda true).store "other" cpuRuntime).run
        ⟨cudaCalls, cudaCache⟩).2) := by
  have hclean : ∀ probes, cudaCalls = [] ++ probes →
      ∀ candidate reason, .probe candidate (.error reason) ∉ probes := by
    rintro probes rfl candidate reason hmem
    rcases List.mem_pair.mp hmem with h | h
    · exact error_ne_ok (NativeCall.probe.inj h).2
    · exact error_ne_ok (NativeCall.probe.inj h).2
  exact (warmStart_eq_coldStart cudaDigest (crowdedCuda true) deadCuda cudaMachine
    ⟨[], fun _ => none⟩ ⟨cudaCalls, cudaCache⟩ _ cudaRuntime rfl rfl (fun _ => rfl) rfl hclean
    (.write .refl (crowdedCuda true) (by decide) cpuRuntime)).1

end SemanticSidecar
