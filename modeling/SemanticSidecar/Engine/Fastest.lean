import SemanticSidecar.Lib.Callouts
import SemanticSidecar.Engine.Served
import SemanticSidecar.Engine.Benchmark
import Mathlib.Data.List.MinMax

/-!
# The fastest backend

A selection that comes to probing times the CPU and then every accelerator that is eligible, and
takes the accelerator with the least total if that beats the CPU's.  `Surroundings.outcomes` is
what the probes of a list of candidates come to, one after the other, and `Compares` says exit by
exit what a comparison makes of them; the rest of this file only ever looks at that.

The loop of the source keeps a best candidate so far.  `fastest_tallyOf` says that it is the
`argmin` of the totals among the candidates that completed, so the earliest one where several are
as fast, and `selection_isOptimal` is what the selection as a whole comes to.

Times are natural numbers here, and a sum of two saturates as a `Duration` does.  The comparison is
strict both times: an accelerator has to be faster than the best so far, and the best has to be
faster than the CPU, so that a tie goes to the earlier one and to the CPU.

`ReachesProbing` says when a selection comes to probing at all.  Where it does not, there is nothing
to be optimal about: the CPU is forced, a forced accelerator is not there, or the cache has a
verdict.
-/

set_option autoImplicit false

namespace SemanticSidecar

/-! ## A comparison, exit by exit -/

/-- What a probe came to. -/
abbrev ProbeOutcome := BackendCandidate × Except String ProbeTiming

/-- The call of a probe. -/
def ProbeOutcome.call (outcome : ProbeOutcome) : NativeCall := .probe outcome.1 outcome.2

/-- The record with one more probe. -/
def LoadWorld.recordProbe (world : LoadWorld) (candidate : BackendCandidate)
    (outcome : Except String ProbeTiming) : LoadWorld :=
  world.record (.probe candidate outcome)

/-- What the probes of the candidates come to, one after the other. -/
def Surroundings.outcomes (env : Surroundings) (candidates : List BackendCandidate)
    (world : LoadWorld) : List ProbeOutcome :=
  Callouts.outcomes env.probe LoadWorld.recordProbe candidates world

/-- The world with some more probes in it. -/
def LoadWorld.probed (world : LoadWorld) (outcomes : List ProbeOutcome) : LoadWorld :=
  { world with calls := world.calls ++ outcomes.map ProbeOutcome.call }

/-- What the outcomes show. -/
def tallyOf (discovery : Discovery) (outcomes : List ProbeOutcome) : Tally :=
  outcomes.foldl (fun tally outcome => tally.record outcome.1 outcome.2)
    ⟨none, discovery.acceleratorFailures, [], []⟩

/-- The verdict on the outcomes. -/
def verdict (discovery : Discovery) (forced : Option String) (cpuTiming : ProbeTiming)
    (outcomes : List ProbeOutcome) : RuntimeSelection :=
  decideRuntime (discovery.requested forced)
    ((tallyOf discovery outcomes).capabilities discovery.capabilities) cpuTiming
    (tallyOf discovery outcomes)

variable (env : Surroundings)

theorem probed_cons (world : LoadWorld) (outcome : ProbeOutcome) (outcomes : List ProbeOutcome) :
    (world.record outcome.call).probed outcomes = world.probed (outcome :: outcomes) := by
  rw [LoadWorld.probed, LoadWorld.probed, LoadWorld.record, List.map_cons, ← List.append_cons]

theorem after_probed (world : LoadWorld) (outcomes : List ProbeOutcome) :
    Callouts.after LoadWorld.recordProbe world outcomes = world.probed outcomes := by
  induction outcomes generalizing world with
  | nil =>
    rw [LoadWorld.probed, List.map_nil, List.append_nil]
    rfl
  | cons outcome rest ih => exact (ih _).trans (probed_cons world outcome rest)

theorem probeAll_outcomes (candidates : List BackendCandidate) (tally : Tally)
    (world : LoadWorld) :
    (probeAll env.benchmark candidates tally).run world =
      ((env.outcomes candidates world).foldl (fun tally outcome => tally.record outcome.1 outcome.2)
        tally, world.probed (env.outcomes candidates world)) := by
  rw [← after_probed]
  exact Callouts.run_loop env.probe LoadWorld.recordProbe (probeAll env.benchmark)
    (fun _ => rfl) (fun _ _ _ => rfl) candidates tally world

theorem write_calls (key : String) (runtime : RuntimeSelection) (world : LoadWorld) :
    ((writeRuntimeCache env.store key runtime).run world).2.calls = world.calls :=
  mutate_calls env _ world

/-- The ways a comparison goes, with the probe of the CPU and the outcomes of the accelerators. -/
inductive Compares (key : String) (forced : Option String) (discovery : Discovery)
    (world : LoadWorld) :
    Except String ProbeTiming → List ProbeOutcome → Except String RuntimeSelection × LoadWorld → Prop
  /-- The probe of the CPU fails. -/
  | failed (reason : String) :
      Compares key forced discovery world (.error reason) []
        (.error ("cpu probe failed: " ++ reason),
          world.probed [(discovery.first, .error reason)])
  /-- There is a verdict, which is not to be cached. -/
  | decided (cpuTiming : ProbeTiming) (outcomes : List ProbeOutcome)
      (hprobed : outcomes.map Prod.fst = discovery.accelerators forced)
      (hno : discovery.isCacheable forced (tallyOf discovery outcomes).failures = false) :
      Compares key forced discovery world (.ok cpuTiming) outcomes
        (.ok (verdict discovery forced cpuTiming outcomes),
          world.probed ((discovery.first, .ok cpuTiming) :: outcomes))
  /-- There is a verdict, and it is written to the cache. -/
  | written (cpuTiming : ProbeTiming) (outcomes : List ProbeOutcome)
      (hprobed : outcomes.map Prod.fst = discovery.accelerators forced)
      (hyes : discovery.isCacheable forced (tallyOf discovery outcomes).failures = true)
      (world' : LoadWorld)
      (hworld : world' = (((writeRuntimeCache env.store key
        (verdict discovery forced cpuTiming outcomes)).run
          (world.probed ((discovery.first, .ok cpuTiming) :: outcomes))).2)) :
      Compares key forced discovery world (.ok cpuTiming) outcomes
        (.ok { verdict discovery forced cpuTiming outcomes with cacheKey := some key }, world')

theorem Compares.calls {env : Surroundings} {key : String} {forced : Option String}
    {discovery : Discovery} {world : LoadWorld} {cpuOutcome : Except String ProbeTiming}
    {outcomes : List ProbeOutcome} {run : Except String RuntimeSelection × LoadWorld}
    (h : Compares env key forced discovery world cpuOutcome outcomes run) :
    run.2.calls = world.calls ++ .probe discovery.first cpuOutcome ::
      outcomes.map ProbeOutcome.call := by
  rcases h with reason | _ | ⟨cpuTiming, outcomes, -, -, world', hworld⟩
  · rfl
  · rfl
  · rw [hworld]
    exact write_calls env _ _ _

/-- **What a comparison does**, exit by exit, with what the CPU comes to in this world. -/
theorem compareRuntimes_probe (key : String) (forced : Option String) (discovery : Discovery)
    (world : LoadWorld) :
    ∃ outcomes, Compares env key forced discovery world (env.probe world discovery.first) outcomes
      ((compareRuntimes env.store env.benchmark key forced discovery).run world) := by
  rw [compareRuntimes, run_bind_state]
  have hbench : (env.benchmark discovery.first).run world =
      (env.probe world discovery.first,
        world.record (.probe discovery.first (env.probe world discovery.first))) := rfl
  rw [hbench]
  rcases env.probe world discovery.first with reason | cpuTiming
  · exact ⟨_, .failed reason⟩
  · refine ⟨env.outcomes (discovery.accelerators forced)
      (world.record (.probe discovery.first (.ok cpuTiming))), ?_⟩
    dsimp only
    rw [run_bind_state, probeAll_outcomes]
    have hworld := probed_cons world (discovery.first, .ok cpuTiming)
      (env.outcomes (discovery.accelerators forced)
        (world.record (.probe discovery.first (.ok cpuTiming))))
    have hprobed := Callouts.outcomes_fst env.probe LoadWorld.recordProbe
      (discovery.accelerators forced) (world.record (.probe discovery.first (.ok cpuTiming)))
    rw [← Surroundings.outcomes] at hprobed
    rw [ProbeOutcome.call] at hworld
    rw [hworld]
    generalize env.outcomes (discovery.accelerators forced)
      (world.record (.probe discovery.first (.ok cpuTiming))) = outcomes at hprobed ⊢
    dsimp only
    split
    · rename_i hyes
      exact .written cpuTiming outcomes hprobed hyes _ rfl
    · rename_i hno
      exact .decided cpuTiming outcomes hprobed (Bool.eq_false_iff.mpr hno)

theorem compareRuntimes_compares (key : String) (forced : Option String) (discovery : Discovery)
    (world : LoadWorld) :
    ∃ cpuOutcome outcomes, Compares env key forced discovery world cpuOutcome outcomes
      ((compareRuntimes env.store env.benchmark key forced discovery).run world) :=
  ⟨_, compareRuntimes_probe env key forced discovery world⟩

/-! ## The winner -/

/-- The times of a probe that has come through. -/
def ProbeOutcome.success : ProbeOutcome → Option (BackendCandidate × ProbeTiming)
  | (candidate, .ok timing) => some (candidate, timing)
  | (_, .error _) => none

/-- The candidates that completed their probes, in the order they were probed. -/
def successes (outcomes : List ProbeOutcome) : List (BackendCandidate × ProbeTiming) :=
  outcomes.filterMap ProbeOutcome.success

/-- Whom the timings call for: the earliest of the fastest accelerators if it beats the CPU, and
the CPU otherwise. -/
def winner (cpuTiming : ProbeTiming) (outcomes : List ProbeOutcome) : BackendCandidate :=
  match (successes outcomes).argmin fun success => success.2.total with
  | some (candidate, timing) =>
    if timing.total < cpuTiming.total then candidate else cpuCandidate
  | none => cpuCandidate

theorem tallyOf_concat (discovery : Discovery) (outcomes : List ProbeOutcome)
    (outcome : ProbeOutcome) : tallyOf discovery (outcomes ++ [outcome]) =
      (tallyOf discovery outcomes).record outcome.1 outcome.2 := by
  rw [tallyOf, List.foldl_append]
  rfl

/-- The scan keeps the `argmin`. -/
theorem fastest_tallyOf (discovery : Discovery) (outcomes : List ProbeOutcome) :
    (tallyOf discovery outcomes).fastest =
      (successes outcomes).argmin fun success => success.2.total := by
  induction outcomes using List.reverseRecOn with
  | nil => rfl
  | append_singleton outcomes outcome ih =>
    rw [tallyOf_concat, successes, List.filterMap_append]
    rcases outcome with ⟨candidate, reason | timing⟩
    · -- A failed probe leaves both as they are.
      refine ih.trans ?_
      rw [List.filterMap_cons, ProbeOutcome.success, List.filterMap_nil, List.append_nil, successes]
    · rw [List.filterMap_cons, ProbeOutcome.success, List.filterMap_nil, List.argmin_concat, ← successes, ← ih,
        Tally.record]
      rcases (tallyOf discovery outcomes).fastest with _ | ⟨current, best⟩
      · rfl
      · by_cases hless : timing.total < best.total
        · rw [Option.all_some, if_pos (decide_eq_true hless)]
          exact (if_pos hless).symm
        · rw [Option.all_some, if_neg fun h => hless (of_decide_eq_true h)]
          exact (if_neg hless).symm

theorem candidate_verdict (discovery : Discovery) (forced : Option String)
    (cpuTiming : ProbeTiming) (outcomes : List ProbeOutcome) :
    (verdict discovery forced cpuTiming outcomes).candidate = winner cpuTiming outcomes := by
  rw [verdict, winner, decideRuntime.eq_def, fastest_tallyOf]
  generalize (successes outcomes).argmin (fun success => success.2.total) = best
  rcases best with _ | ⟨candidate, timing⟩
  · rcases discovery.requested forced with _ | requested
    · rfl
    · rfl
  · by_cases hless : timing.total < cpuTiming.total
    · simp only [if_pos hless]
      rfl
    · simp only [if_neg hless]
      rfl

/-! ## The selection -/

/-- A selection in these surroundings, as a cache file that is not touched meanwhile has it. -/
abbrev Surroundings.select (sha256 : List UInt8 → List UInt8) (context : SelectionContext)
    (forced : Option String) (discovery : Discovery) (world : LoadWorld) :
    Except String RuntimeSelection × LoadWorld :=
  (selectRuntimeWith env.store sha256 env.benchmark context forced discovery).run world

/-- A start that comes to probing: no CPU is forced on it, a forced accelerator is there, and the
cache has no verdict for it. -/
structure ReachesProbing (sha256 : List UInt8 → List UInt8) (context : SelectionContext)
    (forced : Option String) (discovery : Discovery) (cache : RuntimeCache) : Prop where
  /-- The CPU is not forced. -/
  notCpu : normalizeForced forced ≠ some cpu
  /-- A forced accelerator is there. -/
  available : refuseForced discovery (normalizeForced forced) = none
  /-- The cache has no verdict, if there can be one. -/
  miss : discovery.isCacheable (normalizeForced forced) discovery.acceleratorFailures = true →
    cache (runtimeCacheKey sha256 context discovery.machine) = none

theorem selectRuntimeWith_eq {m : Type → Type} [Monad m] (store : SelectionStore m)
    (sha256 : List UInt8 → List UInt8)
    (benchmark : BackendCandidate → m (Except String ProbeTiming)) (context : SelectionContext)
    (forced : Option String) (discovery : Discovery) :
    selectRuntimeWith store sha256 benchmark context forced discovery =
      if normalizeForced forced = some cpu then pure (.ok cpuRuntime)
      else
        match refuseForced discovery (normalizeForced forced) with
        | some runtime => pure (.ok runtime)
        | none =>
          consultCache store (runtimeCacheKey sha256 context discovery.machine)
              (normalizeForced forced) discovery >>= fun
            | some cached => pure (.ok (placeCached discovery cached))
            | none =>
              compareRuntimes store benchmark (runtimeCacheKey sha256 context discovery.machine)
                (normalizeForced forced) discovery :=
  rfl

theorem selectRuntimeWith_probes {sha256 : List UInt8 → List UInt8} {context : SelectionContext}
    {forced : Option String} {discovery : Discovery} {world : LoadWorld}
    (h : ReachesProbing sha256 context forced discovery world.cache) :
    env.select sha256 context forced discovery world =
      (compareRuntimes env.store env.benchmark (runtimeCacheKey sha256 context discovery.machine)
        (normalizeForced forced) discovery).run world := by
  rw [Surroundings.select, selectRuntimeWith_eq, if_neg h.notCpu, h.available]
  dsimp only
  rw [run_bind_state, consultCache_run]
  by_cases hcacheable : discovery.isCacheable (normalizeForced forced)
    discovery.acceleratorFailures = true
  · rw [if_pos hcacheable, h.miss hcacheable]
    rfl
  · rw [if_neg hcacheable]

theorem cpu_notMem_accelerators {declared : DeclaredBackends} {devices : List RuntimeDevice}
    {failures : List String} {forced : Option String} :
    cpuCandidate ∉ (discoverCandidates declared devices failures).accelerators forced :=
  fun hmem => stable_ne_cpu (mem_accelerators (List.mem_filter.mp hmem).1).1 rfl

/-- **A selection that comes to probing picks the fastest backend.**  It probes the CPU, which a
discovery has in the first place and nowhere else, and if that fails nothing else happens but an
error.  Otherwise it probes every eligible accelerator, once and in order, and the backend, the
device and its index are those of the winner. -/
theorem selection_isOptimal (sha256 : List UInt8 → List UInt8) (context : SelectionContext)
    (forced : Option String) (discovery : Discovery) (world : LoadWorld)
    (h : ReachesProbing sha256 context forced discovery world.cache) :
    (∃ cpuOutcome outcomes,
      (env.select sha256 context forced discovery world).2.calls =
        world.calls ++ .probe discovery.first cpuOutcome :: outcomes.map ProbeOutcome.call ∧
      (∀ reason, cpuOutcome = .error reason → outcomes = [] ∧
        (∃ message, (env.select sha256 context forced discovery world).1 = .error message) ∧
        (env.select sha256 context forced discovery world).2.cache = world.cache) ∧
      ∀ cpuTiming, cpuOutcome = .ok cpuTiming →
        outcomes.map Prod.fst = discovery.accelerators (normalizeForced forced) ∧
        ∃ runtime, (env.select sha256 context forced discovery world).1 = .ok runtime ∧
          runtime.candidate = winner cpuTiming outcomes) ∧
    ∀ declared devices failures, discovery = discoverCandidates declared devices failures →
      discovery.first = cpuCandidate ∧
        cpuCandidate ∉ discovery.accelerators (normalizeForced forced) := by
  refine ⟨?_, ?_⟩
  · rw [selectRuntimeWith_probes env h]
    obtain ⟨cpuOutcome, outcomes, hcompares⟩ := compareRuntimes_compares env
      (runtimeCacheKey sha256 context discovery.machine) (normalizeForced forced) discovery world
    refine ⟨cpuOutcome, outcomes, hcompares.calls, ?_⟩
    generalize (compareRuntimes env.store env.benchmark _ _ _).run world = run at hcompares ⊢
    rcases hcompares with reason | ⟨cpuTiming, outcomes, hprobed, -⟩ |
      ⟨cpuTiming, outcomes, hprobed, -, world', hworld⟩
    · exact ⟨fun _ _ => ⟨rfl, ⟨_, rfl⟩, rfl⟩, fun _ hok => (error_ne_ok hok).elim⟩
    · refine ⟨fun _ herr => (error_ne_ok herr.symm).elim, ?_⟩
      rintro _ hok
      obtain rfl := Except.ok.inj hok
      exact ⟨hprobed, _, rfl, candidate_verdict discovery _ cpuTiming outcomes⟩
    · refine ⟨fun _ herr => (error_ne_ok herr.symm).elim, ?_⟩
      rintro _ hok
      obtain rfl := Except.ok.inj hok
      exact ⟨hprobed, _, rfl, candidate_verdict discovery _ cpuTiming outcomes⟩
  · rintro declared devices failures rfl
    exact ⟨rfl, cpu_notMem_accelerators⟩

/-! ## A machine with three cards, one of them broken -/

/-- A discovery of a machine with three accelerators. -/
def threeCards : Discovery :=
  discoverCandidates ⟨false, false, true, false, true⟩
    [⟨"CUDA", 0, "a", "", 0, "driver", true⟩, ⟨"CUDA", 1, "b", "", 0, "driver", true⟩,
      ⟨"CUDA", 2, "c", "", 0, "driver", true⟩] []

/-- The first card has failed; the other two are as fast as each other. -/
def brokenFirst : Surroundings where
  probe _ candidate :=
    if candidate.backend = cpu then .ok ⟨5, 5⟩
    else if candidate.deviceIndex = some 0 then .error "device lost"
    else .ok ⟨1, 2⟩
  withDevices _ _ := .ok ()
  loadFromFile _ _ := .error "no model"
  persists _ := true

theorem reachesProbing_threeCards : ReachesProbing cudaDigest ⟨"0", "", "", ""⟩ none threeCards
    (fun _ => none) :=
  ⟨Option.some_ne_none _ |>.symm, rfl, fun _ => rfl⟩

/-- The second card is taken. -/
theorem selection_isOptimal_threeCards : ∃ outcomes runtime,
    outcomes.map Prod.fst = threeCards.accelerators none ∧
    (brokenFirst.select cudaDigest ⟨"0", "", "", ""⟩ none threeCards ⟨[], fun _ => none⟩).2.calls =
        .probe cpuCandidate (.ok ⟨5, 5⟩) :: outcomes.map ProbeOutcome.call ∧
    (brokenFirst.select cudaDigest ⟨"0", "", "", ""⟩ none threeCards ⟨[], fun _ => none⟩).1 =
      .ok runtime ∧
    runtime.candidate = winner ⟨5, 5⟩ outcomes ∧ runtime.candidate = ⟨cuda, "b", some 1⟩ := by
  obtain ⟨⟨cpuOutcome, outcomes, hcalls, -, hok⟩, -⟩ := selection_isOptimal brokenFirst cudaDigest
    ⟨"0", "", "", ""⟩ none threeCards ⟨[], fun _ => none⟩ reachesProbing_threeCards
  have hfirst : cpuOutcome = .ok ⟨5, 5⟩ := by
    have hhead := congrArg List.head? hcalls
    exact ((NativeCall.probe.inj (Option.some.inj hhead)).2).symm
  subst hfirst
  obtain ⟨hprobed, runtime, hruntime, hwinner⟩ := hok _ rfl
  refine ⟨outcomes, runtime, hprobed, hcalls, hruntime, hwinner, ?_⟩
  exact congrArg RuntimeSelection.candidate (Except.ok.inj hruntime).symm

end SemanticSidecar
