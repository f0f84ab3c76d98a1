import SemanticSidecar.Engine.Benchmark
import SemanticSidecar.Engine.Mismatch
import SemanticSidecar.Engine.Served

/-!
# What the winner of a comparison has produced

The comparison of the backends looks at the timings of their probes only.  This file runs it with
notes of every probe and asks of the accelerator that wins whether it has embedded the probe texts
at all: whether every text was given a finite unit vector of the served width, and none the zero
vector that stands in for a text that could not be encoded.

What a backend does in its probe is fixed by the machine, and `trial` is that; which backend wins
is up to the clock as well.  `selection_isReal_iff` is therefore about all clocks.  The winner has
produced its vectors, whatever the timings, exactly if every accelerator whose probe is not
stopped has answered it in full, with a row for every lone text it was asked for and rows that the
served lane makes unit vectors of.  That is a condition on the answers of the loader, the
tokenizer and llama.cpp alone, `AnswersAreReal`.

An accelerator that gives up on every text still completes its probe, unless llama.cpp breaks.
`benchmark_rejected` says exactly when.

* `probe_run` relates a probe in a comparison to the trial of its candidate.
* `trial_isReal_iff` tells the notes of a trial from the answers to it.
* `probeAll_trials` and `probeAll_wins` are the loop over the accelerators: what it leaves, and that
  the clock can make any completed probe the fastest.
-/

set_option autoImplicit false

namespace SemanticSidecar

/-! ## Probes with notes -/

/-- The notes of one probe. -/
structure ProbeRecord where
  /-- The backend that was probed, on which device. -/
  candidate : BackendCandidate
  /-- The probe has a timing. -/
  completed : Bool
  /-- The lone inputs that were given up. -/
  givenUp : List (List LlamaToken)
  /-- The texts that were embedded, with their vectors. -/
  served : List (String × List Float32)

/-- The machine, the cache file, and the notes of the probes so far. -/
structure ProbeWorld (σ : Type) where
  /-- The state of llama.cpp. -/
  host : σ
  /-- The verdicts on file. -/
  cache : RuntimeCache
  /-- The probes, in the order in which they were run. -/
  probes : List ProbeRecord

section

variable {σ : Type}

/-- The cache file of a selection; `persists` is whether it can be rewritten. -/
def probeStore (persists : Bool) : SelectionStore (StateM (ProbeWorld σ)) where
  readRuntimeStore world := (world.cache, world)
  mutateRuntimeCache f world :=
    ((), if persists then { world with cache := f world.cache } else world)

namespace NativeHost

variable (host : NativeHost σ) (pin : ModelPin)

/-- One probe, under a clock that may depend on all that the notes say. -/
def probe (elapsed : List ProbeRecord → ProbeState σ → ℕ) (candidate : BackendCandidate) :
    StateM (ProbeWorld σ) (Except String ProbeTiming) := fun world =>
  let run := (benchmarkCandidate (host.recorded (elapsed world.probes)) pin candidate).run
    ⟨world.host, [], []⟩
  (run.1, { world with
    host := run.2.host
    probes := world.probes ++ [⟨candidate, run.1.isOk, run.2.givenUp, run.2.served⟩] })

/-- What a candidate does in its probe. -/
def trial (candidate : BackendCandidate) (s : σ) : ProbeRecord × σ :=
  let run := (benchmarkCandidate (host.recorded fun _ => 0) pin candidate).run ⟨s, [], []⟩
  (⟨candidate, run.1.isOk, run.2.givenUp, run.2.served⟩, run.2.host)

/-- The trials of the candidates, one after the other. -/
def trials : List BackendCandidate → σ → List ProbeRecord
  | [], _ => []
  | candidate :: rest, s => (host.trial pin candidate s).1 ::
      trials rest (host.trial pin candidate s).2

/-- The machine after the trials. -/
def afterTrials : List BackendCandidate → σ → σ
  | [], s => s
  | candidate :: rest, s => afterTrials rest (host.trial pin candidate s).2

/-- A selection, with notes of its probes. -/
def select (elapsed : List ProbeRecord → ProbeState σ → ℕ) (persists : Bool)
    (sha256 : List UInt8 → List UInt8) (i : Installation) (forced : Option String)
    (failures : List String) (cache : RuntimeCache) (s : σ) :
    Except String RuntimeSelection × ProbeWorld σ :=
  (selectRuntimeWith (probeStore persists) sha256 (host.probe pin elapsed) i.context forced
    (i.discovery failures)).run ⟨s, cache, []⟩

end NativeHost

/-- A finite unit vector of the served width. -/
def IsServed (tolerance : Float) (pin : ModelPin) (vector : List Float32) : Prop :=
  vector.length = pin.serveDims ∧ IsUnitVector tolerance vector

/-- The probe has produced a real vector for every text, and a zero vector for none. -/
structure ProbeRecord.IsReal (tolerance : Float) (pin : ModelPin) (record : ProbeRecord) :
    Prop where
  /-- No zero vector stands in for a text. -/
  givenUp : record.givenUp = []
  /-- Every text was embedded. -/
  covered : ∀ text ∈ backendProbeTexts, ∃ v, (text, v) ∈ record.served
  /-- Every vector is a real one. -/
  served : ∀ text v, (text, v) ∈ record.served → IsServed tolerance pin v

/-- The accelerator that is selected has completed a probe, and produced its vectors in every one
that it has completed. -/
def AcceleratorIsReal (tolerance : Float) (pin : ModelPin)
    (run : Except String RuntimeSelection × ProbeWorld σ) : Prop :=
  ∀ runtime, run.1 = .ok runtime → runtime.selection.resolved ≠ cpu →
    (∃ record ∈ run.2.probes, record.candidate = runtime.candidate ∧ record.completed = true) ∧
    ∀ record ∈ run.2.probes, record.candidate = runtime.candidate → record.completed = true →
      record.IsReal tolerance pin

/-- The answers to a probe are real: every lone input that was asked for has a row, and every row
has a unit vector for its served lane. -/
structure RowsAreReal (tolerance : Float) (pin : ModelPin) (answers : List Answer) : Prop where
  /-- No lone input was refused. -/
  refusals : refusals answers = []
  /-- What the served lane makes of a row is a unit vector. -/
  unit : ∀ row ∈ rowsOf answers, IsUnitVector tolerance (pin.lane row)

/-! ## What a trial is answered -/

namespace NativeHost

variable (host : NativeHost σ) (pin : ModelPin)
  (elapsed : List ProbeRecord → ProbeState σ → ℕ)

/-- The notes of a trial. -/
theorem trial_noted (candidate : BackendCandidate) (elapsed : σ → ℕ) (s : σ) :
    NotedProbe pin.lane pin.serveDims fixedTexts ⟨s, [], []⟩
      ((benchmarkCandidate (host.recorded fun _ => 0) pin candidate).run ⟨s, [], []⟩)
      ((benchmarkCandidate (host.plain elapsed) pin candidate).run s)
      ((host.askedProbe pin candidate).run s) :=
  host.benchmark_noted pin candidate (fun _ => 0) elapsed ⟨s, [], []⟩

/-- A trial is a run of the probe itself. -/
theorem trial_completed (candidate : BackendCandidate) (elapsed : σ → ℕ) (s : σ) :
    (host.trial pin candidate s).1.completed =
      ((benchmarkCandidate (host.plain elapsed) pin candidate).run s).1.isOk :=
  (host.trial_noted pin candidate elapsed s).result

/-- A trial leaves the machine as the answers to it do. -/
theorem trial_state (candidate : BackendCandidate) (s : σ) :
    (host.trial pin candidate s).2 = ((host.askedProbe pin candidate).run s).2 :=
  (host.trial_noted pin candidate (fun _ => 0) s).host.trans
    (host.trial_noted pin candidate (fun _ => 0) s).state

/-- A trial is completed unless an answer puts an end to it. -/
theorem trial_stops (candidate : BackendCandidate) (s : σ) :
    (host.trial pin candidate s).1.completed =
      !stopped ((host.askedProbe pin candidate).run s).1 :=
  (host.trial_noted pin candidate (fun _ => 0) s).stops

/-- **What a completed trial has produced, told by its answers.** -/
theorem trial_isReal_iff (tolerance : Float) {candidate : BackendCandidate} {s : σ}
    (hcompleted : (host.trial pin candidate s).1.completed = true) :
    (host.trial pin candidate s).1.IsReal tolerance pin ↔
      RowsAreReal tolerance pin ((host.askedProbe pin candidate).run s).1 := by
  obtain ⟨-, -, -, hgivenUp, -, hserved⟩ := host.trial_noted pin candidate (fun _ => 0) s
  have hnotes : (host.trial pin candidate s).1.givenUp =
      refusals ((host.askedProbe pin candidate).run s).1 := hgivenUp
  constructor
  · rintro ⟨hnothing, -, hreal⟩
    have hnil := hnotes.symm.trans hnothing
    obtain ⟨hcount, -, hentries⟩ := hserved hcompleted hnil
    have hnoted : (host.trial pin candidate s).1.served = _ := hentries
    refine ⟨hnil, fun row hrow => ?_⟩
    -- The vector of the row stands beside a text.
    have hlength : ((rowsOf ((host.askedProbe pin candidate).run s).1).map pin.lane).length =
        fixedTexts.length := (List.length_map _).trans hcount
    have hmem : pin.lane row ∈ (rowsOf ((host.askedProbe pin candidate).run s).1).map pin.lane :=
      List.mem_map_of_mem hrow
    rw [← @List.map_snd_zip _ _ fixedTexts _ hlength.le] at hmem
    obtain ⟨⟨text, v⟩, hentry, hv⟩ := List.mem_map.mp hmem
    obtain rfl : v = pin.lane row := hv
    exact (hreal text _ (hnoted.symm ▸ hentry)).2
  · rintro ⟨hnil, hunit⟩
    obtain ⟨hcount, hwidth, hentries⟩ := hserved hcompleted hnil
    have hnoted : (host.trial pin candidate s).1.served = _ := hentries
    have hlength : fixedTexts.length =
        ((rowsOf ((host.askedProbe pin candidate).run s).1).map pin.lane).length :=
      hcount.symm.trans (List.length_map _).symm
    refine ⟨hnotes.trans hnil, fun text htext => ?_, fun text v hv => ?_⟩
    · have hfixed : text ∈ fixedTexts :=
        List.mem_append_right _ (List.mem_append_right _ htext)
      obtain ⟨v, hv⟩ := exists_mem_zip hfixed hlength
      exact ⟨v, hnoted.symm ▸ hv⟩
    · have hentry : (text, v) ∈
          fixedTexts.zip ((rowsOf ((host.askedProbe pin candidate).run s).1).map pin.lane) := by
        rw [hnoted] at hv
        exact hv
      obtain ⟨row, hrow, rfl⟩ := List.mem_map.mp (List.of_mem_zip hentry).2
      exact ⟨hwidth row hrow, hunit row hrow⟩

/-- A probe is the trial of its candidate, timed. -/
theorem probe_run (candidate : BackendCandidate) (world : ProbeWorld σ) :
    ((host.probe pin elapsed candidate).run world).2 =
        { world with
          host := (host.trial pin candidate world.host).2
          probes := world.probes ++ [(host.trial pin candidate world.host).1] } ∧
      ((host.probe pin elapsed candidate).run world).1.isOk =
        (host.trial pin candidate world.host).1.completed ∧
      ∀ timing, ((host.probe pin elapsed candidate).run world).1 = .ok timing →
        ∃ p₁ p₂, timing = ⟨elapsed world.probes p₁, elapsed world.probes p₂⟩ := by
  obtain ⟨p₁, p₂, hrun⟩ := host.benchmark_run (elapsed world.probes) pin candidate
    ⟨world.host, [], []⟩
  have hprobe : (host.probe pin elapsed candidate).run world =
      (fun run : Except String ProbeTiming × ProbeState σ => (run.1, { world with
        host := run.2.host
        probes := world.probes ++ [⟨candidate, run.1.isOk, run.2.givenUp, run.2.served⟩] }))
      ((benchmarkCandidate (host.recorded (elapsed world.probes)) pin candidate).run
        ⟨world.host, [], []⟩) := rfl
  have htrial : host.trial pin candidate world.host =
      (fun run : Except String ProbeTiming × ProbeState σ =>
        (⟨candidate, run.1.isOk, run.2.givenUp, run.2.served⟩, run.2.host))
      ((benchmarkCandidate (host.recorded fun _ => 0) pin candidate).run
        ⟨world.host, [], []⟩) := rfl
  rw [hprobe, htrial, hrun]
  generalize (benchmarkCandidate (host.recorded fun _ => 0) pin candidate).run
    ⟨world.host, [], []⟩ = run
  obtain ⟨reason | timing, p⟩ := run
  · exact ⟨rfl, rfl, fun timing h => (error_ne_ok h).elim⟩
  · exact ⟨rfl, rfl, fun timing h => ⟨p₁, p₂, (Except.ok.inj h).symm⟩⟩

/-- The trials, each in the state that those before it leave. -/
theorem mem_trials {candidates : List BackendCandidate} {s : σ} {record : ProbeRecord}
    (h : record ∈ host.trials pin candidates s) :
    ∃ front candidate back, candidates = front ++ candidate :: back ∧
      record = (host.trial pin candidate (host.afterTrials pin front s)).1 := by
  induction candidates generalizing s with
  | nil => exact absurd h (by simp [trials])
  | cons candidate rest ih =>
    rw [trials] at h
    rcases List.mem_cons.mp h with rfl | h
    · exact ⟨[], candidate, rest, rfl, rfl⟩
    · obtain ⟨front, other, back, rfl, hrecord⟩ := ih h
      exact ⟨candidate :: front, other, back, rfl, hrecord⟩

theorem getElem?_trials (front : List BackendCandidate) (candidate : BackendCandidate)
    (back : List BackendCandidate) (s : σ) :
    (host.trials pin (front ++ candidate :: back) s)[front.length]? =
      some (host.trial pin candidate (host.afterTrials pin front s)).1 := by
  induction front generalizing s with
  | nil => rfl
  | cons first front ih => exact ih _

/-- The machine as the answers to the probes of some candidates leave it. -/
def hostAfter : List BackendCandidate → σ → σ
  | [], s => s
  | candidate :: rest, s => hostAfter rest ((host.askedProbe pin candidate).run s).2

theorem afterTrials_eq (candidates : List BackendCandidate) (s : σ) :
    host.afterTrials pin candidates s = host.hostAfter pin candidates s := by
  induction candidates generalizing s with
  | nil => rfl
  | cons candidate rest ih => rw [afterTrials, hostAfter, ih, trial_state]

/-! ## The comparison -/

/-- What the probes of the accelerators leave: the notes of their trials, and a winner among
those that were completed. -/
theorem probeAll_trials (candidates : List BackendCandidate) (tally : Tally)
    (world : ProbeWorld σ) :
    ((probeAll (host.probe pin elapsed) candidates tally).run world).2 =
        { world with
          host := host.afterTrials pin candidates world.host
          probes := world.probes ++ host.trials pin candidates world.host } ∧
      ∀ winner timing,
        ((probeAll (host.probe pin elapsed) candidates tally).run world).1.fastest =
            some (winner, timing) →
          tally.fastest = some (winner, timing) ∨
          ∃ record ∈ host.trials pin candidates world.host,
            record.candidate = winner ∧ record.completed = true := by
  induction candidates generalizing tally world with
  | nil => exact ⟨by rw [trials, List.append_nil]; rfl, fun _ _ h => Or.inl h⟩
  | cons candidate rest ih =>
    obtain ⟨hworld, hisOk, -⟩ := host.probe_run pin elapsed candidate world
    rw [probeAll, run_bind_state]
    obtain ⟨hstate, hwinner⟩ := ih
      (tally.record candidate ((host.probe pin elapsed candidate).run world).1)
      ((host.probe pin elapsed candidate).run world).2
    rw [hworld] at hstate hwinner
    refine ⟨?_, fun winner timing hfastest => ?_⟩
    · rw [hworld]
      refine hstate.trans ?_
      rw [trials, List.append_assoc, List.singleton_append]
      rfl
    · rw [hworld] at hfastest
      rcases hwinner winner timing hfastest with hhere | ⟨record, hrecord, hcandidate⟩
      · rcases houtcome : ((host.probe pin elapsed candidate).run world).1 with reason | found
        · rw [houtcome] at hhere
          exact Or.inl hhere
        · rw [houtcome] at hhere hisOk
          simp only [Tally.record] at hhere
          split at hhere
          · obtain ⟨rfl, rfl⟩ := Prod.mk.inj (Option.some.inj hhere)
            exact Or.inr ⟨_, List.mem_cons_self, rfl, hisOk.symm⟩
          · exact Or.inl hhere
      · exact Or.inr ⟨record, List.mem_cons_of_mem _ hrecord, hcandidate⟩

/-- Nothing is faster than no time at all. -/
theorem probeAll_keeps {candidates : List BackendCandidate} {tally : Tally}
    {world : ProbeWorld σ} {winner : BackendCandidate} {timing : ProbeTiming}
    (h : tally.fastest = some (winner, timing)) (htotal : timing.total = 0) :
    ((probeAll (host.probe pin elapsed) candidates tally).run world).1.fastest =
      some (winner, timing) := by
  induction candidates generalizing tally world with
  | nil => exact h
  | cons candidate rest ih =>
    rw [probeAll, run_bind_state]
    refine ih ?_
    rcases ((host.probe pin elapsed candidate).run world).1 with reason | found
    · exact h
    · simp only [Tally.record, h, Option.all_some, htotal, Nat.not_lt_zero, decide_false]
      rfl

/-- The clock under which probe number `k` takes no time, and any other embed a nanosecond. -/
def favour (k : ℕ) (probes : List ProbeRecord) (_ : ProbeState σ) : ℕ :=
  if probes.length = k then 0 else 1

theorem total_favour (k : ℕ) (probes : List ProbeRecord) (p₁ p₂ : ProbeState σ) :
    (ProbeTiming.mk (favour k probes p₁) (favour k probes p₂)).total =
      if probes.length = k then 0 else 2 := by
  rw [ProbeTiming.total, favour, favour]
  split
  · rfl
  · rfl

/-- Under the clock that favours it, an accelerator that completes its probe wins. -/
theorem probeAll_wins {k j : ℕ} {candidates : List BackendCandidate} {tally : Tally}
    {world : ProbeWorld σ} {record : ProbeRecord}
    (hslow : ∀ winner timing, tally.fastest = some (winner, timing) → 0 < timing.total)
    (hrecord : (host.trials pin candidates world.host)[j]? = some record)
    (hcompleted : record.completed = true) (hk : world.probes.length + j = k) :
    ∃ timing, ((probeAll (host.probe pin (favour k)) candidates tally).run world).1.fastest =
      some (record.candidate, timing) ∧ timing.total = 0 := by
  induction candidates generalizing tally world j with
  | nil => exact absurd hrecord (by simp [trials])
  | cons candidate rest ih =>
    obtain ⟨hworld, hisOk, htiming⟩ := host.probe_run pin (favour k) candidate world
    rw [probeAll, run_bind_state]
    rw [trials] at hrecord
    rcases j with _ | j
    · -- This is the probe that is favoured.
      obtain rfl := Option.some.inj hrecord
      rw [hcompleted] at hisOk
      rcases houtcome : ((host.probe pin (favour k) candidate).run world).1 with reason | timing
      · rw [houtcome] at hisOk
        exact absurd hisOk Bool.false_ne_true
      obtain ⟨p₁, p₂, rfl⟩ := htiming timing houtcome
      have htotal := total_favour k world.probes p₁ p₂
      rw [if_pos (show world.probes.length = k from hk)] at htotal
      refine ⟨_, host.probeAll_keeps pin (favour k) ?_ htotal, htotal⟩
      simp only [Tally.record, htotal]
      rcases hfastest : tally.fastest with _ | ⟨winner, best⟩
      · rfl
      · rw [Option.all_some, if_pos (decide_eq_true (hslow winner best hfastest))]
        rfl
    · refine ih (j := j) ?_ ?_ ?_
      · intro winner timing hfastest
        rcases houtcome : ((host.probe pin (favour k) candidate).run world).1 with reason | found
        · rw [houtcome] at hfastest
          exact hslow winner timing hfastest
        · obtain ⟨p₁, p₂, rfl⟩ := htiming found houtcome
          rw [houtcome] at hfastest
          simp only [Tally.record] at hfastest
          split at hfastest
          · obtain ⟨-, rfl⟩ := Prod.mk.inj (Option.some.inj hfastest)
            have htotal := total_favour k world.probes p₁ p₂
            rw [if_neg (by omega)] at htotal
            omega
          · exact hslow winner timing hfastest
      · rw [hworld]
        exact hrecord
      · rw [hworld]
        simp only [List.length_append, List.length_singleton]
        omega

/-- The probes of the accelerators in a comparison. -/
def probeAccelerators (forced : Option String) (discovery : Discovery) (world : ProbeWorld σ) :
    Tally × ProbeWorld σ :=
  (probeAll (host.probe pin elapsed) (discovery.accelerators forced)
    ⟨none, discovery.acceleratorFailures, [], []⟩).run world

/-- A comparison is decided by the probe of the CPU and those of the accelerators. -/
theorem compareRuntimes_run (persists : Bool) (key : String) (forced : Option String)
    (discovery : Discovery) (world : ProbeWorld σ) {cpuTiming : ProbeTiming}
    (hcpu : ((host.probe pin elapsed discovery.first).run world).1 = .ok cpuTiming) :
    ∃ runtime capabilities, ((compareRuntimes (probeStore persists) (host.probe pin elapsed) key
        forced discovery).run world).1 = .ok runtime ∧
      runtime.candidate = (decideRuntime (discovery.requested forced) capabilities cpuTiming
        (host.probeAccelerators pin elapsed forced discovery
          ((host.probe pin elapsed discovery.first).run world).2).1).candidate ∧
      ((compareRuntimes (probeStore persists) (host.probe pin elapsed) key forced
        discovery).run world).2.probes =
        (host.probeAccelerators pin elapsed forced discovery
          ((host.probe pin elapsed discovery.first).run world).2).2.probes := by
  rw [compareRuntimes, run_bind_state, hcpu, probeAccelerators]
  dsimp only
  rw [run_bind_state]
  generalize (probeAll (host.probe pin elapsed) (discovery.accelerators forced)
    ⟨none, discovery.acceleratorFailures, [], []⟩).run
    ((host.probe pin elapsed discovery.first).run world).2 = all
  split
  · refine ⟨_, _, rfl, rfl, ?_⟩
    rcases persists with _ | _
    · rfl
    · rfl
  · exact ⟨_, _, rfl, rfl, rfl⟩

/-- Only the fastest accelerator can be selected. -/
theorem fastest_of_decideRuntime {requested : Option String} {capabilities : BackendCapabilities}
    {cpuTiming : ProbeTiming} {tally : Tally}
    (h : (decideRuntime requested capabilities cpuTiming tally).selection.resolved ≠ cpu) :
    ∃ timing, tally.fastest =
      some ((decideRuntime requested capabilities cpuTiming tally).candidate, timing) := by
  rw [decideRuntime.eq_def] at h ⊢
  rcases hfastest : tally.fastest with _ | ⟨winner, timing⟩
  · simp only [hfastest] at h
    split at h
    · exact absurd rfl h
    · exact absurd rfl h
  · simp only [hfastest] at h ⊢
    split at h
    · rename_i hfaster
      rw [if_pos hfaster]
      exact ⟨timing, rfl⟩
    · exact absurd rfl h

/-- The fastest accelerator is selected when it is faster than the CPU. -/
theorem decideRuntime_of_fastest {requested : Option String} {capabilities : BackendCapabilities}
    {cpuTiming timing : ProbeTiming} {tally : Tally} {winner : BackendCandidate}
    (h : tally.fastest = some (winner, timing)) (hfaster : timing.total < cpuTiming.total) :
    (decideRuntime requested capabilities cpuTiming tally).candidate = winner := by
  rw [decideRuntime.eq_def, h]
  dsimp only
  rw [if_pos hfaster]
  rfl

end NativeHost

/-! ## Which accelerators are probed -/

theorem refuseForced_resolved {discovery : Discovery} {forced : Option String}
    {runtime : RuntimeSelection} (h : refuseForced discovery forced = some runtime) :
    runtime.selection.resolved = cpu := by
  rw [refuseForced.eq_def] at h
  split at h
  · exact absurd h (by simp)
  · split at h
    · exact Option.some.inj h ▸ rfl
    · split at h
      · exact absurd h (by simp)
      · exact Option.some.inj h ▸ rfl

/-- No accelerator is to be tried where the CPU is forced. -/
theorem accelerators_cpu (i : Installation) (failures : List String) :
    (i.discovery failures).accelerators (some cpu) = [] := by
  refine List.eq_nil_iff_forall_not_mem.mpr fun candidate h => ?_
  have hcpu : candidate.backend = cpu := of_decide_eq_true (List.mem_filter.mp h).2
  exact (mem_probed h).2 hcpu

/-- No accelerator is to be tried where the forced backend is refused. -/
theorem accelerators_refused {i : Installation} {failures : List String} {forced : Option String}
    {runtime : RuntimeSelection} (h : refuseForced (i.discovery failures) forced = some runtime) :
    (i.discovery failures).accelerators forced = [] := by
  refine List.eq_nil_iff_forall_not_mem.mpr fun candidate hmem => ?_
  obtain ⟨htail, hforced⟩ := List.mem_filter.mp hmem
  rw [refuseForced.eq_def] at h
  rcases forced with _ | requested
  · exact absurd h (by simp)
  have hbackend : candidate.backend = requested := of_decide_eq_true hforced
  obtain ⟨hstable, -⟩ := mem_accelerators htail
  dsimp only at h
  rw [if_neg (fun hunknown => hunknown (hbackend ▸ hstable)), if_pos] at h
  · exact absurd h (by simp)
  · exact List.any_eq_true.mpr ⟨candidate, List.mem_of_mem_tail htail, decide_eq_true hbackend⟩

/-! ## The selection -/

namespace NativeHost

variable (host : NativeHost σ) (pin : ModelPin)
  (elapsed : List ProbeRecord → ProbeState σ → ℕ) (persists : Bool)
  {sha256 : List UInt8 → List UInt8} {i : Installation} {forced : Option String}
  {failures : List String} {cache : RuntimeCache} {s : σ}

/-- A selection without a comparison is of the CPU; the others are comparisons. -/
theorem select_cases (hmiss : (i.discovery failures).isCacheable (normalizeForced forced)
      failures = true → cache (i.key sha256) = none) :
    ((∀ runtime, (host.select pin elapsed persists sha256 i forced failures cache s).1 =
        .ok runtime → runtime.selection.resolved = cpu) ∧
      (i.discovery failures).accelerators (normalizeForced forced) = []) ∨
    host.select pin elapsed persists sha256 i forced failures cache s =
      (compareRuntimes (probeStore persists) (host.probe pin elapsed) (i.key sha256)
        (normalizeForced forced) (i.discovery failures)).run ⟨s, cache, []⟩ := by
  simp only [select, selectRuntimeWith]
  rw [show (forced.map fun value => (Text.trim value).toLower) = normalizeForced forced from rfl]
  generalize normalizeForced forced = requested at hmiss ⊢
  by_cases hcpu : requested = some cpu
  · rw [if_pos hcpu, hcpu]
    refine Or.inl ⟨fun runtime h => ?_, accelerators_cpu i failures⟩
    obtain rfl : cpuRuntime = runtime := Except.ok.inj h
    rfl
  rw [if_neg hcpu]
  rcases hrefuse : refuseForced (i.discovery failures) requested with _ | runtime
  swap
  · refine Or.inl ⟨fun runtime' h => ?_, accelerators_refused hrefuse⟩
    obtain rfl : runtime = runtime' := Except.ok.inj h
    exact refuseForced_resolved hrefuse
  refine Or.inr ?_
  dsimp only
  have hconsult : (consultCache (probeStore persists) (runtimeCacheKey sha256 i.context
      (i.discovery failures).machine) requested (i.discovery failures)).run
      (⟨s, cache, []⟩ : ProbeWorld σ) = (none, ⟨s, cache, []⟩) := by
    rw [consultCache]
    split
    · rename_i hcacheable
      have hnone : cache (runtimeCacheKey sha256 i.context (i.discovery failures).machine) = none :=
        hmiss hcacheable
      change ((cache (runtimeCacheKey sha256 i.context (i.discovery failures).machine)).map _, _) = _
      rw [hnone]
      rfl
    · rfl
  rw [run_bind_state, hconsult]
  rfl

/-- The probe of the CPU is its trial. -/
theorem probe_cpu (i : Installation) (failures : List String) (cache : RuntimeCache) (s : σ) :
    (((host.probe pin elapsed (i.discovery failures).first).run ⟨s, cache, []⟩).1.isOk =
      (host.trial pin cpuCandidate s).1.completed) ∧
    ((host.probe pin elapsed (i.discovery failures).first).run ⟨s, cache, []⟩).2 =
      ⟨(host.trial pin cpuCandidate s).2, cache, [(host.trial pin cpuCandidate s).1]⟩ ∧
    ∀ timing, ((host.probe pin elapsed (i.discovery failures).first).run ⟨s, cache, []⟩).1 =
      .ok timing → ∃ p₁ p₂, timing = ⟨elapsed [] p₁, elapsed [] p₂⟩ := by
  obtain ⟨hworld, hisOk, htiming⟩ := host.probe_run pin elapsed cpuCandidate ⟨s, cache, []⟩
  exact ⟨hisOk, hworld, htiming⟩

/-- The answers to the probe of an accelerator that comes after others, on a machine where the CPU
is probed first. -/
def answersTo (front : List BackendCandidate) (candidate : BackendCandidate) (s : σ) :
    List Answer :=
  ((host.askedProbe pin candidate).run (host.hostAfter pin (cpuCandidate :: front) s)).1

/-- **The condition on the machine.**  Every accelerator that is probed answers its probe in full,
if it is not stopped by an answer; or there is no comparison, because an answer to the CPU's probe
stops that. -/
def AnswersAreReal (tolerance : Float) (i : Installation) (forced : Option String)
    (failures : List String) (s : σ) : Prop :=
  stopped ((host.askedProbe pin cpuCandidate).run s).1 = true ∨
    ∀ front candidate back,
      (i.discovery failures).accelerators (normalizeForced forced) = front ++ candidate :: back →
      stopped (host.answersTo pin front candidate s) = true ∨
        RowsAreReal tolerance pin (host.answersTo pin front candidate s)

variable {tolerance : Float}

/-- A probe that is completed is one that no answer has stopped. -/
theorem not_stopped_of_completed {candidate : BackendCandidate} {t : σ}
    (h : (host.trial pin candidate t).1.completed = true) :
    ¬ stopped ((host.askedProbe pin candidate).run t).1 = true := by
  rw [trial_stops] at h
  exact Bool.eq_false_iff.mp ((Bool.not_eq_true' _).mp h)

theorem isReal_of_answers (hmiss : (i.discovery failures).isCacheable
      (normalizeForced forced) failures = true → cache (i.key sha256) = none)
    (h : host.AnswersAreReal pin tolerance i forced failures s) :
    AcceleratorIsReal tolerance pin (host.select pin elapsed persists sha256 i forced failures cache s) := by
  intro runtime hok haccelerated
  rcases host.select_cases pin elapsed persists (s := s) hmiss with ⟨hcpu, -⟩ | hcompare
  · exact absurd (hcpu runtime hok) haccelerated
  rw [hcompare] at hok ⊢
  obtain ⟨hisOk, hworld, -⟩ := host.probe_cpu pin elapsed i failures cache s
  rcases hcpu : ((host.probe pin elapsed (i.discovery failures).first).run ⟨s, cache, []⟩).1 with
    reason | cpuTiming
  · rw [compareRuntimes, run_bind_state, hcpu] at hok
    exact (error_ne_ok hok).elim
  rw [hcpu] at hisOk
  have hanswers := h.resolve_left (host.not_stopped_of_completed pin hisOk.symm)
  obtain ⟨runtime', _, hok', hcandidate, hprobes⟩ := host.compareRuntimes_run pin elapsed persists
    (i.key sha256) (normalizeForced forced) (i.discovery failures) ⟨s, cache, []⟩ hcpu
  obtain rfl : runtime' = runtime := Except.ok.inj (hok'.symm.trans hok)
  rw [hworld, probeAccelerators] at hcandidate hprobes
  obtain ⟨hstate, hwinner⟩ := host.probeAll_trials pin elapsed
    ((i.discovery failures).accelerators (normalizeForced forced))
    ⟨none, (i.discovery failures).acceleratorFailures, [], []⟩
    ⟨(host.trial pin cpuCandidate s).2, cache, [(host.trial pin cpuCandidate s).1]⟩
  rw [hstate] at hprobes
  have hbackend : runtime'.candidate.backend ≠ cpu := haccelerated
  rw [hcandidate] at hbackend
  obtain ⟨timing, hfastest⟩ := fastest_of_decideRuntime hbackend
  rw [← hcandidate] at hfastest
  obtain ⟨record, hrecord, hsame, hcompleted⟩ :=
    (hwinner _ _ hfastest).resolve_left (by simp)
  rw [hprobes]
  refine ⟨⟨record, List.mem_append_right _ hrecord, hsame, hcompleted⟩, ?_⟩
  intro other hother hsame hcompleted
  rcases List.mem_append.mp hother with hfirst | hother
  · -- The probe of the CPU is not one of the winner's.
    obtain rfl := List.mem_singleton.mp hfirst
    exact absurd (congrArg BackendCandidate.backend hsame).symm haccelerated
  · obtain ⟨front, candidate, back, hsplit, rfl⟩ := host.mem_trials pin hother
    have hasked : host.answersTo pin front candidate s = ((host.askedProbe pin candidate).run
        (host.afterTrials pin front (host.trial pin cpuCandidate s).2)).1 := by
      rw [answersTo, hostAfter, afterTrials_eq, trial_state]
    refine (host.trial_isReal_iff pin tolerance hcompleted).mpr ?_
    exact hasked ▸ (hanswers front candidate back hsplit).resolve_left
      (hasked ▸ host.not_stopped_of_completed pin hcompleted)

/-- The clock that favours a probe makes its accelerator the winner. -/
theorem isReal_of_favoured (hmiss : (i.discovery failures).isCacheable
      (normalizeForced forced) failures = true → cache (i.key sha256) = none)
    (hcompleted : (host.trial pin cpuCandidate s).1.completed = true) {j : ℕ} {record : ProbeRecord}
    (hj : (host.trials pin ((i.discovery failures).accelerators (normalizeForced forced))
      (host.trial pin cpuCandidate s).2)[j]? = some record)
    (hdone : record.completed = true)
    (hreal : AcceleratorIsReal tolerance pin
      (host.select pin (favour (1 + j)) persists sha256 i forced failures cache s)) :
    record.IsReal tolerance pin := by
  have hrecord := List.mem_of_getElem? hj
  rcases host.select_cases pin (favour (1 + j)) persists (s := s) hmiss with ⟨-, hnone⟩ | hcompare
  · rw [hnone] at hrecord
    exact absurd hrecord (by simp [trials])
  rw [hcompare] at hreal
  obtain ⟨hisOk, hworld, htiming⟩ := host.probe_cpu pin (favour (1 + j)) i failures cache s
  rw [hcompleted] at hisOk
  rcases hcpu : ((host.probe pin (favour (1 + j)) (i.discovery failures).first).run
    ⟨s, cache, []⟩).1 with reason | cpuTiming
  · rw [hcpu] at hisOk
    exact absurd hisOk Bool.false_ne_true
  obtain ⟨p₁, p₂, rfl⟩ := htiming cpuTiming hcpu
  obtain ⟨runtime, _, hok, hcandidate, hprobes⟩ := host.compareRuntimes_run pin (favour (1 + j))
    persists (i.key sha256) (normalizeForced forced) (i.discovery failures) ⟨s, cache, []⟩ hcpu
  rw [hworld, probeAccelerators] at hcandidate hprobes
  have hwins : ∃ timing, (host.probeAccelerators pin (favour (1 + j)) (normalizeForced forced)
      (i.discovery failures)
      ⟨(host.trial pin cpuCandidate s).2, cache, [(host.trial pin cpuCandidate s).1]⟩).1.fastest =
      some (record.candidate, timing) ∧ timing.total = 0 :=
    host.probeAll_wins pin (fun _ _ hfastest => absurd hfastest (by simp)) hj hdone rfl
  obtain ⟨timing, hfastest, htotal⟩ := hwins
  have hfaster : timing.total <
      (ProbeTiming.mk (favour (1 + j) [] p₁) (favour (1 + j) [] p₂)).total := by
    rw [htotal, total_favour, if_neg (by rw [List.length_nil]; omega)]
    exact Nat.two_pos
  rw [probeAccelerators] at hfastest
  rw [decideRuntime_of_fastest hfastest hfaster] at hcandidate
  obtain ⟨hstate, -⟩ := host.probeAll_trials pin (favour (1 + j))
    ((i.discovery failures).accelerators (normalizeForced forced))
    ⟨none, (i.discovery failures).acceleratorFailures, [], []⟩
    ⟨(host.trial pin cpuCandidate s).2, cache, [(host.trial pin cpuCandidate s).1]⟩
  rw [hstate] at hprobes
  have haccelerated : runtime.selection.resolved ≠ cpu := by
    obtain ⟨front, candidate, back, hsplit, htrial⟩ := host.mem_trials pin hrecord
    have hbackend : runtime.selection.resolved = candidate.backend :=
      congrArg BackendCandidate.backend (hcandidate.trans (congrArg ProbeRecord.candidate htrial))
    have hmem : candidate ∈ (i.discovery failures).accelerators (normalizeForced forced) :=
      hsplit ▸ List.mem_append_right _ List.mem_cons_self
    exact hbackend ▸ (mem_probed hmem).2
  refine (hreal runtime hok haccelerated).2 record ?_ hcandidate.symm hdone
  rw [hprobes]
  exact List.mem_append_right _ hrecord

theorem answers_of_isReal (hmiss : (i.discovery failures).isCacheable
      (normalizeForced forced) failures = true → cache (i.key sha256) = none)
    (h : ∀ elapsed, AcceleratorIsReal tolerance pin
      (host.select pin elapsed persists sha256 i forced failures cache s)) :
    host.AnswersAreReal pin tolerance i forced failures s := by
  rcases hcompleted : (host.trial pin cpuCandidate s).1.completed with _ | _
  · rw [trial_stops] at hcompleted
    exact Or.inl ((Bool.not_eq_false' _).mp hcompleted)
  refine Or.inr fun front candidate back hsplit => ?_
  have hasked : host.answersTo pin front candidate s = ((host.askedProbe pin candidate).run
      (host.afterTrials pin front (host.trial pin cpuCandidate s).2)).1 := by
    rw [answersTo, hostAfter, afterTrials_eq, trial_state]
  rw [hasked]
  rcases hdone : (host.trial pin candidate
    (host.afterTrials pin front (host.trial pin cpuCandidate s).2)).1.completed with _ | _
  · rw [trial_stops] at hdone
    exact Or.inl ((Bool.not_eq_false' _).mp hdone)
  · -- The clock can make this probe the fastest.
    refine Or.inr ((host.trial_isReal_iff pin tolerance hdone).mp ?_)
    have hj := host.getElem?_trials pin front candidate back (host.trial pin cpuCandidate s).2
    rw [← hsplit] at hj
    exact host.isReal_of_favoured pin persists hmiss hcompleted hj hdone (h _)

/-! ## A backend that encodes nothing -/

/-- The attempts of the fixed probes: the batch of one twice, and the batch of all. -/
def probeAttempts (engine : LlamaEngine) (inputs : List (List LlamaToken)) :
    List (List (List LlamaToken)) :=
  attempts engine (inputs.take 1) ++ (attempts engine (inputs.take 1) ++ attempts engine inputs)

/-- What a probe can fail on when no row is accepted: a text that cannot be built, or llama.cpp on
one of the attempts. -/
def ProbeBreaks (placement : ModelPlacement) (engine : LlamaEngine) (s : σ) : Prop :=
  (∃ err, engine.buildInputs .document backendProbeTexts = .error err) ∨
    ∃ inputs, engine.buildInputs .document backendProbeTexts = .ok inputs ∧
      BreaksOn (fun group => (encodeGroup engine (host.runtime placement) group).run)
        (probeAttempts engine inputs) s

theorem timedEmbed_rejected {placement : ModelPlacement} {engine : LlamaEngine}
    (h : RejectsRows engine (host.runtime placement)) {texts : List String}
    {inputs : List (List LlamaToken)} (hne : texts ≠ [])
    (hinputs : engine.buildInputs .document texts = .ok inputs)
    (hlength : inputs.length = texts.length) (elapsed : σ → ℕ) (s : σ) :
    (BreaksOn (fun group => (encodeGroup engine (host.runtime placement) group).run)
        (attempts engine inputs) s ∧
      ∃ err, ((timedEmbed (host.plain elapsed) placement engine texts).run s).1 = .error err) ∨
    (¬ BreaksOn (fun group => (encodeGroup engine (host.runtime placement) group).run)
        (attempts engine inputs) s ∧
      ∃ time, (timedEmbed (host.plain elapsed) placement engine texts).run s = (.ok time,
        stateAfter (fun group => (encodeGroup engine (host.runtime placement) group).run)
          (attempts engine inputs) s)) := by
  rw [timedEmbed, run_bind_state]
  have hembed : ((host.plain elapsed).embed placement engine texts .document).run s =
      (engine.embed (host.runtime placement) texts .document).run s := rfl
  rw [hembed]
  rcases embed_rejected h hne hinputs hlength s with ⟨hbreaks, err, herr⟩ | ⟨hnot, hok⟩
  · rw [herr]
    exact Or.inl ⟨hbreaks, _, rfl⟩
  · rw [hok]
    exact Or.inr ⟨hnot, _, rfl⟩

theorem buildInputs_take {engine : LlamaEngine} {role : Role} {texts : List String}
    {inputs : List (List LlamaToken)} (h : engine.buildInputs role texts = .ok inputs) (n : ℕ) :
    engine.buildInputs role (texts.take n) = .ok (inputs.take n) ∧
      inputs.length = texts.length := by
  induction texts generalizing inputs n with
  | nil =>
    obtain rfl := Except.ok.inj h
    rw [List.take_nil, List.take_nil]
    exact ⟨rfl, rfl⟩
  | cons text rest ih =>
    rw [LlamaEngine.buildInputs] at h
    rcases hinput : engine.buildInput text role with err | input
    · rw [hinput] at h
      exact (error_ne_ok h).elim
    rcases hrest : engine.buildInputs role rest with err | others
    · rw [hinput, hrest] at h
      exact (error_ne_ok h).elim
    rw [hinput, hrest] at h
    obtain rfl := Except.ok.inj h
    rcases n with _ | n
    · exact ⟨rfl, congrArg Nat.succ (ih hrest 0).2⟩
    · obtain ⟨htake, hlength⟩ := ih hrest n
      rw [List.take_succ_cons, List.take_succ_cons, LlamaEngine.buildInputs, hinput, htake]
      exact ⟨rfl, congrArg Nat.succ hlength⟩

theorem timedEmbed_unbuilt {placement : ModelPlacement} {engine : LlamaEngine}
    {texts : List String} (hne : texts ≠ []) {err : EngineError}
    (h : engine.buildInputs .document texts = .error err) (elapsed : σ → ℕ) (s : σ) :
    ∃ reason, ((timedEmbed (host.plain elapsed) placement engine texts).run s).1 =
      .error reason := by
  have hnonempty : ¬ texts.isEmpty = true := fun hempty => hne (List.isEmpty_iff.mp hempty)
  have hembed : ((host.plain elapsed).embed placement engine texts .document).run s =
      (.error err, s) := by
    change (engine.embed (host.runtime placement) texts .document).run s = _
    rw [LlamaEngine.embed, LlamaEngine.embedWith]
    simp only [if_neg hnonempty, h]
    rfl
  rw [timedEmbed, run_bind_state, hembed]
  exact ⟨_, rfl⟩

theorem thenProbe_isError {α β : Type} {x : StateM σ (Except String α)}
    {k : α → StateM σ (Except String β)} {s : σ} :
    (∃ reason, ((thenProbe x k).run s).1 = .error reason) ↔
      (∃ reason, (x.run s).1 = .error reason) ∨
        ∃ a, (x.run s).1 = .ok a ∧ ∃ reason, ((k a).run (x.run s).2).1 = .error reason := by
  rw [thenProbe, run_bind_state]
  rcases (x.run s).1 with reason | a
  · exact iff_of_true ⟨reason, rfl⟩ (Or.inl ⟨reason, rfl⟩)
  · refine ⟨fun h => Or.inr ⟨a, rfl, h⟩, ?_⟩
    rintro (⟨_, h⟩ | ⟨a', ha, h⟩)
    · exact (error_ne_ok h.symm).elim
    · exact Except.ok.inj ha ▸ h

/-- A step that fails exactly if `B`, before steps that fail exactly if `C`. -/
theorem thenProbe_breaks {α β : Type} {x : StateM σ (Except String α)}
    {k : α → StateM σ (Except String β)} {s s' : σ} {B C : Prop}
    (hx : B ∧ (∃ reason, (x.run s).1 = .error reason) ∨ ¬ B ∧ ∃ a, x.run s = (.ok a, s'))
    (hk : ∀ a, (∃ reason, ((k a).run s').1 = .error reason) ↔ C) :
    (∃ reason, ((thenProbe x k).run s).1 = .error reason) ↔ B ∨ C := by
  rw [thenProbe_isError]
  rcases hx with ⟨hb, herr⟩ | ⟨hb, a, ha⟩
  · exact iff_of_true (Or.inl herr) (Or.inl hb)
  · rw [ha, or_iff_right hb]
    refine ⟨?_, fun hc => Or.inr ⟨a, rfl, (hk a).mpr hc⟩⟩
    rintro (⟨_, h⟩ | ⟨a', -, h⟩)
    · exact (error_ne_ok h.symm).elim
    · exact (hk a').mp h

/-- **When a backend that encodes nothing fails its probe.**  Timings aside, the fixed probes of a
model of which every row is refused fail exactly when a text cannot be built or llama.cpp breaks
on one of the attempts. -/
theorem runFixedProbesWith_rejected {placement : ModelPlacement} {engine : LlamaEngine}
    (h : RejectsRows engine (host.runtime placement)) (candidate : BackendCandidate)
    (elapsed : σ → ℕ) (s : σ) :
    (∃ reason, ((runFixedProbesWith candidate fun _ texts =>
        timedEmbed (host.plain elapsed) placement engine texts).run s).1 = .error reason) ↔
      host.ProbeBreaks placement engine s := by
  have hone : probeBatch1 ≠ [] := List.cons_ne_nil _ _
  have hall : probeBatch16 ≠ [] := List.cons_ne_nil _ _
  rw [runFixedProbesWith_eq, ProbeBreaks]
  rcases hbuilt : engine.buildInputs .document backendProbeTexts with err | inputs
  · -- The batch of all texts fails, if it is reached.
    refine iff_of_true ?_ (Or.inl ⟨err, rfl⟩)
    have hlast : ∀ s, ∃ reason, ((timedEmbed (host.plain elapsed) placement engine
        probeBatch16).run s).1 = .error reason := host.timedEmbed_unbuilt hall hbuilt elapsed
    simp only [thenProbe_isError]
    rcases hfirst : ((timedEmbed (host.plain elapsed) placement engine probeBatch1).run s).1 with
      reason | first
    · exact Or.inl ⟨reason, rfl⟩
    refine Or.inr ⟨first, rfl, ?_⟩
    generalize ((timedEmbed (host.plain elapsed) placement engine probeBatch1).run s).2 = s₁
    rcases hsecond : ((timedEmbed (host.plain elapsed) placement engine probeBatch1).run s₁).1 with
      reason | second
    · exact Or.inl ⟨reason, rfl⟩
    · exact Or.inr ⟨second, rfl, Or.inl (hlast _)⟩
  · obtain ⟨htake, hlength⟩ := buildInputs_take hbuilt 1
    have honce := host.timedEmbed_rejected h hone htake (buildInputs_take htake 1).2 elapsed
    have hbatch := host.timedEmbed_rejected h hall hbuilt hlength elapsed
    have hrun := thenProbe_breaks (honce s) fun _ => thenProbe_breaks (honce _) fun one =>
      thenProbe_breaks (hbatch _) fun all => iff_of_false
        (fun ⟨_, herr⟩ => (error_ne_ok herr.symm).elim :
          ¬ ∃ reason, ((pure (.ok (ProbeTiming.mk one all)) :
            StateM σ (Except String ProbeTiming)).run _).1 = .error reason) id
    rw [hrun, or_false]
    simp only [reduceCtorEq, exists_false, false_or, Except.ok.injEq, exists_eq_left']
    rw [probeAttempts, breaksOn_append, breaksOn_append]

theorem benchmark_rejected {candidate : BackendCandidate}
    (h : ∀ engine : LlamaEngine, engine.pin = pin →
      RejectsRows engine (host.runtime (placementForCandidate candidate)))
    (elapsed : σ → ℕ) (s : σ) :
    (∃ reason, ((benchmarkCandidate (host.plain elapsed) pin candidate).run s).1 =
        .error reason) ↔
      (∃ err, ((loadCandidate host.native pin candidate
        (.new candidate.backend candidate.backend none) .cpuOnly).run s).1 = .error err) ∨
      ∃ served, ((loadCandidate host.native pin candidate
          (.new candidate.backend candidate.backend none) .cpuOnly).run s).1 = .ok served ∧
        host.ProbeBreaks (placementForCandidate candidate) served.engine
          ((loadCandidate host.native pin candidate
            (.new candidate.backend candidate.backend none) .cpuOnly).run s).2 := by
  simp only [benchmarkCandidate]
  rw [run_bind_state]
  have hnative : (host.plain elapsed).native = host.native := rfl
  rw [hnative]
  rcases hload : ((loadCandidate host.native pin candidate
    (.new candidate.backend candidate.backend none) .cpuOnly).run s).1 with err | served
  · exact iff_of_true ⟨_, rfl⟩ (Or.inl ⟨err, rfl⟩)
  · refine (host.runFixedProbesWith_rejected (h served.engine (pin_loadCandidate _ hload))
      candidate elapsed _).trans ⟨fun hb => Or.inr ⟨served, rfl, hb⟩, ?_⟩
    rintro (⟨_, herr⟩ | ⟨served', hserved, hb⟩)
    · exact (error_ne_ok herr.symm).elim
    · exact Except.ok.inj hserved ▸ hb

/-- No answer of the conversation has a row. -/
def WithoutRows (x : StateM σ (List Answer)) : Prop := ∀ s, rowsOf (x.run s).1 = []

theorem WithoutRows.thenAsked {x y : StateM σ (List Answer)} (hx : WithoutRows x)
    (hy : WithoutRows y) : WithoutRows (thenAsked x y) := by
  intro s
  rw [thenAsked_run]
  split
  · exact hx s
  · rw [rowsOf_append, hx, hy, List.append_nil]

/-- An encoder that encodes nothing has no row for any slice of a batch. -/
theorem withoutRows_asked {attempt : List (List LlamaToken) →
      StateM σ (Except EncodeFailure (List (List Float32)))} (h : EncodesNothing attempt)
    (items : List (List LlamaToken)) : WithoutRows (asked attempt items) := by
  induction hn : items.length using Nat.strong_induction_on generalizing items with
  | _ n ih =>
    intro s
    rcases eq_or_ne items [] with rfl | hne
    · rw [asked_nil]
      rfl
    have hpos := List.length_pos_iff.mpr hne
    obtain ⟨failure, hfailure⟩ := h items hne s
    by_cases hdone : (settled items.length ((attempt items).run s).1).isSome ∨ items.length = 1
    · rw [asked_leaf hne hdone, hfailure, rowsOf_cons, Answer.rows]
      rcases failure with _ | err
      · rfl
      · rfl
    · rw [not_or, Bool.not_eq_true, Option.isSome_eq_false_iff, Option.isNone_iff_eq_none] at hdone
      obtain ⟨hsettled, hone⟩ := hdone
      have hmany : 1 < items.length := by omega
      obtain ⟨-, -, hempty⟩ := Answer.cut hmany hsettled
      have hfront := ih _ (by rw [List.length_take]; omega) (items.take (items.length / 2)) rfl
      have hback := ih _ (by rw [List.length_drop]; omega) (items.drop (items.length / 2)) rfl
      rw [asked_halves hmany hsettled, rowsOf_cons, hempty, List.nil_append]
      exact hfront.thenAsked hback _

/-- An encoder that serves no rows serves none for a batch. -/
theorem withoutRows_askedEmbed {attempt : List (List LlamaToken) →
      StateM σ (Except EncodeFailure (List (List Float32)))} (h : EncodesNothing attempt)
    (engine : LlamaEngine) (texts : List String) (role : Role) :
    WithoutRows (engine.askedEmbed attempt texts role) := by
  have hgroups : ∀ groups, WithoutRows (askedGroups attempt groups) := by
    intro groups
    induction groups with
    | nil => exact fun _ => rfl
    | cons group rest ih => exact (withoutRows_asked h group).thenAsked ih
  rw [LlamaEngine.askedEmbed]
  split
  · exact fun _ => rfl
  · split
    · exact fun _ => rfl
    · exact hgroups _

/-- Where every encode fails, so does every attempt. -/
theorem encodesNothing_attempt {encode attempt : List (List LlamaToken) →
      StateM σ (Except EncodeFailure (List (List Float32)))} {lane : List Float32 → List Float32}
    {dims : ℕ} (h : ServesRows encode attempt lane dims) (hnothing : EncodesNothing encode) :
    EncodesNothing attempt := by
  intro items hne s
  obtain ⟨failure, hfailure⟩ := hnothing items hne s
  rw [h.encode] at hfailure
  rcases hattempt : ((attempt items).run s).1 with failure' | rows
  · exact ⟨failure', rfl⟩
  · rw [hattempt] at hfailure
    exact (error_ne_ok hfailure.symm).elim

/-- A completed probe of a backend that encodes nothing is answered with refusals. -/
theorem not_rowsAreReal_of_rejected {candidate : BackendCandidate}
    (h : ∀ engine : LlamaEngine, engine.pin = pin →
      RejectsRows engine (host.runtime (placementForCandidate candidate))) {s : σ}
    (hgoes : ¬ stopped ((host.askedProbe pin candidate).run s).1 = true) :
    ¬ RowsAreReal tolerance pin ((host.askedProbe pin candidate).run s).1 := by
  have hrows : rowsOf ((host.askedProbe pin candidate).run s).1 = [] := by
    rw [askedProbe, run_bind_state]
    rcases hload : ((loadCandidate host.native pin candidate
      (.new candidate.backend candidate.backend none) .cpuOnly).run s).1 with err | served
    · rfl
    · have hnothing : EncodesNothing fun group => (rawGroup served.engine
          (host.runtime (placementForCandidate candidate)) group).run :=
        encodesNothing_attempt (encodeGroup_servesRows _ _)
          (encodeGroup_fails (h served.engine (pin_loadCandidate _ hload)))
      have hasks := withoutRows_askedEmbed hnothing served.engine
      exact ((hasks probeBatch1 .document).thenAsked
        ((hasks probeBatch1 .document).thenAsked (hasks probeBatch16 .document))) _
  intro hreal
  obtain ⟨hcount, -, -⟩ := (host.trial_noted pin candidate (fun _ => 0) s).served
    (by rw [(host.trial_noted pin candidate (fun _ => 0) s).stops,
      Bool.eq_false_iff.mpr hgoes]; rfl) hreal.refusals
  rw [hrows] at hcount
  exact absurd hcount (by decide)

/-- **When no accelerator wins on substituted vectors.**  On a cache miss, whatever the timings,
the accelerator that is selected has produced finite unit vectors of the served width, up to any
tolerance, exactly if the answers to every accelerator's probe put an end to it or are real.  And
the probe of a backend of which every row is refused is an error exactly if the model does not
load, a text cannot be built, or llama.cpp breaks. -/
theorem selection_isReal_iff (hmiss : (i.discovery failures).isCacheable
      (normalizeForced forced) failures = true → cache (i.key sha256) = none) :
    ((∀ elapsed, AcceleratorIsReal tolerance pin
        (host.select pin elapsed persists sha256 i forced failures cache s)) ↔
      host.AnswersAreReal pin tolerance i forced failures s) ∧
    ∀ (candidate : BackendCandidate) (elapsed : σ → ℕ) (t : σ),
      (∀ engine : LlamaEngine, engine.pin = pin →
        RejectsRows engine (host.runtime (placementForCandidate candidate))) →
      ((∃ reason, ((benchmarkCandidate (host.plain elapsed) pin candidate).run t).1 =
          .error reason) ↔
        (∃ err, ((loadCandidate host.native pin candidate
          (.new candidate.backend candidate.backend none) .cpuOnly).run t).1 = .error err) ∨
        ∃ served, ((loadCandidate host.native pin candidate
            (.new candidate.backend candidate.backend none) .cpuOnly).run t).1 = .ok served ∧
          host.ProbeBreaks (placementForCandidate candidate) served.engine
            ((loadCandidate host.native pin candidate
              (.new candidate.backend candidate.backend none) .cpuOnly).run t).2) :=
  ⟨⟨host.answers_of_isReal pin persists hmiss, fun h elapsed =>
      host.isReal_of_answers pin elapsed persists hmiss h⟩,
    fun _ elapsed t h => host.benchmark_rejected pin h elapsed t⟩

end NativeHost

end

/-! ## A model of the wrong width, on a machine with an accelerator -/

/-- A vocabulary of one token. -/
def oneTokenModel : LlamaModel where
  strToToken _ _ := .ok [1]
  tokenToPieceBytes _ _ _ _ := .ok [65]

/-- A machine whose rows are narrower than the served lane. -/
def narrowHost : NativeHost Unit where
  native :=
    { withDevices := fun _ => pure (.ok ())
      loadFromFile := fun _ => pure (.ok oneTokenModel) }
  runtime _ := narrowRuntime

/-- A card that CUDA can use. -/
def cudaCandidate : BackendCandidate := ⟨cuda, "cuda0", some 0⟩

theorem narrowHost_rejects (placement : ModelPlacement) (engine : LlamaEngine)
    (h : engine.pin = qwen3) : RejectsRows engine (narrowHost.runtime placement) := by
  intro seqId s raw hraw
  obtain rfl := Except.ok.inj hraw
  refine if_pos ?_
  rw [h]
  decide

/-- An engine on a model that gives every text one token. -/
def oneTokenEngine : LlamaEngine := ⟨qwen3, oneTokenModel, 1, 0⟩

theorem buildInput_oneToken (text : String) :
    oneTokenEngine.buildInput text .document = .ok [1] :=
  rfl

theorem buildInputs_oneToken (texts : List String) : ∃ inputs,
    oneTokenEngine.buildInputs .document texts = .ok inputs := by
  induction texts with
  | nil => exact ⟨[], rfl⟩
  | cons text rest ih =>
    obtain ⟨inputs, hinputs⟩ := ih
    refine ⟨[1] :: inputs, ?_⟩
    rw [LlamaEngine.buildInputs, buildInput_oneToken, hinputs]

/-- No call of the machine fails in a probe of its two candidates. -/
theorem narrowHost_unbroken {candidate : BackendCandidate}
    (h : candidate = cpuCandidate ∨ candidate = cudaCandidate) :
    ¬ ((∃ err, ((loadCandidate narrowHost.native qwen3 candidate
        (.new candidate.backend candidate.backend none) .cpuOnly).run ()).1 = .error err) ∨
      ∃ served, ((loadCandidate narrowHost.native qwen3 candidate
          (.new candidate.backend candidate.backend none) .cpuOnly).run ()).1 = .ok served ∧
        narrowHost.ProbeBreaks (placementForCandidate candidate) served.engine
          ((loadCandidate narrowHost.native qwen3 candidate
            (.new candidate.backend candidate.backend none) .cpuOnly).run ()).2) := by
  have hload : ∃ served, ((loadCandidate narrowHost.native qwen3 candidate
      (.new candidate.backend candidate.backend none) .cpuOnly).run ()).1 = .ok served ∧
      served.engine = oneTokenEngine := by
    rcases h with rfl | rfl
    · exact ⟨_, rfl, rfl⟩
    · exact ⟨_, rfl, rfl⟩
  obtain ⟨served, hserved, hengine⟩ := hload
  rintro (⟨err, herr⟩ | ⟨other, hother, hbreaks⟩)
  · rw [hserved] at herr
    exact (error_ne_ok herr.symm).elim
  · obtain rfl := Except.ok.inj (hserved.symm.trans hother)
    obtain ⟨inputs, hinputs⟩ := buildInputs_oneToken backendProbeTexts
    rw [hengine] at hbreaks
    rcases hbreaks with ⟨err, herr⟩ | ⟨_, -, hbreaks⟩
    · exact error_ne_ok (herr.symm.trans hinputs)
    · exact not_breaksOn_narrowRuntime _ _ _ hbreaks

/-- Every probe of the machine's two candidates completes. -/
theorem narrowHost_completes {candidate : BackendCandidate}
    (h : candidate = cpuCandidate ∨ candidate = cudaCandidate) :
    ¬ ∃ reason, ((benchmarkCandidate (narrowHost.plain fun _ => 0) qwen3 candidate).run ()).1 =
      .error reason := by
  rw [narrowHost.benchmark_rejected qwen3 (narrowHost_rejects _)]
  exact narrowHost_unbroken h

/-- What an accelerator without a row for any text answers: nothing that stops its probe, and
nothing real. -/
theorem answers_narrowHost {candidate : BackendCandidate}
    (h : candidate = cpuCandidate ∨ candidate = cudaCandidate) :
    ¬ stopped ((narrowHost.askedProbe qwen3 candidate).run ()).1 = true ∧
      ¬ RowsAreReal normTolerance qwen3 ((narrowHost.askedProbe qwen3 candidate).run ()).1 := by
  have hcompleted : (narrowHost.trial qwen3 candidate ()).1.completed = true := by
    rw [narrowHost.trial_completed qwen3 candidate fun _ => 0]
    have hcompletes := narrowHost_completes h
    rcases hrun : ((benchmarkCandidate (narrowHost.plain fun _ => 0) qwen3 candidate).run ()).1
      with reason | timing
    · exact absurd ⟨reason, hrun⟩ hcompletes
    · rfl
  have hgoes := narrowHost.not_stopped_of_completed qwen3 hcompleted
  exact ⟨hgoes, narrowHost.not_rowsAreReal_of_rejected qwen3 (narrowHost_rejects _) hgoes⟩

/-- The machine is not one that the selection is right for. -/
theorem not_answersAreReal_narrowHost :
    ¬ narrowHost.AnswersAreReal qwen3 normTolerance cudaMachine none [] () := by
  rintro (hstopped | hanswers)
  · exact (answers_narrowHost (Or.inl rfl)).1 hstopped
  · obtain ⟨hgoes, hnot⟩ := answers_narrowHost (Or.inr rfl : cudaCandidate = cpuCandidate ∨ _)
    exact (hanswers [] cudaCandidate [] rfl).elim hgoes hnot

/-- An accelerator without a row for any text completes its probe, and wins if it is fast. -/
theorem select_narrowHost :
    (∀ engine : LlamaEngine, engine.pin = qwen3 →
      RejectsRows engine (narrowHost.runtime (placementForCandidate cudaCandidate))) ∧
    (¬ ∃ reason, ((benchmarkCandidate (narrowHost.plain fun _ => 0) qwen3 cudaCandidate).run
      ()).1 = .error reason) ∧
    ¬ AcceleratorIsReal normTolerance qwen3 (narrowHost.select qwen3 (NativeHost.favour 1) true
      cudaDigest cudaMachine none [] (fun _ => none) ()) := by
  refine ⟨narrowHost_rejects _, narrowHost_completes (Or.inr rfl), fun hreal => ?_⟩
  obtain ⟨hgoes, hnot⟩ := answers_narrowHost (Or.inr rfl : cudaCandidate = cpuCandidate ∨ _)
  have hdone : ∀ candidate, ¬ stopped ((narrowHost.askedProbe qwen3 candidate).run ()).1 = true →
      (narrowHost.trial qwen3 candidate ()).1.completed = true := by
    intro candidate hgoes
    rw [NativeHost.trial_stops, Bool.eq_false_iff.mpr hgoes]
    rfl
  refine hnot ((narrowHost.trial_isReal_iff qwen3 normTolerance (hdone _ hgoes)).mp ?_)
  exact narrowHost.isReal_of_favoured qwen3 true (fun _ => rfl)
    (hdone _ (answers_narrowHost (Or.inl rfl)).1) (j := 0) rfl (hdone _ hgoes) hreal

theorem selection_isReal_iff_narrowHost :
    (¬ ∀ elapsed, AcceleratorIsReal normTolerance qwen3 (narrowHost.select qwen3 elapsed true
      cudaDigest cudaMachine none [] (fun _ => none) ())) ∧
    ¬ ∃ reason, ((benchmarkCandidate (narrowHost.plain fun _ => 0) qwen3 cudaCandidate).run
      ()).1 = .error reason := by
  obtain ⟨hiff, hbenchmark⟩ := @NativeHost.selection_isReal_iff Unit narrowHost qwen3 true
    cudaDigest cudaMachine none [] (fun _ => none) () normTolerance fun _ => rfl
  rw [hiff, hbenchmark cudaCandidate (fun _ => 0) () (narrowHost_rejects _)]
  exact ⟨not_answersAreReal_narrowHost, narrowHost_unbroken (Or.inr rfl)⟩

end SemanticSidecar
