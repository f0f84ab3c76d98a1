import SemanticSidecar.Engine.Recall
import Mathlib.Data.List.Perm.Basic

/-!
# The capabilities a selection reports

A backend is advertised as soon as a device of it is discovered, and taken back once all the
probes are done if some device of it has failed and none has come through.  Several devices may
share a backend, so neither a failure nor a success alone decides.  `has_verdict` says what is
left: the backends that a device has come through on.

The devices come first.  llama.cpp lists them in an order of its own and spells their backends as
it likes; `declaredCandidate` is what one of them is to a build, and `discoverCandidates` lists
those in groups, without losing one.

A probe either proves the backend of its device or speaks against it (`proves_or_disproves`), and
the tally of a comparison keeps the backends of both kinds.  `select_capabilities` is about a
selection that comes to probing, for any devices and any outcomes of their probes: which candidates
a discovery lists and in which order, that each of them is probed once, and that the report has the
CPU and exactly the backends with a device that came through.  The backend that is selected is among
these.
-/

set_option autoImplicit false

namespace SemanticSidecar

/-! ## Grouping -/

section

variable {α κ : Type*} [DecidableEq κ]

/-- The elements in groups, one for each key, and in their order within a group. -/
def grouped (keys : List κ) (key : α → κ) (xs : List α) : List α :=
  keys.flatMap fun k => xs.filter fun x => key x = k

theorem grouped_filter {keys : List κ} {key : α → κ} {k : κ} (hk : k ∉ keys) (xs : List α) :
    grouped keys key (xs.filter fun x => key x ≠ k) = grouped keys key xs := by
  refine List.flatMap_congr fun k' hk' => ?_
  rw [List.filter_filter]
  refine List.filter_congr fun x _ => ?_
  have hne : k' ≠ k := fun heq => hk (heq ▸ hk')
  by_cases hx : key x = k'
  · simp [hx, hne]
  · simp [hx]

/-- Grouping by all the keys there are loses nothing. -/
theorem grouped_perm {keys : List κ} (hnodup : keys.Nodup) {key : α → κ} {xs : List α}
    (hkeys : ∀ x ∈ xs, key x ∈ keys) : (grouped keys key xs).Perm xs := by
  induction keys generalizing xs with
  | nil =>
    have hnil : xs = [] := List.eq_nil_iff_forall_not_mem.mpr fun x hx => by
      simpa using hkeys x hx
    rw [hnil]
    rfl
  | cons k keys ih =>
    obtain ⟨hk, hnodup⟩ := List.nodup_cons.mp hnodup
    have hrest : (grouped keys key (xs.filter fun x => key x ≠ k)).Perm
        (xs.filter fun x => key x ≠ k) := by
      refine ih hnodup fun x hx => ?_
      obtain ⟨hmem, hne⟩ := List.mem_filter.mp hx
      exact (List.mem_cons.mp (hkeys x hmem)).resolve_left (of_decide_eq_true hne)
    rw [grouped_filter hk] at hrest
    refine (hrest.append_left _).trans ?_
    simpa using List.filter_append_perm (fun x => decide (key x = k)) xs

end

/-! ## The devices -/

/-- What a device is to a build: a candidate of its backend if that is a declared accelerator, and
nothing otherwise. -/
def DeclaredBackends.declaredCandidate (declared : DeclaredBackends) (device : RuntimeDevice) :
    Option BackendCandidate :=
  match normalizeBackend device.backend with
  | some backend =>
    if backend ∈ stableBackends ∧ declared.supports backend = true then
      some (candidateOf (backend, device))
    else none
  | none => none

/-- The candidates among the devices, in the order of the devices. -/
def DeclaredBackends.declaredCandidates (declared : DeclaredBackends)
    (devices : List RuntimeDevice) : List BackendCandidate :=
  devices.filterMap declared.declaredCandidate

/-- The group of a backend. -/
def DeclaredBackends.group (declared : DeclaredBackends) (devices : List RuntimeDevice)
    (backend : String) : List BackendCandidate :=
  (declared.declaredCandidates devices).filter fun candidate => candidate.backend = backend

theorem backend_declaredCandidate {declared : DeclaredBackends} {device : RuntimeDevice}
    {candidate : BackendCandidate} (h : declared.declaredCandidate device = some candidate) :
    candidate.backend ∈ stableBackends ∧ declared.supports candidate.backend = true ∧
      normalizeBackend device.backend = some candidate.backend := by
  rw [DeclaredBackends.declaredCandidate] at h
  split at h
  · rename_i backend hbackend
    split at h
    · rename_i hdeclared
      obtain rfl := Option.some.inj h
      exact ⟨hdeclared.1, hdeclared.2, hbackend⟩
    · exact absurd h (by simp)
  · exact absurd h (by simp)

/-- What the loop over a declared accelerator pushes. -/
theorem group_of_supports {declared : DeclaredBackends} {backend : String}
    (hstable : backend ∈ stableBackends) (hsupports : declared.supports backend = true)
    (devices : List RuntimeDevice) :
    declared.group devices backend =
      (devicesOf devices backend).map fun device => candidateOf (backend, device) := by
  induction devices with
  | nil => rfl
  | cons device rest ih =>
    rw [DeclaredBackends.group, DeclaredBackends.declaredCandidates] at ih ⊢
    rw [devicesOf] at ih ⊢
    by_cases hdevice : normalizeBackend device.backend = some backend
    · have hcandidate : declared.declaredCandidate device = some (candidateOf (backend, device)) := by
        simp [DeclaredBackends.declaredCandidate, hdevice, hstable, hsupports]
      rw [List.filterMap_cons_some hcandidate, List.filter_cons_of_pos (by simp [candidateOf]), ih,
        List.filter_cons_of_pos (by simp [hdevice]), List.map_cons]
    · rw [List.filter_cons_of_neg (by simpa using hdevice), ← ih]
      rcases hcandidate : declared.declaredCandidate device with _ | candidate
      · rw [List.filterMap_cons_none hcandidate]
      · have hother := (backend_declaredCandidate hcandidate).2.2
        rw [List.filterMap_cons_some hcandidate, List.filter_cons_of_neg]
        simp only [decide_eq_true_eq]
        rintro rfl
        exact hdevice hother

/-- A backend that is not declared has no group. -/
theorem group_of_not_supports {declared : DeclaredBackends} {backend : String}
    (hsupports : ¬ declared.supports backend = true) (devices : List RuntimeDevice) :
    declared.group devices backend = [] := by
  rw [DeclaredBackends.group, List.filter_eq_nil_iff]
  intro candidate hcandidate hbackend
  obtain ⟨device, -, hdevice⟩ := List.mem_filterMap.mp hcandidate
  rw [decide_eq_true_eq] at hbackend
  exact hsupports (hbackend ▸ (backend_declaredCandidate hdevice).2.1)

/-- A discovery goes through the accelerators group by group. -/
theorem acceleratorDevices_eq_grouped (declared : DeclaredBackends)
    (devices : List RuntimeDevice) :
    (acceleratorDevices declared devices).map candidateOf =
      grouped stableBackends BackendCandidate.backend (declared.declaredCandidates devices) := by
  have hgroups : ∀ backends : List String, (∀ backend ∈ backends, backend ∈ stableBackends) →
      ((backends.filter declared.supports).flatMap fun backend =>
          (devicesOf devices backend).map fun device => (backend, device)).map candidateOf =
        backends.flatMap (declared.group devices) := by
    intro backends hstable
    induction backends with
    | nil => rfl
    | cons backend rest ih =>
      have hrest := ih fun backend hbackend => hstable backend (List.mem_cons_of_mem _ hbackend)
      rw [List.flatMap_cons, ← hrest]
      by_cases hsupports : declared.supports backend = true
      · rw [group_of_supports (hstable backend List.mem_cons_self) hsupports,
          List.filter_cons_of_pos hsupports, List.flatMap_cons, List.map_append, List.map_map]
        rfl
      · rw [group_of_not_supports hsupports, List.filter_cons_of_neg hsupports, List.nil_append]
  exact hgroups stableBackends fun _ hbackend => hbackend

theorem nodup_stableBackends : stableBackends.Nodup := by decide

/-- No device of a declared accelerator is lost or listed twice. -/
theorem candidates_perm (declared : DeclaredBackends) (devices : List RuntimeDevice) :
    ((acceleratorDevices declared devices).map candidateOf).Perm
      (declared.declaredCandidates devices) := by
  rw [acceleratorDevices_eq_grouped]
  refine grouped_perm nodup_stableBackends fun candidate hcandidate => ?_
  obtain ⟨device, -, hdevice⟩ := List.mem_filterMap.mp hcandidate
  exact (backend_declaredCandidate hdevice).1

/-! ## What the probes leave of the capabilities -/

/-- A probe of a device of the backend that has come through. -/
def ProbeOutcome.Proves (outcome : ProbeOutcome) (backend : String) : Prop :=
  outcome.1.backend = backend ∧ ∃ timing, outcome.2 = .ok timing

/-- A probe of a device of the backend that has failed. -/
def ProbeOutcome.Disproves (outcome : ProbeOutcome) (backend : String) : Prop :=
  outcome.1.backend = backend ∧ ∃ reason, outcome.2 = .error reason

theorem proves_or_disproves (outcome : ProbeOutcome) :
    outcome.Proves outcome.1.backend ∨ outcome.Disproves outcome.1.backend := by
  rcases outcome with ⟨candidate, reason | timing⟩
  · exact Or.inr ⟨rfl, reason, rfl⟩
  · exact Or.inl ⟨rfl, timing, rfl⟩

/-- What one more probe adds to the backends of a tally. -/
theorem mem_backends_record (tally : Tally) (outcome : ProbeOutcome) (backend : String) :
    (backend ∈ (tally.record outcome.1 outcome.2).usableBackends ↔
      backend ∈ tally.usableBackends ∨ outcome.Proves backend) ∧
    (backend ∈ (tally.record outcome.1 outcome.2).failedBackends ↔
      backend ∈ tally.failedBackends ∨ outcome.Disproves backend) := by
  rcases outcome with ⟨candidate, reason | timing⟩
  · have hfailed : ProbeOutcome.Disproves (candidate, .error reason) backend ↔
        backend = candidate.backend := by
      simp [ProbeOutcome.Disproves, eq_comm]
    rw [hfailed]
    simp [Tally.record, ProbeOutcome.Proves, or_comm]
  · have hproved : ProbeOutcome.Proves (candidate, .ok timing) backend ↔
        backend = candidate.backend := by
      simp [ProbeOutcome.Proves, eq_comm]
    rw [hproved]
    simp [Tally.record, ProbeOutcome.Disproves, or_comm]

/-- The backends that the tally holds for usable and for failed. -/
theorem mem_backends_tallyOf (discovery : Discovery) (outcomes : List ProbeOutcome)
    (backend : String) :
    (backend ∈ (tallyOf discovery outcomes).usableBackends ↔
      ∃ outcome ∈ outcomes, outcome.Proves backend) ∧
    (backend ∈ (tallyOf discovery outcomes).failedBackends ↔
      ∃ outcome ∈ outcomes, outcome.Disproves backend) := by
  induction outcomes using List.reverseRecOn with
  | nil => simp [tallyOf]
  | append_singleton outcomes outcome ih =>
    have hsnoc : ∀ p : ProbeOutcome → Prop,
        (∃ other ∈ outcomes ++ [outcome], p other) ↔ (∃ other ∈ outcomes, p other) ∨ p outcome :=
      fun p => by simp [or_and_right, exists_or]
    obtain ⟨husable, hfailed⟩ := mem_backends_record (tallyOf discovery outcomes) outcome backend
    rw [tallyOf_concat, husable, hfailed, ih.1, ih.2, hsnoc, hsnoc]
    exact ⟨Iff.rfl, Iff.rfl⟩

/-- A backend is taken back if a device of it has failed and none has come through. -/
theorem has_tally (discovery : Discovery) (outcomes : List ProbeOutcome) {backend : String}
    (hstable : backend ∈ stableBackends) (capabilities : BackendCapabilities) :
    ((tallyOf discovery outcomes).capabilities capabilities).has backend = true ↔
      capabilities.has backend = true ∧
        ((∃ outcome ∈ outcomes, outcome.Disproves backend) →
          ∃ outcome ∈ outcomes, outcome.Proves backend) := by
  obtain ⟨husable, hfailed⟩ := mem_backends_tallyOf discovery outcomes backend
  have hback : backend ∈ (tallyOf discovery outcomes).failedBackends.filter
      (· ∉ (tallyOf discovery outcomes).usableBackends) ∧ backend ∈ stableBackends ↔
        (∃ outcome ∈ outcomes, outcome.Disproves backend) ∧
          ¬ ∃ outcome ∈ outcomes, outcome.Proves backend := by
    rw [List.mem_filter, decide_eq_true_eq, husable, hfailed]
    exact and_iff_left hstable
  rw [Tally.capabilities, has_setCapabilities]
  split
  · rename_i hdisabled
    obtain ⟨hfailed, hnone⟩ := hback.mp hdisabled
    exact ⟨fun h => absurd h Bool.false_ne_true, fun h => absurd (h.2 hfailed) hnone⟩
  · rename_i hstays
    refine (and_iff_left fun hfailed => ?_).symm
    by_contra hnone
    exact hstays (hback.mpr ⟨hfailed, hnone⟩)

/-- The accelerators that nothing is forced among are all there are. -/
theorem accelerators_none (discovery : Discovery) :
    discovery.accelerators none = discovery.candidates.tail := by
  rw [Discovery.accelerators, List.filter_eq_self]
  exact fun _ _ => rfl

/-- **What is left of the capabilities** once every accelerator has been probed: the backends that
a device has come through on. -/
theorem has_verdict {declared : DeclaredBackends} {devices : List RuntimeDevice}
    {failures : List String} {outcomes : List ProbeOutcome}
    (hprobed : outcomes.map Prod.fst =
      (discoverCandidates declared devices failures).accelerators none)
    (cpuTiming : ProbeTiming) {backend : String} (hstable : backend ∈ stableBackends) :
    (verdict (discoverCandidates declared devices failures) none cpuTiming
        outcomes).capabilities.has backend = true ↔
      ∃ outcome ∈ outcomes, outcome.Proves backend := by
  rw [verdict, decideRuntime_capabilities, has_tally _ _ hstable, has_discoverCandidates]
  have hfound : (∃ entry ∈ acceleratorDevices declared devices, entry.1 = backend) ↔
      ∃ outcome ∈ outcomes, outcome.1.backend = backend := by
    have hmap : outcomes.map Prod.fst =
        (acceleratorDevices declared devices).map candidateOf :=
      hprobed.trans (accelerators_none _)
    have hbackends := congrArg (List.map BackendCandidate.backend) hmap
    rw [List.map_map, List.map_map] at hbackends
    have hmem := Iff.of_eq (congrArg (backend ∈ ·) hbackends)
    simpa [candidateOf, and_comm] using hmem.symm
  rw [hfound]
  constructor
  · rintro ⟨⟨outcome, houtcome, rfl⟩, hkept⟩
    rcases proves_or_disproves outcome with hproves | hdisproves
    · exact ⟨outcome, houtcome, hproves⟩
    · exact hkept ⟨outcome, houtcome, hdisproves⟩
  · rintro ⟨outcome, houtcome, hproves⟩
    exact ⟨⟨outcome, houtcome, hproves.1⟩, fun _ => ⟨outcome, houtcome, hproves⟩⟩

/-- A tally only knows the accelerators that were probed. -/
theorem tallyOf_of {discovery : Discovery} {outcomes : List ProbeOutcome}
    (hsub : ∀ outcome ∈ outcomes, outcome.1 ∈ discovery.candidates.tail) :
    (tallyOf discovery outcomes).Of discovery := by
  induction outcomes using List.reverseRecOn with
  | nil => exact fun _ _ hfastest => absurd hfastest (by simp [tallyOf])
  | append_singleton outcomes outcome ih =>
    rw [tallyOf_concat]
    refine (ih fun other hother => hsub other (List.mem_append_left _ hother)).record ?_ _
    exact hsub outcome (List.mem_append_right _ List.mem_cons_self)

/-! ## The report -/

theorem plain_verdict (declared : DeclaredBackends) (devices : List RuntimeDevice)
    (failures : List String) (forced : Option String) (cpuTiming : ProbeTiming)
    (outcomes : List ProbeOutcome) :
    (verdict (discoverCandidates declared devices failures) forced cpuTiming
      outcomes).capabilities.Plain := by
  rw [verdict, decideRuntime_capabilities]
  exact (plain_discovery ⟨⟨"", "", "", ""⟩, declared, devices⟩ failures).tally _

theorem vetted_verdict {declared : DeclaredBackends} {devices : List RuntimeDevice}
    {failures : List String} {forced : Option String} {outcomes : List ProbeOutcome}
    (hprobed : outcomes.map Prod.fst =
      (discoverCandidates declared devices failures).accelerators forced)
    (cpuTiming : ProbeTiming) :
    Vetted (discoverCandidates declared devices failures) forced
      (verdict (discoverCandidates declared devices failures) forced cpuTiming outcomes) := by
  refine vetted_decideRuntime (tallyOf_of fun outcome houtcome => ?_) cpuTiming
  have hmem : outcome.1 ∈ (discoverCandidates declared devices failures).accelerators forced :=
    hprobed ▸ List.mem_map_of_mem houtcome
  exact (List.mem_filter.mp hmem).1

/-- A vetted verdict for an accelerator advertises it. -/
theorem Vetted.has_resolved {discovery : Discovery} {forced : Option String}
    {runtime : RuntimeSelection} (h : Vetted discovery forced runtime)
    (haccelerated : runtime.selection.accelerated = true) :
    runtime.capabilities.has runtime.selection.resolved = true := by
  rcases h.placed with hcpu | ⟨-, hhas⟩
  · have hresolved : runtime.selection.resolved = cpu := congrArg BackendCandidate.backend hcpu
    rw [h.derived, hresolved] at haccelerated
    exact absurd haccelerated (by simp)
  · exact hhas

/-- **The capability report.**  A discovery lists the CPU and then the candidates among the devices
in groups, each in the order of the devices, and no device of a declared accelerator is lost or
listed twice.  A selection that nothing is forced on, that the cache has no verdict for and whose
CPU probe succeeds probes each of them once, and advertises the CPU and just those backends that a
device has come through on; the backend it accelerates with is one of those. -/
theorem select_capabilities (declared : DeclaredBackends) (devices : List RuntimeDevice)
    (failures : List String) :
    (discoverCandidates declared devices failures).candidates = cpuCandidate ::
        (declared.group devices metal ++ declared.group devices vulkan ++
          declared.group devices cuda) ∧
    (discoverCandidates declared devices failures).candidates.tail.Perm
      (declared.declaredCandidates devices) ∧
    ∀ (env : Surroundings) (sha256 : List UInt8 → List UInt8) (context : SelectionContext)
      (world : LoadWorld) (cpuTiming : ProbeTiming),
      ReachesProbing sha256 context none (discoverCandidates declared devices failures)
        world.cache →
      env.probe world cpuCandidate = .ok cpuTiming →
      ∃ (outcomes : List ProbeOutcome) (runtime : RuntimeSelection),
        (env.select sha256 context none (discoverCandidates declared devices failures) world).1 =
          .ok runtime ∧
        (env.select sha256 context none (discoverCandidates declared devices failures)
          world).2.calls = world.calls ++ .probe cpuCandidate (.ok cpuTiming) ::
            outcomes.map ProbeOutcome.call ∧
        outcomes.map Prod.fst = (discoverCandidates declared devices failures).candidates.tail ∧
        (∀ backend ∈ [metal, vulkan, cuda], runtime.capabilities.has backend = true ↔
          ∃ outcome ∈ outcomes, outcome.1.backend = backend ∧ ∃ timing, outcome.2 = .ok timing) ∧
        runtime.capabilities.cpu = true ∧
        (runtime.selection.accelerated = true →
          runtime.capabilities.has runtime.selection.resolved = true) := by
  refine ⟨?_, candidates_perm declared devices, ?_⟩
  · have hgroups := acceleratorDevices_eq_grouped declared devices
    have hspelled : grouped stableBackends BackendCandidate.backend
        (declared.declaredCandidates devices) =
          declared.group devices metal ++ (declared.group devices vulkan ++
            (declared.group devices cuda ++ [])) := rfl
    rw [hspelled, List.append_nil, ← List.append_assoc] at hgroups
    exact congrArg (cpuCandidate :: ·) hgroups
  · intro env sha256 context world cpuTiming hreaches hcpu
    obtain ⟨outcomes, hcompares⟩ := compareRuntimes_probe env
      (runtimeCacheKey sha256 context (discoverCandidates declared devices failures).machine) none
      (discoverCandidates declared devices failures) world
    rw [selectRuntimeWith_probes env hreaches]
    have hfirst : env.probe world (discoverCandidates declared devices failures).first =
        .ok cpuTiming := hcpu
    rw [hfirst] at hcompares
    have hcalls := hcompares.calls
    rw [show normalizeForced none = none from rfl]
    generalize (compareRuntimes env.store env.benchmark _ none _).run world = run
      at hcompares hcalls ⊢
    -- The entry that a clean verdict gets changes nothing but its key.
    obtain ⟨hprobed, runtime, hruntime, hcapabilities, hselection⟩ :
        outcomes.map Prod.fst =
            (discoverCandidates declared devices failures).accelerators none ∧
          ∃ runtime, run.1 = .ok runtime ∧
            runtime.capabilities = (verdict (discoverCandidates declared devices failures) none
              cpuTiming outcomes).capabilities ∧
            runtime.selection = (verdict (discoverCandidates declared devices failures) none
              cpuTiming outcomes).selection := by
      rcases hcompares with _ | ⟨_, _, hprobed, -⟩ | ⟨_, _, hprobed, -, world', -⟩
      · exact ⟨hprobed, _, rfl, rfl, rfl⟩
      · exact ⟨hprobed, _, rfl, rfl, rfl⟩
    refine ⟨outcomes, runtime, hruntime, hcalls, hprobed.trans (accelerators_none _), ?_, ?_, ?_⟩
    · intro backend hbackend
      rw [hcapabilities]
      exact has_verdict hprobed cpuTiming hbackend
    · rw [hcapabilities]
      exact (plain_verdict declared devices failures none cpuTiming outcomes).1
    · intro haccelerated
      rw [hcapabilities, hselection] at *
      exact (vetted_verdict hprobed cpuTiming).has_resolved haccelerated

/-- One broken card of three does not hide the others. -/
theorem select_capabilities_threeCards :
    ∃ (outcomes : List ProbeOutcome) (runtime : RuntimeSelection),
    (brokenFirst.select cudaDigest ⟨"0", "", "", ""⟩ none threeCards ⟨[], fun _ => none⟩).1 =
      .ok runtime ∧
    outcomes.map Prod.fst = threeCards.candidates.tail ∧
    (runtime.capabilities.has cuda = true ↔
      ∃ outcome ∈ outcomes, outcome.1.backend = cuda ∧ ∃ timing, outcome.2 = .ok timing) := by
  obtain ⟨outcomes, runtime, hruntime, -, hprobed, hhas, -⟩ :=
    (select_capabilities ⟨false, false, true, false, true⟩
      [⟨"CUDA", 0, "a", "", 0, "driver", true⟩, ⟨"CUDA", 1, "b", "", 0, "driver", true⟩,
        ⟨"CUDA", 2, "c", "", 0, "driver", true⟩] []).2.2 brokenFirst cudaDigest
      ⟨"0", "", "", ""⟩ ⟨[], fun _ => none⟩ ⟨5, 5⟩ reachesProbing_threeCards rfl
  exact ⟨outcomes, runtime, hruntime, hprobed, hhas cuda (by simp)⟩

end SemanticSidecar
