import SemanticSidecar.Package.Modules

/-!
# What is loaded as native code

The load of the packaged modules is meant to touch one CPU module and the modules of the declared
accelerators.  `cpuModule_isChosen` says which CPU module that is and what follows it.  What
follows it, though, is every discovered file that is neither the base module nor a variant, and
the discovery looks for a shorter prefix than the variants have: a file such as `libggml-cpux.so`
is loaded after the CPU module as if it were an accelerator.  `loads_areWhitelisted_iff` says that
this is the only way a file that was not meant gets loaded.

The condition has three parts, of which one has to hold: accelerators are excluded from the load,
there is no such file beside the executable, or the CPU module is not loaded, after which nothing
else is.  The file need not be declared anywhere.  That it lies beside the executable is enough, and
a link that leads to a regular file counts as one, here as in the source.

The directory of the last part has the base module and one stray file, which is loaded.
-/

set_option autoImplicit false

namespace SemanticSidecar

variable {windows : Bool} {parent : Option ParentDir} {declared : DeclaredBackends}
  {includeAccelerators : Bool} {native : NativeModules} {directory : String}
  {paths : List String}

/-! ## The CPU module of choice -/

/-- The base module of the CPU, or a variant of it. -/
def IsCpuModule (windows : Bool) (name : String) : Prop :=
  name = cpuBaseName windows ∨ isCpuVariant windows name = true

theorem isRemaining_iff {name : String} :
    isRemaining windows name = true ↔ ¬ IsCpuModule windows name := by
  rw [isRemaining, Bool.and_eq_true, bne_iff_ne, Bool.not_eq_true', IsCpuModule, not_or,
    Bool.not_eq_true]

theorem cpu_isCpuModule {cpu : String} (h : native.cpu windows paths = some cpu) :
    cpu ∈ paths ∧ IsCpuModule windows cpu := by
  rw [NativeModules.cpu, chosenCpu, Option.orElse_eq_orElse, Option.orElse_eq_or,
    Option.or_eq_some_iff] at h
  rcases h with hbest | ⟨-, hbase⟩
  · obtain ⟨⟨path, score⟩, hargmax, rfl⟩ := Option.map_eq_some_iff.mp hbest
    obtain ⟨⟨scored, outcome⟩, hmem, hpositive⟩ :=
      List.mem_filterMap.mp (List.argmax_mem hargmax)
    have hpath : scored = path := by
      rcases outcome with reason | value
      · exact absurd hpositive (by simp [ScoreOutcome.positive])
      · rw [ScoreOutcome.positive] at hpositive
        split at hpositive
        · exact (Prod.mk.inj (Option.some.inj hpositive)).1
        · exact absurd hpositive (by simp)
    have hvariant : scored ∈ paths.filter (isCpuVariant windows) :=
      scores_fst windows native paths ▸ List.mem_map_of_mem hmem
    rw [hpath] at hvariant
    exact ⟨(List.mem_filter.mp hvariant).1, Or.inr (List.mem_filter.mp hvariant).2⟩
  · have hname := List.find?_some (p := fun path => decide (path = cpuBaseName windows)) hbase
    exact ⟨List.mem_of_find?_eq_some hbase, Or.inl (of_decide_eq_true hname)⟩

theorem mem_remaining {name : String} (h : name ∈ remaining windows includeAccelerators paths) :
    includeAccelerators = true ∧ name ∈ paths ∧ ¬ IsCpuModule windows name := by
  rw [remaining] at h
  split at h
  · obtain ⟨hmem, hremaining⟩ := List.mem_filter.mp h
    exact ⟨‹_›, hmem, isRemaining_iff.mp hremaining⟩
  · exact absurd h List.not_mem_nil

theorem remaining_pairwise (h : paths.Pairwise (· < ·)) :
    (remaining windows includeAccelerators paths).Pairwise (· < ·) := by
  rw [remaining]
  split
  · exact h.filter _
  · exact .nil

variable (windows parent declared includeAccelerators native)

/-- **Which modules are loaded.**  The CPU module of choice comes first; if there is none, nothing
is loaded, and if it does not load, nothing else is.  Otherwise, if accelerators are included,
every other module that is none of the CPU's is tried once and in path order, and those that fail
are reported in that order. -/
theorem cpuModule_isChosen : ∃ (scores : List ScoreOutcome) (loads : List LoadOutcome),
    (native.run windows parent declared includeAccelerators).2 =
      scores.map ScoreOutcome.call ++ loads.map LoadOutcome.call ∧
    (loads.map Prod.fst).Nodup ∧
    ((∃ message, modulesBeside windows parent declared includeAccelerators = .error message ∧
      scores = [] ∧ loads = [] ∧
      (native.run windows parent declared includeAccelerators).1 = .error message) ∨
    ∃ directory paths,
      modulesBeside windows parent declared includeAccelerators = .ok (directory, paths) ∧
      paths.Pairwise (· < ·) ∧ scores.map Prod.fst = paths.filter (isCpuVariant windows) ∧
      (∀ load ∈ loads, IsCpuModule windows load.1 →
        chosenCpu windows paths scores = some load.1) ∧
      ((chosenCpu windows paths scores = none ∧ loads = [] ∧ ∃ message,
        (native.run windows parent declared includeAccelerators).1 = .error message) ∨
      ∃ cpu, chosenCpu windows paths scores = some cpu ∧
        ((∃ reason message, loads = [(cpu, .error reason)] ∧
          (native.run windows parent declared includeAccelerators).1 = .error message) ∨
        ∃ outcomes, loads = (cpu, .ok ()) :: outcomes ∧
          outcomes.map Prod.fst =
            (if includeAccelerators then paths.filter (isRemaining windows) else []) ∧
          (native.run windows parent declared includeAccelerators).1 =
            .ok ⟨outcomes.filterMap (LoadOutcome.failure windows directory)⟩))) := by
  have hloads := run_loads windows parent declared includeAccelerators native
  generalize native.run windows parent declared includeAccelerators = run at hloads ⊢
  rcases hloads with ⟨reason, hlisted⟩ | ⟨directory, paths, hlisted, hnone, message⟩ |
    ⟨directory, paths, hlisted, cpu, hcpu, reason, -, message⟩ |
    ⟨directory, paths, hlisted, cpu, hcpu, -, outcomes, houtcomes⟩
  · exact ⟨[], [], rfl, .nil, Or.inl ⟨reason, hlisted, rfl, rfl, rfl⟩⟩
  · exact ⟨native.scores windows paths, [], (List.append_nil _).symm, .nil,
      Or.inr ⟨directory, paths, hlisted, modulesBeside_pairwise hlisted,
        scores_fst windows native paths, fun _ hload => absurd hload List.not_mem_nil,
        Or.inl ⟨hnone, rfl, message, rfl⟩⟩⟩
  · refine ⟨native.scores windows paths, [(cpu, .error reason)], rfl, List.nodup_singleton _,
      Or.inr ⟨directory, paths, hlisted, modulesBeside_pairwise hlisted,
        scores_fst windows native paths, fun load hload _ => ?_,
        Or.inr ⟨cpu, hcpu, Or.inl ⟨reason, message, rfl, rfl⟩⟩⟩⟩
    rw [List.mem_singleton.mp hload]
    exact hcpu
  · have hpairwise := modulesBeside_pairwise hlisted
    have hothers : ∀ load ∈ outcomes, ¬ IsCpuModule windows load.1 := fun load hload =>
      (mem_remaining (houtcomes ▸ List.mem_map_of_mem hload)).2.2
    refine ⟨native.scores windows paths, (cpu, .ok ()) :: outcomes, rfl, ?_,
      Or.inr ⟨directory, paths, hlisted, hpairwise, scores_fst windows native paths,
        fun load hload hcpuModule => ?_, Or.inr ⟨cpu, hcpu, Or.inr ⟨outcomes, rfl, houtcomes, rfl⟩⟩⟩⟩
    · rw [List.map_cons, houtcomes, List.nodup_cons]
      exact ⟨fun hmem => (mem_remaining hmem).2.2 (cpu_isCpuModule hcpu).2,
        (remaining_pairwise hpairwise).imp fun hlt => hlt.ne⟩
    · rcases List.mem_cons.mp hload with rfl | hload
      · exact hcpu
      · exact absurd hcpuModule (hothers load hload)

/-! ## The whitelist -/

variable {windows parent declared includeAccelerators native}

/-- Only the CPU module and the modules of declared accelerators are loaded, and only from beside
the executable, where a link to a regular file counts as one (`IsBeside`). -/
def OnlyWhitelisted (windows : Bool) (parent : Option ParentDir) (declared : DeclaredBackends)
    (calls : List ModuleCall) : Prop :=
  ∃ cpu, IsCpuModule windows cpu ∧ ∀ path outcome, .load path outcome ∈ calls →
    IsBeside parent path ∧
      (path = cpu ∨ ∃ backend ∈ declared.stableAccelerators, path = moduleFileName windows backend)

/-- A name that the discovery takes for one of the CPU's, and the load does not. -/
def IsStray (windows : Bool) (name : String) : Prop :=
  startsWith name (cpuPrefix windows) = true ∧ endsWith name (moduleSuffix windows) = true ∧
    ¬ IsCpuModule windows name

/-- A CPU module is there, and the loader accepts it. -/
def NativeModules.LoadsCpu (native : NativeModules) (windows : Bool) (parent : Option ParentDir)
    (declared : DeclaredBackends) (includeAccelerators : Bool) : Prop :=
  ∃ directory paths cpu,
    modulesBeside windows parent declared includeAccelerators = .ok (directory, paths) ∧
    native.cpu windows paths = some cpu ∧ native.load (native.scored windows paths) cpu = .ok ()

theorem mem_declaredNames {name : String} :
    name ∈ declaredNames windows declared includeAccelerators ↔ includeAccelerators = true ∧
      ∃ backend ∈ declared.stableAccelerators, name = moduleFileName windows backend := by
  rw [declaredNames]
  split
  · refine ⟨fun h => ⟨‹_›, ?_⟩, ?_⟩
    · obtain ⟨⟨backend, enabled⟩, hmem, rfl⟩ := List.mem_map.mp h
      obtain ⟨hentry, henabled⟩ := List.mem_filter.mp hmem
      simp only [List.mem_cons, Prod.mk.injEq, List.not_mem_nil, or_false] at hentry
      refine ⟨backend, List.mem_filter.mpr ?_, rfl⟩
      rcases hentry with ⟨rfl, hdeclared⟩ | ⟨rfl, hdeclared⟩ | ⟨rfl, hdeclared⟩
      · exact ⟨by decide, hdeclared.symm.trans henabled⟩
      · exact ⟨by decide, hdeclared.symm.trans henabled⟩
      · exact ⟨by decide, hdeclared.symm.trans henabled⟩
    · rintro ⟨-, backend, hbackend, rfl⟩
      obtain ⟨hstable, hsupports⟩ := List.mem_filter.mp hbackend
      refine List.mem_map.mpr ⟨(backend, declared.supports backend), List.mem_filter.mpr
        ⟨?_, hsupports⟩, rfl⟩
      simp only [stableBackends, List.mem_cons, List.not_mem_nil, or_false] at hstable
      rcases hstable with rfl | rfl | rfl
      · exact List.mem_cons_self
      · exact List.mem_cons_of_mem _ List.mem_cons_self
      · exact List.mem_cons_of_mem _ (List.mem_cons_of_mem _ List.mem_cons_self)
  · exact iff_of_false List.not_mem_nil fun h => absurd h.1 ‹_›

/-- The module of an accelerator is not taken for one of the CPU's. -/
theorem not_startsWith_cpuPrefix {backend : String} (h : backend ∈ stableBackends) :
    startsWith (moduleFileName windows backend) (cpuPrefix windows) = false := by
  simp only [stableBackends, List.mem_cons, List.not_mem_nil, or_false] at h
  rcases windows with _ | _
  · rcases h with rfl | rfl | rfl
    · decide
    · decide
    · decide
  · rcases h with rfl | rfl | rfl
    · decide
    · decide
    · decide

/-- What is discovered is one of the CPU's, a stray, or the module of a declared accelerator. -/
theorem isPackagedModule_iff {name : String} :
    isPackagedModule windows (declaredNames windows declared includeAccelerators) name = true ↔
      (startsWith name (cpuPrefix windows) = true ∧ endsWith name (moduleSuffix windows) = true) ∨
      includeAccelerators = true ∧
        ∃ backend ∈ declared.stableAccelerators, name = moduleFileName windows backend := by
  rw [isPackagedModule, Bool.or_eq_true, Bool.and_eq_true, ← mem_declaredNames, List.any_eq_true]
  refine or_congr_right ⟨?_, fun h => ⟨name, h, decide_eq_true rfl⟩⟩
  rintro ⟨declaredName, hmem, heq⟩
  exact (of_decide_eq_true heq).symm ▸ hmem

/-- A stray beside the executable is loaded. -/
theorem loads_stray {name : String} (hinclude : includeAccelerators = true)
    (hcpu : native.LoadsCpu windows parent declared includeAccelerators)
    (hbeside : IsBeside parent name) (hstray : IsStray windows name) :
    ∃ outcome, .load name outcome ∈
      (native.run windows parent declared includeAccelerators).2 := by
  obtain ⟨directory, paths, cpu, hlisted, hcpu, haccepted⟩ := hcpu
  have hmem : name ∈ paths :=
    (mem_modulesBeside hlisted).mpr ⟨hbeside, isPackagedModule_iff.mpr (Or.inl ⟨hstray.1,
      hstray.2.1⟩)⟩
  have hloads := run_loads windows parent declared includeAccelerators native
  generalize native.run windows parent declared includeAccelerators = run at hloads ⊢
  rcases hloads with ⟨reason, hlisted'⟩ | ⟨directory', paths', hlisted', hnone, message⟩ |
    ⟨directory', paths', hlisted', cpu', hcpu', reason, hbroken, message⟩ |
    ⟨directory', paths', hlisted', cpu', hcpu', -, outcomes, houtcomes⟩
  · exact (error_ne_ok (hlisted'.symm.trans hlisted)).elim
  · obtain ⟨-, rfl⟩ := Prod.mk.inj (Except.ok.inj (hlisted'.symm.trans hlisted))
    exact absurd (hnone.symm.trans hcpu) (Option.some_ne_none _).symm
  · obtain ⟨-, rfl⟩ := Prod.mk.inj (Except.ok.inj (hlisted'.symm.trans hlisted))
    obtain rfl := Option.some.inj (hcpu'.symm.trans hcpu)
    exact (error_ne_ok (hbroken.symm.trans haccepted)).elim
  · obtain ⟨-, rfl⟩ := Prod.mk.inj (Except.ok.inj (hlisted'.symm.trans hlisted))
    have htried : name ∈ outcomes.map Prod.fst := by
      rw [houtcomes, remaining, if_pos hinclude]
      exact List.mem_filter.mpr ⟨hmem, isRemaining_iff.mpr hstray.2.2⟩
    obtain ⟨⟨_, outcome⟩, houtcome, rfl⟩ := List.mem_map.mp htried
    exact ⟨outcome, List.mem_append_right _ (List.mem_cons_of_mem _
      (List.mem_map_of_mem (f := LoadOutcome.call) houtcome))⟩

/-- A stray that is loaded is not on the whitelist. -/
theorem not_onlyWhitelisted {name : String} {outcome : Except String Unit}
    {calls : List ModuleCall} (hstray : IsStray windows name)
    (hloaded : .load name outcome ∈ calls) :
    ¬ OnlyWhitelisted windows parent declared calls := by
  rintro ⟨cpu, hcpu, honly⟩
  rcases (honly name outcome hloaded).2 with rfl | ⟨backend, hbackend, rfl⟩
  · exact hstray.2.2 hcpu
  · have hstart := hstray.1
    rw [not_startsWith_cpuPrefix (List.mem_filter.mp hbackend).1] at hstart
    exact Bool.false_ne_true hstart

theorem mem_scored {path : String} {outcome : Except String Unit} :
    ¬ .load path outcome ∈ native.scored windows paths := by
  intro h
  obtain ⟨⟨scored, answer⟩, -, heq⟩ := List.mem_map.mp h
  exact ModuleCall.noConfusion heq

variable (windows parent declared includeAccelerators native)

/-! ### When nothing else is loaded -/

/-- **When only what is on the whitelist is loaded**: unless accelerators are included, a stray
lies beside the executable, and a CPU module is accepted, which all strays come after. -/
theorem loads_areWhitelisted_iff :
    OnlyWhitelisted windows parent declared
        (native.run windows parent declared includeAccelerators).2 ↔
      includeAccelerators = false ∨ (∀ name, IsBeside parent name → ¬ IsStray windows name) ∨
        ¬ native.LoadsCpu windows parent declared includeAccelerators := by
  refine ⟨fun honly => ?_, fun hcondition => ?_⟩
  · by_contra hno
    simp only [not_or, not_forall, not_not, Bool.not_eq_false] at hno
    obtain ⟨hinclude, ⟨name, hbeside, hstray⟩, hcpu⟩ := hno
    obtain ⟨outcome, hloaded⟩ := loads_stray hinclude hcpu hbeside hstray
    exact not_onlyWhitelisted hstray hloaded honly
  have hloads := run_loads windows parent declared includeAccelerators native
  generalize native.run windows parent declared includeAccelerators = run at hloads ⊢
  rcases hloads with ⟨reason, hlisted⟩ | ⟨directory, paths, hlisted, hnone, message⟩ |
    ⟨directory, paths, hlisted, cpu, hcpu, reason, -, message⟩ |
    ⟨directory, paths, hlisted, cpu, hcpu, haccepted, outcomes, houtcomes⟩
  · exact ⟨cpuBaseName windows, Or.inl rfl, fun _ _ hmem => absurd hmem List.not_mem_nil⟩
  · exact ⟨cpuBaseName windows, Or.inl rfl, fun _ _ hmem => absurd hmem mem_scored⟩
  · obtain ⟨hmem, hcpuModule⟩ := cpu_isCpuModule hcpu
    refine ⟨cpu, hcpuModule, fun path outcome hcall => ?_⟩
    rcases List.mem_append.mp hcall with hcall | hcall
    · exact absurd hcall mem_scored
    · obtain ⟨rfl, -⟩ := ModuleCall.load.inj (List.mem_singleton.mp hcall)
      exact ⟨((mem_modulesBeside hlisted).mp hmem).1, Or.inl rfl⟩
  · obtain ⟨hmem, hcpuModule⟩ := cpu_isCpuModule hcpu
    refine ⟨cpu, hcpuModule, fun path outcome hcall => ?_⟩
    rcases List.mem_append.mp hcall with hcall | hcall
    · exact absurd hcall mem_scored
    rcases List.mem_cons.mp hcall with hcall | hcall
    · obtain ⟨rfl, -⟩ := ModuleCall.load.inj hcall
      exact ⟨((mem_modulesBeside hlisted).mp hmem).1, Or.inl rfl⟩
    obtain ⟨load, hload, heq⟩ := List.mem_map.mp hcall
    obtain ⟨rfl, -⟩ := ModuleCall.load.inj heq
    obtain ⟨hinclude, htried, hnot⟩ := mem_remaining (houtcomes ▸ List.mem_map_of_mem hload)
    obtain ⟨hbeside, hpackaged⟩ := (mem_modulesBeside hlisted).mp htried
    refine ⟨hbeside, Or.inr ?_⟩
    rcases isPackagedModule_iff.mp hpackaged with ⟨hstart, hsuffix⟩ | ⟨-, hdeclared⟩
    · -- A stray, which the condition excludes.
      rcases hcondition with hexcluded | hnone | hrefused
      · exact absurd (hexcluded.symm.trans hinclude) Bool.false_ne_true
      · exact absurd ⟨hstart, hsuffix, hnot⟩ (hnone _ hbeside)
      · exact absurd ⟨directory, paths, cpu, hlisted, hcpu, haccepted⟩ hrefused
    · exact hdeclared

/-! ## A stray beside the base module -/

/-- The base module of the CPU, and a file whose name begins alike. -/
def strayDir : Directory where
  entries := ["libggml-cpu.so", "libggml-cpuevil.so"].map emptyFile
  nodup := by decide

/-- That directory at a path. -/
def strayParent : ParentDir := ⟨Text.toUtf8 "/opt/sidecar", .entries strayDir⟩

/-- Everything scores and loads. -/
def willing : NativeModules := ⟨fun _ _ => .ok 1, fun _ _ => .ok ()⟩

theorem isBeside_stray {name : String} (h : name ∈ ["libggml-cpu.so", "libggml-cpuevil.so"]) :
    IsBeside (some strayParent) name := by
  refine ⟨_, strayDir, rfl, List.mem_filterMap.mpr ⟨emptyFile name, ?_,
    Text.fromUtf8_toUtf8 name⟩⟩
  exact List.mem_filter.mpr ⟨List.mem_map_of_mem h, rfl⟩

theorem checkedParent_stray :
    checkedParent (some strayParent) = .ok ("/opt/sidecar", .entries strayDir) := by
  rw [checkedParent, show Text.fromUtf8 strayParent.path = some "/opt/sidecar" from
    Text.fromUtf8_toUtf8 _]
  dsimp only
  rw [if_neg (by decide)]
  rfl

theorem loadsCpu_stray (declared : DeclaredBackends) (includeAccelerators : Bool) :
    willing.LoadsCpu false (some strayParent) declared includeAccelerators := by
  have hlisted : ∃ paths, modulesBeside false (some strayParent) declared includeAccelerators =
      .ok ("/opt/sidecar", paths) := by
    rw [modulesBeside, checkedParent_stray]
    exact ⟨_, rfl⟩
  obtain ⟨paths, hlisted⟩ := hlisted
  have hbase : "libggml-cpu.so" ∈ paths :=
    (mem_modulesBeside hlisted).mpr ⟨isBeside_stray List.mem_cons_self,
      isPackagedModule_iff.mpr (Or.inl (by decide))⟩
  rcases hcpu : willing.cpu false paths with _ | cpu
  · rw [NativeModules.cpu, chosenCpu, Option.orElse_eq_orElse, Option.orElse_eq_or,
      Option.or_eq_none_iff] at hcpu
    exact absurd (decide_eq_true rfl) (List.find?_eq_none.mp hcpu.2 _ hbase)
  · exact ⟨_, paths, cpu, hlisted, hcpu, rfl⟩

/-- The stray is loaded, although no backend is declared. -/
theorem loads_strayDir : ¬ OnlyWhitelisted false (some strayParent)
    ⟨false, false, false, false, true⟩
    (willing.run false (some strayParent) ⟨false, false, false, false, true⟩ true).2 := by
  have hstray : IsStray false "libggml-cpuevil.so" := by
    refine ⟨by decide, by decide, ?_⟩
    rintro (h | h)
    · exact absurd h (by decide)
    · exact absurd h (by decide)
  obtain ⟨outcome, hloaded⟩ := loads_stray rfl (loadsCpu_stray _ _)
    (isBeside_stray (List.mem_cons_of_mem _ List.mem_cons_self)) hstray
  exact not_onlyWhitelisted hstray hloaded

end SemanticSidecar
