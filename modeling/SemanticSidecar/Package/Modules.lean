import SemanticSidecar.Engine.Benchmark
import SemanticSidecar.Lib.Callouts
import SemanticSidecar.Package.Directory
import Mathlib.Data.List.MinMax

/-!
# The native modules beside the executable

A build with dynamic backends loads them at its start: one module for the CPU, which is the
variant that scores best on the machine or else the base module, and then the modules of the
accelerators.  `loadPackagedModulesWith` is that program.  Scoring a module and loading it is up
to the surroundings, which are a scorer and a loader in a monad; all paths have the same parent,
so a file name stands for a path.

With surroundings that record what is asked of them, `Loads` says exit by exit what the program
does.  `cpuModule_isChosen` reads off which modules are loaded, in which order, and what becomes
of a failure.

Three things about the choice are easy to miss in the source.  The score of a variant has to be
above zero to count.  Among the best, the first one in the order of the names is taken, as a later
one has to be better.  And a variant whose score cannot be determined is passed over, which shows in
the message only if no other module can be chosen.  A module that does not load is fatal for the CPU
and a note in the report for an accelerator.
-/

set_option autoImplicit false

namespace SemanticSidecar

/-! ## Which files are modules

The two platforms name their modules in different ways. -/

section

variable (windows : Bool)

/-- `module_prefix`: Windows does without one. -/
def modulePrefix : String := if windows then "" else "lib"

/-- `module_suffix`: that of a library. -/
def moduleSuffix : String := if windows then ".dll" else ".so"

/-- `module_file_name`: the name of a backend's module. -/
def moduleFileName (backend : String) : String :=
  modulePrefix windows ++ "ggml-" ++ backend ++ moduleSuffix windows

/-- Every module of the CPU backend begins with it. -/
def cpuPrefix : String := modulePrefix windows ++ "ggml-cpu"

/-- Every variant of the CPU module begins with it. -/
def cpuVariantPrefix : String := modulePrefix windows ++ "ggml-cpu-"

/-- The CPU module that is not a variant. -/
def cpuBaseName : String := moduleFileName windows cpu

/-- The name of a variant of the CPU module. -/
def isCpuVariant (name : String) : Bool := startsWith name (cpuVariantPrefix windows)

/-- Neither the base module of the CPU nor a variant of it. -/
def isRemaining (name : String) : Bool := name != cpuBaseName windows && !isCpuVariant windows name

/-- The modules of the accelerators that the build declares, where these are to be loaded. -/
def declaredNames (declared : DeclaredBackends) (includeAccelerators : Bool) : List String :=
  if includeAccelerators then
    ([(metal, declared.metal), (vulkan, declared.vulkan), (cuda, declared.cuda)].filter
      fun entry => entry.2).map fun entry => moduleFileName windows entry.1
  else []

/-- A name to be loaded: one of a CPU module, or one that is declared. -/
def isPackagedModule (declaredNames : List String) (name : String) : Bool :=
  (startsWith name (cpuPrefix windows) && endsWith name (moduleSuffix windows)) ||
    declaredNames.any fun declared => name = declared

/-- What there is to be read at the path of a directory. -/
inductive DirListing where
  /-- The path is no directory. -/
  | notDirectory
  /-- The directory cannot be listed. -/
  | unreadable (reason : String)
  /-- The directory is listed. -/
  | entries (directory : Directory)

/-- `Path::is_dir`. -/
def DirListing.isDir : DirListing → Bool
  | .notDirectory => false
  | .unreadable _ => true
  | .entries _ => true

/-- The names of the regular files and of the links to such files, as far as they are text. -/
def Directory.fileNames (directory : Directory) : List String :=
  (directory.entries.filter DirEntry.isFile).filterMap fun entry => Text.fromUtf8 entry.name

/-- `packaged_module_paths_for_scope`: the modules in a directory, by name. -/
def packagedModulePathsForScope (listing : DirListing) (declared : DeclaredBackends)
    (includeAccelerators : Bool) : Except String (List String) :=
  match listing with
  | .notDirectory => .error "backend module directory is not readable"
  | .unreadable reason => .error ("cannot read backend module directory: " ++ reason)
  | .entries directory =>
    .ok (sortNames (directory.fileNames.filter
      (isPackagedModule windows (declaredNames windows declared includeAccelerators))))

/-! ## The parent of the executable -/

/-- A directory and its path. -/
structure ParentDir where
  /-- The bytes of the path. -/
  path : List UInt8
  /-- What a listing of it comes to. -/
  listing : DirListing

/-- The parent of an executable path, if it has one that native code can be given. -/
def checkedParent (parent : Option ParentDir) : Except String (String × DirListing) :=
  match parent with
  | none => .error "executable has no parent directory"
  | some parent =>
    match Text.fromUtf8 parent.path with
    | none => .error "executable parent path is not valid UTF-8"
    | some text =>
      if 0 ∈ parent.path then .error "executable parent path contains a NUL byte"
      else if parent.listing.isDir then .ok (text, parent.listing)
      else .error "executable parent directory is not readable"

/-- `Path::join`, displayed. -/
def displayPath (directory name : String) : String :=
  let separator := if windows then "\\" else "/"
  if endsWith directory separator then directory ++ name else directory ++ separator ++ name

/-! ## Scoring and loading -/

/-- The scores so far. -/
structure Scoring where
  /-- The variant with the highest score, and the score. -/
  best : Option (String × ℤ)
  /-- What is to be said of the variants that could not be scored. -/
  failures : List String

/-- The score of one more variant. -/
def Scoring.record (directory : String) (scoring : Scoring) (path : String) :
    Except String ℤ → Scoring
  | .ok score =>
    if 0 < score ∧ scoring.best.all fun current => current.2 < score then
      { scoring with best := some (path, score) }
    else scoring
  | .error reason =>
    { scoring with
      failures := scoring.failures ++ [displayPath windows directory path ++ ": " ++ reason] }

/-- The failures with one more module. -/
def reportFailure (directory : String) (failures : List String) (path : String) :
    Except String Unit → List String
  | .ok () => failures
  | .error reason =>
    failures ++ ["llama.cpp could not load packaged accelerator backend module " ++
      displayPath windows directory path ++ ": " ++ reason]

/-- `ModuleLoadReport`: what a load that succeeds reports. -/
structure ModuleLoadReport where
  /-- What is to be said of the accelerators that could not be loaded. -/
  acceleratorFailures : List String

section

variable {m : Type → Type} [Monad m] (scoreCpuVariant : String → m (Except String ℤ))
  (loader : String → m (Except String Unit))

/-- `load_modules_from_executable_with`: a loader is called on the directory of the executable. -/
def loadModulesFromExecutableWith {α : Type} (parent : Option ParentDir)
    (loader : String → DirListing → m (Except String α)) : m (Except String α) :=
  match checkedParent parent with
  | .error reason => pure (.error reason)
  | .ok (directory, listing) => loader directory listing

/-- The loop that scores the variants, one after the other. -/
def scoreVariants (directory : String) : List String → Scoring → m Scoring
  | [], scoring => pure scoring
  | path :: rest, scoring => do
    let outcome ← scoreCpuVariant path
    scoreVariants directory rest (scoring.record windows directory path outcome)

/-- The loop that loads the modules other than the CPU's, one after the other. -/
def loadAccelerators (directory : String) : List String → List String → m (List String)
  | [], failures => pure failures
  | path :: rest, failures => do
    let outcome ← loader path
    loadAccelerators directory rest (reportFailure windows directory failures path outcome)

/-- What is loaded from a list of module paths. -/
def loadModulePaths (directory : String) (includeAccelerators : Bool) (paths : List String) :
    m (Except String ModuleLoadReport) := do
  let scoring ← scoreVariants windows scoreCpuVariant directory
    (paths.filter (isCpuVariant windows)) ⟨none, []⟩
  match scoring.best.map Prod.fst <|> paths.find? fun path => path = cpuBaseName windows with
  | none =>
    pure (.error (if scoring.failures.isEmpty then
      "no supported packaged CPU backend module found beside the executable"
    else "cannot score a packaged CPU backend module: " ++
      String.intercalate ", " scoring.failures))
  | some cpu =>
    match ← loader cpu with
    | .error reason =>
      pure (.error ("llama.cpp could not load packaged CPU backend module " ++
        displayPath windows directory cpu ++ ": " ++ reason))
    | .ok () =>
      if includeAccelerators then do
        let failures ← loadAccelerators windows loader directory
          (paths.filter (isRemaining windows)) []
        pure (.ok ⟨failures⟩)
      else pure (.ok ⟨[]⟩)

/-- `load_packaged_modules_with`: the modules beside the executable are loaded. -/
def loadPackagedModulesWith (parent : Option ParentDir) (declared : DeclaredBackends)
    (includeAccelerators : Bool) : m (Except String ModuleLoadReport) :=
  loadModulesFromExecutableWith parent fun directory listing =>
    match packagedModulePathsForScope windows listing declared includeAccelerators with
    | .error reason => pure (.error reason)
    | .ok paths =>
      loadModulePaths windows scoreCpuVariant loader directory includeAccelerators paths

end

end

/-! ## Surroundings that record -/

/-- A question about a module, and the answer. -/
inductive ModuleCall where
  /-- The scorer is asked about a variant. -/
  | score (path : String) (outcome : Except String ℤ)
  /-- The loader is given a module. -/
  | load (path : String) (outcome : Except String Unit)

/-- A scorer and a loader, which may answer according to what has happened. -/
structure NativeModules where
  /-- The score of a variant. -/
  score : List ModuleCall → String → Except String ℤ
  /-- Whether a module can be loaded. -/
  load : List ModuleCall → String → Except String Unit

/-- One more question to the scorer. -/
def noteScore (calls : List ModuleCall) (path : String) (outcome : Except String ℤ) :
    List ModuleCall :=
  calls ++ [.score path outcome]

/-- One more question to the loader. -/
def noteLoad (calls : List ModuleCall) (path : String) (outcome : Except String Unit) :
    List ModuleCall :=
  calls ++ [.load path outcome]

/-- The load of the packaged modules in these surroundings, with what has happened by its end. -/
def NativeModules.run (native : NativeModules) (windows : Bool) (parent : Option ParentDir)
    (declared : DeclaredBackends) (includeAccelerators : Bool) :
    Except String ModuleLoadReport × List ModuleCall :=
  (loadPackagedModulesWith windows (Callouts.call native.score noteScore)
    (Callouts.call native.load noteLoad) parent declared includeAccelerators).run []

/-! ## The choice of a CPU module -/

/-- A variant and its score. -/
abbrev ScoreOutcome := String × Except String ℤ

/-- A module and what came of loading it. -/
abbrev LoadOutcome := String × Except String Unit

/-- The question that the score answers. -/
def ScoreOutcome.call (outcome : ScoreOutcome) : ModuleCall := .score outcome.1 outcome.2

/-- The question that the outcome answers. -/
def LoadOutcome.call (outcome : LoadOutcome) : ModuleCall := .load outcome.1 outcome.2

/-- A score that counts. -/
def ScoreOutcome.positive : ScoreOutcome → Option (String × ℤ)
  | (path, .ok score) => if 0 < score then some (path, score) else none
  | (_, .error _) => none

/-- The entry with the highest score, the first one where there are several. -/
def highest (scored : List (String × ℤ)) : Option (String × ℤ) :=
  @List.argmax _ ℤ Int.instLinearOrder.toPreorder Int.decLt Prod.snd scored

/-- The variant with the highest positive score, the first one where there are several, and the
base module where there is none. -/
def chosenCpu (windows : Bool) (paths : List String) (scores : List ScoreOutcome) :
    Option String :=
  (highest (scores.filterMap ScoreOutcome.positive)).map Prod.fst <|>
    paths.find? fun path => path = cpuBaseName windows

section

variable (windows : Bool) (directory : String)

/-- What the scores show. -/
def scoringOf (scores : List ScoreOutcome) : Scoring :=
  scores.foldl (fun scoring outcome => scoring.record windows directory outcome.1 outcome.2)
    ⟨none, []⟩

/-- The scan keeps the highest score. -/
theorem best_scoringOf (scores : List ScoreOutcome) :
    (scoringOf windows directory scores).best =
      highest (scores.filterMap ScoreOutcome.positive) := by
  induction scores using List.reverseRecOn with
  | nil => rfl
  | append_singleton scores outcome ih =>
    have hconcat : scoringOf windows directory (scores ++ [outcome]) =
        (scoringOf windows directory scores).record windows directory outcome.1 outcome.2 := by
      rw [scoringOf, List.foldl_append]
      rfl
    rw [hconcat, List.filterMap_append]
    rcases outcome with ⟨path, reason | score⟩
    · refine ih.trans ?_
      rw [List.filterMap_cons, ScoreOutcome.positive, List.filterMap_nil, List.append_nil]
    · rw [List.filterMap_cons, ScoreOutcome.positive, List.filterMap_nil, Scoring.record]
      by_cases hpositive : 0 < score
      · rw [if_pos hpositive, highest, List.argmax_concat, ← highest, ← ih]
        rcases hbest : (scoringOf windows directory scores).best with _ | ⟨current, best⟩
        · rw [if_pos ⟨hpositive, rfl⟩]
        · by_cases hless : best < score
          · rw [if_pos ⟨hpositive, decide_eq_true hless⟩]
            exact (if_pos hless).symm
          · rw [if_neg fun h => hless (of_decide_eq_true h.2)]
            exact hbest.trans (if_neg hless).symm
      · rw [if_neg hpositive, if_neg fun h => hpositive h.1, List.append_nil]
        exact ih

/-- The failure of an accelerator, as it is reported. -/
def LoadOutcome.failure : LoadOutcome → Option String
  | (_, .ok ()) => none
  | (path, .error reason) =>
    some ("llama.cpp could not load packaged accelerator backend module " ++
      displayPath windows directory path ++ ": " ++ reason)

theorem failures_reported (outcomes : List LoadOutcome) (failures : List String) :
    outcomes.foldl (fun failures outcome =>
        reportFailure windows directory failures outcome.1 outcome.2) failures =
      failures ++ outcomes.filterMap (LoadOutcome.failure windows directory) := by
  induction outcomes generalizing failures with
  | nil => exact (List.append_nil _).symm
  | cons outcome rest ih =>
    rw [List.foldl_cons, ih]
    rcases outcome with ⟨path, reason | ⟨⟨⟩⟩⟩
    · rw [reportFailure, List.append_assoc]
      rfl
    · rfl

end

/-! ## The load, exit by exit -/

section

variable (windows : Bool) (parent : Option ParentDir) (declared : DeclaredBackends)
  (includeAccelerators : Bool)

/-- The modules beside an executable, with the path of their directory. -/
def modulesBeside : Except String (String × List String) :=
  match checkedParent parent with
  | .error reason => .error reason
  | .ok (directory, listing) =>
    match packagedModulePathsForScope windows listing declared includeAccelerators with
    | .error reason => .error reason
    | .ok paths => .ok (directory, paths)

/-- The modules that are tried after the one for the CPU. -/
def remaining (paths : List String) : List String :=
  if includeAccelerators then paths.filter (isRemaining windows) else []

variable (native : NativeModules)

/-- The scores of the variants. -/
def NativeModules.scores (paths : List String) : List ScoreOutcome :=
  Callouts.outcomes native.score noteScore (paths.filter (isCpuVariant windows)) []

theorem scores_fst (paths : List String) :
    (native.scores windows paths).map Prod.fst = paths.filter (isCpuVariant windows) :=
  Callouts.outcomes_fst native.score noteScore _ []

/-- What has happened when a CPU module is loaded. -/
def NativeModules.scored (paths : List String) : List ModuleCall :=
  (native.scores windows paths).map ScoreOutcome.call

/-- The CPU module of choice. -/
def NativeModules.cpu (paths : List String) : Option String :=
  chosenCpu windows paths (native.scores windows paths)

/-- The ways the load of the packaged modules goes. -/
inductive Loads : Except String ModuleLoadReport × List ModuleCall → Prop
  /-- There are no modules to be looked at. -/
  | unlisted (reason : String)
      (hlisted : modulesBeside windows parent declared includeAccelerators = .error reason) :
      Loads (.error reason, [])
  /-- There is no CPU module to be chosen. -/
  | unsupported (directory : String) (paths : List String)
      (hlisted : modulesBeside windows parent declared includeAccelerators =
        .ok (directory, paths))
      (hnone : native.cpu windows paths = none) (message : String) :
      Loads (.error message, native.scored windows paths)
  /-- The CPU module that is chosen cannot be loaded. -/
  | broken (directory : String) (paths : List String)
      (hlisted : modulesBeside windows parent declared includeAccelerators =
        .ok (directory, paths))
      (cpu : String) (hcpu : native.cpu windows paths = some cpu) (reason : String)
      (hload : native.load (native.scored windows paths) cpu = .error reason)
      (message : String) :
      Loads (.error message, native.scored windows paths ++ [.load cpu (.error reason)])
  /-- The CPU module is loaded, and after it the loader is given the others. -/
  | loaded (directory : String) (paths : List String)
      (hlisted : modulesBeside windows parent declared includeAccelerators =
        .ok (directory, paths))
      (cpu : String) (hcpu : native.cpu windows paths = some cpu)
      (hload : native.load (native.scored windows paths) cpu = .ok ())
      (outcomes : List LoadOutcome)
      (houtcomes : outcomes.map Prod.fst = remaining windows includeAccelerators paths) :
      Loads (.ok ⟨outcomes.filterMap (LoadOutcome.failure windows directory)⟩,
        native.scored windows paths ++ .load cpu (.ok ()) :: outcomes.map LoadOutcome.call)

variable (directory : String)

theorem scoreVariants_run (paths : List String) :
    (scoreVariants windows (Callouts.call native.score noteScore) directory
        (paths.filter (isCpuVariant windows)) ⟨none, []⟩).run [] =
      (scoringOf windows directory (native.scores windows paths),
        native.scored windows paths) := by
  have hrun := Callouts.run_loop native.score noteScore
    (scoreVariants windows (Callouts.call native.score noteScore) directory)
    (fun _ => rfl) (fun _ _ _ => rfl) (paths.filter (isCpuVariant windows)) ⟨none, []⟩ []
  have hlog := Callouts.log_after noteScore id ModuleCall.score (fun _ _ _ => rfl) []
    (native.scores windows paths)
  exact hrun.trans (congrArg (Prod.mk _) hlog)

theorem loadAccelerators_run (paths : List String) (calls : List ModuleCall) :
    ∃ outcomes : List LoadOutcome, outcomes.map Prod.fst = paths ∧
      (loadAccelerators windows (Callouts.call native.load noteLoad) directory paths []).run
        calls = (outcomes.filterMap (LoadOutcome.failure windows directory),
          calls ++ outcomes.map LoadOutcome.call) := by
  refine ⟨Callouts.outcomes native.load noteLoad paths calls,
    Callouts.outcomes_fst native.load noteLoad paths calls, ?_⟩
  have hrun := Callouts.run_loop native.load noteLoad
    (loadAccelerators windows (Callouts.call native.load noteLoad) directory)
    (fun _ => rfl) (fun _ _ _ => rfl) paths [] calls
  have hlog := Callouts.log_after noteLoad id ModuleCall.load (fun _ _ _ => rfl) calls
    (Callouts.outcomes native.load noteLoad paths calls)
  rw [failures_reported, List.nil_append] at hrun
  exact hrun.trans (congrArg (Prod.mk _) hlog)

theorem loadModulePaths_loads (paths : List String)
    (hlisted : modulesBeside windows parent declared includeAccelerators =
      .ok (directory, paths)) :
    Loads windows parent declared includeAccelerators native
      ((loadModulePaths windows (Callouts.call native.score noteScore)
        (Callouts.call native.load noteLoad) directory includeAccelerators paths).run []) := by
  rw [loadModulePaths, run_bind_state, scoreVariants_run, best_scoringOf]
  dsimp only
  rw [← chosenCpu, ← NativeModules.cpu]
  rcases hcpu : native.cpu windows paths with _ | cpu
  · exact .unsupported directory paths hlisted hcpu _
  dsimp only
  have hcall : (Callouts.call native.load noteLoad cpu).run (native.scored windows paths) =
      (native.load (native.scored windows paths) cpu, native.scored windows paths ++
        [.load cpu (native.load (native.scored windows paths) cpu)]) := rfl
  rw [run_bind_state, hcall]
  rcases hload : native.load (native.scored windows paths) cpu with reason | ⟨⟨⟩⟩
  · exact .broken directory paths hlisted cpu hcpu reason hload _
  dsimp only
  rcases includeAccelerators with _ | _
  · exact .loaded directory paths hlisted cpu hcpu hload [] rfl
  · obtain ⟨outcomes, houtcomes, hloaded⟩ := loadAccelerators_run windows native directory
      (paths.filter (isRemaining windows)) (native.scored windows paths ++ [.load cpu (.ok ())])
    rw [if_pos rfl, run_bind_state, hloaded, List.append_assoc, List.singleton_append]
    exact .loaded directory paths hlisted cpu hcpu hload outcomes houtcomes

/-- **What the load of the packaged modules does**, exit by exit. -/
theorem run_loads :
    Loads windows parent declared includeAccelerators native
      (native.run windows parent declared includeAccelerators) := by
  rw [NativeModules.run, loadPackagedModulesWith, loadModulesFromExecutableWith]
  rcases hparent : checkedParent parent with reason | ⟨directory, listing⟩
  · refine .unlisted reason ?_
    rw [modulesBeside, hparent]
  dsimp only
  rcases hpaths : packagedModulePathsForScope windows listing declared includeAccelerators with
    reason | paths
  · refine .unlisted reason ?_
    rw [modulesBeside, hparent]
    dsimp only
    rw [hpaths]
  · refine loadModulePaths_loads windows parent declared includeAccelerators native directory paths
      ?_
    rw [modulesBeside, hparent]
    dsimp only
    rw [hpaths]

end

/-! ## The modules beside an executable -/

theorem fileNames_nodup (directory : Directory) : directory.fileNames.Nodup := by
  have hnames : ((directory.entries.filter DirEntry.isFile).map DirEntry.name).Nodup :=
    directory.nodup.sublist (List.filter_sublist.map _)
  have hmap : directory.fileNames =
      ((directory.entries.filter DirEntry.isFile).map DirEntry.name).filterMap Text.fromUtf8 := by
    rw [List.filterMap_map]
    rfl
  rw [hmap]
  refine hnames.filterMap fun name name' text htext htext' => ?_
  rw [← Text.toUtf8_of_fromUtf8 htext, ← Text.toUtf8_of_fromUtf8 htext']

variable {windows : Bool} {parent : Option ParentDir} {declared : DeclaredBackends}
  {includeAccelerators : Bool} {native : NativeModules} {directory : String}
  {paths : List String}

/-- A file beside the executable.  As in the source, where `Path::is_file` follows links, a link to a
regular file counts as one. -/
def IsBeside (parent : Option ParentDir) (name : String) : Prop :=
  ∃ path directory, parent = some ⟨path, .entries directory⟩ ∧ name ∈ directory.fileNames

theorem modulesBeside_ok (h : modulesBeside windows parent declared includeAccelerators =
      .ok (directory, paths)) :
    ∃ path root, parent = some ⟨path, .entries root⟩ ∧
      paths = sortNames (root.fileNames.filter
        (isPackagedModule windows (declaredNames windows declared includeAccelerators))) := by
  rw [modulesBeside] at h
  rcases hparent : checkedParent parent with reason | ⟨text, listing⟩
  · rw [hparent] at h
    exact (error_ne_ok h).elim
  rw [hparent] at h
  dsimp only at h
  have hlisting : ∃ path, parent = some ⟨path, listing⟩ := by
    rw [checkedParent.eq_def] at hparent
    split at hparent
    · exact (error_ne_ok hparent).elim
    split at hparent
    · exact (error_ne_ok hparent).elim
    split at hparent
    · exact (error_ne_ok hparent).elim
    split at hparent
    · obtain ⟨-, rfl⟩ := Prod.mk.inj (Except.ok.inj hparent)
      exact ⟨_, rfl⟩
    · exact (error_ne_ok hparent).elim
  obtain ⟨path, rfl⟩ := hlisting
  rcases listing with _ | reason | root
  · exact (error_ne_ok h).elim
  · exact (error_ne_ok h).elim
  · exact ⟨path, root, rfl, (Prod.mk.inj (Except.ok.inj h)).2.symm⟩

theorem mem_modulesBeside (h : modulesBeside windows parent declared includeAccelerators =
      .ok (directory, paths)) {name : String} :
    name ∈ paths ↔ IsBeside parent name ∧
      isPackagedModule windows (declaredNames windows declared includeAccelerators) name =
        true := by
  obtain ⟨path, root, rfl, rfl⟩ := modulesBeside_ok h
  rw [(sortNames_perm _).mem_iff, List.mem_filter]
  refine and_congr_left fun _ => ⟨fun hmem => ⟨path, root, rfl, hmem⟩, ?_⟩
  rintro ⟨path', root', heq, hmem⟩
  obtain ⟨-, hroot⟩ := ParentDir.mk.inj (Option.some.inj heq)
  exact (DirListing.entries.inj hroot).symm ▸ hmem

/-- The modules beside the executable come in path order, and each of them once. -/
theorem modulesBeside_pairwise (h : modulesBeside windows parent declared includeAccelerators =
      .ok (directory, paths)) : paths.Pairwise (· < ·) := by
  obtain ⟨path, root, rfl, rfl⟩ := modulesBeside_ok h
  have hnodup : (sortNames (root.fileNames.filter (isPackagedModule windows
      (declaredNames windows declared includeAccelerators)))).Nodup :=
    (sortNames_perm _).nodup_iff.mpr ((fileNames_nodup root).filter _)
  exact (sortNames_pairwise _).imp₂ (fun _ _ hle hne => lt_of_le_of_ne hle hne) hnodup

end SemanticSidecar
