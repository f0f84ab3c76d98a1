import SemanticSidecar.Prepare.Events
import SemanticSidecar.Package.Inventory

/-!
# The verb `prepare`

`run` finds the pinned model and the cache directory and leaves the rest to `acquire`.  Whoever
starts it goes by its exit code and by the lines it prints, and `run_outcome` is how the two hang
together: the last line is a `done` if the code is 0 and an `error` otherwise, it is the only one of
either kind, and the code is 2 for a model that is not pinned and for nothing else.

An exit code of 1 is shared by all other failures: no cache directory can be found, or the
acquisition fails.  The lines of a successful run are those of `acquire`, and `Leads` is what may
come before the last one.  `PrepareOutcome` has one case for each way to end, with its lines and its
code.

The environment is looked at in the order of the source.  A configured directory that is not empty
wins, and otherwise the directory is below the home directory, or on Windows below the local
application data.
-/

set_option autoImplicit false

namespace SemanticSidecar

open Prog (Ensures Called)

/-! ## What it runs on -/

/-- What `prepare` finds out about where it is. -/
structure PrepareEnv where
  /-- The platform is Windows. -/
  windows : Bool
  /-- `JULIE_EMBEDDING_CACHE_DIR`. -/
  configured : Option String
  /-- `dirs::data_local_dir` on Windows, `dirs::home_dir` elsewhere. -/
  home : Option String

/-- `PathBuf::join` with a plain name. -/
def PrepareEnv.join (env : PrepareEnv) (base name : String) : String :=
  if env.windows then
    if endsWith base "\\" || endsWith base "/" then base ++ name else base ++ "\\" ++ name
  else SemanticSidecar.join base name

/-- Resolves the shared model cache directory without creating it. -/
def cacheDirOf (env : PrepareEnv) : Except PrepareError String :=
  match env.configured with
  | some configured => if configured ≠ "" then .ok configured else byHome
  | none => byHome
where
  byHome : Except PrepareError String :=
    match env.home with
    | some home =>
      if env.windows then .ok (env.join home "julie-semantic")
      else .ok (env.join (env.join home ".cache") "julie-semantic")
    | none =>
      if env.windows then
        .error ⟨"cannot resolve %LOCALAPPDATA%; set JULIE_EMBEDDING_CACHE_DIR"⟩
      else .error ⟨"cannot resolve the home directory; set JULIE_EMBEDDING_CACHE_DIR"⟩

/-- What is said of an id that is not pinned: it is named, with all that are. -/
def unknownModel (id : String) : String :=
  "unknown model id '" ++ id ++ "'; known ids: " ++ ", ".intercalate (manifest.map ModelPin.id)

/-- Resolves a manifest id, or the default tier when there is none. -/
def resolve : Option String → Except String ModelPin
  | none => .ok (defaultModel.get rfl)
  | some id =>
    match byId id with
    | some pin => .ok pin
    | none => .error (unknownModel id)

/-- `UNKNOWN_MODEL_EXIT`. -/
def unknownModelExit : ℕ := 2

/-- `prepare::run`, which ends with the exit code. -/
def runPrepare (sha256 : List UInt8 → List UInt8) (env : PrepareEnv) (modelId : Option String) :
    Prog prepareSig ℕ :=
  match resolve modelId with
  | .error message => do
    emit (.error (modelId.getD defaultModelId) message none none)
    return unknownModelExit
  | .ok pin =>
    match cacheDirOf env with
    | .error err => do
      emit (.error pin.id err.message none (some pin.url))
      return 1
    | .ok dir => do
      match ← acquire sha256 dir (.fromPin pin) with
      | .ok _ => return 0
      | .error _ => return 1

/-! ## What it comes to -/

/-- The lines of an acquisition before the last. -/
structure Leads (request : PrepareRequest) (events : List PrepareEvent) : Prop where
  /-- At most one line that it waits, and then lines of progress that rise. -/
  split : ∃ (waiting : List PrepareEvent) (counts : List UInt64),
    (waiting = [] ∨ waiting = [.waiting request.modelId]) ∧
    events = waiting ++ counts.map (fun n => .progress request.modelId n request.sizeBytes) ∧
    Rising request counts

/-- How the verb can end: the lines it has printed and the exit code. -/
inductive PrepareOutcome (env : PrepareEnv) (modelId : Option String) :
    List PrepareEvent → ℕ → Prop
  /-- No pin has the id. -/
  | unknown (id : String) (hid : modelId = some id) (hunknown : byId id = none) :
    PrepareOutcome env modelId [.error id (unknownModel id) none none] 2
  /-- No cache directory can be found. -/
  | homeless (pin : ModelPin) (err : PrepareError) (hpin : resolve modelId = .ok pin)
    (hdir : cacheDirOf env = .error err) :
    PrepareOutcome env modelId [.error pin.id err.message none (some pin.url)] 1
  /-- The acquisition fails. -/
  | failed (pin : ModelPin) (dir message : String) (events : List PrepareEvent)
    (hpin : resolve modelId = .ok pin) (hdir : cacheDirOf env = .ok dir)
    (hleads : Leads (.fromPin pin) events) :
    PrepareOutcome env modelId (events ++
      [.error pin.id message (some (finalPath dir (.fromPin pin))) (some pin.url)]) 1
  /-- The model is present. -/
  | done (pin : ModelPin) (dir : String) (events : List PrepareEvent)
    (hpin : resolve modelId = .ok pin) (hdir : cacheDirOf env = .ok dir)
    (hleads : Leads (.fromPin pin) events) :
    PrepareOutcome env modelId (events ++
      [.done pin.id (finalPath dir (.fromPin pin)) pin.sha256]) 0

section

variable {sha256 : List UInt8 → List UInt8} {env : PrepareEnv} {modelId : Option String}

/-- The pinned sizes leave the counter of a download room. -/
theorem fromPin_fits {pin : ModelPin} (hpin : pin ∈ manifest) :
    (PrepareRequest.fromPin pin).sizeBytes.toNat + copyChunkBytes < 2 ^ 64 := by
  have hall : ∀ pin ∈ manifest,
      (PrepareRequest.fromPin pin).sizeBytes.toNat + copyChunkBytes < 2 ^ 64 := by
    decide
  exact hall pin hpin

theorem mem_of_resolve {pin : ModelPin} (h : resolve modelId = .ok pin) : pin ∈ manifest := by
  cases modelId with
  | none => exact List.mem_of_find?_eq_some ((Option.some_get rfl).symm.trans (congrArg some (Except.ok.inj h)))
  | some id =>
    rw [resolve] at h
    split at h
    · rename_i found hfound
      cases h
      exact List.mem_of_find?_eq_some hfound
    · cases h

theorem resolve_error {message : String} (h : resolve modelId = .error message) :
    ∃ id, modelId = some id ∧ byId id = none ∧ message = unknownModel id := by
  cases modelId with
  | none => cases h
  | some id =>
    rw [resolve] at h
    split at h
    · cases h
    · rename_i hnone
      cases h
      exact ⟨id, rfl, hnone, rfl⟩

/-- What an acquisition prints before its last line. -/
theorem leads_of_streams {request : PrepareRequest} {start : List (PrepareEvent × ℕ)}
    {counts : List UInt64} {acc : CallAccount} (hwaits : MayWait request start)
    (h : Streams request start counts acc) : Leads request (acc.events.map Prod.fst) := by
  refine ⟨start.map Prod.fst, counts, ?_, ?_, h.rising⟩
  · rcases hwaits with rfl | rfl
    · exact .inl rfl
    · exact .inr rfl
  · rw [h.events, List.map_append, List.map_map]
    rfl

theorem runPrepare_ensures :
    Ensures anything (runPrepare sha256 env modelId) .start fun code acc =>
      PrepareOutcome env modelId (acc.events.map Prod.fst) code := by
  rw [runPrepare]
  split
  · rename_i message hmessage
    obtain ⟨id, rfl, hunknown, rfl⟩ := resolve_error hmessage
    rintro ⟨⟩ acc ⟨-, rfl⟩
    exact .unknown id rfl hunknown
  · rename_i pin hpin
    split
    · rename_i err hdir
      rintro ⟨⟩ acc ⟨-, rfl⟩
      exact .homeless pin err hpin hdir
    · rename_i dir hdir
      refine Ensures.andThen (acquireWithTimeouts_reports (fromPin_fits (mem_of_resolve hpin)) _) ?_
      rintro result acc ⟨start, counts, acc', hwaits, hstreams, -, rfl⟩
      have hleads := leads_of_streams hwaits hstreams
      rcases result with err | prepared
      · show PrepareOutcome env modelId (List.map Prod.fst (acc'.events ++ [_])) 1
        rw [List.map_append]
        exact .failed pin dir err.message _ hpin hdir hleads
      · show PrepareOutcome env modelId (List.map Prod.fst (acc'.events ++ [_])) 0
        rw [List.map_append]
        exact .done pin dir _ hpin hdir hleads

/-- **The exit code and the lines of `prepare` agree**, whatever its surroundings do. -/
theorem run_outcome (sha256 : List UInt8 → List UInt8) (env : PrepareEnv)
    (modelId : Option String) (t : List (Called prepareSig)) (code : ℕ)
    (hrun : Prog.Run (runPrepare sha256 env modelId) t code)
    (hfits : ∀ call ∈ t, Fits call.op call.ret) :
    PrepareOutcome env modelId ((accountOf t).events.map Prod.fst) code :=
  runPrepare_ensures.sound hrun (steps_anything hfits [])

end

/-! ## A run with the default model -/

/-- A digest that is right for one file. -/
def defaultDigest (bytes : List UInt8) : List UInt8 :=
  if bytes = [7] then
    [0xbf, 0x40, 0xc4, 0x2a, 0xd7, 0xd8, 0x93, 0x82, 0xe9, 0xba, 0x73, 0x76, 0xd5, 0xc4, 0xb7, 0x3f,
      0x6b, 0x55, 0x6c, 0xb5, 0x41, 0xfa, 0xb3, 0x7a, 0xaa, 0x1d, 0xa9, 0xc3, 0x20, 0x14, 0x9b, 0x65]
  else []

/-- The cache directory is below the home directory. -/
def homeEnv : PrepareEnv := ⟨false, none, some "/home/u"⟩

/-- The file in the cache is a wrong one.  It is removed, and the right one downloaded. -/
def replacedCalls : List (Called prepareSig) :=
  let request := PrepareRequest.fromPin bgeSmall
  let timeouts := { downloadTimeouts with total := downloadTotalTimeout request.sizeBytes }
  let name := partialName bgeSmall.id "abcdef"
  [⟨.file .createDirAll, .ok ()⟩, ⟨.file (.openOrCreate (lockName bgeSmall.id)), .ok 0⟩,
    ⟨.file (.tryLock 0), .error ⟨false, "would block"⟩⟩, ⟨.emit (.waiting bgeSmall.id), ()⟩,
    ⟨.file (.lock 0), .ok ()⟩, ⟨.file (.pathExists bgeSmall.file), .ok true⟩,
    ⟨.file (.openRead bgeSmall.file), .ok 1⟩, ⟨.file (.read 1 copyChunkBytes), .ok [6]⟩,
    ⟨.file (.read 1 copyChunkBytes), .ok []⟩, ⟨.file (.close 1), ()⟩,
    ⟨.file (.remove bgeSmall.file), .ok ()⟩, ⟨.file .availableSpace, .ok request.sizeBytes⟩,
    ⟨.openRequest bgeSmall.url timeouts, ()⟩, ⟨.awaitResponse, .ok none⟩,
    ⟨.file (.createTemp (partialPrefix bgeSmall.id) partialSuffix), .ok ("abcdef", 2)⟩,
    ⟨.emit (.progress bgeSmall.id 0 request.sizeBytes), ()⟩,
    ⟨.readBody copyChunkBytes, .ok [7]⟩, ⟨.file (.write 2 [7]), .ok ()⟩, ⟨.progressDue, false⟩,
    ⟨.readBody copyChunkBytes, .ok []⟩, ⟨.file (.flush 2), .ok ()⟩,
    ⟨.emit (.progress bgeSmall.id 1 request.sizeBytes), ()⟩,
    ⟨.file (.rename name bgeSmall.file), .ok ()⟩, ⟨.file (.close 2), ()⟩,
    ⟨.emit (.done bgeSmall.id (finalPath "/home/u/.cache/julie-semantic" request) bgeSmall.sha256),
      ()⟩,
    ⟨.file (.unlock 0), .ok ()⟩, ⟨.file (.close 0), ()⟩]

theorem replacedCalls_run : Prog.Run (runPrepare defaultDigest homeEnv none) replacedCalls 0 :=
  .call <| .call <| .call <| .call <| .call <| .call <| .call <| .loop <| .call <| .loop <| .call <|
    .call <| .call <| .call <| .call <| .call <| .call <| .call <| .loop <| .call <|
    .call <| .call <| .loop <| .call <| .call <| .call <| .call <| .call <| .call <| .call <|
    .call <| .ret _

/-- `prepare` has waited for the lock, and it says that the model is there. -/
theorem run_outcome_replacedCalls :
    PrepareOutcome homeEnv none ((accountOf replacedCalls).events.map Prod.fst) 0 :=
  run_outcome defaultDigest homeEnv none replacedCalls 0 replacedCalls_run
    (by simp [replacedCalls, Fits, copyChunkBytes])

end SemanticSidecar
