import SemanticSidecar.Engine.BackendSelect
import SemanticSidecar.Engine.Budget

/-!
# Loading the selected backend

`loadFinal` loads the weights with the placement of the selected backend.  When an accelerator
does not take them the verdict is invalidated and the CPU is loaded instead, with a selection that
says so: the facts an engine reports are those of the load that succeeded.

The native calls, `with_devices` and `load_from_file`, are given; what they do may depend on
anything the monad keeps.

Where the weights go is settled by the candidate: a load on the CPU gets no devices and offloads no
layers, whatever the machine has, and an accelerated load gets the device of the candidate and
leaves the layers to llama.cpp.

A fallback withdraws the capability of the backend that did not load, so that the report of the
engine does not advertise what has just failed.  The verdict is removed from the cache under the key
it was found or written under, and a selection without a key removes nothing.  What the load of a
whole start comes to, with the selection before it, is in `Engine/Served`.
-/

set_option autoImplicit false

namespace SemanticSidecar

/-- The load parameters that place a backend. -/
structure ModelPlacement where
  /-- How many layers are offloaded; llama.cpp decides if it is not said. -/
  nGpuLayers : Option ℕ
  /-- The devices that may be used. -/
  deviceIndexes : List ℕ
  deriving DecidableEq, Repr

/-- `placement_for_candidate`. -/
def placementForCandidate (candidate : BackendCandidate) : ModelPlacement :=
  if candidate.backend = cpu then ⟨some 0, []⟩ else ⟨none, candidate.deviceIndex.toList⟩

/-- The native calls of a load. -/
structure NativeLoader (m : Type → Type) where
  /-- `LlamaModelParams::with_devices`. -/
  withDevices : List ℕ → m (Except String Unit)
  /-- `LlamaModel::load_from_file`, with the parameters of a placement. -/
  loadFromFile : ModelPlacement → m (Except String LlamaModel)

/-- A loaded engine with the backend facts it reports. -/
structure ServedEngine where
  /-- The loaded engine. -/
  engine : LlamaEngine
  /-- The device it runs on. -/
  device : String
  /-- The decision that led to it. -/
  selection : Selection
  /-- The capabilities it reports. -/
  capabilities : BackendCapabilities

/-- `disable_capability`. -/
def disableCapability (capabilities : BackendCapabilities) (backend : String) :
    BackendCapabilities :=
  setCapability capabilities backend false

section

variable {m : Type → Type} [Monad m] (native : NativeLoader m) (store : SelectionStore m)
  (pin : ModelPin)

/-- The parameters that apply a candidate's placement. -/
def modelParamsForCandidate (candidate : BackendCandidate) :
    m (Except EngineError ModelPlacement) := do
  let placement := placementForCandidate candidate
  if placement.deviceIndexes.isEmpty then pure (.ok placement)
  else
    match ← native.withDevices placement.deviceIndexes with
    | .error err => pure (.error (.new "BackendPlacement" err))
    | .ok () => pure (.ok placement)

/-- The weights under a placement, and what is measured of them. -/
def loadWeights (placement : ModelPlacement) : m (Except EngineError LlamaEngine) := do
  match ← native.loadFromFile placement with
  | .error err => pure (.error (.new "ModelLoad" err))
  | .ok model => pure (LlamaEngine.ofModel pin model)

/-- `load_candidate`: the weights are loaded with the placement of the candidate. -/
def loadCandidate (candidate : BackendCandidate) (selection : Selection)
    (capabilities : BackendCapabilities) : m (Except EngineError ServedEngine) := do
  match ← modelParamsForCandidate native candidate with
  | .error err => pure (.error err)
  | .ok placement =>
    match ← loadWeights native pin placement with
    | .error err => pure (.error err)
    | .ok engine => pure (.ok ⟨engine, candidate.device, selection, capabilities⟩)

/-- The candidate a selection names. -/
def RuntimeSelection.candidate (runtime : RuntimeSelection) : BackendCandidate :=
  ⟨runtime.selection.resolved, runtime.device, runtime.deviceIndex⟩

/-- The selection of an accelerator that did not load. -/
def fallbackSelection (candidate : BackendCandidate) (err : EngineError) : Selection :=
  .degradedToCpu candidate.backend (candidate.backend ++ " final load failed: " ++ err.message)

/-- Loads what was selected, or the CPU in its place. -/
def loadFinal (runtime : RuntimeSelection) : m (Except EngineError ServedEngine) := do
  let candidate := runtime.candidate
  match ← loadCandidate native pin candidate runtime.selection runtime.capabilities with
  | .ok engine => pure (.ok engine)
  | .error err =>
    if candidate.backend ≠ cpu then do
      invalidateCachedSelection store runtime
      loadCandidate native pin cpuCandidate (fallbackSelection candidate err)
        (disableCapability runtime.capabilities candidate.backend)
    else pure (.error err)

/-- The selection and the load that follows it, as `load_guarded` composes them. -/
def selectAndLoad (sha256 : List UInt8 → List UInt8)
    (benchmark : BackendCandidate → m (Except String ProbeTiming)) (context : SelectionContext)
    (forced : Option String) (discovery : Discovery) : m (Except EngineError ServedEngine) := do
  match ← selectRuntimeWith store sha256 benchmark context forced discovery with
  | .error reason => pure (.error (.new "BackendProbe" reason))
  | .ok runtime => loadFinal native store pin runtime

end

/-! ## What a load keeps -/

/-- A model is measured, and nothing else. -/
theorem ofModel_ok {pin : ModelPin} {model : LlamaModel} {engine : LlamaEngine}
    (h : LlamaEngine.ofModel pin model = .ok engine) : engine.pin = pin ∧ engine.model = model := by
  rw [LlamaEngine.ofModel] at h
  rcases hreserve : LlamaEngine.measureEosReserve pin model with err | reserve
  · rw [hreserve] at h
    exact absurd h (by simp [bind, Except.bind])
  rcases hoverhead : LlamaEngine.measureSpecialTokenOverhead model with err | overhead
  · rw [hreserve, hoverhead] at h
    exact absurd h (by simp [bind, Except.bind])
  rw [hreserve, hoverhead] at h
  exact Except.ok.inj h ▸ ⟨rfl, rfl⟩

end SemanticSidecar
