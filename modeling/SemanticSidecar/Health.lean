import SemanticSidecar.SerdeJson
import SemanticSidecar.Manifest

/-!
# The `health` result

The request-shape limits the sidecar advertises and enforces, the exact reason strings a `health`
call reports, and the assembly of its result from the facts of an engine.

`Health.build` is the whole result.  The broker adds its own facts to it in
`applyBrokerRuntimeFacts`, and both write the reason of a degradation twice: at the top, and in
the load policy, which mirrors it.

The order in which the members are inserted is that of the source.  An object of `serde_json` keeps
its members sorted, so `insertMember` puts a member at its place, and the text of a result depends
on what was inserted and not on when.  The lemmas at the end read a member back through the
insertions that come after it.

All of it is data about a model and an engine: the pin that is served, its dimensions once it is
loaded, and the facts that the engine has of itself.  Nothing is computed here that depends on a
request.
-/

set_option autoImplicit false

namespace SemanticSidecar

/-- Largest `texts` array `embed_batch` accepts. -/
def maxBatchItems : Nat := 250

/-- Largest single request line accepted, in bytes. -/
def maxRequestBytes : Nat := 32 * 1024 * 1024

/-- Version of the prompt-template set applied to inputs. -/
def instructionPolicyVersion : Nat := 1

/-- The only normalization there is. -/
def normalization : String := "l2"

/-- Request-shape limits the sidecar advertises. -/
structure Limits where
  /-- How many texts a batch can have. -/
  maxBatchItems : Nat
  /-- How long a line can be. -/
  maxRequestBytes : Nat
  deriving DecidableEq, Repr

/-- `Limits::default`. -/
def Limits.default : Limits := ⟨SemanticSidecar.maxBatchItems, SemanticSidecar.maxRequestBytes⟩

/-- Reason reported when the model is absent from the cache. -/
def modelNotPrepared : String := "model_not_prepared"

/-- Degradation recorded after an accelerated allocation failure, for the broker's lifetime. -/
def acceleratorResourceExhausted : String :=
  "accelerator resource exhausted; permanently demoted to CPU"

/-- Reason reported when a backend other than the requested one loaded and the engine supplied no
more specific explanation. -/
def backendFallbackReason : String := "requested_backend_unavailable"

/-- Backend availability. -/
structure BackendCapabilities where
  /-- Always available: every build has the CPU. -/
  cpu : Bool
  /-- CUDA. -/
  cuda : Bool
  /-- DirectML, which no build has. -/
  directml : Bool
  /-- MPS, which no build has. -/
  mps : Bool
  /-- Metal. -/
  metal : Bool
  /-- Vulkan. -/
  vulkan : Bool
  deriving DecidableEq, Repr

/-- The guaranteed floor before any accelerator proves usable. -/
def BackendCapabilities.cpuOnly : BackendCapabilities := ⟨true, false, false, false, false, false⟩

/-! ## Assembling the result -/

/-- Whether the model is loadable, and at what served dimensionality. -/
inductive ModelState where
  /-- The model is loaded, and this is the lane it serves. -/
  | ready (pin : ModelPin) (dims : Nat)
  /-- The model is absent from the cache. -/
  | notPrepared (pin : ModelPin)

/-- The pin of the model. -/
def ModelState.pin : ModelState → ModelPin
  | ready pin _ => pin
  | notPrepared pin => pin

/-- The lane it serves, if it is loaded. -/
def ModelState.dims : ModelState → Option Nat
  | ready _ dims => some dims
  | notPrepared _ => none

/-- Runtime and backend facts the engine reports about the process it actually built. -/
structure EngineFacts where
  /-- The name of the runtime. -/
  runtime : String
  /-- The device. -/
  device : String
  /-- The backend that was asked for. -/
  requestedBackend : String
  /-- The backend that is used. -/
  resolvedBackend : String
  /-- It is not the CPU. -/
  accelerated : Bool
  /-- Why it is not the one that was asked for. -/
  degradedReason : Option String
  /-- The capabilities. -/
  capabilities : BackendCapabilities
  /-- The build of llama.cpp. -/
  llamaCppBuild : String

/-- A pooling mode as the report names it. -/
def Pooling.asStr : Pooling → String
  | .last => "last"
  | .cls => "cls"

/-- The capabilities as JSON. -/
def BackendCapabilities.toValue (capabilities : BackendCapabilities) : Value :=
  let available (b : Bool) : Value := .object [("available", .bool b)]
  .object [("cpu", available capabilities.cpu), ("cuda", available capabilities.cuda),
    ("directml", available capabilities.directml), ("metal", available capabilities.metal),
    ("mps", available capabilities.mps), ("vulkan", available capabilities.vulkan)]

/-- The reason that is reported: that of the model, or else that of the engine. -/
def resolveDegradedReason (model : ModelState) (engine : EngineFacts) : Option String :=
  match model with
  | .notPrepared _ => some modelNotPrepared
  | .ready _ _ =>
    match engine.degradedReason with
    | some reason => some reason
    | none =>
      if engine.requestedBackend ≠ engine.resolvedBackend then some backendFallbackReason else none

/-- `json!` of a text that may be missing. -/
def optionValue : Option String → Value
  | none => .null
  | some s => .string s

/-- `json!` of a number. -/
def natValue (n : Nat) : Value := .number (.posInt n)

/-- `Map::insert`, on a map that keeps its members in the order of their names. -/
def insertMember (name : String) (v : Value) : Members → Members
  | [] => [(name, v)]
  | (n, w) :: rest =>
    if name = n then (name, v) :: rest
    else if name < n then (name, v) :: (n, w) :: rest
    else (n, w) :: insertMember name v rest

/-- Assembles the `health` result. -/
def Health.build (model : ModelState) (engine : EngineFacts) (limits : Limits)
    (sidecarVersion : String) : Members :=
  let pin := model.pin
  let degradedReason := optionValue (resolveDegradedReason model engine)
  let result := insertMember "ready" (.bool model.dims.isSome) []
  let result :=
    match model.dims with
    | some dims => insertMember "dims" (natValue dims) result
    | none => result
  let result := insertMember "model_id" (.string pin.id) result
  let result := insertMember "model_sha256" (.string pin.sha256) result
  let result := insertMember "model_revision" (.string pin.modelRevision) result
  let result := insertMember "runtime" (.string engine.runtime) result
  let result := insertMember "device" (.string engine.device) result
  let result := insertMember "resolved_backend" (.string engine.resolvedBackend) result
  let result := insertMember "accelerated" (.bool engine.accelerated) result
  let result := insertMember "degraded_reason" degradedReason result
  let result := insertMember "capabilities" engine.capabilities.toValue result
  let result := insertMember "load_policy" (.object [
    ("accelerated", .bool engine.accelerated),
    ("degraded_reason", degradedReason),
    ("requested_device_backend", .string engine.requestedBackend),
    ("resolved_device_backend", .string engine.resolvedBackend)]) result
  let result := insertMember "pooling" (.string pin.pooling.asStr) result
  let result := insertMember "normalization" (.string normalization) result
  let result := insertMember "instruction_policy_version" (natValue instructionPolicyVersion) result
  let result := insertMember "max_text_tokens" (natValue pin.maxTextTokens) result
  let result := insertMember "max_batch_items" (natValue limits.maxBatchItems) result
  let result := insertMember "max_request_bytes" (natValue limits.maxRequestBytes) result
  let result := insertMember "native_dims" (natValue pin.nativeDims) result
  let result := insertMember "mrl_lanes" (.array (pin.mrlLanes.map natValue)) result
  let result := insertMember "llama_cpp_build" (.string engine.llamaCppBuild) result
  insertMember "sidecar_version" (.string sidecarVersion) result

/-- Adds broker-owned accelerator state to an engine health object. -/
def applyBrokerRuntimeFacts (acceleratorLeaseHeld : Bool) (degradedReason : Option String) :
    Value → Value
  | .object result =>
    let result := insertMember "accelerator_lease_held" (.bool acceleratorLeaseHeld) result
    match degradedReason with
    | none => .object result
    | some reason =>
      let result := insertMember "degraded_reason" (.string reason) result
      match result.lookup "load_policy" with
      | some (.object loadPolicy) =>
        .object (insertMember "load_policy"
          (.object (insertMember "degraded_reason" (.string reason) loadPolicy)) result)
      | _ => .object result
  | health => health

/-! ## Reading a member back -/

theorem lookup_member (name : String) (v : Value) (members : Members) (other : String) :
    List.lookup other ((name, v) :: members) =
      if other = name then some v else members.lookup other := by
  rw [List.lookup_cons]
  by_cases h : other = name
  · rw [if_pos h, beq_iff_eq.mpr h]
  · rw [if_neg h, beq_eq_false_iff_ne.mpr h]

/-- Inserting a member is seen under its name only. -/
theorem lookup_insertMember (name : String) (v : Value) (members : Members) (other : String) :
    (insertMember name v members).lookup other =
      if other = name then some v else members.lookup other := by
  induction members with
  | nil => rw [insertMember, lookup_member]
  | cons first rest ih =>
    obtain ⟨n, w⟩ := first
    rw [insertMember]
    split
    · rename_i hname
      rw [lookup_member, lookup_member, hname]
      split
      · rfl
      · rfl
    · rename_i hname
      split
      · rw [lookup_member]
      · rw [lookup_member, lookup_member, ih]
        by_cases hother : other = n
        · rw [if_pos hother, if_pos hother, if_neg fun heq => hname (heq.symm.trans hother)]
        · rw [if_neg hother, if_neg hother]

/-- The reason at the top is the one that is resolved, and so is that of the load policy. -/
theorem lookup_build (model : ModelState) (engine : EngineFacts) (limits : Limits)
    (sidecarVersion : String) :
    (Health.build model engine limits sidecarVersion).lookup "degraded_reason" =
        some (optionValue (resolveDegradedReason model engine)) ∧
      (Health.build model engine limits sidecarVersion).lookup "load_policy" = some (.object [
        ("accelerated", .bool engine.accelerated),
        ("degraded_reason", optionValue (resolveDegradedReason model engine)),
        ("requested_device_backend", .string engine.requestedBackend),
        ("resolved_device_backend", .string engine.resolvedBackend)]) := by
  simp only [Health.build, lookup_insertMember, String.reduceEq, if_true, if_false, and_self]

end SemanticSidecar
