import SemanticSidecar.Engine.Batch

/-!
# Encoding one group

`encodeGroup` puts the token lists of a group through one fresh llama.cpp context and turns the
rows it gets back into served vectors.  llama.cpp is a `LlamaRuntime`: the calls the engine makes
on a loaded model, each with an effect on a state that is its own.

Every failure is typed on the way.  `item` is for what a single input can explain, `systemic` for
what breaks every input alike; `isolate` halves the one and gives up on the other.  A row that
`serveLane` refuses, one that is too short or has no direction, is typed `item`.

A call on llama.cpp is made in `EncodeM`, where a failure ends the encode, and everything that is
asked for is asked for in the order of the source: the parameters of a context are computed from the
lengths of the group, then the context is made, then the batch, then the sequences are added,
decoded or encoded, and read row by row.  The numbers in `ContextParams` are `u32` in llama.cpp, and
a length that does not fit is a failure before any call.

Floats are Lean's `Float32`, in the order of operations of the source, so `l2Normalize` is the
function that the compiled code computes as far as both follow IEEE 754.
-/

set_option autoImplicit false

namespace SemanticSidecar

/-- Ceiling on the physical micro-batch of a causal decode. -/
def maxDecodeUbatchTokens : ℕ := 2048

/-- `u32::try_from`. -/
def tryFromU32 (n : ℕ) : Option ℕ := if n < 2 ^ 32 then some n else none

/-- `i32::try_from`. -/
def tryFromI32 (n : ℕ) : Option ℕ := if n < 2 ^ 31 then some n else none

/-- `LlamaContextParams`, as far as the engine sets them. -/
structure ContextParams where
  /-- `NonZeroU32::new` of the context size. -/
  nCtx : Option ℕ
  /-- The logical batch, in tokens. -/
  nBatch : ℕ
  /-- The physical micro-batch, in tokens. -/
  nUbatch : ℕ
  /-- How many sequences the context is partitioned for. -/
  nSeqMax : ℕ
  /-- Embeddings are computed. -/
  embeddings : Bool
  /-- How a sequence is pooled. -/
  poolingType : Pooling

/-- The context geometry an encode ran under, reported with every failure. -/
structure EncodeShape where
  /-- The token total of the group. -/
  totalTokens : ℕ
  /-- The size of the context. -/
  nCtx : ℕ
  /-- The logical batch, in tokens. -/
  nBatch : ℕ
  /-- The physical micro-batch, in tokens. -/
  nUbatch : ℕ
  /-- The number of sequences. -/
  nSeq : ℕ

/-- The geometry as the messages show it. -/
def EncodeShape.toString (shape : EncodeShape) : String :=
  "tokens=" ++ ToString.toString shape.totalTokens ++ " n_ctx=" ++ ToString.toString shape.nCtx ++
    " n_batch=" ++ ToString.toString shape.nBatch ++ " n_ubatch=" ++
    ToString.toString shape.nUbatch ++ " n_seq=" ++ ToString.toString shape.nSeq

/-- How `llama_decode` and `llama_encode` fail. -/
inductive DecodeError where
  /-- There was no slot in the cache. -/
  | noKvCacheSlot
  /-- The batch had no tokens. -/
  | nTokensZero
  /-- Any other return code, with the error's text. -/
  | other (text : String)

/-- The llama.cpp calls the engine makes on a loaded model. -/
structure LlamaRuntime (σ : Type) where
  /-- `LlamaModel::new_context`, with these parameters. -/
  newContext : ContextParams → StateM σ (Except String Unit)
  /-- `LlamaBatch::new`, for so many tokens and so many sequences. -/
  newBatch : ℕ → ℕ → StateM σ Unit
  /-- `LlamaBatch::add_sequence`, of these tokens under this number. -/
  addSequence : List LlamaToken → ℕ → StateM σ (Except String Unit)
  /-- `LlamaContext::encode` of the batch. -/
  encode : StateM σ (Except DecodeError Unit)
  /-- `LlamaContext::decode` of the batch. -/
  decode : StateM σ (Except DecodeError Unit)
  /-- `LlamaContext::embeddings_seq_ith`: the row of a sequence. -/
  embeddingsSeqIth : ℕ → StateM σ (Except String (List Float32))

/-! ## The served lane -/

/-- Scales a vector to unit length, or nothing if it has no direction. -/
def l2Normalize (vector : List Float32) : Option (List Float32) :=
  let norm := (vector.foldl (fun sum v => sum + v * v) 0.0).sqrt
  if ¬ norm.isFinite ∨ norm ≤ 0.0 then none else some (vector.map (· / norm))

/-- Normalizes, slices to the served lane, and renormalizes. -/
def LlamaEngine.serveLane (engine : LlamaEngine) (raw : List Float32) : Option (List Float32) :=
  if raw.length < engine.pin.serveDims then none
  else (l2Normalize raw).bind fun vector => l2Normalize (vector.take engine.pin.serveDims)

theorem length_l2Normalize {vector unit : List Float32} (h : l2Normalize vector = some unit) :
    unit.length = vector.length := by
  simp only [l2Normalize] at h
  split at h
  · exact absurd h (by simp)
  · rw [← Option.some.inj h, List.length_map]

/-- What is served has the declared width. -/
theorem length_serveLane {engine : LlamaEngine} {raw vector : List Float32}
    (h : engine.serveLane raw = some vector) : vector.length = engine.pin.serveDims := by
  rw [LlamaEngine.serveLane] at h
  split at h
  · exact absurd h (by simp)
  · rename_i hwide
    obtain ⟨unit, hunit, h⟩ := Option.bind_eq_some_iff.mp h
    rw [length_l2Normalize h, List.length_take, length_l2Normalize hunit]
    exact Nat.min_eq_left (Nat.le_of_not_lt hwide)

/-! ## One group -/

/-- A failure that a single input can explain is bisected; everything else fails the request. -/
def classifyFailure (kind : String) (shape : EncodeShape) : DecodeError → EncodeFailure
  | .noKvCacheSlot => .item
  | .nTokensZero => .item
  | .other text => .systemic (.new kind (text ++ " (" ++ shape.toString ++ ")"))

/-- `decode_failure`. -/
def decodeFailure (err : DecodeError) (shape : EncodeShape) : EncodeFailure :=
  classifyFailure "Decode" shape err

/-- `encode_failure`. -/
def encodeFailure (err : DecodeError) (shape : EncodeShape) : EncodeFailure :=
  classifyFailure "Encode" shape err

/-- The computations of `encode_group`: an effect on llama.cpp, and a failure. -/
abbrev EncodeM (σ : Type) := ExceptT EncodeFailure (StateM σ)

/-- A call of llama.cpp whose error becomes a failure. -/
def EncodeM.call {σ ε α : Type} (x : StateM σ (Except ε α)) (failure : ε → EncodeFailure) :
    EncodeM σ α :=
  ExceptT.mk ((Except.mapError failure) <$> x)

/-- A value that may be missing, for which the group is to blame. -/
def EncodeM.ofOption {σ α : Type} : Option α → EncodeM σ α
  | some a => pure a
  | none => throw .item

section

variable {σ α β : Type} {x : EncodeM σ α} {f : α → EncodeM σ β} {s : σ}

theorem EncodeM.run_bind_ok {a : α} (h : (x.run.run s).1 = .ok a) :
    (x >>= f).run.run s = (f a).run.run (x.run.run s).2 := by
  rw [ExceptT.run_bind, run_bind_state, h]

theorem EncodeM.run_bind_error {failure : EncodeFailure} (h : (x.run.run s).1 = .error failure) :
    (x >>= f).run.run s = (.error failure, (x.run.run s).2) := by
  rw [ExceptT.run_bind, run_bind_state, h]
  rfl

/-- Of two computations in a row that succeed, each succeeds. -/
theorem EncodeM.bind_ok {b : β} (h : ((x >>= f).run.run s).1 = .ok b) :
    ∃ a, (x.run.run s).1 = .ok a ∧ ((f a).run.run (x.run.run s).2).1 = .ok b := by
  rcases hx : (x.run.run s).1 with failure | a
  · rw [EncodeM.run_bind_error hx] at h
    exact absurd h (by simp)
  · rw [EncodeM.run_bind_ok hx] at h
    exact ⟨a, rfl, h⟩

/-- A computation that succeeds is of a value that is there. -/
theorem EncodeM.ofOption_ok {o : Option α} {a : α}
    (h : ((EncodeM.ofOption o : EncodeM σ α).run.run s).1 = .ok a) : o = some a := by
  rcases o with _ | b
  · exact absurd (show Except.error EncodeFailure.item = Except.ok a from h) (by simp)
  · exact congrArg some (Except.ok.inj h)

end

/-- The physical micro-batch of a group. -/
def ubatch (pooling : Pooling) (totalTokens nTokens : ℕ) : Option ℕ :=
  match pooling with
  | .cls => some nTokens
  | .last => tryFromU32 (min totalTokens maxDecodeUbatchTokens)

/-- The context a group needs, or nothing for a group no context can be set up for.  llama.cpp
partitions it evenly, so it is as large as the longest member times their number. -/
def contextFor (pooling : Pooling) (group : List (List LlamaToken)) :
    Option (ContextParams × EncodeShape) := do
  let totalTokens := (group.map List.length).sum
  let maxTokens := (group.map List.length).foldl max 0
  let kvCells := maxTokens * group.length
  let nTokens ← tryFromU32 totalTokens
  let nSeq ← tryFromI32 group.length
  let nSeqMax ← tryFromU32 group.length
  let nCtx ← tryFromU32 kvCells
  if totalTokens = 0 then none
  else
    let nUbatch ← ubatch pooling totalTokens nTokens
    some (⟨if nCtx = 0 then none else some nCtx, nTokens, nUbatch, nSeqMax, true, pooling⟩,
      ⟨totalTokens, nCtx, nTokens, nUbatch, nSeq⟩)

section

variable {σ : Type} (engine : LlamaEngine) (runtime : LlamaRuntime σ)

/-- The sequences of the batch, numbered from `seqId`. -/
def addSequences : List (List LlamaToken) → ℕ → EncodeM σ Unit
  | [], _ => pure ()
  | tokens :: rest, seqId => do
    let id ← EncodeM.ofOption (tryFromI32 seqId)
    EncodeM.call (runtime.addSequence tokens id) fun _ => .item
    addSequences rest (seqId + 1)

/-- The served row of one sequence. -/
def readRow (seqId : ℕ) : EncodeM σ (List Float32) := do
  let id ← EncodeM.ofOption (tryFromI32 seqId)
  let raw ← EncodeM.call (runtime.embeddingsSeqIth id) fun err =>
    .systemic (.new "Embeddings" err)
  EncodeM.ofOption (engine.serveLane raw)

/-- The served rows of `count` sequences, numbered from `seqId`. -/
def readRows : ℕ → ℕ → EncodeM σ (List (List Float32))
  | 0, _ => pure []
  | count + 1, seqId => do
    let row ← readRow engine runtime seqId
    let rows ← readRows count (seqId + 1)
    pure (row :: rows)

/-- The forward pass of a pooling mode. -/
def forward (shape : EncodeShape) : EncodeM σ Unit :=
  match engine.pin.pooling with
  | .cls => EncodeM.call runtime.encode fun err => encodeFailure err shape
  | .last => EncodeM.call runtime.decode fun err => decodeFailure err shape

/-- Encodes one group of pre-tokenized inputs in a single fresh context. -/
def encodeGroup (group : List (List LlamaToken)) : EncodeM σ (List (List Float32)) := do
  let (params, shape) ← EncodeM.ofOption (contextFor engine.pin.pooling group)
  EncodeM.call (runtime.newContext params) fun err =>
    .systemic (.resourceExhausted "ContextAlloc" (err ++ " (" ++ shape.toString ++ ")"))
  ExceptT.lift (runtime.newBatch shape.totalTokens shape.nSeq)
  addSequences runtime group 0
  forward engine runtime shape
  readRows engine runtime group.length 0

/-- `embed` of the llama.cpp engine. -/
def LlamaEngine.embed (texts : List String) (role : Role) :
    StateM σ (Except EngineError EmbedOutput) :=
  engine.embedWith (fun group => (encodeGroup engine runtime group).run) texts role

end

end SemanticSidecar
