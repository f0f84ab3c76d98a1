import SemanticSidecar.SerdeJson

/-!
# The engine behind the wire protocol

`EmbedEngine` is the surface the wire loop needs of an embedding backend: a health payload it
passes through verbatim and one embedding entry point.  Both take `&self`, but an engine may keep
state behind it, so the two are functions on a state `σ`; results are arbitrary, and may fail.

`EmbedEngine.StateIndependent` singles out the engines whose results depend on the request alone.

The errors of an engine are part of the interface.  An `EngineError` has a kind and a message, which
the protocol puts into one text, and a class, which is how the broker recognises a failure of
resources and how nothing else is recognised.  `UnreadyEngine` is the engine of a model that is not
there: every embed fails, and `health` says why.

A method cannot see who calls it or how often, so that every engine of the source, whatever is
behind its lock, is such a pair of functions.
-/

set_option autoImplicit false

namespace SemanticSidecar

/-- Instruction-template role selected by the method name. -/
inductive Role where
  /-- A query. -/
  | query
  /-- A document. -/
  | document
  deriving DecidableEq, Repr

/-- One homogeneous batch of embeddings. -/
structure EmbedOutput where
  /-- Output dimensionality declared for every vector. -/
  dims : ℕ
  /-- One vector per input text, in input order. -/
  vectors : List (List Float32)
  deriving DecidableEq

/-- Whether a request failure can trigger broker-local recovery. -/
inductive EngineFailureClass where
  /-- The request failed. -/
  | application
  /-- The device has run out of something. -/
  | resourceExhausted
  deriving DecidableEq, Repr

/-- A failure raised while handling a well-formed request. -/
structure EngineError where
  /-- What kind of error it is. -/
  kind : String
  /-- The text of the error. -/
  message : String
  /-- The class of the failure. -/
  failureClass : EngineFailureClass
  deriving DecidableEq, Repr

namespace EngineError

/-- `EngineError::new`. -/
def new (kind message : String) : EngineError := ⟨kind, message, .application⟩

/-- `EngineError::resource_exhausted`. -/
def resourceExhausted (kind message : String) : EngineError := ⟨kind, message, .resourceExhausted⟩

/-- The `Display` text, which is what goes on the wire. -/
def toString (err : EngineError) : String := err.kind ++ ": " ++ err.message

end EngineError

/-- The embedding backend behind the wire protocol, with its state. -/
structure EmbedEngine (σ : Type) where
  /-- `health_facts`. -/
  healthFacts : σ → Except EngineError Value × σ
  /-- `is_accelerated`. -/
  isAccelerated : σ → Bool
  /-- `embed` of texts in a role. -/
  embed : List String → Role → σ → Except EngineError EmbedOutput × σ

/-- Placeholder engine that reports `ready: false` and refuses to embed. -/
def UnreadyEngine.engine (reason : String) : EmbedEngine Unit where
  healthFacts _ :=
    (.ok (.object [("degraded_reason", .string reason), ("ready", .bool false)]), ())
  isAccelerated _ := false
  embed _ _ _ := (.error (.new "EngineNotReady" reason), ())

/-- The engine's answers depend on the request only, not on what it was asked before. -/
structure EmbedEngine.StateIndependent {σ : Type} (engine : EmbedEngine σ) : Prop where
  /-- The health report is the same in every state. -/
  health : ∀ s t, (engine.healthFacts s).1 = (engine.healthFacts t).1
  /-- The embeddings are the same in every state. -/
  embed : ∀ texts role s t, (engine.embed texts role s).1 = (engine.embed texts role t).1

end SemanticSidecar
