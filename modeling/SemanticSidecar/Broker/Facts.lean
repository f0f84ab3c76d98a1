import SemanticSidecar.Broker.Engine
import SemanticSidecar.Engine.Load

/-!
# What the broker reports of its engine

Two layers own the `degraded_reason` of a `health` result: the inner engine, which knows why it is
not what was asked for, and the broker, which knows of a demotion.  The broker's is written over
the engine's, and stays for the broker's lifetime.

An engine that is loaded without its model reports `model_not_prepared`, and this is what the
overlay takes away when the engine was loaded by a demotion.  `health_isTruthful_iff` states what
a report says in every state a session reaches, and that the exact reason is lost in this case
only.

The module has two parts.  The first one is the inner engine's report, put together as the source
does it from what was selected and loaded.  The second one follows a session: `loaderAnswers` are
the engines that its loader came back with, `Remembers` says what the state of the broker keeps of
its history, namely whether there was a demotion and what reason was given for it, and
`Session.remembers` is that it holds after every sequence of calls.

The condition of `health_isTruthful_iff` speaks of the history and of what the loader returned, not
of the report: it fails for a session that lost an accelerated engine and found the model gone when
it loaded the CPU's.
-/

set_option autoImplicit false

namespace SemanticSidecar

/-! ## The inner engines -/

/-- `LoadedEngine`: the llama.cpp engine, or the placeholder of a model that is not there. -/
inductive LoadedEngine where
  /-- An engine that was loaded. -/
  | ready (engine : ServedEngine)
  /-- An engine that could not be loaded, and why. -/
  | unready (reason : String)

/-- `RUNTIME`. -/
def runtimeName : String := "llama.cpp"

/-- `LLAMA_CPP_BUILD`. -/
def llamaCppBuild : String := "llama-cpp-2 0.1.151 (llama-cpp-rs 7f0a0d95, vendored llama.cpp)"

/-- `engine_facts`. -/
def ServedEngine.engineFacts (engine : ServedEngine) : EngineFacts where
  runtime := runtimeName
  device := engine.device
  requestedBackend := engine.selection.requested
  resolvedBackend := engine.selection.resolved
  accelerated := engine.selection.accelerated
  degradedReason := engine.selection.degradedReason
  capabilities := engine.capabilities
  llamaCppBuild := llamaCppBuild

namespace LoadedEngine

/-- `health_facts` of either engine; `version` is that of the package. -/
def healthFacts (version : String) : LoadedEngine → Members
  | ready engine =>
    Health.build (.ready engine.engine.pin engine.engine.pin.serveDims) engine.engineFacts
      .default version
  | unready reason => [("degraded_reason", .string reason), ("ready", .bool false)]

/-- `is_accelerated`: the engine runs on something other than the CPU. -/
def isAccelerated : LoadedEngine → Bool
  | ready engine => engine.selection.accelerated
  | unready _ => false

/-- What the broker's loader makes of a load: a model that is not there is an engine too. -/
def ofLoad : Except EngineError ServedEngine → Except EngineError LoadedEngine
  | .ok engine => .ok (.ready engine)
  | .error err =>
    if err.kind = "ModelNotPrepared" then .ok (.unready modelNotPrepared) else .error err

end LoadedEngine

/-! ## The history of a session -/

section

open BrokerEngineState

variable {E : Type} {isAccelerated : E → Bool} {t : List (Prog.Called (brokerSig E))}
  {state : BrokerEngineState E}

/-- What the loader has answered so far. -/
def loaderAnswers (t : List (Prog.Called (brokerSig E))) : List (Except EngineError E) :=
  t.filterMap fun
    | ⟨.callLoader _, answer⟩ => some answer
    | _ => none

theorem loaderAnswers_append (t u : List (Prog.Called (brokerSig E))) :
    loaderAnswers (t ++ u) = loaderAnswers t ++ loaderAnswers u :=
  List.filterMap_append

/-- What the state has of its history: before a demotion the first engine and no reason, and after
one the reason, and the engine of the reload if there is one. -/
inductive Remembers (isAccelerated : E → Bool) (state : BrokerEngineState E) :
    List (Except EngineError E) → Prop
  /-- The engine is the one that was loaded at the start. -/
  | loaded (inner : E) (hinner : state.inner = some inner)
      (hreason : state.degradedReason = none) : Remembers isAccelerated state [.ok inner]
  /-- The engine was demoted; the loader was called a second time, and this came of it. -/
  | demoted (first reload : Except EngineError E)
      (hinner : ∀ cpu, state.inner = some cpu ↔ reload = .ok cpu ∧ isAccelerated cpu = false)
      (hreason : state.degradedReason = some acceleratorResourceExhausted) :
      Remembers isAccelerated state [first, reload]

theorem BrokerEngineState.EmbedRun.remembers {texts : List String} {role : Role}
    {u : List (Prog.Called (brokerSig E))} {r : Except EngineError EmbedOutput}
    {state' : BrokerEngineState E} (h : EmbedRun isAccelerated state texts role u r state')
    {answers : List (Except EngineError E)} (hanswers : Remembers isAccelerated state answers) :
    Remembers isAccelerated state' (answers ++ loaderAnswers u) := by
  -- A demotion starts from an accelerated engine, so from the first one.
  have hfirst : ∀ inner, state.inner = some inner → isAccelerated inner = true →
      ∃ first, answers = [first] := by
    intro inner hinner hacc
    rcases hanswers with ⟨first, -, -⟩ | ⟨first, reload, hcpu, -⟩
    · exact ⟨_, rfl⟩
    · rw [((hcpu inner).mp hinner).2] at hacc
      exact absurd hacc Bool.false_ne_true
  rcases h with _ | _ | ⟨hinner, hacc, -, hcpu⟩ | ⟨hinner, hacc, -, hloaded⟩
  · exact (List.append_nil answers).symm ▸ hanswers
  · exact (List.append_nil answers).symm ▸ hanswers
  · obtain ⟨first, rfl⟩ := hfirst _ hinner hacc
    refine .demoted first _ (fun other => ⟨fun hinstalled => ?_, fun hreload => ?_⟩) rfl
    · obtain rfl := Option.some.inj hinstalled
      exact ⟨rfl, hcpu⟩
    · exact congrArg some (Except.ok.inj hreload.1)
  · obtain ⟨first, rfl⟩ := hfirst _ hinner hacc
    have hgone : ∀ err cpu, (state.emptied.terminated err).inner = some cpu → False :=
      fun err cpu hcpu => absurd hcpu (by simp [terminated, emptied])
    rcases hloaded with ⟨rfl, rfl⟩ | ⟨engine, rfl, hengine, -, rfl⟩
    · refine .demoted first _ (fun cpu => ⟨fun hcpu => (hgone _ cpu hcpu).elim, ?_⟩) rfl
      exact fun hreload => absurd hreload.1 (by simp)
    · refine .demoted first _ (fun cpu => ⟨fun hcpu => (hgone _ cpu hcpu).elim, ?_⟩) rfl
      rintro ⟨hreload, hcpu⟩
      obtain rfl := Except.ok.inj hreload
      exact absurd (hcpu.symm.trans hengine) Bool.false_ne_true

/-- **A session and its state remember the same.** -/
theorem Session.remembers (h : Session isAccelerated t state) :
    Remembers isAccelerated state (loaderAnswers t) := by
  induction h with
  | load hrun =>
    obtain ⟨policy, inner, rest, rfl, hrest, rfl⟩ := loadWith_ok hrun
    rcases hrest with rfl | rfl
    · exact .loaded inner rfl rfl
    · exact .loaded inner rfl rfl
  | embed h hrun ih =>
    obtain ⟨r, -, hembed⟩ := embed_run h.inv.1 hrun
    rw [loaderAnswers_append]
    exact hembed.remembers ih
  | healthFacts h hrun ih =>
    obtain ⟨r, -, hhealth⟩ := healthFacts_run h.inv.1 hrun
    rw [loaderAnswers_append]
    rcases hhealth with _ | _ | _
    · exact (List.append_nil _).symm ▸ ih
    · exact (List.append_nil _).symm ▸ ih
    · exact (List.append_nil _).symm ▸ ih

end

/-! ## The report -/

section

variable {version : String} {t u : List (Prog.Called (brokerSig LoadedEngine))}
  {state : BrokerEngineState LoadedEngine}

/-- What holds of every report; `answers` are those of the loader so far. -/
structure TruthfulHealth (state : BrokerEngineState LoadedEngine)
    (answers : List (Except EngineError LoadedEngine)) (health : Members) : Prop where
  /-- The report says whether the accelerator lease is held. -/
  lease : health.lookup "accelerator_lease_held" =
    some (.bool (state.inner.any LoadedEngine.isAccelerated))
  /-- The load policy mirrors the reason. -/
  policy : ∀ policy, health.lookup "load_policy" = some (.object policy) →
    policy.lookup "degraded_reason" = health.lookup "degraded_reason"
  /-- After a demotion to a CPU engine that is ready, the reason is the demotion. -/
  demoted : ∀ first cpu, answers = [first, .ok (.ready cpu)] →
    health.lookup "degraded_reason" = some (.string acceleratorResourceExhausted)

/-- The broker's facts, as members. -/
theorem lookup_applyBrokerRuntimeFacts (held : Bool) (reason : Option String) (health : Members) :
    ∃ result, applyBrokerRuntimeFacts held reason (.object health) = .object result ∧
      result.lookup "accelerator_lease_held" = some (.bool held) ∧
      result.lookup "degraded_reason" =
        (match reason with
          | none => health.lookup "degraded_reason"
          | some reason => some (.string reason)) ∧
      ∀ policy, result.lookup "load_policy" = some (.object policy) →
        ∃ policy', health.lookup "load_policy" = some (.object policy') ∧
          policy.lookup "degraded_reason" =
            match reason with
            | none => policy'.lookup "degraded_reason"
            | some reason => some (.string reason) := by
  rw [applyBrokerRuntimeFacts.eq_def]
  dsimp only
  rcases reason with _ | reason
  · refine ⟨_, rfl, ?_, ?_, fun policy hpolicy => ⟨policy, ?_, rfl⟩⟩
    · rw [lookup_insertMember, if_pos rfl]
    · rw [lookup_insertMember, if_neg (by decide)]
    · rw [lookup_insertMember, if_neg (by decide)] at hpolicy
      exact hpolicy
  · dsimp only
    have hlookup : (insertMember "degraded_reason" (.string reason)
        (insertMember "accelerator_lease_held" (.bool held) health)).lookup "load_policy" =
        health.lookup "load_policy" := by
      rw [lookup_insertMember, if_neg (by decide), lookup_insertMember, if_neg (by decide)]
    rw [hlookup]
    split
    · rename_i loadPolicy hload
      refine ⟨_, rfl, ?_, ?_, fun policy hpolicy => ⟨loadPolicy, hload, ?_⟩⟩
      · simp only [lookup_insertMember, String.reduceEq, if_true, if_false]
      · simp only [lookup_insertMember, String.reduceEq, if_true, if_false]
      · rw [lookup_insertMember, if_pos rfl] at hpolicy
        have hinserted : insertMember "degraded_reason" (.string reason) loadPolicy = policy :=
          Json.object.inj (Option.some.inj hpolicy)
        rw [← hinserted, lookup_insertMember, if_pos rfl]
    · rename_i hload
      refine ⟨_, rfl, ?_, ?_, fun policy hpolicy => ?_⟩
      · simp only [lookup_insertMember, String.reduceEq, if_true, if_false]
      · simp only [lookup_insertMember, String.reduceEq, if_true, if_false]
      · rw [hlookup] at hpolicy
        exact absurd hpolicy (hload policy)

/-- The load policy of an inner engine, if it reports one, mirrors its reason. -/
theorem lookup_healthFacts (inner : LoadedEngine) {policy : Members}
    (h : (inner.healthFacts version).lookup "load_policy" = some (.object policy)) :
    policy.lookup "degraded_reason" = (inner.healthFacts version).lookup "degraded_reason" := by
  rcases inner with engine | reason
  · obtain ⟨hreason, hpolicy⟩ := lookup_build
      (.ready engine.engine.pin engine.engine.pin.serveDims) engine.engineFacts .default version
    rw [LoadedEngine.healthFacts, hpolicy] at h
    rw [LoadedEngine.healthFacts, hreason, ← Json.object.inj (Option.some.inj h)]
    rfl
  · exact absurd h (by simp [LoadedEngine.healthFacts, List.lookup_cons])

/-- **When the report of a missing model is exact.**  Every report of a session tells the lease,
mirrors its reason in the load policy, and gives a demotion as the reason after one.  The exact
reason of a missing model is reported, whatever has happened before, except where the engine
without a model is the one a demotion has loaded. -/
theorem health_isTruthful_iff (h : Session LoadedEngine.isAccelerated t state) {v : Value}
    (hrun : state.healthFacts.Run u (some (.ok v)))
    (hinner : ∀ (inner : LoadedEngine) (answer : Except EngineError Value),
      (⟨.innerHealth inner, answer⟩ : Prog.Called (brokerSig LoadedEngine)) ∈ u →
        answer = .ok (.object (inner.healthFacts version))) :
    ∃ health, v = .object health ∧ TruthfulHealth state (loaderAnswers t) health ∧
      ((state.inner = some (.unready modelNotPrepared) →
          health.lookup "degraded_reason" = some (.string modelNotPrepared)) ↔
        ¬ ∃ first, loaderAnswers t = [first, .ok (.unready modelNotPrepared)]) := by
  obtain ⟨r, hr, hhealth⟩ := BrokerEngineState.healthFacts_run h.inv.1 hrun
  obtain rfl := Option.some.inj hr
  rcases hhealth with _ | _ | ⟨hlive⟩
  rename_i inner health
  obtain rfl := Except.ok.inj (hinner inner (.ok health) List.mem_cons_self)
  obtain ⟨result, hresult, hlease, hreason, hpolicy⟩ := lookup_applyBrokerRuntimeFacts
    state.acceleratorLease.isSome state.degradedReason (inner.healthFacts version)
  refine ⟨result, hresult, ⟨?_, ?_, ?_⟩, ?_⟩
  · rw [hlease, h.law.2.1]
  · intro policy hlookup
    obtain ⟨policy', hlookup', hsame⟩ := hpolicy policy hlookup
    rw [hsame, hreason]
    rcases state.degradedReason with _ | reason
    · exact lookup_healthFacts inner hlookup'
    · rfl
  · intro first cpu hanswers
    have hremembers := h.remembers
    rw [hanswers] at hremembers
    rcases hremembers with _ | ⟨_, _, -, hexhausted⟩
    rw [hreason, hexhausted]
  · have hremembers := h.remembers
    constructor
    · rintro hexact ⟨first, hanswers⟩
      rw [hanswers] at hremembers
      rcases hremembers with _ | ⟨_, _, hcpu, hexhausted⟩
      have hmissing := hexact ((hcpu _).mpr ⟨rfl, rfl⟩)
      rw [hreason, hexhausted] at hmissing
      exact absurd hmissing (by simp [acceleratorResourceExhausted, modelNotPrepared])
    · intro hnot hmissing
      obtain rfl := Option.some.inj (hlive.symm.trans hmissing)
      generalize hanswers : loaderAnswers t = answers at hremembers hnot
      rcases hremembers with ⟨_, -, hnone⟩ | ⟨first, reload, hcpu, -⟩
      · rw [hreason, hnone]
        rfl
      · obtain ⟨rfl, -⟩ := (hcpu _).mp hmissing
        exact absurd ⟨first, rfl⟩ hnot

end

/-! ## A model that is taken away

The model is there when the broker starts, and gone when the accelerated engine gives out. -/

/-- The accelerated engine. -/
def cudaEngine : LoadedEngine :=
  .ready ⟨LlamaEngine.byteEngine, "cuda0", .new cuda cuda none,
    ⟨true, true, false, false, false, false⟩⟩

/-- The engine of a load that does not find the model. -/
def missingEngine : LoadedEngine := .unready modelNotPrepared

/-- The calls of a report of the missing engine. -/
def missingHealth (version : String) : List (Prog.Called (brokerSig LoadedEngine)) :=
  [⟨.innerHealth missingEngine, .ok (.object (missingEngine.healthFacts version))⟩]

theorem missingHealth_answers (version : String) (inner : LoadedEngine)
    (answer : Except EngineError Value)
    (h : (⟨.innerHealth inner, answer⟩ : Prog.Called (brokerSig LoadedEngine)) ∈
      missingHealth version) : answer = .ok (.object (inner.healthFacts version)) := by
  rcases List.mem_singleton.mp h with h
  injection h with hop hanswer
  injection hop with hinner
  subst hinner
  exact hanswer

/-- The report of a broker that starts without the model. -/
theorem health_isTruthful_iff_missing : ∃ health,
    (⟨some missingEngine, none, some (), none, none⟩ :
      BrokerEngineState LoadedEngine).healthFacts.Run (missingHealth "0.1.0")
        (some (.ok (.object health))) ∧
    health.lookup "degraded_reason" = some (.string modelNotPrepared) := by
  have hload : Session LoadedEngine.isAccelerated [⟨.callLoader .cpuOnly, .ok missingEngine⟩]
      ⟨some missingEngine, none, some (), none, none⟩ :=
    @Session.load LoadedEngine LoadedEngine.isAccelerated none _ _ (Prog.Run.call (Prog.Run.ret _))
  have hrun : (⟨some missingEngine, none, some (), none, none⟩ :
      BrokerEngineState LoadedEngine).healthFacts.Run (missingHealth "0.1.0") _ :=
    Prog.Run.call (Prog.Run.ret _)
  obtain ⟨health, hhealth, -, hexact⟩ :=
    health_isTruthful_iff hload hrun (missingHealth_answers "0.1.0")
  have hnot : ¬ ∃ first, loaderAnswers (E := LoadedEngine)
      [⟨.callLoader .cpuOnly, .ok missingEngine⟩] = [first, .ok (.unready modelNotPrepared)] :=
    fun ⟨first, hfirst⟩ => absurd (congrArg List.length hfirst) (by simp [loaderAnswers])
  exact ⟨health, hhealth ▸ hrun, hexact.mpr hnot rfl⟩

/-- After a demotion, the report of the same engine gives the demotion as the reason. -/
theorem health_after_demotion :
    ∃ (t u : List (Prog.Called (brokerSig LoadedEngine)))
      (state : BrokerEngineState LoadedEngine) (health : Members),
      Session LoadedEngine.isAccelerated t state ∧
      state.inner = some (.unready modelNotPrepared) ∧
      state.healthFacts.Run u (some (.ok (.object health))) ∧
      (∀ (inner : LoadedEngine) (answer : Except EngineError Value),
        (⟨.innerHealth inner, answer⟩ : Prog.Called (brokerSig LoadedEngine)) ∈ u →
          answer = .ok (.object (inner.healthFacts "0.1.0"))) ∧
      health.lookup "ready" = some (.bool false) ∧
      health.lookup "degraded_reason" = some (.string acceleratorResourceExhausted) := by
  have hload : Session LoadedEngine.isAccelerated [⟨.callLoader .auto, .ok cudaEngine⟩]
      ⟨some cudaEngine, some .held, some (), none, none⟩ :=
    @Session.load LoadedEngine LoadedEngine.isAccelerated (some .held) _ _
      (Prog.Run.call (Prog.Run.ret _))
  have hembed := @Session.embed LoadedEngine LoadedEngine.isAccelerated _ _ _ _ ["a"] .query
    (some (.error (.new "EngineNotReady" modelNotPrepared))) hload
    (Prog.Run.call (Prog.Run.call (Prog.Run.call (Prog.Run.call (Prog.Run.call
      (Prog.Run.ret _))))) : (BrokerEngineState.embed LoadedEngine.isAccelerated
        ⟨some cudaEngine, some .held, some (), none, none⟩ ["a"] .query).Run
      (BrokerEngineState.demotionCalls cudaEngine ["a"] .query
        (.resourceExhausted "ContextAlloc" "out of memory") (.ok missingEngine) ++
        [⟨.innerEmbed missingEngine ["a"] .query,
          .error (.new "EngineNotReady" modelNotPrepared)⟩])
      (_, ⟨some missingEngine, none, some (), some acceleratorResourceExhausted, none⟩))
  refine ⟨_, missingHealth "0.1.0", _, _, hembed, rfl, Prog.Run.call (Prog.Run.ret _),
    missingHealth_answers "0.1.0", ?_, ?_⟩
  · rfl
  · rfl

end SemanticSidecar
