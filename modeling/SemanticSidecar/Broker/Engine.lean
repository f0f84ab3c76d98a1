import SemanticSidecar.EngineTrait
import SemanticSidecar.Health
import SemanticSidecar.Lib.Prog

/-!
# The engine of the broker, and its one demotion

`BrokerEngine` wraps an engine, the accelerator lease it may need, and the loader that can replace
it.  When an accelerated engine runs out of resources, it is dropped, the lease is given back, and
a CPU engine is loaded in its place; this happens at most once, and a reload that fails is
terminal.

The methods are programs over the calls they make: into the loader, into an inner engine, and the
drops that have an effect outside.  All answers are arbitrary.  A panic, which is how the source
states that something cannot happen, is the result `none`.

`EmbedRun` says once what a single `embed` can do, and `BrokerEngineState.Inv` is what every
state keeps.  `Session.law` is the state machine put together, for any sequence of calls.

Inner engines are of any type, and nothing is assumed of them: what the loader returns, what an
engine answers, and which engines count as accelerated are all left open.  Whether a failure is one
of resources is part of the error, so the state machine is right for every way an engine can behave.

What holds is the following.

* The lease is held exactly by an accelerated engine, and there is either a live engine or a
  terminal failure (`BrokerEngineState.Inv`).
* There is one demotion in a session at most, and after it the loader is only ever told to stay on
  the CPU (`loaderPolicies`).
* A demotion that fails leaves no engine behind, and every later call is answered with the same
  error (`EmbedRun`).
-/

set_option autoImplicit false

namespace SemanticSidecar

/-- Backend discovery policy for one engine load. -/
inductive BackendPolicy where
  /-- An accelerator is used if one is selected. -/
  | auto
  /-- The CPU is forced. -/
  | cpuOnly
  deriving DecidableEq, Repr

/-- The lock file of the accelerator, held. -/
inductive AcceleratorLease where
  /-- The lease is held for as long as the value is kept. -/
  | held
  deriving DecidableEq, Repr

/-- What the scheduler's next request asks of the engine. -/
inductive EngineCall where
  /-- `embed` of a batch. -/
  | embed (texts : List String) (role : Role)
  /-- `health_facts`. -/
  | health

/-- The calls a broker process makes. -/
inductive BrokerOp (E : Type) where
  /-- `ServiceLease::try_acquire`; an answer of `false` is a lease held elsewhere. -/
  | tryAcquireService
  /-- `AcceleratorLease::try_acquire`. -/
  | tryAcquire
  /-- A step of the start-up that can fail and has no part in what is modelled here. -/
  | startUp
  /-- The loader is called. -/
  | callLoader (policy : BackendPolicy)
  /-- `embed` of the loaded engine. -/
  | innerEmbed (engine : E) (texts : List String) (role : Role)
  /-- `health_facts` of the loaded engine. -/
  | innerHealth (engine : E)
  /-- The loaded engine goes out of scope. -/
  | dropEngine (engine : E)
  /-- The accelerator lease goes out of scope. -/
  | dropLease
  /-- The next call of the broker on its engine, or the end of the session. -/
  | nextCall

/-- The answers to those calls. -/
@[reducible] def BrokerOp.Ret {E : Type} : BrokerOp E → Type
  | tryAcquireService => Except String Bool
  | tryAcquire => Except String (Option AcceleratorLease)
  | startUp => Except String Unit
  | callLoader _ => Except EngineError E
  | innerEmbed _ _ _ => Except EngineError EmbedOutput
  | innerHealth _ => Except EngineError Value
  | dropEngine _ => Unit
  | dropLease => Unit
  | nextCall => EngineCall

/-- The calls of the broker's engine. -/
abbrev brokerSig (E : Type) : Sig := ⟨BrokerOp E, BrokerOp.Ret⟩

/-- `BrokerEngineState`.  Of the loader only its presence matters, since calling it is a call. -/
structure BrokerEngineState (E : Type) where
  /-- The loaded engine. -/
  inner : Option E
  /-- The accelerator lease, while it is held. -/
  acceleratorLease : Option AcceleratorLease
  /-- That there is a loader. -/
  loader : Option Unit
  /-- Why the engine was demoted. -/
  degradedReason : Option String
  /-- The failure that every request is answered with. -/
  terminalFailure : Option EngineError

section

variable {E : Type} (isAccelerated : E → Bool)

open Prog (perform)

/-- Dropping a lease, if there is one. -/
def dropLease : Option AcceleratorLease → Prog (brokerSig E) Unit
  | none => pure ()
  | some _ => perform (S := brokerSig E) .dropLease

/-- Dropping an engine, if there is one. -/
def dropEngine : Option E → Prog (brokerSig E) Unit
  | none => pure ()
  | some engine => perform (S := brokerSig E) (.dropEngine engine)

/-- The error of a loader that was told to stay on the CPU and did not. -/
def backendPolicyError : EngineError :=
  .new "BackendPolicy" "CpuOnly loader resolved an accelerated backend"

/-- `BrokerEngine::load_with`. -/
def loadWith (acceleratorLease : Option AcceleratorLease) :
    Prog (brokerSig E) (Except EngineError (BrokerEngineState E)) := do
  let policy := if acceleratorLease.isSome then BackendPolicy.auto else BackendPolicy.cpuOnly
  match ← perform (S := brokerSig E) (.callLoader policy) with
  | .error err =>
    dropLease acceleratorLease
    return .error err
  | .ok inner =>
    if policy == .cpuOnly && isAccelerated inner then
      dropEngine (some inner)
      dropLease acceleratorLease
      return .error backendPolicyError
    else if !isAccelerated inner then
      dropLease acceleratorLease
      return .ok ⟨some inner, none, some (), none, none⟩
    else
      return .ok ⟨some inner, acceleratorLease, some (), none, none⟩

namespace BrokerEngineState

variable (state : BrokerEngineState E)

/-- `BrokerEngine::health_facts`. -/
def healthFacts : Prog (brokerSig E) (Option (Except EngineError Value)) := do
  match state.terminalFailure with
  | some err => return some (.error err)
  | none =>
    match state.inner with
    | none => return none
    | some inner =>
      match ← perform (S := brokerSig E) (.innerHealth inner) with
      | .error err => return some (.error err)
      | .ok health =>
        return some (.ok (applyBrokerRuntimeFacts state.acceleratorLease.isSome
          state.degradedReason health))

/-- `is_accelerated`. -/
def accelerated : Bool := state.inner.any isAccelerated

/-- The failure that the broker recovers from. -/
def isResourceExhausted : Except EngineError EmbedOutput → Bool
  | .ok _ => false
  | .error err => err.failureClass = .resourceExhausted

/-- The state while the recovery is under way: the engine and the lease are gone. -/
def emptied : BrokerEngineState E :=
  { state with
    inner := none, acceleratorLease := none, degradedReason := some acceleratorResourceExhausted }

/-- The state once a CPU engine has been installed. -/
def installed (cpu : E) : BrokerEngineState E := { state with inner := some cpu }

/-- The state once the reload has failed. -/
def terminated (err : EngineError) : BrokerEngineState E :=
  { state with terminalFailure := some err }

/-- The recovery of `embed`, from the point where it is decided on. -/
def recover (texts : List String) (role : Role) :
    Prog (brokerSig E) (Option (Except EngineError EmbedOutput) × BrokerEngineState E) := do
  dropEngine state.inner
  dropLease state.acceleratorLease
  let state := state.emptied
  match state.loader with
  | none => return (none, state)
  | some _ =>
    match ← perform (S := brokerSig E) (.callLoader .cpuOnly) with
    | .error err => return (some (.error err), state.terminated err)
    | .ok engine =>
      if isAccelerated engine then
        dropEngine (some engine)
        return (some (.error backendPolicyError), state.terminated backendPolicyError)
      else
        let result ← perform (S := brokerSig E) (.innerEmbed engine texts role)
        return (some result, state.installed engine)

/-- `BrokerEngine::embed`. -/
def embed (texts : List String) (role : Role) :
    Prog (brokerSig E) (Option (Except EngineError EmbedOutput) × BrokerEngineState E) := do
  match state.terminalFailure with
  | some err => return (some (.error err), state)
  | none =>
    match state.inner with
    | none => return (none, state)
    | some inner =>
      let first : Except EngineError EmbedOutput ←
        perform (S := brokerSig E) (.innerEmbed inner texts role)
      if isResourceExhausted first && isAccelerated inner && state.acceleratorLease.isSome &&
          state.loader.isSome then
        state.recover isAccelerated texts role
      else
        return (some first, state)

/-! ## What one call can do -/

/-- What every state of a broker engine keeps. -/
structure Inv : Prop where
  /-- There is a live engine or a terminal failure, and never both. -/
  one : state.inner.isSome = !state.terminalFailure.isSome
  /-- The lease is held exactly by an accelerated engine. -/
  lease : state.acceleratorLease.isSome = state.inner.any isAccelerated
  /-- There is a loader. -/
  loader : state.loader.isSome

variable {isAccelerated} {state}

/-- A state that keeps the invariant is terminal, with nothing left, or live. -/
theorem Inv.cases (h : state.Inv isAccelerated) :
    (∃ err, state.terminalFailure = some err ∧ state.inner = none ∧
      state.acceleratorLease = none) ∨
    ∃ inner, state.inner = some inner ∧ state.terminalFailure = none ∧
      state.acceleratorLease = if isAccelerated inner then some .held else none := by
  obtain ⟨hone, hlease, -⟩ := h
  cases hterminal : state.terminalFailure with
  | some err =>
    rw [hterminal, Option.isSome_some, Bool.not_true, Option.isSome_eq_false_iff,
      Option.isNone_iff_eq_none] at hone
    rw [hone, Option.any_none, Option.isSome_eq_false_iff, Option.isNone_iff_eq_none] at hlease
    exact Or.inl ⟨err, rfl, hone, hlease⟩
  | none =>
    rw [hterminal, Option.isSome_none, Bool.not_false, Option.isSome_iff_exists] at hone
    obtain ⟨inner, hinner⟩ := hone
    refine Or.inr ⟨inner, hinner, rfl, ?_⟩
    rw [hinner, Option.any_some] at hlease
    cases hlock : state.acceleratorLease with
    | none => rw [hlock] at hlease; simp [← hlease]
    | some lease => rw [hlock] at hlease; cases lease; simp [← hlease]

/-- The calls of a demotion, up to the answer of the loader. -/
def demotionCalls (inner : E) (texts : List String) (role : Role) (err : EngineError)
    (loaded : Except EngineError E) : List (Prog.Called (brokerSig E)) :=
  [⟨.innerEmbed inner texts role, .error err⟩, ⟨.dropEngine inner, ()⟩, ⟨.dropLease, ()⟩,
    ⟨.callLoader .cpuOnly, loaded⟩]

/-- What one `embed` can do: its calls, its result, and the state it leaves. -/
inductive EmbedRun (isAccelerated : E → Bool) (state : BrokerEngineState E) (texts : List String)
    (role : Role) : List (Prog.Called (brokerSig E)) → Except EngineError EmbedOutput →
      BrokerEngineState E → Prop where
  /-- After a terminal failure nothing is called any more. -/
  | terminal {err : EngineError} (h : state.terminalFailure = some err) :
      EmbedRun isAccelerated state texts role [] (.error err) state
  /-- The live engine answers, and its answer stands. -/
  | kept {inner : E} {result : Except EngineError EmbedOutput} (h : state.inner = some inner)
      (hkept : isResourceExhausted result = false ∨ isAccelerated inner = false) :
      EmbedRun isAccelerated state texts role [⟨.innerEmbed inner texts role, result⟩] result state
  /-- The accelerated engine gives out, and a CPU engine takes over. -/
  | demoted {inner cpu : E} {err : EngineError} {result : Except EngineError EmbedOutput}
      (h : state.inner = some inner) (hacc : isAccelerated inner = true)
      (hclass : err.failureClass = .resourceExhausted) (hcpu : isAccelerated cpu = false) :
      EmbedRun isAccelerated state texts role
        (demotionCalls inner texts role err (.ok cpu) ++ [⟨.innerEmbed cpu texts role, result⟩])
        result
        (state.emptied.installed cpu)
  /-- The accelerated engine gives out, and there is no engine to take over. -/
  | failed {inner : E} {err err' : EngineError} {loaded : Except EngineError E}
      {rest : List (Prog.Called (brokerSig E))}
      (h : state.inner = some inner) (hacc : isAccelerated inner = true)
      (hclass : err.failureClass = .resourceExhausted)
      (hloaded : loaded = .error err' ∧ rest = [] ∨
        ∃ engine, loaded = .ok engine ∧ isAccelerated engine = true ∧ err' = backendPolicyError ∧
          rest = [⟨.dropEngine engine, ()⟩]) :
      EmbedRun isAccelerated state texts role (demotionCalls inner texts role err loaded ++ rest)
        (.error err')
        (state.emptied.terminated err')

/-- The recovery, from a state it is entered in. -/
theorem recover_run {inner : E} {lease : AcceleratorLease} {loader : Unit}
    (hinner : state.inner = some inner) (hlease : state.acceleratorLease = some lease)
    (hloader : state.loader = some loader) {texts : List String} {role : Role}
    {t : List (Prog.Called (brokerSig E))}
    {result : Option (Except EngineError EmbedOutput)} {state' : BrokerEngineState E}
    (hrun : (state.recover isAccelerated texts role).Run t (result, state')) :
    ∃ (loaded : Except EngineError E) (rest : List (Prog.Called (brokerSig E))),
      t = [⟨.dropEngine inner, ()⟩, ⟨.dropLease, ()⟩, ⟨.callLoader .cpuOnly, loaded⟩] ++ rest ∧
      match loaded with
      | .error err => rest = [] ∧ result = some (.error err) ∧
          state' = state.emptied.terminated err
      | .ok engine =>
        if isAccelerated engine then
          rest = [⟨.dropEngine engine, ()⟩] ∧ result = some (.error backendPolicyError) ∧
            state' = state.emptied.terminated backendPolicyError
        else
          ∃ r, rest = [⟨.innerEmbed engine texts role, r⟩] ∧ result = some r ∧
            state' = state.emptied.installed engine := by
  have hpresent : state.emptied.loader = some loader := hloader
  simp only [recover, hinner, hlease, hpresent, dropEngine, dropLease, Prog.bind_eq,
    Prog.perform, Prog.call_bind, Prog.ret_bind, Prog.run_call] at hrun
  obtain ⟨⟨⟩, _, rfl, ⟨⟩, _, rfl, loaded, rest, rfl, hrun⟩ := hrun
  refine ⟨loaded, rest, rfl, ?_⟩
  cases loaded with
  | error err =>
    simp only [Prog.pure_eq, Prog.run_ret, Prod.mk.injEq] at hrun
    obtain ⟨rfl, rfl, rfl⟩ := hrun
    exact ⟨rfl, rfl, rfl⟩
  | ok engine =>
    by_cases hacc : isAccelerated engine = true
    · simp only [hacc, if_true, Prog.run_call, Prog.pure_eq, Prog.run_ret, Prod.mk.injEq] at hrun ⊢
      obtain ⟨⟨⟩, _, rfl, rfl, rfl, rfl⟩ := hrun
      exact ⟨rfl, rfl, rfl⟩
    · simp only [hacc, Bool.false_eq_true, if_false, Prog.run_call, Prog.pure_eq, Prog.run_ret,
        Prod.mk.injEq] at hrun ⊢
      obtain ⟨r, _, rfl, rfl, rfl, rfl⟩ := hrun
      exact ⟨r, rfl, rfl, rfl⟩

/-- **One `embed`.** -/
theorem embed_run (h : state.Inv isAccelerated) {texts : List String} {role : Role}
    {t : List (Prog.Called (brokerSig E))}
    {result : Option (Except EngineError EmbedOutput)} {state' : BrokerEngineState E}
    (hrun : (state.embed isAccelerated texts role).Run t (result, state')) :
    ∃ r, result = some r ∧ EmbedRun isAccelerated state texts role t r state' := by
  obtain ⟨loader, hloader⟩ := Option.isSome_iff_exists.mp h.loader
  rcases h.cases with ⟨err, hterminal, -, -⟩ | ⟨inner, hinner, hterminal, hlease⟩
  · simp only [embed, hterminal, Prog.pure_eq, Prog.run_ret, Prod.mk.injEq] at hrun
    obtain ⟨rfl, rfl, rfl⟩ := hrun
    exact ⟨_, rfl, .terminal hterminal⟩
  · simp only [embed, hterminal, hinner, Prog.bind_eq, Prog.perform, Prog.call_bind, Prog.ret_bind, Prog.run_call] at hrun
    obtain ⟨first, rest, rfl, hrun⟩ := hrun
    by_cases hrecover : isResourceExhausted first = true ∧ isAccelerated inner = true
    · -- The only answers that lead into the recovery.
      obtain ⟨hexhausted, hacc⟩ := hrecover
      rw [if_pos hacc] at hlease
      simp only [hexhausted, hacc, hlease, hloader, Option.isSome_some, Bool.and_self,
        if_true] at hrun
      obtain ⟨loaded, tail, rfl, houtcome⟩ := recover_run hinner hlease hloader hrun
      cases first with
      | ok output => simp [isResourceExhausted] at hexhausted
      | error err =>
        have hclass : err.failureClass = .resourceExhausted := by
          simpa [isResourceExhausted] using hexhausted
        cases loaded with
        | error err' =>
          obtain ⟨rfl, rfl, rfl⟩ := houtcome
          exact ⟨_, rfl, .failed hinner hacc hclass (Or.inl ⟨rfl, rfl⟩)⟩
        | ok engine =>
          by_cases hengine : isAccelerated engine = true
          · simp only [hengine, if_true] at houtcome
            obtain ⟨rfl, rfl, rfl⟩ := houtcome
            exact ⟨_, rfl, .failed hinner hacc hclass
              (Or.inr ⟨engine, rfl, hengine, rfl, rfl⟩)⟩
          · simp only [hengine, Bool.false_eq_true, if_false] at houtcome
            obtain ⟨r, rfl, rfl, rfl⟩ := houtcome
            exact ⟨r, rfl, .demoted hinner hacc hclass (by simpa using hengine)⟩
    · have hkept : isResourceExhausted first = false ∨ isAccelerated inner = false := by
        by_cases hexhausted : isResourceExhausted first = true
        · exact Or.inr (by simpa using fun hacc => hrecover ⟨hexhausted, hacc⟩)
        · exact Or.inl (by simpa using hexhausted)
      have hcond : (isResourceExhausted first && isAccelerated inner &&
          state.acceleratorLease.isSome && state.loader.isSome) = false := by
        rcases hkept with hfalse | hfalse <;> simp [hfalse]
      simp only [hcond, Bool.false_eq_true, if_false, Prog.pure_eq, Prog.run_ret,
        Prod.mk.injEq] at hrun
      obtain ⟨rfl, rfl, rfl⟩ := hrun
      exact ⟨first, rfl, .kept hinner hkept⟩

/-- What one `health_facts` can do: its calls and its result. -/
inductive HealthRun (state : BrokerEngineState E) : List (Prog.Called (brokerSig E)) →
    Except EngineError Value → Prop where
  /-- After a terminal failure that is the answer. -/
  | terminal {err : EngineError} (h : state.terminalFailure = some err) :
      HealthRun state [] (.error err)
  /-- The loaded engine fails to answer. -/
  | failed {inner : E} {err : EngineError} (h : state.inner = some inner) :
      HealthRun state [⟨.innerHealth inner, .error err⟩] (.error err)
  /-- The loaded engine answers, and the broker adds what it knows. -/
  | live {inner : E} {health : Value} (h : state.inner = some inner) :
      HealthRun state [⟨.innerHealth inner, .ok health⟩]
        (.ok (applyBrokerRuntimeFacts state.acceleratorLease.isSome state.degradedReason health))

/-- **One `health_facts`.** -/
theorem healthFacts_run (h : state.Inv isAccelerated) {t : List (Prog.Called (brokerSig E))}
    {result : Option (Except EngineError Value)} (hrun : state.healthFacts.Run t result) :
    ∃ r, result = some r ∧ HealthRun state t r := by
  rcases h.cases with ⟨err, hterminal, -, -⟩ | ⟨inner, hinner, hterminal, -⟩
  · simp only [healthFacts, hterminal, Prog.pure_eq, Prog.run_ret] at hrun
    obtain ⟨rfl, rfl⟩ := hrun
    exact ⟨_, rfl, .terminal hterminal⟩
  · simp only [healthFacts, hterminal, hinner, Prog.bind_eq, Prog.perform, Prog.call_bind,
      Prog.ret_bind, Prog.run_call] at hrun
    obtain ⟨answer, rest, rfl, hrun⟩ := hrun
    cases answer with
    | error err =>
      simp only [Prog.pure_eq, Prog.run_ret] at hrun
      obtain ⟨rfl, rfl⟩ := hrun
      exact ⟨_, rfl, .failed hinner⟩
    | ok health =>
      simp only [Prog.pure_eq, Prog.run_ret] at hrun
      obtain ⟨rfl, rfl⟩ := hrun
      exact ⟨_, rfl, .live hinner⟩

/-! ## What calls leave behind -/

/-- The policies the loader was called with. -/
def loaderPolicies (t : List (Prog.Called (brokerSig E))) : List BackendPolicy :=
  t.filterMap fun called =>
    match called.op with
    | .callLoader policy => some policy
    | _ => none

theorem EmbedRun.inv {texts : List String} {role : Role} {t : List (Prog.Called (brokerSig E))}
    {r : Except EngineError EmbedOutput} {state' : BrokerEngineState E}
    (h : EmbedRun isAccelerated state texts role t r state') (hinv : state.Inv isAccelerated) :
    state'.Inv isAccelerated := by
  cases h with
  | terminal h => exact hinv
  | kept h hkept => exact hinv
  | demoted h hacc hclass hcpu =>
    have hterminal : state.terminalFailure = none := by
      have hone := hinv.one
      rw [h] at hone
      simpa using hone
    refine ⟨?_, ?_, hinv.loader⟩
    · simp [installed, emptied, hterminal]
    · simp [installed, emptied, hcpu]
  | failed h hacc hclass hloaded =>
    refine ⟨?_, ?_, hinv.loader⟩
    · simp [terminated, emptied]
    · simp [terminated, emptied]

/-- An embed calls the loader at most once, on the CPU, and only to replace an accelerated
engine. -/
theorem EmbedRun.loads {texts : List String} {role : Role}
    {t : List (Prog.Called (brokerSig E))} {r : Except EngineError EmbedOutput}
    {state' : BrokerEngineState E} (h : EmbedRun isAccelerated state texts role t r state') :
    loaderPolicies t = [] ∧ state' = state ∨
      loaderPolicies t = [.cpuOnly] ∧ state.accelerated isAccelerated = true ∧
        state'.accelerated isAccelerated = false := by
  cases h with
  | terminal h => exact Or.inl ⟨rfl, rfl⟩
  | kept h hkept => exact Or.inl ⟨rfl, rfl⟩
  | demoted h hacc hclass hcpu =>
    refine Or.inr ⟨rfl, ?_, ?_⟩
    · rw [accelerated, h, Option.any_some, hacc]
    · rw [accelerated, installed, Option.any_some, hcpu]
  | failed h hacc hclass hloaded =>
    refine Or.inr ⟨?_, ?_, ?_⟩
    · rcases hloaded with ⟨rfl, rfl⟩ | ⟨engine, rfl, -, -, rfl⟩ <;> rfl
    · rw [accelerated, h, Option.any_some, hacc]
    · rfl

/-- An embed demotes exactly when the accelerated engine answers that it is out of resources. -/
theorem EmbedRun.loads_iff {texts : List String} {role : Role}
    {t : List (Prog.Called (brokerSig E))} {r : Except EngineError EmbedOutput}
    {state' : BrokerEngineState E} (h : EmbedRun isAccelerated state texts role t r state') :
    loaderPolicies t ≠ [] ↔ ∃ inner err, state.inner = some inner ∧ isAccelerated inner = true ∧
      err.failureClass = .resourceExhausted ∧
      t.head? = some ⟨.innerEmbed inner texts role, .error err⟩ := by
  cases h with
  | terminal h => simp [loaderPolicies]
  | @kept inner _ h hkept =>
    simp only [loaderPolicies, List.filterMap_cons, List.filterMap_nil, ne_eq, not_true,
      List.head?_cons, Option.some.injEq, false_iff]
    rintro ⟨inner', err, hinner, hacc, hclass, hhead⟩
    obtain rfl : inner = inner' := Option.some.inj (h.symm.trans hinner)
    obtain rfl : r = .error err := by injection hhead
    rcases hkept with hfalse | hfalse
    · simp [isResourceExhausted, hclass] at hfalse
    · rw [hacc] at hfalse
      cases hfalse
  | @demoted inner cpu err result h hacc hclass hcpu =>
    exact ⟨fun _ => ⟨inner, err, h, hacc, hclass, rfl⟩,
      fun _ => by simp [loaderPolicies, demotionCalls]⟩
  | @failed inner err err' loaded rest h hacc hclass hloaded =>
    exact ⟨fun _ => ⟨inner, err, h, hacc, hclass, rfl⟩,
      fun _ => by simp [loaderPolicies, demotionCalls]⟩

end BrokerEngineState

/-- A load that succeeds: its calls, and the state it leaves. -/
theorem loadWith_ok {isAccelerated : E → Bool} {lease : Option AcceleratorLease}
    {t : List (Prog.Called (brokerSig E))} {state : BrokerEngineState E}
    (hrun : (loadWith isAccelerated lease).Run t (.ok state)) :
    ∃ policy inner rest, t = ⟨.callLoader policy, .ok inner⟩ :: rest ∧
      (rest = [] ∨ rest = [⟨.dropLease, ()⟩]) ∧
      state = ⟨some inner, if isAccelerated inner then some .held else none, some (), none,
        none⟩ := by
  simp only [loadWith, Prog.bind_eq, Prog.perform, Prog.call_bind, Prog.ret_bind,
    Prog.run_call] at hrun
  obtain ⟨answer, rest, rfl, hrun⟩ := hrun
  rcases answer with err | inner
  · rcases lease with _ | lease <;> simp [dropLease, Prog.run_call, Prog.run_ret] at hrun
  refine ⟨_, inner, rest, rfl, ?_⟩
  rcases hacc : isAccelerated inner with _ | _
  · rcases lease with _ | lease
    · simp only [hacc, Bool.and_false, Bool.false_eq_true, if_false, Bool.not_false, if_true,
        dropLease, Prog.pure_eq, Prog.ret_bind, Prog.run_ret] at hrun ⊢
      obtain ⟨rfl, hstate⟩ := hrun
      exact ⟨Or.inl rfl, Except.ok.inj hstate⟩
    · simp only [hacc, Bool.and_false, Bool.false_eq_true, if_false, Bool.not_false, if_true,
        dropLease, Prog.perform, Prog.call_bind, Prog.pure_eq, Prog.ret_bind, Prog.run_call,
        Prog.run_ret] at hrun ⊢
      obtain ⟨_, _, rfl, rfl, hstate⟩ := hrun
      exact ⟨Or.inr rfl, Except.ok.inj hstate⟩
  · rcases lease with _ | lease
    · simp [hacc, dropLease, dropEngine, Prog.run_call, Prog.run_ret] at hrun
    · simp only [hacc, Option.isSome_some, if_true, beq_iff_eq, reduceCtorEq, Bool.and_true,
        if_false, Bool.not_true, Bool.false_eq_true, Prog.pure_eq, Prog.run_ret] at hrun ⊢
      obtain ⟨rfl, hstate⟩ := hrun
      exact ⟨Or.inl rfl, Except.ok.inj hstate⟩

/-- **What loading leaves.** -/
theorem loadWith_run {isAccelerated : E → Bool} {lease : Option AcceleratorLease}
    {t : List (Prog.Called (brokerSig E))} {state : BrokerEngineState E}
    (hrun : (loadWith isAccelerated lease).Run t (.ok state)) :
    state.Inv isAccelerated ∧ ∃ policy, BrokerEngineState.loaderPolicies t = [policy] := by
  obtain ⟨policy, inner, rest, rfl, hrest, rfl⟩ := loadWith_ok hrun
  refine ⟨⟨rfl, ?_, rfl⟩, policy, ?_⟩
  · rcases hacc : isAccelerated inner with _ | _ <;> simp [hacc]
  · rcases hrest with rfl | rfl <;> rfl

/-- A broker engine after some calls: loaded successfully, and then asked for embeddings and
health facts any number of times.  `t` is everything it called. -/
inductive Session (isAccelerated : E → Bool) :
    List (Prog.Called (brokerSig E)) → BrokerEngineState E → Prop where
  /-- A session begins with the load. -/
  | load {lease : Option AcceleratorLease} {t : List (Prog.Called (brokerSig E))}
      {state : BrokerEngineState E} (hrun : (loadWith isAccelerated lease).Run t (.ok state)) :
      Session isAccelerated t state
  /-- A session goes on with a batch. -/
  | embed {t u : List (Prog.Called (brokerSig E))} {state state' : BrokerEngineState E}
      {texts : List String} {role : Role} {result : Option (Except EngineError EmbedOutput)}
      (h : Session isAccelerated t state)
      (hrun : (state.embed isAccelerated texts role).Run u (result, state')) :
      Session isAccelerated (t ++ u) state'
  /-- A session goes on with a health request. -/
  | healthFacts {t u : List (Prog.Called (brokerSig E))} {state : BrokerEngineState E}
      {result : Option (Except EngineError Value)} (h : Session isAccelerated t state)
      (hrun : state.healthFacts.Run u result) : Session isAccelerated (t ++ u) state

namespace Session

open BrokerEngineState

variable {isAccelerated : E → Bool} {t : List (Prog.Called (brokerSig E))}
  {state : BrokerEngineState E}

theorem loaderPolicies_append (t u : List (Prog.Called (brokerSig E))) :
    loaderPolicies (t ++ u) = loaderPolicies t ++ loaderPolicies u :=
  List.filterMap_append

/-- The invariant of the states, and how often the loader has been called in each. -/
theorem inv (h : Session isAccelerated t state) :
    state.Inv isAccelerated ∧ ∃ policy, loaderPolicies t = [policy] ∨
      loaderPolicies t = [policy, .cpuOnly] ∧ state.accelerated isAccelerated = false := by
  induction h with
  | load hrun =>
    obtain ⟨hinv, policy, hloads⟩ := loadWith_run hrun
    exact ⟨hinv, policy, Or.inl hloads⟩
  | embed h hrun ih =>
    obtain ⟨hinv, policy, hloads⟩ := ih
    obtain ⟨r, -, hembed⟩ := embed_run hinv hrun
    refine ⟨hembed.inv hinv, policy, ?_⟩
    rw [loaderPolicies_append]
    rcases hembed.loads with ⟨hnone, rfl⟩ | ⟨hcpu, hacc, hafter⟩
    · rw [hnone, List.append_nil]
      exact hloads
    · rcases hloads with hone | ⟨-, hnot⟩
      · exact Or.inr ⟨by rw [hone, hcpu]; rfl, hafter⟩
      · rw [hacc] at hnot
        cases hnot
  | healthFacts h hrun ih =>
    obtain ⟨hinv, policy, hloads⟩ := ih
    obtain ⟨r, -, hhealth⟩ := healthFacts_run hinv hrun
    refine ⟨hinv, policy, ?_⟩
    rw [loaderPolicies_append]
    cases hhealth <;> simpa [loaderPolicies] using hloads

/-- **The demotion state machine.**  In every state a session reaches there is a live engine or a
terminal failure, the lease is held exactly by an accelerated engine, and the loader has been
called once, or twice and then on the CPU; and from there every `embed` and every `health_facts`
is one of the runs listed in `EmbedRun` and `HealthRun`, a demotion being those that call the
loader.  After a terminal failure there is nothing left but its error. -/
theorem law (h : Session isAccelerated t state) :
    state.inner.isSome = (!state.terminalFailure.isSome) ∧
    state.acceleratorLease.isSome = state.inner.any isAccelerated ∧
    (∃ policy, loaderPolicies t = [policy] ∨ loaderPolicies t = [policy, .cpuOnly]) ∧
    (∀ texts role u result state',
      (state.embed isAccelerated texts role).Run u (result, state') → ∃ r, result = some r ∧
        EmbedRun isAccelerated state texts role u r state' ∧
        (loaderPolicies u ≠ [] ↔ ∃ inner err, state.inner = some inner ∧
          isAccelerated inner = true ∧ err.failureClass = .resourceExhausted ∧
          u.head? = some ⟨.innerEmbed inner texts role, .error err⟩)) ∧
    (∀ u result, state.healthFacts.Run u result → ∃ r, result = some r ∧ HealthRun state u r) ∧
    ∀ err, state.terminalFailure = some err →
      (∀ texts role u result state',
        (state.embed isAccelerated texts role).Run u (result, state') →
          u = [] ∧ result = some (.error err) ∧ state' = state) ∧
      ∀ u result, state.healthFacts.Run u result → u = [] ∧ result = some (.error err) := by
  obtain ⟨hinv, policy, hloads⟩ := h.inv
  refine ⟨hinv.one, hinv.lease, ⟨policy, hloads.imp_right And.left⟩, ?_, ?_,
    fun err hterminal => ⟨?_, ?_⟩⟩
  · intro texts role u result state' hrun
    obtain ⟨r, hresult, hembed⟩ := embed_run hinv hrun
    exact ⟨r, hresult, hembed, hembed.loads_iff⟩
  · intro u result hrun
    exact healthFacts_run hinv hrun
  · intro texts role u result state' hrun
    simp only [BrokerEngineState.embed, hterminal, Prog.pure_eq, Prog.run_ret,
      Prod.mk.injEq] at hrun
    exact hrun
  · intro u result hrun
    simp only [BrokerEngineState.healthFacts, hterminal, Prog.pure_eq, Prog.run_ret] at hrun
    exact hrun

end Session

end

/-- A session of an accelerated engine that gives out on its first embed.  The engines are `true`
and `false`, the accelerated one being `true`. -/
theorem Session.law_demotion :
    ∃ (t : List (Prog.Called (brokerSig Bool))) (state : BrokerEngineState Bool),
      Session id t state ∧ BrokerEngineState.loaderPolicies t = [.auto, .cpuOnly] ∧
      state.inner.isSome = (!state.terminalFailure.isSome) := by
  have hload : Session id [⟨.callLoader .auto, Except.ok true⟩]
      ⟨some true, some .held, some (), none, none⟩ :=
    @Session.load Bool id (some .held) _ _ (Prog.Run.call (Prog.Run.ret _))
  have hembed : Session id
      ([⟨.callLoader .auto, Except.ok true⟩] ++ (BrokerEngineState.demotionCalls true ["a"] .query
        ⟨"Decode", "out of memory", .resourceExhausted⟩ (.ok false) ++
        [⟨.innerEmbed false ["a"] .query, Except.ok ⟨0, [[]]⟩⟩]))
      ⟨some false, none, some (), some acceleratorResourceExhausted, none⟩ :=
    @Session.embed Bool id _ _ _ _ ["a"] .query (some (.ok ⟨0, [[]]⟩)) hload
      (Prog.Run.call (Prog.Run.call (Prog.Run.call (Prog.Run.call (Prog.Run.call
        (Prog.Run.ret _))))))
  exact ⟨_, _, hembed, rfl, hembed.law.1⟩

end SemanticSidecar
