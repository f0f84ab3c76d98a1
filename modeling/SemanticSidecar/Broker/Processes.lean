import SemanticSidecar.Broker.Engine
import SemanticSidecar.Lib.Pool

/-!
# Many broker processes, one accelerator

Any number of broker processes run at once.  They may serve different models on different
endpoints, but they share one accelerator lock, and a process that wants an accelerated engine
must hold it.

`serve` is the life of one process, start-up errors included; `accelerator` is the machine they
run on, with the lock and the engines that are alive.  The lock is exclusive, and it is given up
only by the process that holds it, by dropping it or by going away.  Of the loader one thing is
assumed, that told to stay on the CPU it does not come back with an accelerated engine.

`accelerator_exclusive` is the point of it all: whatever the interleaving, a live accelerated
engine belongs to the process that holds the lock.

How it is shown: `serve_follows` says what a process keeps to, step by step, in terms of a
`Holding`, which is whether it has the lock, which engine it has, and whether it was refused.
`Matches` ties the holding to the machine, and `AcceleratorInv` is the invariant of all processes.
A process that was refused the lease is not over; it loads an engine on the CPU, and the same
theorem then says that this engine is not accelerated.

The crash of a process is a step of the machine like any other.  The operating system gives up the
lock and frees the engine in one step then, as the kernel does when it takes down a process.
-/

set_option autoImplicit false

namespace SemanticSidecar

open Prog (perform Follows)

section

variable {E : Type} (isAccelerated : E → Bool)

/-! ## The life of a process -/

/-- What tells one broker process from another. -/
structure BrokerConfig where
  /-- The model that is served. -/
  modelId : String
  /-- The directory of the model cache. -/
  cacheDir : String

/-- A broker engine goes out of scope: its fields are dropped in their order. -/
def BrokerEngineState.drop (state : BrokerEngineState E) : Prog (brokerSig E) Unit := do
  dropEngine state.inner
  dropLease state.acceleratorLease

/-- `load`: what comes before `load_with` can fail, and then the lease is dropped. -/
def load (config : BrokerConfig) (acceleratorLease : Option AcceleratorLease) :
    Prog (brokerSig E) (Except String (BrokerEngineState E)) := do
  match ← perform (S := brokerSig E) .startUp with
  | .error err =>
    dropLease acceleratorLease
    return .error err
  | .ok () =>
    match ← loadWith isAccelerated acceleratorLease with
    | .error err =>
      return .error ("cannot load model '" ++ config.modelId ++ "' from " ++ config.cacheDir ++
        ": " ++ err.toString)
    | .ok state => return .ok state

/-- What a failed `expect` says. -/
def panicked : Except String Unit :=
  .error "broker engine invariant: live engine or terminal failure"

/-- One request of the scheduler loop, as far as the engine is concerned. -/
def serveRequest (state : BrokerEngineState E) :
    Prog (brokerSig E) (BrokerEngineState E ⊕ Except String Unit) := do
  match ← perform (S := brokerSig E) .nextCall with
  | .embed texts role =>
    match ← state.embed isAccelerated texts role with
    | (some _, state) => return .inl state
    | (none, state) =>
      state.drop
      return .inr panicked
  | .health =>
    match ← state.healthFacts with
    | some _ => return .inl state
    | none =>
      state.drop
      return .inr panicked

/-- The rest of `serve_with_loader` once the engine is loaded: the endpoint is bound, the watchdog
started, and requests are served for good. -/
def serveLoaded (state : BrokerEngineState E) : Prog (brokerSig E) (Except String Unit) := do
  match ← perform (S := brokerSig E) .startUp with
  | .error err =>
    state.drop
    return .error err
  | .ok () =>
    match ← perform (S := brokerSig E) .startUp with
    | .error err =>
      state.drop
      return .error err
    | .ok () => Prog.iterate (serveRequest isAccelerated) state

/-- `serve_with_loader`. -/
def serve (config : BrokerConfig) : Prog (brokerSig E) (Except String Unit) := do
  match ← perform (S := brokerSig E) .tryAcquireService with
  | .error err => return .error err
  | .ok false => return .ok ()
  | .ok true =>
    match ← perform (S := brokerSig E) .startUp with
    | .error err => return .error err
    | .ok () =>
      match ← perform (S := brokerSig E) .tryAcquire with
      | .error err => return .error err
      | .ok acceleratorLease =>
        match ← load isAccelerated config acceleratorLease with
        | .error err => return .error err
        | .ok state => serveLoaded isAccelerated state

/-! ## What a process keeps to

A process stands somewhere between holding nothing and holding the lock and an accelerated engine.
It calls the loader with `Auto` only while it holds the lock, and gives the lock up only when it
has no accelerated engine. -/

/-- What a process holds, and what became of its attempt at the lock. -/
structure Holding (E : Type) where
  /-- The process holds the accelerator lease. -/
  lease : Bool
  /-- The engine the process has loaded. -/
  engine : Option E
  /-- The attempt at the lock was refused. -/
  refused : Bool
  /-- The loader has been called with `Auto`. -/
  auto : Bool

/-- How a process may use the lock, the loader and its engine. -/
def holdingProtocol : Prog.Protocol (brokerSig E) (Holding E) where
  pre g o :=
    match o with
    | .tryAcquire => g.lease = false ∧ g.auto = false
    | .callLoader .auto => g.lease = true ∧ g.engine = none ∧ g.refused = false
    | .callLoader .cpuOnly => g.engine = none
    | .dropEngine engine => g.engine = some engine
    | .dropLease => g.engine.any isAccelerated = false
    | _ => True
  allowed _ o r :=
    match o, r with
    | .callLoader .cpuOnly, .ok engine => isAccelerated engine = false
    | _, _ => True
  next g o r :=
    match o, r with
    | .tryAcquire, .ok (some _) => { g with lease := true }
    | .tryAcquire, .ok none => { g with refused := true }
    | .callLoader policy, .ok engine =>
      { g with engine := some engine, auto := g.auto || policy == .auto }
    | .callLoader policy, .error _ => { g with auto := g.auto || policy == .auto }
    | .dropEngine _, _ => { g with engine := none }
    | .dropLease, _ => { g with lease := false }
    | _, _ => g

/-- The process stands where its broker engine says. -/
structure Matches (state : BrokerEngineState E) (g : Holding E) : Prop where
  /-- The state of the engine keeps its invariant. -/
  inv : state.Inv isAccelerated
  /-- The engine that is held is the one of the state. -/
  engine : g.engine = state.inner
  /-- The lease is held as the state says. -/
  lease : g.lease = state.acceleratorLease.isSome

variable {isAccelerated}

theorem loadWith_follows {lease : Option AcceleratorLease} {g : Holding E}
    (hlease : g.lease = lease.isSome) (hengine : g.engine = none)
    (hrefused : g.refused = true → lease = none) :
    Follows (holdingProtocol isAccelerated) (loadWith isAccelerated lease) g fun result g =>
      ∀ state, result = .ok state → Matches isAccelerated state g := by
  cases lease with
  | none =>
    refine ⟨hengine, fun answer hallowed => ?_⟩
    cases answer with
    | error err => exact fun state h => by cases h
    | ok inner =>
      have hacc : isAccelerated inner = false := hallowed
      simp only [Prog.ret_bind, Option.isSome_none, Bool.false_eq_true, if_false, beq_self_eq_true,
        hacc, Bool.and_false, Bool.not_false, if_true, dropLease, Prog.pure_eq, Prog.bind_eq,
        Follows.ret, Except.ok.injEq]
      rintro state rfl
      exact ⟨⟨rfl, by simp [hacc], rfl⟩, rfl, hlease⟩
  | some lease =>
    have hnot : g.refused = false := by
      cases hr : g.refused with
      | false => rfl
      | true => cases hrefused hr
    refine ⟨⟨hlease, hengine, hnot⟩, fun answer hallowed => ?_⟩
    cases answer with
    | error err =>
      refine ⟨?_, fun _ _ state h => by cases h⟩
      show g.engine.any isAccelerated = false
      rw [hengine]
      rfl
    | ok inner =>
      cases hacc : isAccelerated inner with
      | true =>
        simp only [Prog.ret_bind, Option.isSome_some, if_true, hacc, Bool.and_true, beq_iff_eq,
          reduceCtorEq, if_false, Bool.not_true, Bool.false_eq_true, Prog.pure_eq, Follows.ret,
          Except.ok.injEq]
        rintro state rfl
        exact ⟨⟨rfl, by simp [hacc], rfl⟩, rfl, hlease⟩
      | false =>
        simp only [Prog.ret_bind, Option.isSome_some, if_true, hacc, Bool.and_false,
          Bool.false_eq_true, if_false, Bool.not_false, dropLease, Prog.perform, Prog.pure_eq,
          Prog.bind_eq, Prog.call_bind, Follows.call, Follows.ret, Except.ok.injEq]
        refine ⟨by simp [holdingProtocol, hacc], fun _ _ state hstate => ?_⟩
        subst hstate
        exact ⟨⟨rfl, by simp [hacc], rfl⟩, rfl, rfl⟩

/-- A broker engine that goes out of scope gives the lock up after its engine. -/
theorem drop_follows {state : BrokerEngineState E} {g : Holding E}
    (h : Matches isAccelerated state g) {Q : Unit → Holding E → Prop}
    (hQ : ∀ g, Q () g) : Follows (holdingProtocol isAccelerated) state.drop g Q := by
  have hengine := h.engine
  rcases h.inv.cases with ⟨err, -, hinner, hlease⟩ | ⟨inner, hinner, -, hlease⟩
  · simp only [BrokerEngineState.drop, hinner, hlease, dropEngine, dropLease, Prog.pure_eq,
      Prog.bind_eq, Prog.ret_bind, Follows.ret]
    exact hQ g
  · rw [hinner] at hengine
    cases hacc : isAccelerated inner with
    | false =>
      simp only [BrokerEngineState.drop, hinner, hlease, hacc, Bool.false_eq_true, if_false,
        dropEngine, dropLease, Prog.perform, Prog.pure_eq, Prog.bind_eq, Prog.call_bind,
        Prog.ret_bind, Follows.call, Follows.ret]
      exact ⟨hengine, fun _ _ => hQ _⟩
    | true =>
      simp only [BrokerEngineState.drop, hinner, hlease, hacc, if_true, dropEngine, dropLease,
        Prog.perform, Prog.bind_eq, Prog.call_bind, Prog.ret_bind, Follows.call, Follows.ret]
      exact ⟨hengine, fun _ _ => ⟨rfl, fun _ _ => hQ _⟩⟩

theorem recover_follows {state : BrokerEngineState E} {g : Holding E}
    (h : Matches isAccelerated state g) {inner : E} (hinner : state.inner = some inner)
    (hacc : isAccelerated inner = true) (texts : List String) (role : Role) :
    Follows (holdingProtocol isAccelerated) (state.recover isAccelerated texts role) g
      fun result g => Matches isAccelerated result.2 g := by
  obtain ⟨loader, hloader⟩ := Option.isSome_iff_exists.mp h.inv.loader
  have hpresent : state.emptied.loader = some loader := hloader
  have hlease : state.acceleratorLease = some .held := by
    have hheld := h.inv.lease
    rw [hinner, Option.any_some, hacc, Option.isSome_iff_exists] at hheld
    obtain ⟨⟨⟩, hheld⟩ := hheld
    exact hheld
  have hterminal : state.terminalFailure = none := by
    have hone := h.inv.one
    rw [hinner] at hone
    simpa using hone
  simp only [BrokerEngineState.recover, hinner, hlease, hpresent, dropEngine, dropLease,
    Prog.perform, Prog.bind_eq, Prog.call_bind, Prog.ret_bind, Follows.call]
  refine ⟨h.engine.trans hinner, fun _ _ => ⟨rfl, fun _ _ => ⟨rfl, fun answer hallowed => ?_⟩⟩⟩
  cases answer with
  | error err => exact ⟨⟨rfl, rfl, h.inv.loader⟩, rfl, rfl⟩
  | ok engine =>
    have hcpu : isAccelerated engine = false := hallowed
    simp only [hcpu, Bool.false_eq_true, if_false, Follows.call, Prog.pure_eq, Follows.ret]
    refine ⟨trivial, fun result _ => ⟨⟨?_, ?_, h.inv.loader⟩, rfl, rfl⟩⟩
    · simp [BrokerEngineState.installed, BrokerEngineState.emptied, hterminal]
    · simp [BrokerEngineState.installed, BrokerEngineState.emptied, hcpu]

theorem embed_follows {state : BrokerEngineState E} {g : Holding E}
    (h : Matches isAccelerated state g) (texts : List String) (role : Role) :
    Follows (holdingProtocol isAccelerated) (state.embed isAccelerated texts role) g
      fun result g => Matches isAccelerated result.2 g := by
  rcases h.inv.cases with ⟨err, hterminal, -, -⟩ | ⟨inner, hinner, hterminal, -⟩
  · simp only [BrokerEngineState.embed, hterminal, Prog.pure_eq, Follows.ret]
    exact h
  · simp only [BrokerEngineState.embed, hterminal, hinner, Prog.bind_eq, Prog.perform,
      Prog.call_bind, Prog.ret_bind, Follows.call]
    refine ⟨trivial, fun first _ => ?_⟩
    split
    · rename_i hrecover
      simp only [Bool.and_eq_true] at hrecover
      exact recover_follows h hinner hrecover.1.1.2 texts role
    · exact h

theorem healthFacts_follows {state : BrokerEngineState E} {g : Holding E}
    (h : Matches isAccelerated state g) :
    Follows (holdingProtocol isAccelerated) state.healthFacts g
      fun _ g => Matches isAccelerated state g := by
  rcases h.inv.cases with ⟨err, hterminal, -, -⟩ | ⟨inner, hinner, hterminal, -⟩
  · simp only [BrokerEngineState.healthFacts, hterminal, Prog.pure_eq, Follows.ret]
    exact h
  · simp only [BrokerEngineState.healthFacts, hterminal, hinner, Prog.bind_eq, Prog.perform,
      Prog.call_bind, Prog.ret_bind, Follows.call]
    refine ⟨trivial, fun answer _ => ?_⟩
    cases answer with
    | error err => exact h
    | ok health => exact h

theorem serveRequest_follows {state : BrokerEngineState E} {g : Holding E}
    (h : Matches isAccelerated state g) :
    Follows (holdingProtocol isAccelerated) (serveRequest isAccelerated state) g fun turn g =>
      ∀ state, turn = .inl state → Matches isAccelerated state g := by
  simp only [serveRequest, Prog.bind_eq, Prog.perform, Prog.call_bind, Prog.ret_bind,
    Follows.call]
  refine ⟨trivial, fun request _ => ?_⟩
  cases request with
  | embed texts role =>
    refine Follows.bind ((embed_follows h texts role).mono ?_)
    rintro ⟨_ | result, state'⟩ g' h'
    · exact Follows.bind (drop_follows h' fun _ _ hstate => by cases hstate)
    · rintro _ ⟨⟩
      exact h'
  | health =>
    refine Follows.bind ((healthFacts_follows h).mono ?_)
    rintro (_ | result) g' h'
    · exact Follows.bind (drop_follows h' fun _ _ hstate => by cases hstate)
    · rintro _ ⟨⟩
      exact h'

theorem serveLoaded_follows {state : BrokerEngineState E} {g : Holding E}
    (h : Matches isAccelerated state g) :
    Follows (holdingProtocol isAccelerated) (serveLoaded isAccelerated state) g
      fun _ _ => True := by
  have hdrop : ∀ err : String, Follows (holdingProtocol isAccelerated)
      (state.drop.bind fun _ => .ret (Except.error err)) g
      fun (_ : Except String Unit) _ => True :=
    fun err => Follows.bind (drop_follows h fun _ => trivial)
  simp only [serveLoaded, Prog.bind_eq, Prog.perform, Prog.call_bind, Prog.ret_bind,
    Follows.call]
  refine ⟨trivial, fun bound _ => ?_⟩
  cases bound with
  | error err => exact hdrop err
  | ok _ =>
    refine ⟨trivial, fun started _ => ?_⟩
    cases started with
    | error err => exact hdrop err
    | ok _ =>
      refine Follows.iterate (Matches isAccelerated) h fun state g h => ?_
      refine (serveRequest_follows h).mono ?_
      rintro (next | result) g' hnext
      · exact hnext next rfl
      · trivial

theorem load_follows (config : BrokerConfig) {lease : Option AcceleratorLease} {g : Holding E}
    (hlease : g.lease = lease.isSome) (hengine : g.engine = none)
    (hrefused : g.refused = true → lease = none) :
    Follows (holdingProtocol isAccelerated) (load isAccelerated config lease) g fun result g =>
      ∀ state, result = .ok state → Matches isAccelerated state g := by
  simp only [load, Prog.bind_eq, Prog.perform, Prog.call_bind, Prog.ret_bind, Follows.call]
  refine ⟨trivial, fun answer _ => ?_⟩
  cases answer with
  | error err =>
    cases lease with
    | none => exact fun state h => by cases h
    | some lease =>
      refine ⟨?_, fun _ _ state h => by cases h⟩
      show g.engine.any isAccelerated = false
      rw [hengine]
      rfl
  | ok _ =>
    refine Follows.bind ((loadWith_follows hlease hengine hrefused).mono ?_)
    rintro (err | state) g' h
    · exact fun _ hstate => by cases hstate
    · rintro _ ⟨⟩
      exact h state rfl

/-- **The life of a process** keeps to the protocol, from holding nothing. -/
theorem serve_follows (config : BrokerConfig) :
    Follows (holdingProtocol isAccelerated) (serve isAccelerated config)
      ⟨false, none, false, false⟩ fun _ _ => True := by
  simp only [serve, Prog.bind_eq, Prog.perform, Prog.call_bind, Prog.ret_bind, Follows.call]
  refine ⟨trivial, fun service _ => ?_⟩
  rcases service with err | _ | _
  · trivial
  · trivial
  · refine ⟨trivial, fun watchdog _ => ?_⟩
    rcases watchdog with err | _
    · trivial
    · refine ⟨⟨rfl, rfl⟩, fun acquired _ => ?_⟩
      rcases acquired with err | lease
      · trivial
      · refine Follows.bind (Follows.mono (load_follows config ?_ ?_ ?_) ?_)
        · cases lease <;> rfl
        · cases lease <;> rfl
        · cases lease with
          | none => exact fun _ => rfl
          | some lease => exact fun h => by cases h
        · rintro (err | state) g' h
          · trivial
          · exact serveLoaded_follows (h state rfl)

/-! ## The machine -/

/-- The lock on the accelerator lock file, and the engines alive in each process. -/
structure AcceleratorState (E : Type) where
  /-- The process that holds the accelerator lock. -/
  holder : Option ℕ
  /-- The engines each process has alive. -/
  engines : ℕ → List E

/-- A process without its engines and without the lock. -/
def AcceleratorState.release (s : AcceleratorState E) (pid : ℕ) : AcceleratorState E :=
  ⟨if s.holder = some pid then none else s.holder, Function.update s.engines pid []⟩

theorem release_frame (s : AcceleratorState E) {pid other : ℕ} (hother : other ≠ pid) :
    (s.release pid).engines other = s.engines other ∧
      ((s.release pid).holder = some other ↔ s.holder = some other) := by
  refine ⟨Function.update_of_ne hother _ _, ?_⟩
  by_cases hheld : s.holder = some pid
  · simp [AcceleratorState.release, hheld, Ne.symm hother]
  · simp [AcceleratorState.release, hheld]

theorem release_self (s : AcceleratorState E) (pid : ℕ) :
    (s.release pid).engines pid = [] ∧ (s.release pid).holder ≠ some pid := by
  refine ⟨Function.update_self _ _ _, ?_⟩
  by_cases hheld : s.holder = some pid
  · simp [AcceleratorState.release, hheld]
  · simp [AcceleratorState.release, hheld]

variable (isAccelerated) [DecidableEq E]

/-- What a call does to the lock and the engines. -/
def acceleratorExec (pid : ℕ) (s : AcceleratorState E) :
    (o : BrokerOp E) → o.Ret → Option (AcceleratorState E)
  | .tryAcquire, .ok (some _) =>
    if s.holder = none then some { s with holder := some pid } else none
  | .tryAcquire, .ok none => if s.holder = none then none else some s
  | .callLoader policy, .ok engine =>
    if policy = .cpuOnly ∧ isAccelerated engine then none
    else some { s with engines := Function.update s.engines pid (engine :: s.engines pid) }
  | .dropEngine engine, _ =>
    some { s with engines := Function.update s.engines pid ((s.engines pid).erase engine) }
  | .dropLease, _ => some { s with holder := if s.holder = some pid then none else s.holder }
  | _, _ => some s

/-- Broker processes on one accelerator lock. -/
def accelerator : Machine (brokerSig E) BrokerConfig (Except String Unit) where
  State := AcceleratorState E
  init := ⟨none, fun _ => []⟩
  main := serve isAccelerated
  start _ _ s := some s
  exec := acceleratorExec isAccelerated
  leave pid s := s.release pid
  kill pid s := some (s.release pid)

/-! ## The outline -/

variable {isAccelerated}

/-- The lock has been refused to the process. -/
def RefusedIn (log : List (accelerator isAccelerated).Event) (pid : ℕ) : Prop :=
  ∃ s, .called pid s .tryAcquire (.ok none) ∈ log

/-- The process has called the loader with `Auto`. -/
def AutoLoadedIn (log : List (accelerator isAccelerated).Event) (pid : ℕ) : Prop :=
  ∃ s r, .called pid s (.callLoader .auto) r ∈ log

/-- The lock, the engines and the history agree with where a process stands. -/
def StandsWith (log : List (accelerator isAccelerated).Event) (s : AcceleratorState E) (pid : ℕ) :
    Machine.Stage (Holding E) → Prop
  | .live g =>
    (s.engines pid = g.engine.toList ∧ (s.holder = some pid ↔ g.lease = true) ∧
      (g.engine.any isAccelerated = true → g.lease = true)) ∧
    (RefusedIn log pid → g.refused = true) ∧
    (AutoLoadedIn log pid → g.auto = true)
  | .unborn =>
    (s.engines pid = [] ∧ s.holder ≠ some pid) ∧
    ¬ RefusedIn log pid ∧ ¬ AutoLoadedIn log pid
  | .gone _ => s.engines pid = [] ∧ s.holder ≠ some pid

/-- What holds of all processes together. -/
structure AcceleratorInv (log : List (accelerator isAccelerated).Event)
    (gs : ℕ → Machine.Stage (Holding E)) (s : AcceleratorState E) : Prop where
  /-- Every process stands as its program says. -/
  stands : ∀ pid, StandsWith log s pid (gs pid)
  /-- A process that was refused the lease has not loaded under `LoadPolicy.auto`. -/
  refused : ∀ pid, RefusedIn log pid → ¬ AutoLoadedIn log pid

/-- The holdings of the processes as an outline of the machine. -/
def acceleratorOutline : (accelerator isAccelerated).Outline (Holding E) where
  protocol := holdingProtocol isAccelerated
  enter _ _ := ⟨false, none, false, false⟩
  done _ _ := True
  inv := AcceleratorInv

/-- A step of one process does not touch what another one holds. -/
theorem StandsWith.frame {log log' : List (accelerator isAccelerated).Event}
    {s s' : AcceleratorState E} {pid : ℕ} {stage : Machine.Stage (Holding E)}
    (h : StandsWith log s pid stage) (hengines : s'.engines pid = s.engines pid)
    (hholder : s'.holder = some pid ↔ s.holder = some pid)
    (hrefusal : RefusedIn log' pid ↔ RefusedIn log pid)
    (hauto : AutoLoadedIn log' pid ↔ AutoLoadedIn log pid) :
    StandsWith log' s' pid stage := by
  cases stage with
  | unborn =>
    simp only [StandsWith, hengines, ne_eq, hholder, hrefusal, hauto] at h ⊢
    exact h
  | live g =>
    simp only [StandsWith, hengines, hholder, hrefusal, hauto] at h ⊢
    exact h
  | gone _ =>
    simp only [StandsWith, hengines, ne_eq, hholder] at h ⊢
    exact h

theorem acceleratorExec_frame {pid : ℕ} {s s' : AcceleratorState E} {o : BrokerOp E} {r : o.Ret}
    (h : acceleratorExec isAccelerated pid s o r = some s') {other : ℕ} (hother : other ≠ pid) :
    s'.engines other = s.engines other ∧ (s'.holder = some other ↔ s.holder = some other) := by
  have hne : pid ≠ other := Ne.symm hother
  cases o with
  | tryAcquire =>
    rcases r with err | _ | lease
    · cases h; exact ⟨rfl, Iff.rfl⟩
    · simp only [acceleratorExec] at h
      split at h
      · cases h
      · cases h; exact ⟨rfl, Iff.rfl⟩
    · simp only [acceleratorExec] at h
      split at h
      · rename_i hnone
        cases h
        simp [hnone, hne]
      · cases h
  | callLoader policy =>
    cases r with
    | error err => cases h; exact ⟨rfl, Iff.rfl⟩
    | ok engine =>
      simp only [acceleratorExec] at h
      split at h
      · cases h
      · cases h
        exact ⟨Function.update_of_ne hother _ _, Iff.rfl⟩
  | dropEngine engine => cases h; exact ⟨Function.update_of_ne hother _ _, Iff.rfl⟩
  | dropLease =>
    cases h
    refine ⟨rfl, ?_⟩
    by_cases hheld : s.holder = some pid
    · simp [hheld, hne]
    · simp [hheld]
  | tryAcquireService | startUp | nextCall => cases h; exact ⟨rfl, Iff.rfl⟩
  | innerEmbed engine texts role => cases h; exact ⟨rfl, Iff.rfl⟩
  | innerHealth engine => cases h; exact ⟨rfl, Iff.rfl⟩

/-- What a permitted call does to the process that makes it. -/
theorem acceleratorExec_self {pid : ℕ} {s s' : AcceleratorState E} {g : Holding E}
    {o : BrokerOp E} {r : o.Ret}
    (hstands : s.engines pid = g.engine.toList ∧ (s.holder = some pid ↔ g.lease = true) ∧
      (g.engine.any isAccelerated = true → g.lease = true))
    (hpre : (holdingProtocol isAccelerated).pre g o)
    (h : acceleratorExec isAccelerated pid s o r = some s') :
    (holdingProtocol isAccelerated).allowed g o r ∧
      s'.engines pid = ((holdingProtocol isAccelerated).next g o r).engine.toList ∧
      (s'.holder = some pid ↔ ((holdingProtocol isAccelerated).next g o r).lease = true) ∧
      (((holdingProtocol isAccelerated).next g o r).engine.any isAccelerated = true →
        ((holdingProtocol isAccelerated).next g o r).lease = true) := by
  obtain ⟨hengines, hholder, hlease⟩ := hstands
  cases o with
  | tryAcquire =>
    rcases r with err | _ | lease
    · cases h
      exact ⟨trivial, hengines, hholder, hlease⟩
    · simp only [acceleratorExec] at h
      split at h
      · cases h
      · cases h
        exact ⟨trivial, hengines, hholder, hlease⟩
    · simp only [acceleratorExec] at h
      split at h
      · cases h
        exact ⟨trivial, hengines, by simp [holdingProtocol], fun _ => rfl⟩
      · cases h
  | callLoader policy =>
    cases r with
    | error err =>
      cases h
      refine ⟨by cases policy <;> trivial, ?_⟩
      cases policy <;> exact ⟨hengines, hholder, hlease⟩
    | ok engine =>
      simp only [acceleratorExec] at h
      split at h
      · cases h
      · rename_i hcond
        cases h
        cases policy with
        | auto =>
          obtain ⟨hheld, hnone, -⟩ := hpre
          refine ⟨trivial, ?_, hholder, fun _ => hheld⟩
          rw [hnone] at hengines
          simp [holdingProtocol, hengines]
        | cpuOnly =>
          have hnone : g.engine = none := hpre
          have hcpu : isAccelerated engine = false := by simpa using hcond
          rw [hnone] at hengines
          refine ⟨hcpu, by simp [holdingProtocol, hengines], hholder, fun hacc => ?_⟩
          simp [holdingProtocol, hcpu] at hacc
  | dropEngine engine =>
    have hengine : g.engine = some engine := hpre
    cases h
    refine ⟨trivial, ?_, hholder, fun hacc => by simp [holdingProtocol] at hacc⟩
    rw [hengine] at hengines
    simp [holdingProtocol, hengines]
  | dropLease =>
    have hcpu : g.engine.any isAccelerated = false := hpre
    cases h
    refine ⟨trivial, hengines, ?_, fun hacc => ?_⟩
    · by_cases hheld : s.holder = some pid
      · simp [holdingProtocol, hheld]
      · simp [holdingProtocol, hheld]
    · exact absurd (show g.engine.any isAccelerated = true from hacc) (by simp [hcpu])
  | tryAcquireService | startUp | nextCall => cases h; exact ⟨trivial, hengines, hholder, hlease⟩
  | innerEmbed engine texts role => cases h; exact ⟨trivial, hengines, hholder, hlease⟩
  | innerHealth engine => cases h; exact ⟨trivial, hengines, hholder, hlease⟩

/-- Only a call of the process itself adds to its history. -/
theorem history_frame (log : List (accelerator isAccelerated).Event)
    {e : (accelerator isAccelerated).Event} {pid : ℕ}
    (h : ∀ s o r, e ≠ .called pid s o r) :
    (RefusedIn (e :: log) pid ↔ RefusedIn log pid) ∧
      (AutoLoadedIn (e :: log) pid ↔ AutoLoadedIn log pid) := by
  refine ⟨⟨?_, ?_⟩, ?_, ?_⟩
  · rintro ⟨s, hmem⟩
    exact ⟨s, (List.mem_cons.mp hmem).resolve_left fun heq => h _ _ _ heq.symm⟩
  · rintro ⟨s, hmem⟩
    exact ⟨s, List.mem_cons_of_mem _ hmem⟩
  · rintro ⟨s, r, hmem⟩
    exact ⟨s, r, (List.mem_cons.mp hmem).resolve_left fun heq => h _ _ _ heq.symm⟩
  · rintro ⟨s, r, hmem⟩
    exact ⟨s, r, List.mem_cons_of_mem _ hmem⟩

omit [DecidableEq E] in
/-- What a process has met with it never forgets. -/
theorem next_mono (g : Holding E) (o : BrokerOp E) (r : o.Ret) :
    (g.refused = true → ((holdingProtocol isAccelerated).next g o r).refused = true) ∧
      (g.auto = true → ((holdingProtocol isAccelerated).next g o r).auto = true) := by
  cases o with
  | tryAcquire =>
    rcases r with err | _ | lease
    · exact ⟨id, id⟩
    · exact ⟨fun _ => rfl, id⟩
    · exact ⟨id, id⟩
  | callLoader policy => cases r <;> exact ⟨id, fun h => by simp [holdingProtocol, h]⟩
  | dropEngine engine => exact ⟨id, id⟩
  | dropLease => exact ⟨id, id⟩
  | tryAcquireService | startUp | nextCall => exact ⟨id, id⟩
  | innerEmbed engine texts role => exact ⟨id, id⟩
  | innerHealth engine => exact ⟨id, id⟩

/-- The history of a process that makes a permitted call. -/
theorem history_self {log : List (accelerator isAccelerated).Event} {pid : ℕ}
    {s : AcceleratorState E} {g : Holding E} {o : BrokerOp E} {r : o.Ret}
    (hpre : (holdingProtocol isAccelerated).pre g o)
    (hrefused : RefusedIn log pid → g.refused = true)
    (hauto : AutoLoadedIn log pid → g.auto = true)
    (hnot : RefusedIn log pid → ¬ AutoLoadedIn log pid) :
    (RefusedIn (.called pid s o r :: log) pid →
        ((holdingProtocol isAccelerated).next g o r).refused = true) ∧
      (AutoLoadedIn (.called pid s o r :: log) pid →
        ((holdingProtocol isAccelerated).next g o r).auto = true) ∧
      (RefusedIn (.called pid s o r :: log) pid →
        ¬ AutoLoadedIn (.called pid s o r :: log) pid) := by
  refine ⟨?_, ?_, ?_⟩
  · rintro ⟨s₀, hmem⟩
    rcases List.mem_cons.mp hmem with heq | hold
    · cases heq
      rfl
    · exact (next_mono g o r).1 (hrefused ⟨s₀, hold⟩)
  · rintro ⟨s₀, r₀, hmem⟩
    rcases List.mem_cons.mp hmem with heq | hold
    · cases heq
      cases r₀ <;> simp [holdingProtocol]
    · exact (next_mono g o r).2 (hauto ⟨s₀, r₀, hold⟩)
  · rintro ⟨s₀, hmem⟩ ⟨s₁, r₁, hmem₁⟩
    rcases List.mem_cons.mp hmem with heq | hold
    · cases heq
      have hold : AutoLoadedIn log pid :=
        ⟨s₁, r₁, (List.mem_cons.mp hmem₁).resolve_left fun heq => nomatch heq⟩
      have hfalse : g.auto = false := hpre.2
      rw [hauto hold] at hfalse
      cases hfalse
    · rcases List.mem_cons.mp hmem₁ with heq | hold₁
      · cases heq
        have hfalse : g.refused = false := hpre.2.2
        rw [hrefused ⟨s₀, hold⟩] at hfalse
        cases hfalse
      · exact hnot ⟨s₀, hold⟩ ⟨s₁, r₁, hold₁⟩

/-- What one process does leaves everyone else where they stand. -/
theorem AcceleratorInv.others {log : List (accelerator isAccelerated).Event}
    {gs : ℕ → Machine.Stage (Holding E)} {s s' : AcceleratorState E} (h : AcceleratorInv log gs s)
    {pid : ℕ} {stage : Machine.Stage (Holding E)} {e : (accelerator isAccelerated).Event}
    (he : ∀ other ≠ pid, ∀ s o r, e ≠ .called other s o r)
    (hframe : ∀ other ≠ pid, s'.engines other = s.engines other ∧
      (s'.holder = some other ↔ s.holder = some other))
    (hself : StandsWith (e :: log) s' pid stage)
    (hhistory : RefusedIn (e :: log) pid → ¬ AutoLoadedIn (e :: log) pid) :
    AcceleratorInv (e :: log) (Function.update gs pid stage) s' := by
  refine ⟨fun other => ?_, fun other => ?_⟩
  · by_cases hother : other = pid
    · subst hother
      rw [Function.update_self]
      exact hself
    · rw [Function.update_of_ne hother]
      obtain ⟨hrefused, hauto⟩ := history_frame log (he other hother)
      exact (h.stands other).frame (hframe other hother).1 (hframe other hother).2 hrefused hauto
  · by_cases hother : other = pid
    · subst hother
      exact hhistory
    · obtain ⟨hrefused, hauto⟩ := history_frame log (he other hother)
      rw [hrefused, hauto]
      exact h.refused other

/-- A process that goes away holds nothing any more. -/
theorem AcceleratorInv.gone {log : List (accelerator isAccelerated).Event}
    {gs : ℕ → Machine.Stage (Holding E)} {s : AcceleratorState E} (h : AcceleratorInv log gs s)
    (pid : ℕ) (g : Holding E) {e : (accelerator isAccelerated).Event}
    (he : ∀ other s o r, e ≠ .called other s o r) :
    AcceleratorInv (e :: log) (Function.update gs pid (.gone g)) (s.release pid) := by
  refine h.others (fun other _ => he other) (fun other hother => release_frame s hother)
    (release_self s pid) ?_
  obtain ⟨hrefused, hauto⟩ := history_frame log (he pid)
  rw [hrefused, hauto]
  exact h.refused pid

theorem acceleratorOutline_valid :
    (acceleratorOutline : (accelerator isAccelerated).Outline (Holding E)).Valid where
  init := by
    refine ⟨fun pid => ⟨⟨rfl, fun h => nomatch h⟩, ?_, ?_⟩, fun pid => ?_⟩
    · rintro ⟨s, hmem⟩
      cases hmem
    · rintro ⟨s, r, hmem⟩
      cases hmem
    · rintro ⟨s, hmem⟩
      cases hmem
  main pid config s s' _ := serve_follows config
  start := by
    rintro log gs s pid config s' hinv hstage ⟨⟩
    have hself := hinv.stands pid
    rw [hstage] at hself
    obtain ⟨⟨hengines, hholder⟩, hrefused, hauto⟩ := hself
    have hnew : ∀ other s o r, (.started pid config : (accelerator isAccelerated).Event) ≠
        .called other s o r := fun _ _ _ _ h => nomatch h
    obtain ⟨hrefused', hauto'⟩ := history_frame log (hnew pid)
    refine hinv.others (fun other _ => hnew other) (fun _ _ => ⟨rfl, Iff.rfl⟩) ?_ ?_
    · refine ⟨⟨hengines, by simp [hholder, acceleratorOutline], fun h => nomatch h⟩, ?_, ?_⟩
      · exact fun h => absurd (hrefused'.mp h) hrefused
      · exact fun h => absurd (hauto'.mp h) hauto
    · exact fun h => absurd (hrefused'.mp h) hrefused
  allowed := by
    intro log gs s pid g o r s' hinv hstage hpre hexec
    have hself := hinv.stands pid
    rw [hstage] at hself
    exact (acceleratorExec_self hself.1 hpre hexec).1
  call := by
    intro log gs s pid g o r s' hinv hstage hpre hexec
    have hself := hinv.stands pid
    rw [hstage] at hself
    obtain ⟨hstands, hrefused, hauto⟩ := hself
    obtain ⟨hrefused', hauto', hnot⟩ :=
      history_self hpre hrefused hauto (hinv.refused pid) (s := s) (r := r)
    refine hinv.others ?_ (fun other hother => acceleratorExec_frame hexec hother)
      ⟨(acceleratorExec_self hstands hpre hexec).2, hrefused', hauto'⟩ hnot
    rintro other hother _ _ _ ⟨⟩
    exact hother rfl
  finish := by
    intro log gs s pid g a hinv _ _
    exact hinv.gone pid g fun _ _ _ _ h => nomatch h
  kill := by
    rintro log gs s pid g s' hinv _ ⟨⟩
    exact hinv.gone pid g fun _ _ _ _ h => nomatch h

/-! ## Exclusion -/

/-- **Whatever the interleaving, a live accelerated engine belongs to the process that holds the
lock**, so two processes never have one at the same time; and a process that was refused the lock
never calls its loader with `Auto`. -/
theorem accelerator_exclusive {c : (accelerator isAccelerated).Config}
    (h : (accelerator isAccelerated).Reachable c) :
    (∀ pid engine, engine ∈ c.shared.engines pid → isAccelerated engine = true →
      c.shared.holder = some pid) ∧
    (∀ pid pid' engine engine', engine ∈ c.shared.engines pid → isAccelerated engine = true →
      engine' ∈ c.shared.engines pid' → isAccelerated engine' = true → pid = pid') ∧
    ∀ pid, RefusedIn c.log pid → ¬ AutoLoadedIn c.log pid := by
  obtain ⟨gs, hinv, -⟩ := Machine.Outline.reachable acceleratorOutline_valid h
  have hholds : ∀ pid engine, engine ∈ c.shared.engines pid → isAccelerated engine = true →
      c.shared.holder = some pid := by
    intro pid engine hmem hacc
    have hstands := hinv.stands pid
    cases hstage : gs pid with
    | unborn =>
      rw [hstage] at hstands
      rw [hstands.1.1] at hmem
      cases hmem
    | live g =>
      rw [hstage] at hstands
      obtain ⟨⟨hengines, hholder, hlease⟩, -⟩ := hstands
      rw [hengines, Option.mem_toList] at hmem
      exact hholder.mpr (hlease (by simp [Option.mem_def.mp hmem, hacc]))
    | gone _ =>
      rw [hstage] at hstands
      rw [hstands.1] at hmem
      cases hmem
  refine ⟨hholds, fun pid pid' engine engine' hmem hacc hmem' hacc' => ?_, hinv.refused⟩
  have hsame := (hholds pid engine hmem hacc).symm.trans (hholds pid' engine' hmem' hacc')
  exact Option.some.inj hsame

end

/-- A run of two processes up to their engines.  The engines are `true` and `false`, the accelerated
one being `true`.  The second process is refused the lock while the first one is loading, and
loads on the CPU. -/
theorem twoProcesses_loaded :
    ∃ c : (accelerator (id : Bool → Bool)).Config, (accelerator id).Reachable c ∧
      true ∈ c.shared.engines 0 ∧ false ∈ c.shared.engines 1 ∧ RefusedIn c.log 1 := by
  have started := Machine.Reachable.step Machine.Reachable.start
    (Machine.Step.start (M := accelerator (id : Bool → Bool)) 0 ⟨"model", "cache"⟩ rfl rfl)
  have service := started.step (.call 0 (Except.ok true) rfl rfl)
  have watchdog := service.step (.call 0 (Except.ok ()) rfl rfl)
  have acquired := watchdog.step (.call 0 (Except.ok (some .held)) rfl rfl)
  have started' := acquired.step (.start 1 ⟨"other", "cache"⟩ rfl rfl)
  have service' := started'.step (.call 1 (Except.ok true) rfl rfl)
  have resolved := service'.step (.call 0 (Except.ok ()) rfl rfl)
  have watchdog' := resolved.step (.call 1 (Except.ok ()) rfl rfl)
  have refused' := watchdog'.step (.call 1 (Except.ok none) rfl rfl)
  have resolved' := refused'.step (.call 1 (Except.ok ()) rfl rfl)
  have loaded := resolved'.step (.call 0 (Except.ok true) rfl rfl)
  have loaded' := loaded.step (.call 1 (Except.ok false) rfl rfl)
  exact ⟨_, loaded', List.mem_cons_self, List.mem_cons_self, _, List.mem_cons_of_mem _
    (List.mem_cons_of_mem _ (List.mem_cons_of_mem _ List.mem_cons_self))⟩

/-- The first of the two processes holds the lock, and the second has not asked for an accelerated
engine. -/
theorem accelerator_exclusive_loaded :
    ∃ c : (accelerator (id : Bool → Bool)).Config, (accelerator id).Reachable c ∧
      true ∈ c.shared.engines 0 ∧ false ∈ c.shared.engines 1 ∧ c.shared.holder = some 0 ∧
      ¬ AutoLoadedIn c.log 1 := by
  obtain ⟨c, hreach, hfirst, hsecond, hrefused⟩ := twoProcesses_loaded
  obtain ⟨hholds, -, hnever⟩ := accelerator_exclusive hreach
  exact ⟨c, hreach, hfirst, hsecond, hholds 0 true hfirst rfl, hnever 1 hrefused⟩

end SemanticSidecar
