import SemanticSidecar.Broker.Scheduling
import SemanticSidecar.Lib.Monitor

/-!
# The broker queue under its mutex

`Broker/Queue` takes every call on the queue for one step.  Here the calls are the programs that
they are in the source: they take the mutex, `dequeue` waits at the condition variable where it
finds nothing, and `try_enqueue` notifies one thread.

`queue_linearized` says that nothing is lost by the simpler view: whatever any number of threads
do, their calls can be put in an order that respects real time and is a `QueueRun`, so that all that
holds of runs holds of the threads.  `queue_wakes` is what cannot be seen in a run: a thread does
not sleep on while there is something for it.

The mutex is never poisoned, as nothing panics while it is held.

The library part of this is `Lib/Monitor`, which knows of programs that take a mutex, wait and
notify, and of objects they are to implement.  What is left to be shown here is that between two
waits each call does what the function in `Broker/Queue` does (`dequeueTurn`, `tryEnqueue`), and
that whoever puts something into the queue notifies.  A `notify_one` wakes one thread of those that
sleep, whichever it is, and a thread may also wake for no reason.

A thread that has been woken may find the queue empty again, because another one came first.  It
then waits again, which is why `queue_wakes` speaks of threads that sleep and not of threads that
wait.
-/

set_option autoImplicit false

namespace SemanticSidecar

open Prog (perform Follows)

deriving instance DecidableEq for QueueState

variable {T : Type}

/-! ## The calls -/

namespace QueueMonitor

/-- The calls of a thread on the shared queue. -/
abbrev queueSig (T : Type) : Sig := Monitor.sig (QueueState T)

/-- `BrokerQueue::try_enqueue`. -/
def tryEnqueue (capacity : ℕ) (cls : RequestClass) (value : T) (deadline : ℕ) :
    Prog (queueSig T) (Except QueueError Unit) := do
  let state : QueueState T ← perform (S := queueSig T) .lock
  if state.waiting ≥ capacity then do
    perform (S := queueSig T) .unlock
    return .error .full
  else do
    perform (S := queueSig T) (.put (state.pushBack cls ⟨value, deadline⟩))
    let _ ← perform (S := queueSig T) .notifyOne
    perform (S := queueSig T) .unlock
    return .ok ()

/-- One turn of the loop in `dequeue`.  The clock is read before the mutex is given back. -/
def dequeueTurn (state : QueueState T) : Prog (queueSig T) (QueueState T ⊕ Dequeued T) :=
  match takeNext state with
  | (some queued, state) => do
    perform (S := queueSig T) (.put state)
    let now : ℕ ← perform (S := queueSig T) .now
    perform (S := queueSig T) .unlock
    return .inr (BrokerQueue.classify queued now)
  | (none, state) => do
    perform (S := queueSig T) (.put state)
    perform (S := queueSig T) .sleep
    let state : QueueState T ← perform (S := queueSig T) .lock
    return .inl state

/-- `BrokerQueue::dequeue`. -/
def dequeue : Prog (queueSig T) (Dequeued T) := do
  let state : QueueState T ← perform (S := queueSig T) .lock
  Prog.iterate dequeueTurn state

end QueueMonitor

/-- A call on the queue. -/
inductive QueueCall (T : Type) where
  /-- A request is offered. -/
  | tryEnqueue (cls : RequestClass) (value : T) (deadline : ℕ)
  /-- The next request is waited for. -/
  | dequeue

/-- What an operation of the queue returns. -/
inductive QueueAnswer (T : Type) where
  /-- What became of the offer. -/
  | enqueued (result : Except QueueError Unit)
  /-- What was taken. -/
  | dequeued (taken : Dequeued T)

/-- The program of a call. -/
def QueueCall.program (capacity : ℕ) :
    QueueCall T → Prog (QueueMonitor.queueSig T) (QueueAnswer T)
  | .tryEnqueue cls value deadline => do
    let result ← QueueMonitor.tryEnqueue capacity cls value deadline
    return .enqueued result
  | .dequeue => do
    let taken ← QueueMonitor.dequeue
    return .dequeued taken

/-- Any number of threads with a queue between them. -/
abbrev queueMachine [DecidableEq T] (capacity : ℕ) :
    Machine (QueueMonitor.queueSig T) (QueueCall T) (QueueAnswer T) :=
  Monitor.machine (QueueCall.program capacity) (BrokerQueue.new capacity : BrokerQueue T).state

/-! ## What they come to -/

/-- The step of the queue that a time in the mutex is. -/
def queueEvent (capacity : ℕ) : QueueCall T → Monitor.Turn (QueueState T) → QueueEvent T
  | .tryEnqueue cls value deadline, turn =>
    if turn.before.waiting ≥ capacity then .refused cls ⟨value, deadline⟩
    else .accepted cls ⟨value, deadline⟩
  | .dequeue, turn =>
    match (takeNext turn.before).1, turn.clock with
    | some queued, some now =>
      .dequeued (takenClass turn.before turn.data) now (BrokerQueue.classify queued now)
    | _, _ => .waited

/-- A call returns what its last step says; the earlier ones of a `dequeue` found nothing. -/
def QueueAnswered : QueueCall T → List (QueueEvent T) → QueueAnswer T → Prop
  | .tryEnqueue cls value deadline, events, .enqueued (.ok ()) =>
    events = [.accepted cls ⟨value, deadline⟩]
  | .tryEnqueue cls value deadline, events, .enqueued (.error .full) =>
    events = [.refused cls ⟨value, deadline⟩]
  | .dequeue, events, .dequeued taken =>
    ∃ turns cls now, events = List.replicate turns .waited ++ [.dequeued cls now taken]
  | _, _, _ => False

/-- What the threads do to the queue, and what they sleep for. -/
def queueObject (T : Type) (capacity : ℕ) :
    Monitor.Object (QueueState T) (QueueCall T) (QueueAnswer T) (QueueEvent T) where
  event := queueEvent capacity
  Step before event after := QueueStep ⟨capacity, before⟩ event ⟨capacity, after⟩
  Answers := QueueAnswered
  items := QueueState.waiting
  takes
    | .tryEnqueue _ _ _ => false
    | .dequeue => true

theorem waiting_pushBack (state : QueueState T) (cls : RequestClass) (queued : Queued T) :
    (state.pushBack cls queued).waiting = state.waiting + 1 := by
  rw [← length_values, (values_pushBack state cls queued).length_eq, List.length_cons,
    length_values]

theorem waiting_takeNext {state state' : QueueState T} {queued : Queued T}
    (h : takeNext state = (some queued, state')) : state.waiting = state'.waiting + 1 := by
  rw [← length_values, (values_takeNext h).length_eq, List.length_cons, length_values]

/-- Where a `dequeue` stands at the beginning of a turn. -/
structure AtTurn (state : QueueState T) (g : Monitor.Ghost (QueueState T) (QueueCall T)
    (QueueEvent T)) : Prop where
  /-- The thread is to dequeue. -/
  job : g.job = .dequeue
  /-- It holds the mutex, and the state is as it was taken. -/
  inside : g.inside = some ⟨state, state, none⟩
  /-- It has not taken its item yet. -/
  wants : g.wants = true
  /-- It owes nobody a wake-up. -/
  owes : g.owes = 0
  /-- All it has done so far is wait. -/
  events : ∃ turns, g.events = List.replicate turns .waited

variable {capacity : ℕ}

theorem dequeueTurn_follows {state : QueueState T}
    {g : Monitor.Ghost (QueueState T) (QueueCall T) (QueueEvent T)} (h : AtTurn state g) :
    Follows (Monitor.protocol (queueObject T capacity)) (QueueMonitor.dequeueTurn state) g
      fun turn g => match turn with
        | .inl state => AtTurn state g
        | .inr taken => Monitor.Done (queueObject T capacity) (.dequeued taken) g := by
  obtain ⟨job, inside, wants, owes, events⟩ := g
  obtain ⟨rfl, rfl, rfl, rfl, turns, rfl⟩ := h
  rcases htake : takeNext state with ⟨_ | queued, state'⟩
  · have hstep : QueueStep ⟨capacity, state⟩ .waited ⟨capacity, state'⟩ := by
      have hwait : QueueStep (⟨capacity, state⟩ : BrokerQueue T) .waited _ :=
        .wait 0 (by simp [BrokerQueue.dequeue, htake])
      simpa [htake] using hwait
    obtain ⟨hfirst, hsecond, rfl⟩ := takeNext_none htake
    have hevent : queueEvent capacity .dequeue ⟨state, ⟨[], [], 0⟩, none⟩ = .waited := by
      simp [queueEvent]
    have hempty : state.waiting = 0 := by simp [QueueState.waiting, hfirst, hsecond]
    simp only [QueueMonitor.dequeueTurn, htake, Prog.bind_eq, Prog.perform, Prog.call_bind,
      Prog.ret_bind, Follows.call]
    refine ⟨rfl, fun _ _ => ⟨⟨?_, _, ⟨rfl, ?_⟩, rfl⟩, fun _ _ => ⟨rfl, fun found _ => ?_⟩⟩⟩
    · simp [Monitor.protocol, Monitor.next, Monitor.Ghost.put, queueObject, hempty]
    · show QueueStep _ (queueEvent capacity .dequeue _) _
      rw [hevent]
      exact hstep
    · refine ⟨rfl, rfl, ?_, rfl, turns + 1, ?_⟩
      · simp [Monitor.protocol, Monitor.next, Monitor.Ghost.put, Monitor.Ghost.leave, queueObject,
          hempty]
      · show List.replicate turns .waited ++ [queueEvent capacity .dequeue _] = _
        rw [hevent, List.replicate_succ']
  · have hfewer := waiting_takeNext htake
    simp only [QueueMonitor.dequeueTurn, htake, Prog.bind_eq, Prog.perform, Prog.call_bind,
      Prog.ret_bind, Follows.call]
    refine ⟨rfl, fun _ _ => ⟨trivial, fun now _ => ⟨⟨?_, _, rfl, ?_⟩, fun _ _ => ?_⟩⟩⟩
    · simp [Monitor.protocol, Monitor.next, Monitor.Ghost.put, queueObject, hfewer]
    · have hevent : queueEvent capacity .dequeue ⟨state, state', some now⟩ =
          .dequeued (takenClass state state') now (BrokerQueue.classify queued now) := by
        simp [queueEvent, htake]
      have hdequeue : (⟨capacity, state⟩ : BrokerQueue T).dequeue now =
          some (BrokerQueue.classify queued now, ⟨capacity, state'⟩) := by
        simp [BrokerQueue.dequeue, htake]
      show QueueStep _ (queueEvent capacity .dequeue _) _
      rw [hevent]
      exact .dequeue now _ hdequeue
    · refine ⟨rfl, ?_, turns, takenClass state state', now, ?_⟩
      · simp [Monitor.protocol, Monitor.next, Monitor.Ghost.put, Monitor.Ghost.leave, queueObject,
          hfewer]
      · show List.replicate turns .waited ++
          [queueEvent capacity .dequeue ⟨state, state', some now⟩] = _
        simp [queueEvent, htake]

/-- A `try_enqueue` adds its request and notifies one thread, or finds the queue full. -/
theorem tryEnqueue_follows (cls : RequestClass) (value : T) (deadline : ℕ) :
    Follows (Monitor.protocol (queueObject T capacity))
      (QueueMonitor.tryEnqueue capacity cls value deadline)
      (.enter (queueObject T capacity) (.tryEnqueue cls value deadline))
      fun result g => Monitor.Done (queueObject T capacity) (.enqueued result) g := by
  simp only [QueueMonitor.tryEnqueue, Prog.bind_eq, Prog.perform, Prog.call_bind, Prog.ret_bind,
    Follows.call]
  refine ⟨rfl, fun state _ => ?_⟩
  by_cases hfull : state.waiting ≥ capacity
  · have hevent : queueEvent capacity (.tryEnqueue cls value deadline) ⟨state, state, none⟩ =
        .refused cls ⟨value, deadline⟩ := by simp [queueEvent, hfull]
    rw [if_pos hfull]
    refine ⟨⟨rfl, _, rfl, ?_⟩, fun _ _ => ⟨rfl, rfl, ?_⟩⟩
    · show QueueStep _ (queueEvent capacity (.tryEnqueue cls value deadline) _) _
      rw [hevent]
      exact .refuse cls value deadline (by simp [BrokerQueue.tryEnqueue, hfull])
    · show [] ++ [queueEvent capacity (.tryEnqueue cls value deadline) _] = [_]
      rw [hevent]
      rfl
  · have hevent : queueEvent capacity (.tryEnqueue cls value deadline)
        ⟨state, state.pushBack cls ⟨value, deadline⟩, none⟩ = .accepted cls ⟨value, deadline⟩ := by
      simp [queueEvent, hfull]
    rw [if_neg hfull]
    refine ⟨rfl, fun _ _ => ⟨rfl, fun woken _ => ⟨⟨?_, _, rfl, ?_⟩, fun _ _ => ⟨rfl, rfl, ?_⟩⟩⟩⟩
    · -- One request was added, and one notification sent.
      show 0 + ((state.pushBack cls ⟨value, deadline⟩).waiting - state.waiting) - 1 = 0
      rw [waiting_pushBack]
      omega
    · show QueueStep _ (queueEvent capacity (.tryEnqueue cls value deadline) _) _
      rw [hevent]
      exact .accept cls value deadline (by simp [BrokerQueue.tryEnqueue, hfull])
    · show [] ++ [queueEvent capacity (.tryEnqueue cls value deadline) _] = [_]
      rw [hevent]
      rfl

/-- A `dequeue` looks until it finds something, and sleeps in between. -/
theorem dequeue_follows : Follows (Monitor.protocol (queueObject T capacity)) QueueMonitor.dequeue
    (.enter (queueObject T capacity) .dequeue)
    fun taken g => Monitor.Done (queueObject T capacity) (.dequeued taken) g := by
  simp only [QueueMonitor.dequeue, Prog.bind_eq, Prog.perform, Prog.call_bind, Prog.ret_bind,
    Follows.call]
  refine ⟨rfl, fun state _ => Follows.iterate AtTurn ⟨rfl, rfl, rfl, rfl, 0, rfl⟩ ?_⟩
  intro state g h
  refine (dequeueTurn_follows h).mono ?_
  rintro (state | taken) g' hpost
  · exact hpost
  · exact hpost

theorem queueCall_follows (call : QueueCall T) :
    Follows (Monitor.protocol (queueObject T capacity)) (call.program capacity)
      (.enter (queueObject T capacity) call) (Monitor.Done (queueObject T capacity)) := by
  cases call with
  | tryEnqueue cls value deadline => exact Follows.bind (tryEnqueue_follows cls value deadline)
  | dequeue => exact Follows.bind dequeue_follows

/-! ## What comes of them -/

theorem queueRun_of_run {events : List (QueueEvent T)} {first last : QueueState T}
    (h : Monitor.Run (queueObject T capacity).Step first events last) :
    QueueRun ⟨capacity, first⟩ events ⟨capacity, last⟩ := by
  induction h with
  | nil => exact .nil
  | snoc _ hstep ih => exact ih.snoc hstep

variable [DecidableEq T]

/-- Two threads that found nothing, and the request that one of them was then woken for. -/
theorem reachable_woken : ∃ c : (queueMachine 2 : Machine _ (QueueCall ℕ) _).Config,
    (queueMachine 2).Reachable c ∧ c.shared.holder = none ∧ c.shared.asleep = [1] ∧
      c.shared.data.values = [7] ∧
      .finished 2 (.enqueued (.ok ())) ∈ c.log := by
  have first := Machine.Reachable.step Machine.Reachable.start
    (Machine.Step.start (M := queueMachine 2) 0 (.dequeue : QueueCall ℕ) rfl rfl)
  have second := first.step (.start 1 .dequeue rfl rfl)
  have third := second.step (.start 2 (.tryEnqueue .interactive 7 9) rfl rfl)
  have looks := third.step (.call 0 (⟨[], [], 0⟩ : QueueState ℕ) rfl rfl)
  have empty := (looks.step (.turn 0 rfl)).step (.call 0 () rfl rfl)
  have sleeps := empty.step (.call 0 () rfl rfl)
  have looks' := sleeps.step (.call 1 (⟨[], [], 0⟩ : QueueState ℕ) rfl rfl)
  have empty' := (looks'.step (.turn 1 rfl)).step (.call 1 () rfl rfl)
  have sleeps' := empty'.step (.call 1 () rfl rfl)
  have enters := sleeps'.step (.call 2 (⟨[], [], 0⟩ : QueueState ℕ) rfl rfl)
  have adds := enters.step (.call 2 () rfl rfl)
  have wakes := adds.step (.call 2 (some 0) rfl rfl)
  have leaves := wakes.step (.call 2 () rfl rfl)
  exact ⟨_, leaves.step (.finish 2 rfl), rfl, rfl, rfl, List.mem_cons_self⟩

/-- **The queue is what the threads see.**  The calls of any number of threads are a run of the
queue, in an order in which a call that had returned comes before one that began later; every call
returned what its step of the run says, and whenever the mutex is free, the data are the queue at
the end of the run. -/
theorem queue_linearized {c : (queueMachine capacity : Machine _ (QueueCall T) _).Config}
    (h : (queueMachine capacity).Reachable c) : ∃ order queue,
      Monitor.Linearizes (queueObject T capacity) c.log order ∧
      QueueRun (.new capacity) (order.map Prod.snd) queue ∧
      (c.shared.holder = none → queue.state = c.shared.data) := by
  obtain ⟨order, state, hlinear, hrun, hfree⟩ := Monitor.linearized queueCall_follows h
  exact ⟨order, ⟨capacity, state⟩, hlinear, queueRun_of_run hrun, hfree⟩

/-- One of these threads has returned. -/
theorem queue_linearized_woken : ∃ c : (queueMachine 2 : Machine _ (QueueCall ℕ) _).Config,
    .finished 2 (.enqueued (.ok ())) ∈ c.log ∧ ∃ order queue,
      Monitor.Linearizes (queueObject ℕ 2) c.log order ∧
      QueueRun (.new 2) (order.map Prod.snd) queue ∧
      (c.shared.holder = none → queue.state = c.shared.data) := by
  obtain ⟨c, hreach, -, -, -, hfinished⟩ := reachable_woken
  exact ⟨c, hfinished, queue_linearized hreach⟩

/-- **Nobody sleeps on.**  While a `dequeue` sleeps and the mutex is free, there are at least as many
calls of `dequeue` that do not sleep as there are requests. -/
theorem queue_wakes {c : (queueMachine capacity : Machine _ (QueueCall T) _).Config}
    (h : (queueMachine capacity).Reachable c) (hfree : c.shared.holder = none)
    (hasleep : c.shared.asleep ≠ []) : ∃ awake : List ℕ, awake.Nodup ∧
      c.shared.data.values.length ≤ awake.length ∧
      ∀ pid ∈ awake, pid ∉ c.shared.asleep ∧ Machine.running pid c.log = true ∧
        Machine.jobOf pid c.log = some .dequeue := by
  obtain ⟨awake, hnodup, hcount, hawake⟩ := Monitor.no_lost_wakeup queueCall_follows h hfree hasleep
  refine ⟨awake, hnodup, by rw [length_values]; exact hcount, fun pid hpid => ?_⟩
  obtain ⟨hnot, hrunning, call, hjob, htakes⟩ := hawake pid hpid
  refine ⟨hnot, hrunning, ?_⟩
  cases call with
  | tryEnqueue cls value deadline => cases htakes
  | dequeue => exact hjob

/-- The other one of them sleeps on, and it may. -/
theorem queue_wakes_woken : ∃ c : (queueMachine 2 : Machine _ (QueueCall ℕ) _).Config,
    c.shared.asleep = [1] ∧ c.shared.data.values = [7] ∧ ∃ awake : List ℕ, awake.Nodup ∧
      c.shared.data.values.length ≤ awake.length ∧
      ∀ pid ∈ awake, pid ∉ c.shared.asleep ∧ Machine.running pid c.log = true ∧
        Machine.jobOf pid c.log = some .dequeue := by
  obtain ⟨c, hreach, hfree, hasleep, hvalues, -⟩ := reachable_woken
  exact ⟨c, hasleep, hvalues, queue_wakes hreach hfree (by rw [hasleep]; exact List.cons_ne_nil _ _)⟩

/-- Where only one thread dequeues, it does not sleep while anything waits. -/
theorem scheduler_wakes {c : (queueMachine capacity : Machine _ (QueueCall T) _).Config}
    (h : (queueMachine capacity).Reachable c) (hfree : c.shared.holder = none) {scheduler : ℕ}
    (hasleep : scheduler ∈ c.shared.asleep)
    (honly : ∀ pid, Machine.running pid c.log = true →
      Machine.jobOf pid c.log = some (.dequeue : QueueCall T) → pid = scheduler) :
    c.shared.data.values = [] := by
  obtain ⟨awake, -, hcount, hawake⟩ := queue_wakes h hfree (List.ne_nil_of_mem hasleep)
  cases awake with
  | nil => exact List.length_eq_zero_iff.mp (Nat.le_zero.mp hcount)
  | cons pid awake =>
    obtain ⟨hnot, hrunning, hjob⟩ := hawake pid List.mem_cons_self
    rw [honly pid hrunning hjob] at hnot
    exact absurd hasleep hnot

end SemanticSidecar
