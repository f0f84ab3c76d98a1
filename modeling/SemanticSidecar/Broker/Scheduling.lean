import SemanticSidecar.Broker.Queue
import Mathlib.Algebra.Order.Group.Multiset
import Mathlib.Data.List.Forall2
import Mathlib.Data.List.Induction

/-!
# Runs of the broker queue

Any number of threads call `try_enqueue` and `dequeue`.  The mutex makes every call, and every
turn of the loop in `dequeue`, one step on the state of the queue, so which thread makes a call
plays no part, and a run is a sequence of steps.  `QueueRun queue log queue'` is one, and `log` is
what its calls were given and returned, oldest first.  Deadlines and clock readings are arbitrary.

There are two results.  `queue_conserves` says that a queue is nothing but the part of what it has
accepted that has not been dequeued: value by value, and for each class in order.
`queue_isFair` bounds how many requests of the other class run before a request that waits.
Both come from `QueueStep.effect`, which says once what a step does to the two lists and to the
counter.

The second one is about the counter, `interactiveSinceBatchWaited`.  While a batch request waits,
an interactive dequeue increments it and only a batch dequeue resets it; while an interactive
request waits, a batch dequeue needs it at `interactiveBurst`.  `interactive_bounded` and
`batch_bounded` are these two facts summed over a run.
-/

set_option autoImplicit false

namespace SemanticSidecar

variable {T : Type}

/-- The requests of a class that wait, oldest first. -/
def QueueState.ofClass (state : QueueState T) : RequestClass → List (Queued T)
  | .interactive => state.interactive
  | .batch => state.batch

/-- The class whose queue a value was taken from. -/
def takenClass (before after : QueueState T) : RequestClass :=
  if after.batch.length < before.batch.length then .batch else .interactive

/-- What a call was given and what it returned. -/
inductive QueueEvent (T : Type) where
  /-- A request was put into the queue. -/
  | accepted (cls : RequestClass) (queued : Queued T)
  /-- A request was refused. -/
  | refused (cls : RequestClass) (queued : Queued T)
  /-- A request was taken. -/
  | dequeued (cls : RequestClass) (now : ℕ) (answer : Dequeued T)
  /-- A turn of `dequeue` that found nothing, and waits to be woken. -/
  | waited

/-- One operation on the queue. -/
inductive QueueStep : BrokerQueue T → QueueEvent T → BrokerQueue T → Prop
  /-- A request is accepted. -/
  | accept {queue queue' : BrokerQueue T} (cls : RequestClass) (value : T) (deadline : ℕ)
      (h : queue.tryEnqueue cls value deadline = (.ok (), queue')) :
      QueueStep queue (.accepted cls ⟨value, deadline⟩) queue'
  /-- A request is refused. -/
  | refuse {queue queue' : BrokerQueue T} (cls : RequestClass) (value : T) (deadline : ℕ)
      (h : queue.tryEnqueue cls value deadline = (.error .full, queue')) :
      QueueStep queue (.refused cls ⟨value, deadline⟩) queue'
  /-- A request is taken. -/
  | dequeue {queue queue' : BrokerQueue T} (now : ℕ) (answer : Dequeued T)
      (h : queue.dequeue now = some (answer, queue')) :
      QueueStep queue (.dequeued (takenClass queue.state queue'.state) now answer) queue'
  /-- There is nothing to take. -/
  | wait {queue : BrokerQueue T} (now : ℕ) (h : queue.dequeue now = none) :
      QueueStep queue .waited { queue with state := (takeNext queue.state).2 }

/-- Operations one after the other, with the log of what came of them. -/
inductive QueueRun (queue : BrokerQueue T) : List (QueueEvent T) → BrokerQueue T → Prop
  /-- Nothing has been done. -/
  | nil : QueueRun queue [] queue
  /-- One more operation. -/
  | snoc {log : List (QueueEvent T)} {event : QueueEvent T} {queue' queue'' : BrokerQueue T}
      (run : QueueRun queue log queue') (step : QueueStep queue' event queue'') :
      QueueRun queue (log ++ [event]) queue''

/-! ## What a step does -/

/-- What `takeNext` may do: which of the two queues it pops, and what becomes of the counter. -/
inductive Taken (state : QueueState T) (queued : Queued T) (state' : QueueState T) :
    RequestClass → Prop
  /-- The oldest interactive request is taken. -/
  | interactive (hpop : state.interactive = queued :: state'.interactive)
      (hbatch : state'.batch = state.batch)
      (hcounter : state.batch ≠ [] → state.interactiveSinceBatchWaited < interactiveBurst ∧
        state'.interactiveSinceBatchWaited = state.interactiveSinceBatchWaited + 1)
      (hreset : state.batch = [] → state'.interactiveSinceBatchWaited = 0) :
      Taken state queued state' .interactive
  /-- The oldest batch request is taken. -/
  | batch (hpop : state.batch = queued :: state'.batch)
      (hinteractive : state'.interactive = state.interactive)
      (hcounter : state.interactive ≠ [] → interactiveBurst ≤ state.interactiveSinceBatchWaited)
      (hreset : state'.interactiveSinceBatchWaited = 0) :
      Taken state queued state' .batch

theorem takeNext_taken {state state' : QueueState T} {queued : Queued T}
    (h : takeNext state = (some queued, state')) :
    Taken state queued state' (takenClass state state') := by
  rcases state with ⟨_ | ⟨first, interactive⟩, _ | ⟨oldest, batch⟩, passed⟩
  · exact absurd h (by simp [takeNext])
  · obtain ⟨rfl, rfl⟩ : oldest = queued ∧ (⟨[], batch, 0⟩ : QueueState T) = state' := by
      simpa [takeNext] using h
    rw [takenClass, if_pos (by simp)]
    exact .batch rfl rfl (fun hne => absurd rfl hne) rfl
  · obtain ⟨rfl, rfl⟩ : first = queued ∧ (⟨interactive, [], 0⟩ : QueueState T) = state' := by
      simpa [takeNext] using h
    rw [takenClass, if_neg (by simp)]
    exact .interactive rfl rfl (fun hne => absurd rfl hne) (fun _ => rfl)
  · simp only [takeNext] at h
    split at h
    · rename_i hlt
      obtain ⟨rfl, rfl⟩ : first = queued ∧
          (⟨interactive, oldest :: batch, passed + 1⟩ : QueueState T) = state' := by
        simpa using h
      rw [takenClass, if_neg (by simp)]
      exact .interactive rfl rfl (fun _ => ⟨hlt, rfl⟩) (fun hnil => by simp at hnil)
    · rename_i hge
      obtain ⟨rfl, rfl⟩ : oldest = queued ∧
          (⟨first :: interactive, batch, 0⟩ : QueueState T) = state' := by
        simpa using h
      rw [takenClass, if_pos (by simp)]
      exact .batch rfl rfl (fun _ => Nat.le_of_not_lt hge) rfl

theorem takeNext_none {state state' : QueueState T} (h : takeNext state = (none, state')) :
    state.interactive = [] ∧ state.batch = [] ∧ state' = ⟨[], [], 0⟩ := by
  rcases state with ⟨_ | ⟨first, interactive⟩, _ | ⟨oldest, batch⟩, passed⟩
  · exact ⟨rfl, rfl, (Prod.mk.inj h).2.symm⟩
  · exact absurd h (by simp [takeNext])
  · exact absurd h (by simp [takeNext])
  · simp only [takeNext] at h
    split at h <;> exact absurd h (by simp)

/-- **What one step does**, event by event. -/
def QueueEvent.Effect (queue queue' : BrokerQueue T) : QueueEvent T → Prop
  | .accepted cls queued => queue.state.waiting < queue.capacity ∧
      queue'.state = queue.state.pushBack cls queued
  | .refused _ _ => queue.capacity ≤ queue.state.waiting ∧ queue' = queue
  | .dequeued cls now answer => ∃ queued, answer = BrokerQueue.classify queued now ∧
      Taken queue.state queued queue'.state cls
  | .waited => queue.state.interactive = [] ∧ queue.state.batch = [] ∧
      queue'.state = ⟨[], [], 0⟩

theorem QueueStep.effect {queue queue' : BrokerQueue T} {event : QueueEvent T}
    (h : QueueStep queue event queue') :
    queue'.capacity = queue.capacity ∧ event.Effect queue queue' := by
  rcases h with ⟨cls, value, deadline, h⟩ | ⟨cls, value, deadline, h⟩ | ⟨now, answer, h⟩ | ⟨now, h⟩
  · rw [BrokerQueue.tryEnqueue] at h
    split at h
    · exact absurd h (by simp)
    · rename_i hroom
      obtain rfl := (Prod.mk.inj h).2
      exact ⟨rfl, Nat.lt_of_not_le hroom, rfl⟩
  · obtain ⟨rfl, hfull⟩ := BrokerQueue.tryEnqueue_error h
    exact ⟨rfl, hfull, rfl⟩
  · rw [BrokerQueue.dequeue] at h
    split at h
    · rename_i queued state htake
      obtain ⟨rfl, rfl⟩ := Prod.mk.inj (Option.some.inj h)
      exact ⟨rfl, queued, rfl, takeNext_taken htake⟩
    · exact absurd h (by simp)
  · rw [BrokerQueue.dequeue] at h
    split at h
    · exact absurd h (by simp)
    · rename_i state htake
      obtain ⟨hi, hb, rfl⟩ := takeNext_none htake
      refine ⟨rfl, hi, hb, ?_⟩
      rw [htake]

theorem QueueRun.capacity {queue queue' : BrokerQueue T} {log : List (QueueEvent T)}
    (h : QueueRun queue log queue') : queue'.capacity = queue.capacity := by
  induction h with
  | nil => rfl
  | snoc _ step ih => exact step.effect.1.trans ih

/-- A run goes through a queue at every point of its log. -/
theorem QueueRun.split {queue queue'' : BrokerQueue T} {before after : List (QueueEvent T)}
    (h : QueueRun queue (before ++ after) queue'') :
    ∃ queue', QueueRun queue before queue' ∧ QueueRun queue' after queue'' := by
  generalize hlog : before ++ after = log at h
  induction h generalizing after with
  | nil =>
    obtain ⟨rfl, rfl⟩ := List.append_eq_nil_iff.mp hlog
    exact ⟨queue, .nil, .nil⟩
  | @snoc log event queue' queue'' run step ih =>
    rcases List.eq_nil_or_concat after with rfl | ⟨after, last, rfl⟩
    · rw [List.append_nil] at hlog
      exact ⟨queue'', hlog ▸ run.snoc step, .nil⟩
    · rw [List.concat_eq_append, ← List.append_assoc] at hlog
      obtain ⟨hlog, hlast⟩ := List.append_inj' hlog rfl
      obtain ⟨mid, hbefore, hafter⟩ := ih hlog
      rw [List.concat_eq_append, hlast]
      exact ⟨mid, hbefore, hafter.snoc step⟩

/-! ## Nothing lost, nothing duplicated -/

/-- What a log says was accepted of a class, oldest first. -/
def acceptedOf (cls : RequestClass) (log : List (QueueEvent T)) : List (Queued T) :=
  log.filterMap fun
    | .accepted cls' queued => if cls' = cls then some queued else none
    | _ => none

/-- The clock and the answer of every dequeue of a class, oldest first. -/
def dequeuesOf (cls : RequestClass) (log : List (QueueEvent T)) : List (ℕ × Dequeued T) :=
  log.filterMap fun
    | .dequeued cls' now answer => if cls' = cls then some (now, answer) else none
    | _ => none

/-- Every accepted value, of either class. -/
def acceptedValues (log : List (QueueEvent T)) : Multiset T :=
  log.filterMap fun
    | .accepted _ queued => some queued.value
    | _ => none

/-- Every dequeued value, of either class, expired or not. -/
def dequeuedValues (log : List (QueueEvent T)) : Multiset T :=
  log.filterMap fun
    | .dequeued _ _ answer => some answer.value
    | _ => none

/-- A dequeue at `now` returned this request, expired if and only if its deadline has passed. -/
def DequeuedAs (queued : Queued T) (taken : ℕ × Dequeued T) : Prop :=
  taken.2.value = queued.value ∧
    (taken.2 = .expired queued.value ↔ queued.deadline ≤ taken.1) ∧
    (taken.2 = .ready queued.value ↔ taken.1 < queued.deadline)

theorem dequeuedAs_classify (queued : Queued T) (now : ℕ) :
    DequeuedAs queued (now, BrokerQueue.classify queued now) := by
  refine ⟨classify_value queued now, ?_, ?_⟩
  · rw [BrokerQueue.classify]
    split <;> simp_all
  · rw [BrokerQueue.classify]
    split <;> simp_all

theorem QueueStep.inOrder {queue queue' : BrokerQueue T} {event : QueueEvent T}
    (h : QueueStep queue event queue') (cls : RequestClass) :
    ∃ taken, queue.state.ofClass cls ++ acceptedOf cls [event] =
      taken ++ queue'.state.ofClass cls ∧ List.Forall₂ DequeuedAs taken (dequeuesOf cls [event]) := by
  obtain ⟨-, heffect⟩ := h.effect
  rcases event with ⟨cls', queued⟩ | ⟨cls', queued⟩ | ⟨cls', now, answer⟩ | _
  · obtain ⟨-, hstate⟩ := heffect
    refine ⟨[], ?_, .nil⟩
    rw [hstate]
    cases cls <;> cases cls' <;> simp [acceptedOf, QueueState.ofClass, QueueState.pushBack]
  · obtain ⟨-, rfl⟩ := heffect
    exact ⟨[], by simp [acceptedOf], .nil⟩
  · obtain ⟨queued, rfl, htaken⟩ := heffect
    have hanswers := dequeuedAs_classify queued now
    rcases htaken with ⟨hpop, hrest, -, -⟩ | ⟨hpop, hrest, -, -⟩
    · cases cls with
      | interactive => exact ⟨[queued], by simp [acceptedOf, QueueState.ofClass, hpop],
          by simpa [dequeuesOf] using hanswers⟩
      | batch => exact ⟨[], by simp [acceptedOf, QueueState.ofClass, hrest],
          by simp [dequeuesOf]⟩
    · cases cls with
      | interactive => exact ⟨[], by simp [acceptedOf, QueueState.ofClass, hrest],
          by simp [dequeuesOf]⟩
      | batch => exact ⟨[queued], by simp [acceptedOf, QueueState.ofClass, hpop],
          by simpa [dequeuesOf] using hanswers⟩
  · obtain ⟨hi, hb, hstate⟩ := heffect
    refine ⟨[], ?_, .nil⟩
    rw [hstate]
    cases cls <;> simp [acceptedOf, QueueState.ofClass, hi, hb]

/-- **Each class is served in the order it was accepted.**  What waited first and was accepted
since is what has been dequeued, one answer each, and then what still waits. -/
theorem QueueRun.inOrder {queue queue' : BrokerQueue T} {log : List (QueueEvent T)}
    (h : QueueRun queue log queue') (cls : RequestClass) :
    ∃ taken, queue.state.ofClass cls ++ acceptedOf cls log = taken ++ queue'.state.ofClass cls ∧
      List.Forall₂ DequeuedAs taken (dequeuesOf cls log) := by
  induction h with
  | nil => exact ⟨[], by simp [acceptedOf], .nil⟩
  | @snoc log event queue' queue'' run step ih =>
    obtain ⟨taken, horder, hanswers⟩ := ih
    obtain ⟨more, hmore, hmoreAnswers⟩ := step.inOrder cls
    refine ⟨taken ++ more, ?_, ?_⟩
    · calc queue.state.ofClass cls ++ acceptedOf cls (log ++ [event])
          = queue.state.ofClass cls ++ acceptedOf cls log ++ acceptedOf cls [event] := by
            simp [acceptedOf, List.filterMap_append]
        _ = taken ++ (queue'.state.ofClass cls ++ acceptedOf cls [event]) := by
            rw [horder, List.append_assoc]
        _ = taken ++ more ++ queue''.state.ofClass cls := by
            rw [hmore, List.append_assoc]
    · have hsplit : dequeuesOf cls (log ++ [event]) =
          dequeuesOf cls log ++ dequeuesOf cls [event] := by
        simp [dequeuesOf, List.filterMap_append]
      rw [hsplit]
      exact List.rel_append hanswers hmoreAnswers

theorem QueueStep.values {queue queue' : BrokerQueue T} {event : QueueEvent T}
    (h : QueueStep queue event queue') :
    (queue.state.values : Multiset T) + acceptedValues [event] =
      dequeuedValues [event] + queue'.state.values := by
  rcases h with ⟨cls, value, deadline, h⟩ | ⟨cls, value, deadline, h⟩ | ⟨now, answer, h⟩ | ⟨now, h⟩
  · have hperm := Multiset.coe_eq_coe.mpr (BrokerQueue.tryEnqueue_ok h).2
    calc (queue.state.values : Multiset T) + acceptedValues [.accepted cls ⟨value, deadline⟩]
        = {value} + (queue.state.values : Multiset T) := add_comm _ _
      _ = 0 + (queue'.state.values : Multiset T) := by
        rw [hperm, zero_add, Multiset.singleton_add, Multiset.cons_coe]
  · obtain ⟨rfl, -⟩ := BrokerQueue.tryEnqueue_error h
    exact add_comm _ 0
  · have hperm := Multiset.coe_eq_coe.mpr (BrokerQueue.dequeue_some h).2
    rw [hperm, ← Multiset.cons_coe, ← Multiset.singleton_add]
    exact add_zero _
  · obtain ⟨-, hi, hb, hstate⟩ := (QueueStep.wait now h).effect
    rw [hstate, QueueState.values, QueueState.values, hi, hb]
    exact add_comm _ 0

theorem QueueRun.values {queue queue' : BrokerQueue T} {log : List (QueueEvent T)}
    (h : QueueRun queue log queue') :
    (queue.state.values : Multiset T) + acceptedValues log =
      dequeuedValues log + queue'.state.values := by
  induction h with
  | nil => exact add_comm _ 0
  | @snoc log event queue' queue'' _ step ih =>
    have haccepted : acceptedValues (log ++ [event]) =
        acceptedValues log + acceptedValues [event] := by
      simp [acceptedValues, List.filterMap_append]
    have hdequeued : dequeuedValues (log ++ [event]) =
        dequeuedValues log + dequeuedValues [event] := by
      simp [dequeuedValues, List.filterMap_append]
    rw [haccepted, hdequeued, ← add_assoc, ih, add_assoc, step.values, add_assoc]

/-- At most `capacity` values wait. -/
theorem QueueRun.bounded {queue queue' : BrokerQueue T} {log : List (QueueEvent T)}
    (h : QueueRun queue log queue') (hroom : queue.state.waiting ≤ queue.capacity) :
    queue'.state.waiting ≤ queue'.capacity := by
  induction h with
  | nil => exact hroom
  | @snoc log event queue' queue'' _ step ih =>
    obtain ⟨hcapacity, heffect⟩ := step.effect
    rw [hcapacity]
    rcases event with ⟨cls, queued⟩ | ⟨cls, queued⟩ | ⟨cls, now, answer⟩ | _
    · obtain ⟨hlt, hstate⟩ := heffect
      have hlength := (values_pushBack queue'.state cls queued).length_eq
      rw [length_values, List.length_cons, length_values, ← hstate] at hlength
      omega
    · obtain ⟨-, rfl⟩ := heffect
      exact ih
    · obtain ⟨queued, -, htaken⟩ := heffect
      rw [QueueState.waiting] at ih ⊢
      rcases htaken with ⟨hpop, hrest, -, -⟩ | ⟨hpop, hrest, -, -⟩
      · rw [hpop, ← hrest, List.length_cons] at ih
        omega
      · rw [hpop, ← hrest, List.length_cons] at ih
        omega
    · obtain ⟨-, -, hstate⟩ := heffect
      rw [hstate]
      exact Nat.zero_le _

/-- What `dequeue` takes is the oldest request of its class, and nothing else moves. -/
theorem dequeue_takes {queue queue' : BrokerQueue T} {now : ℕ} {answer : Dequeued T}
    (h : queue.dequeue now = some (answer, queue')) :
    ∃ cls queued, queue.state.ofClass cls = queued :: queue'.state.ofClass cls ∧
      (∀ other, other ≠ cls → queue'.state.ofClass other = queue.state.ofClass other) ∧
      DequeuedAs queued (now, answer) := by
  obtain ⟨-, queued, rfl, htaken⟩ := (QueueStep.dequeue now answer h).effect
  generalize takenClass queue.state queue'.state = cls at htaken
  refine ⟨cls, queued, ?_, ?_, dequeuedAs_classify queued now⟩
  · rcases htaken with ⟨hpop, -, -, -⟩ | ⟨hpop, -, -, -⟩
    · exact hpop
    · exact hpop
  · rintro other hne
    rcases htaken with ⟨-, hrest, -, -⟩ | ⟨-, hrest, -, -⟩
    · rcases other with _ | _
      · exact absurd rfl hne
      · exact hrest
    · rcases other with _ | _
      · exact hrest
      · exact absurd rfl hne

/-- **Nothing is lost and nothing is duplicated.**  In every state of a queue, the accepted values
are the dequeued and the waiting ones; each class is dequeued in the order it was accepted, and a
dequeued value has expired if and only if its deadline had passed at its dequeue; at most
`capacity` values wait, and `try_enqueue` refuses one if and only if that many do. -/
theorem queue_conserves {capacity : ℕ} {log : List (QueueEvent T)} {queue : BrokerQueue T}
    (h : QueueRun (.new capacity) log queue) :
    acceptedValues log = dequeuedValues log + queue.state.values ∧
    (∀ cls, ∃ taken, acceptedOf cls log = taken ++ queue.state.ofClass cls ∧
      List.Forall₂ DequeuedAs taken (dequeuesOf cls log)) ∧
    queue.state.waiting ≤ capacity ∧
    (∀ cls value deadline, ((queue.tryEnqueue cls value deadline).1 = .error .full ↔
        queue.state.waiting = capacity) ∧
      ((queue.tryEnqueue cls value deadline).1 = .error .full →
        (queue.tryEnqueue cls value deadline).2 = queue)) ∧
    (∀ now answer queue', queue.dequeue now = some (answer, queue') →
      ∃ cls queued, queue.state.ofClass cls = queued :: queue'.state.ofClass cls ∧
        (∀ other, other ≠ cls → queue'.state.ofClass other = queue.state.ofClass other) ∧
        DequeuedAs queued (now, answer)) := by
  have hcapacity : queue.capacity = capacity := h.capacity
  have hbounded : queue.state.waiting ≤ capacity := by
    rw [← hcapacity]
    exact h.bounded (Nat.zero_le _)
  refine ⟨?_, ?_, hbounded, ?_, fun now answer queue' => dequeue_takes⟩
  · have hvalues := h.values
    rwa [show ((BrokerQueue.new capacity : BrokerQueue T).state.values : Multiset T) = 0 from rfl,
      zero_add] at hvalues
  · intro cls
    obtain ⟨taken, horder, hanswers⟩ := h.inOrder cls
    have hnew : (BrokerQueue.new capacity : BrokerQueue T).state.ofClass cls = [] := by
      rcases cls with _ | _
      · rfl
      · rfl
    rw [hnew, List.nil_append] at horder
    exact ⟨taken, horder, hanswers⟩
  · intro cls value deadline
    refine ⟨?_, fun hfull => ?_⟩
    · rw [BrokerQueue.tryEnqueue_full_iff, hcapacity]
      omega
    · exact (BrokerQueue.tryEnqueue_error (Prod.ext hfull rfl)).1

/-- Two batch requests and an interactive one arrive, the queue refuses a fourth, and one request
has expired when its turn comes. -/
def sampleLog : List (QueueEvent ℕ) :=
  [.waited, .accepted .batch ⟨1, 5⟩, .accepted .batch ⟨2, 9⟩, .accepted .interactive ⟨3, 9⟩,
    .refused .interactive ⟨4, 9⟩, .dequeued .interactive 6 (.ready 3),
    .dequeued .batch 7 (.expired 1)]

theorem sampleRun : QueueRun (.new 3) sampleLog ⟨3, [], [⟨2, 9⟩], 0⟩ := by
  have run : QueueRun (.new 3 : BrokerQueue ℕ) [] (.new 3) := .nil
  have run := run.snoc (.wait 0 rfl)
  have run := run.snoc (.accept .batch 1 5 rfl)
  have run := run.snoc (.accept .batch 2 9 rfl)
  have run := run.snoc (.accept .interactive 3 9 rfl)
  have run := run.snoc (.refuse .interactive 4 9 rfl)
  have run := run.snoc (.dequeue 6 (.ready 3) rfl)
  have run := run.snoc (.dequeue 7 (.expired 1) rfl)
  exact run

theorem queue_conserves_sample :
    acceptedValues sampleLog = dequeuedValues sampleLog + ({2} : Multiset ℕ) ∧
      (∃ taken, acceptedOf .batch sampleLog = taken ++ [⟨2, 9⟩] ∧
        List.Forall₂ DequeuedAs taken [(7, .expired 1)]) := by
  obtain ⟨hvalues, horder, -⟩ := queue_conserves sampleRun
  exact ⟨hvalues, horder .batch⟩

/-! ## How long a request waits -/

/-- A request with `p` ahead of it in its class still waits after at most `p` dequeues of the
class, with that many fewer ahead of it. -/
theorem QueueRun.stillWaits {queue queue' : BrokerQueue T} {log : List (QueueEvent T)}
    (h : QueueRun queue log queue') {cls : RequestClass} {p : ℕ} {queued : Queued T}
    (hp : (queue.state.ofClass cls)[p]? = some queued)
    (hlog : (dequeuesOf cls log).length ≤ p) :
    (queue'.state.ofClass cls)[p - (dequeuesOf cls log).length]? = some queued := by
  obtain ⟨taken, horder, hanswers⟩ := h.inOrder cls
  have hlength := hanswers.length_eq
  have hwaits : (taken ++ queue'.state.ofClass cls)[p]? = some queued := by
    rw [← horder]
    exact List.getElem?_append_left (List.getElem?_eq_some_iff.mp hp).1 |>.trans hp
  rw [List.getElem?_append_right (by omega), hlength] at hwaits
  exact hwaits

theorem QueueStep.counter_le {queue queue' : BrokerQueue T} {event : QueueEvent T}
    (h : QueueStep queue event queue')
    (hle : queue.state.interactiveSinceBatchWaited ≤ interactiveBurst) :
    queue'.state.interactiveSinceBatchWaited ≤ interactiveBurst := by
  obtain ⟨-, heffect⟩ := h.effect
  rcases event with ⟨cls, queued⟩ | ⟨cls, queued⟩ | ⟨cls, now, answer⟩ | _
  · rw [heffect.2]
    rcases cls with _ | _
    · exact hle
    · exact hle
  · rw [heffect.2]
    exact hle
  · obtain ⟨queued, -, htaken⟩ := heffect
    rcases htaken with ⟨-, -, hcounter, hreset⟩ | ⟨-, -, -, hreset⟩
    · by_cases hbatch : queue.state.batch = []
      · rw [hreset hbatch]
        exact Nat.zero_le _
      · obtain ⟨hlt, hnext⟩ := hcounter hbatch
        rw [hnext]
        exact hlt
    · rw [hreset]
      exact Nat.zero_le _
  · rw [heffect.2.2]
    exact Nat.zero_le _

theorem QueueRun.counter_le {queue queue' : BrokerQueue T} {log : List (QueueEvent T)}
    (h : QueueRun queue log queue')
    (hle : queue.state.interactiveSinceBatchWaited ≤ interactiveBurst) :
    queue'.state.interactiveSinceBatchWaited ≤ interactiveBurst := by
  induction h with
  | nil => exact hle
  | snoc _ step ih => exact step.counter_le ih

/-- The number of dequeues of a class. -/
def dequeueCount (cls : RequestClass) (log : List (QueueEvent T)) : ℕ :=
  (dequeuesOf cls log).length

theorem dequeueCount_append (cls : RequestClass) (log more : List (QueueEvent T)) :
    dequeueCount cls (log ++ more) = dequeueCount cls log + dequeueCount cls more := by
  simp [dequeueCount, dequeuesOf, List.filterMap_append]

/-- While a batch request waits, each interactive dequeue counts. -/
theorem QueueStep.interactive_bounded {queue queue' : BrokerQueue T} {event : QueueEvent T}
    (h : QueueStep queue event queue') (hbatch : queue.state.batch ≠ [])
    (hle : queue.state.interactiveSinceBatchWaited ≤ interactiveBurst) :
    queue.state.interactiveSinceBatchWaited + dequeueCount .interactive [event] ≤
      interactiveBurst * dequeueCount .batch [event] +
        queue'.state.interactiveSinceBatchWaited := by
  obtain ⟨-, heffect⟩ := h.effect
  rcases event with ⟨cls, queued⟩ | ⟨cls, queued⟩ | ⟨cls, now, answer⟩ | _
  · rw [heffect.2]
    rcases cls with _ | _
    · exact Nat.le_add_left _ _
    · exact Nat.le_add_left _ _
  · rw [heffect.2]
    exact Nat.le_add_left _ _
  · obtain ⟨queued, -, htaken⟩ := heffect
    rcases htaken with ⟨-, -, hcounter, -⟩ | ⟨-, -, -, hreset⟩
    · rw [(hcounter hbatch).2]
      exact Nat.le_add_left _ _
    · rw [hreset]
      exact hle
  · exact absurd heffect.2.1 hbatch

/-- While an interactive request waits, each batch dequeue costs a whole burst. -/
theorem QueueStep.batch_bounded {queue queue' : BrokerQueue T} {event : QueueEvent T}
    (h : QueueStep queue event queue') (hinteractive : queue.state.interactive ≠ []) :
    interactiveBurst * dequeueCount .batch [event] + queue'.state.interactiveSinceBatchWaited ≤
      queue.state.interactiveSinceBatchWaited + dequeueCount .interactive [event] := by
  obtain ⟨-, heffect⟩ := h.effect
  rcases event with ⟨cls, queued⟩ | ⟨cls, queued⟩ | ⟨cls, now, answer⟩ | _
  · rw [heffect.2]
    rcases cls with _ | _
    · exact (Nat.zero_add _).le
    · exact (Nat.zero_add _).le
  · rw [heffect.2]
    exact (Nat.zero_add _).le
  · obtain ⟨queued, -, htaken⟩ := heffect
    rcases htaken with ⟨-, -, hcounter, hreset⟩ | ⟨-, -, hcounter, hreset⟩
    · by_cases hbatch : queue.state.batch = []
      · rw [hreset hbatch]
        exact Nat.zero_le _
      · rw [(hcounter hbatch).2]
        exact (Nat.zero_add _).le
    · rw [hreset]
      exact hcounter hinteractive
  · exact absurd heffect.1 hinteractive

/-- A request of the class is still in its queue at the end of a run. -/
theorem QueueRun.waits {queue queue' : BrokerQueue T} {log : List (QueueEvent T)}
    (h : QueueRun queue log queue') {cls : RequestClass} {p : ℕ} {queued : Queued T}
    (hp : (queue.state.ofClass cls)[p]? = some queued) (hlog : dequeueCount cls log ≤ p) :
    queue'.state.ofClass cls ≠ [] := by
  intro hnil
  have hwaits := h.stillWaits hp hlog
  rw [hnil] at hwaits
  exact absurd hwaits (by simp)

theorem QueueRun.interactive_bounded {queue queue' : BrokerQueue T} {log : List (QueueEvent T)}
    (h : QueueRun queue log queue')
    (hle : queue.state.interactiveSinceBatchWaited ≤ interactiveBurst) {p : ℕ}
    {queued : Queued T} (hp : (queue.state.ofClass .batch)[p]? = some queued)
    (hlog : dequeueCount .batch log ≤ p) :
    queue.state.interactiveSinceBatchWaited + dequeueCount .interactive log ≤
      interactiveBurst * dequeueCount .batch log + queue'.state.interactiveSinceBatchWaited := by
  induction h with
  | nil => exact Nat.le_add_left _ _
  | @snoc log event queue' queue'' run step ih =>
    rw [dequeueCount_append] at hlog
    have hrun := ih (Nat.le_of_add_right_le hlog)
    have hstep := step.interactive_bounded (run.waits hp (Nat.le_of_add_right_le hlog))
      (run.counter_le hle)
    rw [dequeueCount_append, dequeueCount_append, Nat.mul_add]
    omega

theorem QueueRun.batch_bounded {queue queue' : BrokerQueue T} {log : List (QueueEvent T)}
    (h : QueueRun queue log queue') {q : ℕ} {queued : Queued T}
    (hq : (queue.state.ofClass .interactive)[q]? = some queued)
    (hlog : dequeueCount .interactive log ≤ q) :
    interactiveBurst * dequeueCount .batch log + queue'.state.interactiveSinceBatchWaited ≤
      queue.state.interactiveSinceBatchWaited + dequeueCount .interactive log := by
  induction h with
  | nil => exact (Nat.zero_add _).le
  | @snoc log event queue' queue'' run step ih =>
    rw [dequeueCount_append] at hlog
    have hrun := ih (Nat.le_of_add_right_le hlog)
    have hstep := step.batch_bounded (run.waits hq (Nat.le_of_add_right_le hlog))
    rw [dequeueCount_append, dequeueCount_append, Nat.mul_add]
    omega

/-- A log with more than `p` dequeues of a class has a point with exactly `p` of them, where
the next one follows. -/
theorem exists_dequeue {cls : RequestClass} {p : ℕ} {log : List (QueueEvent T)}
    (h : p < dequeueCount cls log) : ∃ before now answer after,
      log = before ++ .dequeued cls now answer :: after ∧ dequeueCount cls before = p := by
  induction log using List.reverseRecOn with
  | nil => exact absurd h (Nat.not_lt_zero p)
  | append_singleton log event ih =>
    by_cases hlog : p < dequeueCount cls log
    · obtain ⟨before, now, answer, after, rfl, hcount⟩ := ih hlog
      exact ⟨before, now, answer, after ++ [event], by simp, hcount⟩
    · rw [dequeueCount_append] at h
      rcases event with ⟨cls', queued⟩ | ⟨cls', queued⟩ | ⟨cls', now, answer⟩ | _
      · exact absurd h hlog
      · exact absurd h hlog
      · by_cases hcls : cls' = cls
        · obtain rfl := hcls
          have hone : dequeueCount cls' [.dequeued cls' now answer] = 1 := by
            simp [dequeueCount, dequeuesOf]
          exact ⟨log, now, answer, [], rfl, by omega⟩
        · have hnone : dequeueCount cls [.dequeued cls' now answer] = 0 := by
            simp [dequeueCount, dequeuesOf, hcls]
          omega
      · exact absurd h hlog

/-- The other class. -/
def RequestClass.other : RequestClass → RequestClass
  | .interactive => .batch
  | .batch => .interactive

/-- How many requests of the other class run before one with `p` ahead of it in its own. -/
def RequestClass.patience : RequestClass → ℕ → ℕ
  | .batch, p => interactiveBurst * (p + 1)
  | .interactive, q => 1 + q / interactiveBurst

theorem QueueRun.other_bounded {queue queue' : BrokerQueue T} {log : List (QueueEvent T)}
    (h : QueueRun queue log queue')
    (hle : queue.state.interactiveSinceBatchWaited ≤ interactiveBurst) {cls : RequestClass}
    {p : ℕ} {queued : Queued T} (hp : (queue.state.ofClass cls)[p]? = some queued)
    (hlog : dequeueCount cls log ≤ p) : dequeueCount cls.other log ≤ cls.patience p := by
  rcases cls with _ | _
  · have hbound := h.batch_bounded hp hlog
    simp only [interactiveBurst, RequestClass.other, RequestClass.patience] at hle hbound ⊢
    omega
  · have hbound := h.interactive_bounded hle hp hlog
    have hcounter := h.counter_le hle
    simp only [interactiveBurst, RequestClass.other, RequestClass.patience] at hbound hcounter ⊢
    omega

/-- A request with `p` ahead of it in its class is what the dequeue after `p` of the class takes. -/
theorem QueueRun.served {queue queue' : BrokerQueue T} {before : List (QueueEvent T)}
    {cls : RequestClass} {now : ℕ} {answer : Dequeued T} {after : List (QueueEvent T)}
    (h : QueueRun queue (before ++ .dequeued cls now answer :: after) queue') {p : ℕ}
    {queued : Queued T} (hp : (queue.state.ofClass cls)[p]? = some queued)
    (hbefore : dequeueCount cls before = p) : DequeuedAs queued (now, answer) := by
  rw [← List.singleton_append, ← List.append_assoc] at h
  obtain ⟨mid, hmid, -⟩ := h.split
  obtain ⟨taken, horder, hanswers⟩ := hmid.inOrder cls
  have hlog : dequeuesOf cls (before ++ [.dequeued cls now answer]) =
      dequeuesOf cls before ++ [(now, answer)] := by
    simp [dequeuesOf, List.filterMap_append]
  rw [hlog] at hanswers
  obtain ⟨hlength, hget⟩ := List.forall₂_iff_get.mp hanswers
  rw [List.length_append, List.length_singleton] at hlength
  have hbound : p < taken.length := by rw [hlength, ← hbefore]; exact Nat.lt_succ_self _
  have htaken : taken.get ⟨p, hbound⟩ = queued := by
    have hfirst : (taken ++ mid.state.ofClass cls)[p]? = some queued := by
      rw [← horder]
      exact List.getElem?_append_left (List.getElem?_eq_some_iff.mp hp).1 |>.trans hp
    rw [List.getElem?_append_left hbound, List.getElem?_eq_getElem hbound] at hfirst
    exact Option.some.inj hfirst
  have hlast : (dequeuesOf cls before ++ [(now, answer)]).get ⟨p, by simp [← hbefore, dequeueCount]⟩ =
      (now, answer) := by
    simp [← hbefore, dequeueCount]
  have hanswer := hget p hbound (by simp [← hbefore, dequeueCount])
  rwa [htaken, hlast] at hanswer

/-- **A request waits for a bounded number of others.**  From any state of a queue, a request with
`p` ahead of it in its class is the next of its class to be dequeued once `p` others have been,
and until then at most `patience` requests of the other class run, and `dequeue` finds something. -/
theorem queue_isFair {capacity : ℕ} {past : List (QueueEvent T)} {queue : BrokerQueue T}
    (hpast : QueueRun (.new capacity) past queue) {log : List (QueueEvent T)}
    {queue' : BrokerQueue T} (h : QueueRun queue log queue') {cls : RequestClass} {p : ℕ}
    {queued : Queued T} (hp : (queue.state.ofClass cls)[p]? = some queued) :
    (dequeueCount cls log ≤ p →
      (queue'.state.ofClass cls)[p - dequeueCount cls log]? = some queued ∧
      dequeueCount cls.other log ≤ cls.patience p ∧ ∀ now, queue'.dequeue now ≠ none) ∧
    (p < dequeueCount cls log → ∃ before now answer after,
      log = before ++ .dequeued cls now answer :: after ∧ DequeuedAs queued (now, answer) ∧
      dequeueCount cls before = p ∧ dequeueCount cls.other before ≤ cls.patience p) := by
  have hle := hpast.counter_le (Nat.zero_le _)
  refine ⟨fun hlog => ⟨h.stillWaits hp hlog, h.other_bounded hle hp hlog, ?_⟩, fun hlog => ?_⟩
  · intro now hnone
    obtain ⟨-, hi, hb, -⟩ := (QueueStep.wait now hnone).effect
    refine h.waits hp hlog ?_
    rcases cls with _ | _
    · exact hi
    · exact hb
  · obtain ⟨before, now, answer, after, rfl, hbefore⟩ := exists_dequeue hlog
    obtain ⟨mid, hmid, -⟩ := h.split
    exact ⟨before, now, answer, after, rfl, h.served hp hbefore, hbefore,
      hmid.other_bounded hle hp hbefore.le⟩

/-- A batch request with an interactive one beside it: the interactive one runs first. -/
theorem queue_isFair_sample :
    ∃ log : List (QueueEvent ℕ), log.length = 2 ∧ ∃ before now answer after,
      log = before ++ .dequeued .batch now answer :: after ∧ DequeuedAs ⟨1, 5⟩ (now, answer) ∧
      dequeueCount .batch before = 0 ∧ dequeueCount .interactive before ≤ 8 := by
  have past : QueueRun (.new 3 : BrokerQueue ℕ) [] (.new 3) := .nil
  have past := past.snoc (.accept .batch 1 5 rfl)
  have past := past.snoc (.accept .interactive 2 9 rfl)
  have run : QueueRun (⟨3, [⟨2, 9⟩], [⟨1, 5⟩], 0⟩ : BrokerQueue ℕ) [] _ := .nil
  have run := run.snoc (.dequeue 6 (.ready 2) rfl)
  have run := run.snoc (.dequeue 7 (.expired 1) rfl)
  have hwaits : (QueueState.ofClass ⟨[⟨2, 9⟩], [⟨1, 5⟩], 0⟩ .batch)[0]? =
      some (⟨1, 5⟩ : Queued ℕ) := rfl
  exact ⟨_, rfl, (queue_isFair past run hwaits).2 (by decide)⟩

end SemanticSidecar
