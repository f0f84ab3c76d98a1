import Mathlib.Data.List.Perm.Basic
import Mathlib.Data.Nat.Notation

/-!
# The broker queue

Requests wait in one of two queues, by class, under a common capacity.  Interactive requests go
first, but a batch request that waits lets at most `interactiveBurst` of them pass.

Every operation runs under the mutex of the queue, so each is one function on its state.  A
`dequeue` that finds nothing waits for the condition variable; here it has no result then, and is
asked again.  Times are nanoseconds of the monotonic clock.

`values` is what waits, whatever the class, and the lemmas about it are what the broker's
bookkeeping rests on: an accepted request is added to it, and a dequeued one taken out of it.

The operations are those of the source, with its checks in the same order: `tryEnqueue` refuses a
request when the two queues together are full, and otherwise puts it behind the others of its class;
`dequeue` takes the next one and then looks at its deadline, so that a request that has expired is
still taken out and counted, and is handed over as expired.  A clock reading that is exactly the
deadline counts as late.

What a sequence of operations does is the business of `Broker/Scheduling`, and what threads make of
them under the mutex that of `Broker/Monitor`.
-/

set_option autoImplicit false

namespace SemanticSidecar

/-- How many interactive requests may pass a waiting batch request. -/
def interactiveBurst : ℕ := 8

/-- `RequestClass`: the two classes of requests, which have a queue each. -/
inductive RequestClass where
  /-- Requests that go first. -/
  | interactive
  /-- Requests that have a turn after a burst of interactive ones. -/
  | batch
  deriving DecidableEq, Repr

/-- `QueueError`: why a request is refused. -/
inductive QueueError where
  /-- There is no room in the queue. -/
  | full
  deriving DecidableEq, Repr

/-- `Dequeued`: what the scheduler takes. -/
inductive Dequeued (T : Type) where
  /-- A request whose deadline has not passed. -/
  | ready (value : T)
  /-- A request whose deadline has passed. -/
  | expired (value : T)
  deriving DecidableEq, Repr

/-- `Queued`: a request with its deadline. -/
structure Queued (T : Type) where
  /-- The request. -/
  value : T
  /-- The instant after which the request is expired. -/
  deadline : ℕ
  deriving DecidableEq, Repr

/-- What the mutex guards. -/
structure QueueState (T : Type) where
  /-- The interactive requests, oldest first. -/
  interactive : List (Queued T)
  /-- The batch requests, oldest first. -/
  batch : List (Queued T)
  /-- How many interactive requests were taken since a batch request has waited. -/
  interactiveSinceBatchWaited : ℕ

/-- `BrokerQueue`: a bounded queue of two classes. -/
structure BrokerQueue (T : Type) where
  /-- How many requests there can be in both classes together. -/
  capacity : ℕ
  /-- The requests that wait. -/
  state : QueueState T

variable {T : Type}

/-- Everything that waits. -/
def QueueState.waiting (state : QueueState T) : ℕ :=
  state.interactive.length + state.batch.length

/-- `push_back` on the queue of the class. -/
def QueueState.pushBack (state : QueueState T) (cls : RequestClass) (queued : Queued T) :
    QueueState T :=
  match cls with
  | .interactive => { state with interactive := state.interactive ++ [queued] }
  | .batch => { state with batch := state.batch ++ [queued] }

/-- `take_next`: a waiting batch request has its turn after a burst of interactive ones. -/
def takeNext (state : QueueState T) : Option (Queued T) × QueueState T :=
  match state.batch, state.interactive with
  | oldest :: batch, queued :: interactive =>
    if state.interactiveSinceBatchWaited < interactiveBurst then
      (some queued, ⟨interactive, oldest :: batch, state.interactiveSinceBatchWaited + 1⟩)
    else (some oldest, ⟨queued :: interactive, batch, 0⟩)
  | oldest :: batch, [] => (some oldest, ⟨[], batch, 0⟩)
  | [], queued :: interactive => (some queued, ⟨interactive, [], 0⟩)
  | [], [] => (none, ⟨[], [], 0⟩)

namespace BrokerQueue

/-- `BrokerQueue::new`. -/
def new (capacity : ℕ) : BrokerQueue T := ⟨capacity, ⟨[], [], 0⟩⟩

/-- `BrokerQueue::try_enqueue`. -/
def tryEnqueue (queue : BrokerQueue T) (cls : RequestClass) (value : T) (deadline : ℕ) :
    Except QueueError Unit × BrokerQueue T :=
  if queue.state.waiting ≥ queue.capacity then (.error .full, queue)
  else (.ok (), { queue with state := queue.state.pushBack cls ⟨value, deadline⟩ })

/-- Whether a value taken at `now` has expired. -/
def classify (queued : Queued T) (now : ℕ) : Dequeued T :=
  if queued.deadline ≤ now then .expired queued.value else .ready queued.value

/-- `dequeue`, where `now` is the clock once a value has been taken. -/
def dequeue (queue : BrokerQueue T) (now : ℕ) : Option (Dequeued T × BrokerQueue T) :=
  match takeNext queue.state with
  | (some queued, state) => some (classify queued now, { queue with state := state })
  | (none, _) => none

end BrokerQueue

/-- The value of a dequeued request, expired or not. -/
def Dequeued.value : Dequeued T → T
  | .ready value => value
  | .expired value => value

theorem classify_value (queued : Queued T) (now : ℕ) :
    (BrokerQueue.classify queued now).value = queued.value := by
  rw [BrokerQueue.classify]
  split <;> rfl

/-! ## What waits -/

/-- The values that wait, in no particular order. -/
def QueueState.values (state : QueueState T) : List T :=
  (state.interactive ++ state.batch).map Queued.value

theorem length_values (state : QueueState T) : state.values.length = state.waiting := by
  simp [QueueState.values, QueueState.waiting]

theorem values_pushBack (state : QueueState T) (cls : RequestClass) (queued : Queued T) :
    (state.pushBack cls queued).values.Perm (queued.value :: state.values) := by
  cases cls with
  | interactive =>
    have h : (state.interactive ++ [queued] ++ state.batch).Perm
        (queued :: (state.interactive ++ state.batch)) := by
      rw [List.append_assoc]
      exact List.perm_middle
    exact h.map Queued.value
  | batch =>
    have h : (state.interactive ++ (state.batch ++ [queued])).Perm
        (queued :: (state.interactive ++ state.batch)) := by
      rw [← List.append_assoc]
      exact List.perm_append_singleton queued _
    exact h.map Queued.value

/-- **Taking a value takes it out, and nothing else.** -/
theorem values_takeNext {state state' : QueueState T} {queued : Queued T}
    (h : takeNext state = (some queued, state')) :
    state.values.Perm (queued.value :: state'.values) := by
  rcases state with ⟨_ | ⟨first, interactive⟩, _ | ⟨oldest, batch⟩, passed⟩
  · cases h
  · cases h
    exact List.Perm.refl _
  · cases h
    exact List.Perm.refl _
  · simp only [takeNext] at h
    split at h
    · cases h
      exact List.Perm.refl _
    · cases h
      have hperm : (first :: interactive ++ queued :: batch).Perm
          (queued :: (first :: interactive ++ batch)) := List.perm_middle
      exact hperm.map Queued.value

namespace BrokerQueue

theorem tryEnqueue_full_iff (queue : BrokerQueue T) (cls : RequestClass) (value : T)
    (deadline : ℕ) : (queue.tryEnqueue cls value deadline).1 = .error .full ↔
      queue.capacity ≤ queue.state.waiting := by
  rw [tryEnqueue]
  split
  · rename_i h
    simpa using h
  · rename_i h
    simpa using h

theorem tryEnqueue_error {queue queue' : BrokerQueue T} {cls : RequestClass} {value : T}
    {deadline : ℕ} {err : QueueError}
    (h : queue.tryEnqueue cls value deadline = (.error err, queue')) :
    queue' = queue ∧ queue.capacity ≤ queue.state.waiting := by
  rw [tryEnqueue] at h
  split at h
  · rename_i hfull
    cases h
    exact ⟨rfl, hfull⟩
  · cases h

theorem tryEnqueue_ok {queue queue' : BrokerQueue T} {cls : RequestClass} {value : T}
    {deadline : ℕ} (h : queue.tryEnqueue cls value deadline = (.ok (), queue')) :
    queue'.capacity = queue.capacity ∧ queue'.state.values.Perm (value :: queue.state.values) := by
  rw [tryEnqueue] at h
  split at h
  · cases h
  · cases h
    exact ⟨rfl, values_pushBack _ _ _⟩

theorem dequeue_some {queue queue' : BrokerQueue T} {now : ℕ} {d : Dequeued T}
    (h : queue.dequeue now = some (d, queue')) :
    queue'.capacity = queue.capacity ∧ queue.state.values.Perm (d.value :: queue'.state.values) := by
  rw [dequeue] at h
  split at h
  · rename_i queued state htake
    cases h
    rw [classify_value]
    exact ⟨rfl, values_takeNext htake⟩
  · cases h

end BrokerQueue

end SemanticSidecar
