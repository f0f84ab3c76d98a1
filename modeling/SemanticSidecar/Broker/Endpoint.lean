import SemanticSidecar.Lib.Pool
import Mathlib.Data.List.Basic

/-!
# Many broker processes, one endpoint

Broker processes that were started with the same configuration compete for one service lock, and
the winner owns the Unix socket at the endpoint path: it unlinks what an earlier owner left there,
binds its own, and unlinks that when its owner goes away.  The last of these is the business of a
second thread, the owner watchdog, which goes by the flag `endpoint_bound`.

`serveWithLoader` is what the first thread of a process does and `ownerWatchdog` what the second
does, each a program over the calls that can fail; `endpoint` is the machine they run on, with the
lock, the socket and the flag of every process.  A process is gone when either of its threads
comes to its end, and it may crash at any time.

The service lease goes out of scope when `serve_with_loader` returns, but the process is not over
then and its owner watchdog is still at work.  Nothing takes the flag back when the start-up fails
after the socket was bound, so the watchdog may come to unlink a socket that is no longer its own,
`endpoint_steals_socket`.  That is the only thing that can go wrong: `endpoint_isSingleOwner_iff`
says that the endpoint is in the hands of the lease holder alone exactly when no owner watchdog
unlinks it after its process has left `serve_with_loader`.
-/

set_option autoImplicit false

namespace SemanticSidecar

namespace Endpoint

open Prog (perform attempt Follows)

/-! ## The two threads of a process -/

/-- How `remove_file` fails. -/
inductive RemoveError where
  /-- There is no such file. -/
  | notFound
  /-- Any other error, with its text. -/
  | other (err : String)
  deriving DecidableEq, Repr

/-- The calls of a broker process that bear on its endpoint, and the ones that can end it. -/
inductive Op where
  /-- `ServiceLease::try_acquire`; an answer of `false` is a lease held elsewhere. -/
  | tryAcquireService
  /-- The service lease goes out of scope. -/
  | dropService
  /-- `OwnerWatchdog::start`. -/
  | startOwnerWatchdog
  /-- `AcceleratorLease::try_acquire`. -/
  | tryAcquireAccelerator
  /-- The loader is called, with the accelerator lease or without. -/
  | loader (acceleratorLease : Bool)
  /-- `create_dir_all` of the directory of the endpoint. -/
  | createDirAll
  /-- `set_permissions` of the directory of the endpoint. -/
  | setParentPermissions
  /-- `remove_file` on the endpoint path. -/
  | removeFile
  /-- `UnixListener::bind`. -/
  | bindListener
  /-- A store to `endpoint_bound`. -/
  | storeBound (bound : Bool)
  /-- `set_permissions` of the socket. -/
  | setPermissions
  /-- Starting the accept thread. -/
  | spawnAccept
  /-- `RequestWatchdog::start`. -/
  | startRequestWatchdog
  /-- One request of the scheduler loop; an error is a panic. -/
  | nextRequest
  /-- The owner watchdog reads from the owner; the answer is how much it read. -/
  | readOwner
  /-- A load of `endpoint_bound`. -/
  | loadBound
  deriving DecidableEq, Repr

/-- The answers to those calls. -/
@[reducible] def Op.Ret : Op → Type
  | tryAcquireService => Except String Bool
  | dropService => Unit
  | startOwnerWatchdog => Except String Unit
  | tryAcquireAccelerator => Except String Bool
  | loader _ => Except String Unit
  | createDirAll => Except String Unit
  | setParentPermissions => Except String Unit
  | removeFile => Except RemoveError Unit
  | bindListener => Except String Unit
  | storeBound _ => Unit
  | setPermissions => Except String Unit
  | spawnAccept => Except String Unit
  | startRequestWatchdog => Except String Unit
  | nextRequest => Except String Unit
  | readOwner => Except String ℕ
  | loadBound => Bool

/-- The calls of a broker process. -/
abbrev sig : Sig := ⟨Op, Op.Ret⟩

/-- `Path::is_absolute`. -/
def isAbsolute (path : String) : Bool := path.toList.head? == some '/'

/-- Whether `Path::parent` finds a parent of an absolute path: it has a component besides its
root. -/
def hasParent (path : String) : Bool :=
  (path.toList.splitOn '/').any fun part => part != [] && part != ['.']

/-- The stale socket is unlinked, if there is one. -/
def removeStale : Prog sig (Except String Unit) := do
  match ← perform (S := sig) .removeFile with
  | .ok () => return .ok ()
  | .error .notFound => return .ok ()
  | .error (.other err) => return .error err

/-- `bind` of the Unix transport once the path is known to be usable. -/
def bindPath : Prog sig (Except String Unit) :=
  attempt (perform (S := sig) .createDirAll) fun () =>
  attempt (perform (S := sig) .setParentPermissions) fun () =>
  attempt removeStale fun () =>
  attempt (perform (S := sig) .bindListener) fun () => do
    perform (S := sig) (.storeBound true)
    match ← perform (S := sig) .setPermissions with
    | .error err =>
      perform (S := sig) (.storeBound false)
      let _ ← perform (S := sig) .removeFile
      return .error err
    | .ok () => return .ok ()

/-- `bind` of the Unix transport. -/
def bind (path : String) : Prog sig (Except String Unit) :=
  if !isAbsolute path then .ret (.error "Unix broker endpoint must be absolute")
  else if !hasParent path then .ret (.error "broker endpoint has no parent")
  else bindPath

/-- `bind_and_accept`. -/
def bindAndAccept (path : String) : Prog sig (Except String Unit) :=
  attempt (bind path) fun () => perform (S := sig) .spawnAccept

/-- One turn of the scheduler loop, which only a panic ends. -/
def serveRequest (_ : Unit) : Prog sig (Unit ⊕ Except String Unit) := do
  match ← perform (S := sig) .nextRequest with
  | .error panic => return .inr (.error panic)
  | .ok () => return .inl ()

/-- `serve_with_loader` from where it has the service lease. -/
def serveLeased (path : String) : Prog sig (Except String Unit) :=
  attempt (perform (S := sig) .startOwnerWatchdog) fun () =>
  attempt (perform (S := sig) .tryAcquireAccelerator) fun acceleratorLease =>
  attempt (perform (S := sig) (.loader acceleratorLease)) fun () =>
  attempt (bindAndAccept path) fun () =>
  attempt (perform (S := sig) .startRequestWatchdog) fun () =>
  Prog.iterate serveRequest ()

/-- `serve_with_loader`.  Its service lease is the last of its values to be dropped. -/
def serveWithLoader (path : String) : Prog sig (Except String Unit) := do
  match ← perform (S := sig) .tryAcquireService with
  | .error err => return .error err
  | .ok false => return .ok ()
  | .ok true =>
    let result ← serveLeased path
    perform (S := sig) .dropService
    return result

/-- What the owner watchdog does when the owner is gone, before it exits the process. -/
def ownerGone : Prog sig (Unit ⊕ Except String Unit) := do
  if ← perform (S := sig) .loadBound then
    let _ ← perform (S := sig) .removeFile
  return .inr (.ok ())

/-- The thread of `OwnerWatchdog::start`; where it ends, it exits the process. -/
def ownerWatchdog : Prog sig (Except String Unit) :=
  Prog.iterate (fun () => do
    match ← perform (S := sig) .readOwner with
    | .ok (_ + 1) => return .inl ()
    | .ok 0 => ownerGone
    | .error _ => ownerGone) ()

/-! ## The machine -/

/-- What becomes of one process. -/
structure Process where
  /-- Which of all acquisitions of the service lock was its own. -/
  turn : Option ℕ
  /-- Its owner watchdog has been started. -/
  watched : Bool
  /-- `endpoint_bound`. -/
  bound : Bool
  /-- Its lease has been dropped: `serve_with_loader` is over. -/
  returned : Bool
  /-- It has exited or crashed. -/
  ended : Bool

/-- The service lock, the socket at the endpoint path and the processes. -/
structure State where
  /-- The process that holds the service lock. -/
  holder : Option ℕ
  /-- How often the service lock has been acquired. -/
  acquired : ℕ
  /-- The process that bound the socket at the endpoint path. -/
  socket : Option ℕ
  /-- What has become of each process. -/
  process : ℕ → Process

/-- The participant that is the first thread of a process. -/
def mainOf (p : ℕ) : ℕ := 2 * p

/-- The participant that is the owner watchdog of a process. -/
def watchdogOf (p : ℕ) : ℕ := 2 * p + 1

/-- The process a participant is a thread of. -/
def processOf (pid : ℕ) : ℕ := pid / 2

@[simp] theorem processOf_mainOf (p : ℕ) : processOf (mainOf p) = p := by
  simp only [processOf, mainOf]
  omega

@[simp] theorem processOf_watchdogOf (p : ℕ) : processOf (watchdogOf p) = p := by
  simp only [processOf, watchdogOf]
  omega

theorem mainOf_ne_watchdogOf (p q : ℕ) : mainOf p ≠ watchdogOf q := by
  simp only [mainOf, watchdogOf]
  omega

/-- A participant is one of the two threads of its process. -/
theorem eq_mainOf_or_watchdogOf (pid : ℕ) :
    pid = mainOf (processOf pid) ∨ pid = watchdogOf (processOf pid) := by
  simp only [mainOf, watchdogOf, processOf]
  omega

namespace State

variable (s : State)

/-- The state with something changed about one process. -/
def setProcess (p : ℕ) (process : Process) : State :=
  { s with process := Function.update s.process p process }

/-- The lock is free when `p` was the one to hold it. -/
def release (p : ℕ) : Option ℕ := if s.holder = some p then none else s.holder

/-- `p` acquires the service lock. -/
def acquire (p : ℕ) : State :=
  { s.setProcess p { s.process p with turn := some s.acquired } with
    holder := some p, acquired := s.acquired + 1 }

/-- `p` drops its service lease. -/
def drop (p : ℕ) : State :=
  { s.setProcess p { s.process p with returned := true } with holder := s.release p }

/-- `p` is over, and its lock with it. -/
def exit (p : ℕ) : State :=
  { s.setProcess p { s.process p with ended := true } with holder := s.release p }

end State

/-- What a call of a live process does. -/
def execOf (p : ℕ) (s : State) : (o : Op) → o.Ret → Option State
  | .tryAcquireService, .ok true => if s.holder = none then some (s.acquire p) else none
  | .tryAcquireService, .ok false => if s.holder = none then none else some s
  | .dropService, _ => some (s.drop p)
  | .startOwnerWatchdog, .ok _ =>
    some (s.setProcess p { s.process p with watched := true })
  | .removeFile, .ok _ => if s.socket = none then none else some { s with socket := none }
  | .removeFile, .error .notFound => if s.socket = none then some s else none
  | .bindListener, .ok _ => if s.socket = none then some { s with socket := some p } else none
  | .storeBound bound, _ => some (s.setProcess p { s.process p with bound := bound })
  | .loadBound, bound => if bound = (s.process p).bound then some s else none
  | _, _ => some s

/-- What a thread does: a process with the program `serveWithLoader`, or its owner watchdog. -/
inductive Job where
  /-- The first thread, `serve_with_loader`. -/
  | serve
  /-- The second thread, which watches the owner. -/
  | ownerWatchdog
  deriving DecidableEq, Repr

/-- Where a thread may start: a process any time, an owner watchdog once its process has started
it. -/
def startOf (pid : ℕ) (s : State) : Job → Option State
  | .serve => if pid = mainOf (processOf pid) then some s else none
  | .ownerWatchdog =>
    if pid = watchdogOf (processOf pid) ∧ (s.process (processOf pid)).watched then some s else none

/-- Broker processes with one service lock and one endpoint.  The threads of a process that is over
get no more answers. -/
def endpoint (path : String) : Machine sig Job (Except String Unit) where
  State := State
  init := ⟨none, 0, none, fun _ => ⟨none, false, false, false, false⟩⟩
  main := fun job => match job with
    | .serve => serveWithLoader path
    | .ownerWatchdog => ownerWatchdog
  start pid job s := startOf pid s job
  exec pid s o r := if (s.process (processOf pid)).ended then none else execOf (processOf pid) s o r
  leave pid s := s.exit (processOf pid)
  kill pid s := some (s.exit (processOf pid))

/-! ## What a thread keeps to -/

/-- Where a thread stands with respect to the service lease of its process. -/
inductive Duty where
  /-- The first thread, before its attempt at the lock. -/
  | fresh
  /-- The first thread, with the lease in scope. -/
  | holding
  /-- The first thread, without the lease for good. -/
  | over
  /-- The owner watchdog. -/
  | watching

/-- How a thread may use the lock and the endpoint: the first thread touches the endpoint while it
has the lease, and of the owner watchdog it is only known that it binds nothing. -/
def duties : Prog.Protocol sig Duty where
  pre duty o :=
    match duty with
    | .fresh => o = .tryAcquireService
    | .holding => o ≠ .tryAcquireService
    | .over => False
    | .watching => o = .readOwner ∨ o = .loadBound ∨ o = .removeFile
  allowed _ _ _ := True
  next duty o r :=
    match o, r with
    | .tryAcquireService, .ok true => .holding
    | .tryAcquireService, _ => .over
    | .dropService, _ => .over
    | _, _ => duty

/-- The calls that a thread with the lease makes without giving it up. -/
def Op.KeepsLease (o : Op) : Prop := o ≠ .tryAcquireService ∧ o ≠ .dropService

theorem next_of_keepsLease {o : Op} (ho : o.KeepsLease) (duty : Duty) (r : o.Ret) :
    duties.next duty o r = duty := by
  cases o with
  | tryAcquireService => exact absurd rfl ho.1
  | dropService => exact absurd rfl ho.2
  | _ => rfl

/-- A call that keeps the lease, and what comes after it. -/
theorem perform_follows {o : Op} (ho : o.KeepsLease) {Q : o.Ret → Duty → Prop}
    (hQ : ∀ r, Q r .holding) : Follows duties (perform (S := sig) o) .holding Q := by
  refine ⟨ho.1, fun r _ => ?_⟩
  rw [next_of_keepsLease ho]
  exact hQ r

/-- A step of the start-up that keeps the lease, whether it succeeds or not. -/
theorem attempt_follows {α β : Type} {p : Prog sig (Except String α)}
    {k : α → Prog sig (Except String β)}
    (hp : Follows duties p .holding fun _ duty => duty = .holding)
    (hk : ∀ a, Follows duties (k a) .holding fun _ duty => duty = .holding) :
    Follows duties (attempt p k) .holding fun _ duty => duty = .holding := by
  refine Follows.attempt (hp.mono ?_)
  rintro (err | a) duty rfl
  · rfl
  · exact hk a

theorem removeStale_follows :
    Follows duties removeStale .holding fun _ duty => duty = .holding := by
  refine ⟨by simp [duties], fun answer _ => ?_⟩
  rcases answer with (_ | err) | _
  · rfl
  · rfl
  · rfl

theorem bindPath_follows :
    Follows duties bindPath .holding fun _ duty => duty = .holding := by
  refine attempt_follows (perform_follows (by simp [Op.KeepsLease]) fun _ => rfl) fun _ => ?_
  refine attempt_follows (perform_follows (by simp [Op.KeepsLease]) fun _ => rfl) fun _ => ?_
  refine attempt_follows removeStale_follows fun _ => ?_
  refine attempt_follows (perform_follows (by simp [Op.KeepsLease]) fun _ => rfl) fun _ => ?_
  refine ⟨by simp [duties], fun _ _ => ⟨by simp [duties], fun answer _ => ?_⟩⟩
  cases answer with
  | error err => exact ⟨by simp [duties], fun _ _ => ⟨by simp [duties], fun _ _ => rfl⟩⟩
  | ok _ => rfl

theorem bind_follows (path : String) :
    Follows duties (bind path) .holding fun _ duty => duty = .holding := by
  rw [bind]
  split
  · rfl
  split
  · rfl
  exact bindPath_follows

/-- With the lease, a process keeps it through all of its start-up and its loop. -/
theorem serveLeased_follows (path : String) :
    Follows duties (serveLeased path) .holding fun _ duty => duty = .holding := by
  refine attempt_follows (perform_follows (by simp [Op.KeepsLease]) fun _ => rfl) fun _ => ?_
  refine attempt_follows (perform_follows (by simp [Op.KeepsLease]) fun _ => rfl) fun _ => ?_
  refine attempt_follows (perform_follows (by simp [Op.KeepsLease]) fun _ => rfl) fun _ => ?_
  refine attempt_follows (attempt_follows (bind_follows path) fun _ => ?_) fun _ => ?_
  · exact perform_follows (by simp [Op.KeepsLease]) fun _ => rfl
  refine attempt_follows (perform_follows (by simp [Op.KeepsLease]) fun _ => rfl) fun _ => ?_
  refine Follows.iterate (fun _ duty => duty = .holding) rfl ?_
  rintro _ _ rfl
  refine ⟨by simp [duties], fun answer _ => ?_⟩
  cases answer with
  | error panic => rfl
  | ok _ => rfl

/-- **The first thread** touches the endpoint only while it has the lease. -/
theorem serveWithLoader_follows (path : String) :
    Follows duties (serveWithLoader path) .fresh fun _ duty => duty = .over := by
  refine ⟨rfl, fun answer _ => ?_⟩
  rcases answer with err | _ | _
  · rfl
  · rfl
  · refine Follows.bind (p := serveLeased path) ((serveLeased_follows path).mono ?_)
    rintro result _ rfl
    exact ⟨by simp [duties], fun _ _ => rfl⟩

theorem ownerGone_follows :
    Follows duties ownerGone .watching fun _ duty => duty = .watching := by
  refine ⟨by simp [duties], fun bound _ => ?_⟩
  cases bound with
  | false => rfl
  | true => exact ⟨by simp [duties], fun _ _ => rfl⟩

/-- The owner watchdog binds nothing. -/
theorem ownerWatchdog_follows :
    Follows duties ownerWatchdog .watching fun _ duty => duty = .watching := by
  refine Follows.iterate (fun _ duty => duty = .watching) rfl ?_
  rintro _ _ rfl
  refine ⟨by simp [duties], fun answer _ => ?_⟩
  rcases answer with err | _ | n
  · refine ownerGone_follows.mono ?_
    rintro (_ | _) _ rfl <;> rfl
  · refine ownerGone_follows.mono ?_
    rintro (_ | _) _ rfl <;> rfl
  · rfl

/-! ## The service lock -/

/-- The process is up and its lease has not been dropped. -/
def Process.Owns (process : Process) : Prop :=
  process.turn.isSome ∧ process.returned = false ∧ process.ended = false

/-- The lock and the processes agree about who owns what, and the acquisitions are counted right. -/
structure Owners (s : State) : Prop where
  /-- A process holds the lock exactly if it owns it. -/
  holder : ∀ p, s.holder = some p ↔ (s.process p).Owns
  /-- Every turn is one of the acquisitions so far. -/
  past : ∀ p n, (s.process p).turn = some n → n < s.acquired
  /-- The holder of the lock is the latest to have acquired it. -/
  latest : ∀ p n, s.holder = some p → (s.process p).turn = some n → n + 1 = s.acquired
  /-- Only a process that has acquired the lock can have started its watchdog or dropped its
  lease. -/
  begun : ∀ p, (s.process p).watched = true ∨ (s.process p).returned = true →
    (s.process p).turn.isSome

/-- Nothing has happened to the lock, nor to what the processes have to do with it. -/
structure SameLease (s s' : State) : Prop where
  /-- The holder of the lock is the same. -/
  holder : s'.holder = s.holder
  /-- There has been no acquisition. -/
  acquired : s'.acquired = s.acquired
  /-- Every process is as it was, but for its flag. -/
  process : ∀ p, { s'.process p with bound := false } = { s.process p with bound := false }

theorem SameLease.refl (s : State) : SameLease s s := ⟨rfl, rfl, fun _ => rfl⟩

/-- What `SameLease` says of a process, field by field. -/
theorem SameLease.fields {s s' : State} (h : SameLease s s') (p : ℕ) :
    (s'.process p).turn = (s.process p).turn ∧ (s'.process p).watched = (s.process p).watched ∧
      (s'.process p).returned = (s.process p).returned ∧
      (s'.process p).ended = (s.process p).ended := by
  have hp := h.process p
  simp only [Process.mk.injEq] at hp
  exact ⟨hp.1, hp.2.1, hp.2.2.2⟩

theorem State.setProcess_self (s : State) (p : ℕ) (process : Process) :
    (s.setProcess p process).process p = process := Function.update_self ..

theorem State.setProcess_of_ne (s : State) {p q : ℕ} (hne : q ≠ p) (process : Process) :
    (s.setProcess p process).process q = s.process q := Function.update_of_ne hne ..

theorem State.release_eq_some (s : State) (p q : ℕ) :
    s.release p = some q ↔ s.holder = some q ∧ q ≠ p := by
  rw [State.release]
  split
  · rename_i hheld
    rw [hheld]
    simp only [reduceCtorEq, Option.some.injEq, false_iff, not_and, not_not]
    exact Eq.symm
  · rename_i hother
    refine ⟨fun h => ⟨h, ?_⟩, And.left⟩
    rintro rfl
    exact hother h

theorem Owners.same {s s' : State} (h : Owners s) (hsame : SameLease s s') : Owners s' := by
  refine ⟨fun p => ?_, fun p n => ?_, fun p n => ?_, fun p => ?_⟩
  all_goals obtain ⟨hturn, hwatched, hreturned, hended⟩ := hsame.fields p
  · rw [hsame.holder, Process.Owns, hturn, hreturned, hended]
    exact h.holder p
  · rw [hsame.acquired, hturn]
    exact h.past p n
  · rw [hsame.holder, hsame.acquired, hturn]
    exact h.latest p n
  · rw [hwatched, hreturned, hturn]
    exact h.begun p

/-- **Acquiring** the lock that nobody holds. -/
theorem Owners.acquire {s : State} (h : Owners s) {p : ℕ} (hfree : s.holder = none)
    (hturn : (s.process p).turn = none) (hended : (s.process p).ended = false) :
    Owners (s.acquire p) := by
  have hself : (s.acquire p).process p = { s.process p with turn := some s.acquired } :=
    s.setProcess_self p _
  have hothers : ∀ q, q ≠ p → (s.acquire p).process q = s.process q :=
    fun q hne => s.setProcess_of_ne hne _
  have hreturned : (s.process p).returned = false := by
    refine Bool.eq_false_iff.mpr fun hreturned => ?_
    have hsome := h.begun p (.inr hreturned)
    rw [hturn] at hsome
    cases hsome
  refine ⟨fun q => ?_, fun q n hq => ?_, fun q n hheld hq => ?_, fun q hq => ?_⟩
  · by_cases hne : q = p
    · subst hne
      rw [hself]
      exact ⟨fun _ => ⟨rfl, hreturned, hended⟩, fun _ => rfl⟩
    · rw [hothers q hne]
      refine ⟨fun hheld => absurd (Option.some.inj hheld).symm hne, fun howns => ?_⟩
      have hheld := (h.holder q).mpr howns
      rw [hfree] at hheld
      cases hheld
  · show n < s.acquired + 1
    by_cases hne : q = p
    · subst hne
      rw [hself] at hq
      have hn : s.acquired = n := Option.some.inj hq
      omega
    · rw [hothers q hne] at hq
      have hn := h.past q n hq
      omega
  · have hq' : q = p := (Option.some.inj hheld).symm
    subst hq'
    rw [hself] at hq
    exact congrArg (· + 1) (Option.some.inj hq).symm
  · by_cases hne : q = p
    · subst hne
      rw [hself]
      rfl
    · rw [hothers q hne] at hq ⊢
      exact h.begun q hq

/-- **Giving the lock up**, by dropping the lease or by coming to an end. -/
theorem Owners.released {s : State} (h : Owners s) {p : ℕ} {process : Process}
    (hturn : process.turn = (s.process p).turn)
    (hwatched : process.watched = (s.process p).watched)
    (hreturned : process.returned = true → (s.process p).turn.isSome)
    (hnot : ¬ process.Owns) : Owners { s.setProcess p process with holder := s.release p } := by
  have hself : ({ s.setProcess p process with holder := s.release p } : State).process p = process :=
    s.setProcess_self p _
  have hothers : ∀ q, q ≠ p →
      ({ s.setProcess p process with holder := s.release p } : State).process q = s.process q :=
    fun q hne => s.setProcess_of_ne hne _
  refine ⟨fun q => ?_, fun q n hq => ?_, fun q n hheld hq => ?_, fun q hq => ?_⟩
  · show s.release p = some q ↔ _
    rw [s.release_eq_some]
    by_cases hne : q = p
    · subst hne
      rw [hself]
      exact ⟨fun h => absurd rfl h.2, fun h => absurd h hnot⟩
    · rw [hothers q hne, ← h.holder q]
      exact ⟨And.left, fun hheld => ⟨hheld, hne⟩⟩
  · by_cases hne : q = p
    · subst hne
      rw [hself, hturn] at hq
      exact h.past q n hq
    · rw [hothers q hne] at hq
      exact h.past q n hq
  · obtain ⟨hheld, hne⟩ := (s.release_eq_some p q).mp hheld
    rw [hothers q hne] at hq
    exact h.latest q n hheld hq
  · by_cases hne : q = p
    · subst hne
      rw [hself] at hq ⊢
      rw [hturn]
      rcases hq with hq | hq
      · exact h.begun q (.inl (hwatched.symm.trans hq))
      · exact hreturned hq
    · rw [hothers q hne] at hq ⊢
      exact h.begun q hq

/-- Starting the owner watchdog. -/
theorem Owners.watch {s : State} (h : Owners s) {p : ℕ} (hturn : (s.process p).turn.isSome) :
    Owners (s.setProcess p { s.process p with watched := true }) := by
  have hself := s.setProcess_self p { s.process p with watched := true }
  have hothers : ∀ q, q ≠ p →
      (s.setProcess p { s.process p with watched := true }).process q = s.process q :=
    fun q hne => s.setProcess_of_ne hne _
  refine ⟨fun q => ?_, fun q n hq => ?_, fun q n hheld hq => ?_, fun q hq => ?_⟩
  all_goals by_cases hne : q = p
  · subst hne
    rw [hself]
    exact h.holder q
  · rw [hothers q hne]
    exact h.holder q
  · subst hne
    rw [hself] at hq
    exact h.past q n hq
  · rw [hothers q hne] at hq
    exact h.past q n hq
  · subst hne
    rw [hself] at hq
    exact h.latest q n hheld hq
  · rw [hothers q hne] at hq
    exact h.latest q n hheld hq
  · subst hne
    rw [hself]
    exact hturn
  · rw [hothers q hne] at hq ⊢
    exact h.begun q hq

/-- **The holder of the lock is the latest of all owners.** -/
theorem Owners.le_latest {s : State} (h : Owners s) {p q n m : ℕ} (hheld : s.holder = some p)
    (hp : (s.process p).turn = some n) (hq : (s.process q).turn = some m) : m ≤ n := by
  have hn := h.latest p n hheld hp
  have hm := h.past q m hq
  omega

/-! ## What a call can do -/

theorem sameLease_storeBound (s : State) (p : ℕ) (bound : Bool) :
    SameLease s (s.setProcess p { s.process p with bound := bound }) := by
  refine ⟨rfl, rfl, fun q => ?_⟩
  by_cases hne : q = p
  · subst hne
    rw [s.setProcess_self]
  · rw [s.setProcess_of_ne hne]

/-- What the calls do that have nothing to do with the lock. -/
theorem execOf_sameLease {p : ℕ} {s s' : State} {o : Op} {r : o.Ret}
    (h : execOf p s o r = some s') (hservice : o.KeepsLease) (hwatch : o ≠ .startOwnerWatchdog) :
    SameLease s s' := by
  cases o with
  | tryAcquireService => exact absurd rfl hservice.1
  | dropService => exact absurd rfl hservice.2
  | startOwnerWatchdog => exact absurd rfl hwatch
  | removeFile =>
    rcases r with (_ | err) | _
    · rw [execOf] at h
      split at h
      · cases h
        exact SameLease.refl s
      · cases h
    · cases h
      exact SameLease.refl s
    · rw [execOf] at h
      split at h
      · cases h
      · cases h
        exact ⟨rfl, rfl, fun _ => rfl⟩
  | bindListener =>
    rcases r with err | _
    · cases h
      exact SameLease.refl s
    · rw [execOf] at h
      split at h
      · cases h
        exact ⟨rfl, rfl, fun _ => rfl⟩
      · cases h
  | storeBound bound =>
    cases h
    exact sameLease_storeBound s p bound
  | loadBound =>
    rw [execOf] at h
    split at h
    · cases h
      exact SameLease.refl s
    · cases h
  | _ =>
    cases h
    exact SameLease.refl s

/-- What a permitted call can do to the lock. -/
inductive Effect (p : ℕ) (s : State) : Duty → (o : Op) → o.Ret → State → Prop where
  /-- The free lock is taken. -/
  | acquired (hfree : s.holder = none) :
    Effect p s .fresh .tryAcquireService (.ok true) (s.acquire p)
  /-- The lock is held by somebody else. -/
  | refused : Effect p s .fresh .tryAcquireService (.ok false) s
  /-- The attempt to take the lock fails. -/
  | failed (err : String) : Effect p s .fresh .tryAcquireService (.error err) s
  /-- The lease goes out of scope. -/
  | dropped : Effect p s .holding .dropService () (s.drop p)
  /-- The owner watchdog starts. -/
  | watched : Effect p s .holding .startOwnerWatchdog (.ok ())
      (s.setProcess p { s.process p with watched := true })
  /-- Any other call leaves the lease alone. -/
  | other {duty : Duty} {o : Op} {r : o.Ret} {s' : State} (hkeeps : o.KeepsLease)
      (hduty : duty = .holding ∨ duty = .watching) (hsame : SameLease s s') :
    Effect p s duty o r s'

/-- **Every permitted call has one of these effects.** -/
theorem effect_of_execOf {p : ℕ} {s s' : State} {duty : Duty} {o : Op} {r : o.Ret}
    (hpre : duties.pre duty o) (h : execOf p s o r = some s') : Effect p s duty o r s' := by
  cases duty with
  | fresh =>
    have ho : o = .tryAcquireService := hpre
    subst ho
    rcases r with err | _ | _
    · cases h
      exact .failed err
    · rw [execOf] at h
      split at h
      · cases h
      · cases h
        exact .refused
    · rw [execOf] at h
      split at h
      · rename_i hfree
        cases h
        exact .acquired hfree
      · cases h
  | holding =>
    have ho : o ≠ .tryAcquireService := hpre
    by_cases hdrop : o = .dropService
    · subst hdrop
      cases h
      exact .dropped
    by_cases hwatch : o = .startOwnerWatchdog
    · subst hwatch
      rcases r with err | _
      · cases h
        exact .other ⟨ho, hdrop⟩ (.inl rfl) (SameLease.refl s)
      · cases h
        exact .watched
    exact .other ⟨ho, hdrop⟩ (.inl rfl) (execOf_sameLease h ⟨ho, hdrop⟩ hwatch)
  | watching =>
    have hkeeps : o.KeepsLease ∧ o ≠ .startOwnerWatchdog := by
      rcases hpre with rfl | rfl | rfl
      all_goals simp [Op.KeepsLease]
    exact .other hkeeps.1 (.inr rfl) (execOf_sameLease h hkeeps.1 hkeeps.2)
  | _ => exact hpre.elim

/-! ## The outline -/

/-- The calls that touch the endpoint path. -/
def Op.Touches (o : Op) : Prop := o = .removeFile ∨ o = .bindListener

section

variable {path : String}

/-- The process has been refused the service lock. -/
def LostIn (log : List (endpoint path).Event) (p : ℕ) : Prop :=
  ∃ before, .called (mainOf p) before .tryAcquireService (.ok false) ∈ log

/-- A thread of the process has touched the endpoint. -/
def TouchedIn (log : List (endpoint path).Event) (p : ℕ) : Prop :=
  ∃ pid before o r, processOf pid = p ∧ o.Touches ∧ .called pid before o r ∈ log

/-- The lock and the history agree with where a thread stands. -/
def StandsWith (log : List (endpoint path).Event) (s : State) (pid : ℕ) :
    Machine.Stage Duty → Prop
  | .unborn => pid = mainOf (processOf pid) →
    (s.process (processOf pid)).turn = none ∧ ¬ LostIn log (processOf pid)
  | .live .fresh => pid = mainOf (processOf pid) ∧
    (s.process (processOf pid)).turn = none ∧ ¬ LostIn log (processOf pid)
  | .live .holding => pid = mainOf (processOf pid) ∧
    (s.process (processOf pid)).turn.isSome ∧ (s.process (processOf pid)).returned = false
  | .live .watching => pid = watchdogOf (processOf pid) ∧
    (s.process (processOf pid)).turn.isSome
  | .live .over => True
  | .gone _ => True

/-- What holds of all processes together. -/
structure Inv (log : List (endpoint path).Event) (gs : ℕ → Machine.Stage Duty) (s : State) :
    Prop where
  /-- The lock and the processes agree. -/
  owners : Owners s
  /-- Every participant stands as its program says. -/
  stands : ∀ pid, StandsWith log s pid (gs pid)
  /-- A process that was refused the lock has had no turn. -/
  lost : ∀ p, LostIn log p → (s.process p).turn = none
  /-- Only a process that has had a turn touches the endpoint. -/
  touched : ∀ p, TouchedIn log p → (s.process p).turn.isSome

/-- The duties of the threads as an outline of the machine. -/
def endpointOutline : (endpoint path).Outline Duty where
  protocol := duties
  enter _ job := match job with
    | .serve => .fresh
    | .ownerWatchdog => .watching
  done _ _ := True
  inv := Inv

theorem lostIn_cons {log : List (endpoint path).Event} {e : (endpoint path).Event} {p : ℕ}
    (h : ∀ before, e ≠ .called (mainOf p) before .tryAcquireService (.ok false)) :
    LostIn (e :: log) p ↔ LostIn log p := by
  refine ⟨?_, fun ⟨before, hmem⟩ => ⟨before, List.mem_cons_of_mem _ hmem⟩⟩
  rintro ⟨before, hmem⟩
  exact ⟨before, (List.mem_cons.mp hmem).resolve_left fun heq => h before heq.symm⟩

theorem touchedIn_cons {log : List (endpoint path).Event} {e : (endpoint path).Event} {p : ℕ}
    (h : TouchedIn (e :: log) p) : TouchedIn log p ∨
      ∃ pid before o r, e = .called pid before o r ∧ processOf pid = p ∧ o.Touches := by
  obtain ⟨pid, before, o, r, hp, ho, hmem⟩ := h
  rcases List.mem_cons.mp hmem with heq | hmem
  · exact .inr ⟨pid, before, o, r, heq.symm, hp, ho⟩
  · exact .inl ⟨pid, before, o, r, hp, ho, hmem⟩

/-- A thread stands where it stood when nothing happens to its process that concerns it. -/
theorem StandsWith.frame {log log' : List (endpoint path).Event} {s s' : State} {pid : ℕ}
    {stage : Machine.Stage Duty} (h : StandsWith log s pid stage)
    (hturn : (s'.process (processOf pid)).turn = (s.process (processOf pid)).turn)
    (hreturned : (s'.process (processOf pid)).returned = (s.process (processOf pid)).returned)
    (hlost : pid = mainOf (processOf pid) →
      (LostIn log' (processOf pid) ↔ LostIn log (processOf pid))) :
    StandsWith log' s' pid stage := by
  rcases stage with _ | (_ | _ | _ | _) | _
  · refine fun hmain => ?_
    rw [hturn, hlost hmain]
    exact h hmain
  · obtain ⟨hmain, hrest⟩ := h
    refine ⟨hmain, ?_⟩
    rw [hturn, hlost hmain]
    exact hrest
  · obtain ⟨hmain, hrest⟩ := h
    refine ⟨hmain, ?_⟩
    rw [hturn, hreturned]
    exact hrest
  · trivial
  · obtain ⟨hwatchdog, hrest⟩ := h
    refine ⟨hwatchdog, ?_⟩
    rw [hturn]
    exact hrest
  · trivial

/-- The owner watchdog of a process cares only that the process once had the lock. -/
theorem StandsWith.frame_watchdog {log log' : List (endpoint path).Event} {s s' : State} {pid : ℕ}
    {stage : Machine.Stage Duty} (h : StandsWith log s pid stage)
    (hwatchdog : pid = watchdogOf (processOf pid))
    (hturn : (s.process (processOf pid)).turn.isSome →
      (s'.process (processOf pid)).turn.isSome) : StandsWith log' s' pid stage := by
  have hnot : pid ≠ mainOf (processOf pid) := by
    rw [hwatchdog, processOf_watchdogOf]
    exact (mainOf_ne_watchdogOf _ _).symm
  rcases stage with _ | (_ | _ | _ | _) | _
  · exact fun hmain => absurd hmain hnot
  · exact absurd h.1 hnot
  · exact absurd h.1 hnot
  · trivial
  · exact ⟨hwatchdog, hturn h.2⟩
  · trivial

/-- What a thread does leaves the others where they stand: the threads of other processes because
their processes are as they were, and the other thread of its own process because the first thread
changes nothing that the owner watchdog cares for, and the owner watchdog nothing at all. -/
theorem Inv.next {log : List (endpoint path).Event} {gs : ℕ → Machine.Stage Duty} {s s' : State}
    (h : Inv log gs s) {pid : ℕ} {stage : Machine.Stage Duty} {e : (endpoint path).Event}
    (hactor : e.actor = pid) (howners : Owners s')
    (hturn : ∀ q, (s.process q).turn.isSome → (s'.process q).turn.isSome)
    (hothers : ∀ q, q ≠ processOf pid → (s'.process q).turn = (s.process q).turn ∧
      (s'.process q).returned = (s.process q).returned)
    (hwatchdog : pid = watchdogOf (processOf pid) →
      (s'.process (processOf pid)).turn = (s.process (processOf pid)).turn ∧
        (s'.process (processOf pid)).returned = (s.process (processOf pid)).returned)
    (hself : StandsWith (e :: log) s' pid stage)
    (hlost : LostIn (e :: log) (processOf pid) → (s'.process (processOf pid)).turn = none)
    (htouched : ∀ before o r, e = .called pid before o r → o.Touches →
      (s'.process (processOf pid)).turn.isSome) :
    Inv (e :: log) (Function.update gs pid stage) s' := by
  have hlog : ∀ q, pid ≠ mainOf q → (LostIn (e :: log) q ↔ LostIn log q) := by
    refine fun q hne => lostIn_cons fun before heq => hne ?_
    rw [heq] at hactor
    exact hactor.symm
  refine ⟨howners, fun other => ?_, fun q hq => ?_, fun q hq => ?_⟩
  · by_cases hother : other = pid
    · rw [hother, Function.update_self]
      exact hself
    rw [Function.update_of_ne hother]
    have hstands := h.stands other
    by_cases hsame : processOf other = processOf pid
    · rcases eq_mainOf_or_watchdogOf pid with hpid | hpid
      · rcases eq_mainOf_or_watchdogOf other with hmain | hwatch
        · exact absurd (hmain.trans (hsame ▸ hpid.symm)) hother
        · exact hstands.frame_watchdog hwatch (hturn _)
      · rw [← hsame] at hwatchdog hpid
        refine hstands.frame (hwatchdog hpid).1 (hwatchdog hpid).2 fun _ => hlog _ ?_
        rw [hpid]
        exact (mainOf_ne_watchdogOf _ _).symm
    · refine hstands.frame (hothers _ hsame).1 (hothers _ hsame).2 fun _ => hlog _ ?_
      rintro rfl
      exact hsame (processOf_mainOf _).symm
  · by_cases hmine : q = processOf pid
    · subst hmine
      exact hlost hq
    · rw [(hothers q hmine).1]
      refine h.lost q ((hlog q ?_).mp hq)
      rintro rfl
      exact hmine (processOf_mainOf q).symm
  · rcases touchedIn_cons hq with hq | ⟨other, before, o, r, heq, rfl, ho⟩
    · exact hturn q (h.touched q hq)
    · have hsame : other = pid := by
        rw [heq] at hactor
        exact hactor
      subst hsame
      exact htouched before o r heq ho

theorem not_touches_tryAcquireService : ¬ Op.Touches .tryAcquireService := by
  simp [Op.Touches]

/-- A call that is no attempt at the lock is not one that was refused. -/
theorem lostIn_called {log : List (endpoint path).Event} {pid : ℕ} {s : State} {o : Op}
    {r : o.Ret} (ho : o ≠ .tryAcquireService) (p : ℕ) :
    LostIn ((.called pid s o r : (endpoint path).Event) :: log) p ↔ LostIn log p := by
  refine lostIn_cons fun before heq => ?_
  cases heq
  exact ho rfl

/-- A step that concerns the lease of one process leaves those of the others alone. -/
theorem setProcess_others (s : State) (p : ℕ) (process : Process) (q : ℕ) (hne : q ≠ p) :
    ((s.setProcess p process).process q).turn = (s.process q).turn ∧
      ((s.setProcess p process).process q).returned = (s.process q).returned := by
  rw [s.setProcess_of_ne hne]
  exact ⟨rfl, rfl⟩

/-- Once a process has had the lock, that is so for good. -/
theorem setProcess_turn (s : State) (p : ℕ) {process : Process}
    (h : (s.process p).turn.isSome → process.turn.isSome) (q : ℕ)
    (hq : (s.process q).turn.isSome) : ((s.setProcess p process).process q).turn.isSome := by
  by_cases hne : q = p
  · subst hne
    rw [s.setProcess_self]
    exact h hq
  · rwa [s.setProcess_of_ne hne]

/-- **A permitted call keeps the invariant.** -/
theorem Inv.call {log : List (endpoint path).Event} {gs : ℕ → Machine.Stage Duty} {s s' : State}
    (h : Inv log gs s) {pid : ℕ} {duty : Duty} {o : Op} {r : o.Ret}
    (hlive : gs pid = .live duty) (hended : (s.process (processOf pid)).ended = false)
    (heffect : Effect (processOf pid) s duty o r s') :
    Inv (.called pid s o r :: log)
      (Function.update gs pid (.live (duties.next duty o r))) s' := by
  have hstands := h.stands pid
  rw [hlive] at hstands
  have hmain : pid = mainOf (processOf pid) → pid ≠ watchdogOf (processOf pid) := by
    intro hmain hwatchdog
    exact mainOf_ne_watchdogOf _ _ (hmain.symm.trans hwatchdog)
  cases heffect with
  | acquired hfree =>
    obtain ⟨hpid, hnone, hlost⟩ := hstands
    have hself := s.setProcess_self (processOf pid)
      { s.process (processOf pid) with turn := some s.acquired }
    have hreturned : (s.process (processOf pid)).returned = false := by
      refine Bool.eq_false_iff.mpr fun hreturned => ?_
      have hsome := h.owners.begun _ (.inr hreturned)
      rw [hnone] at hsome
      cases hsome
    have hnot : ¬ LostIn ((.called pid s .tryAcquireService (.ok true) :
        (endpoint path).Event) :: log) (processOf pid) := by
      refine fun hnow => hlost ((lostIn_cons fun before heq => ?_).mp hnow)
      injection heq with _ _ _ hr
      cases hr
    refine h.next rfl (h.owners.acquire hfree hnone hended)
      (setProcess_turn s _ fun _ => rfl) (setProcess_others s _ _)
      (fun hwatchdog => absurd hwatchdog (hmain hpid)) ⟨hpid, ?_, ?_⟩
      (fun hnow => absurd hnow hnot) ?_
    · show ((s.setProcess _ _).process _).turn.isSome
      rw [hself]
      rfl
    · show ((s.setProcess _ _).process _).returned = false
      rw [hself]
      exact hreturned
    · rintro before o r ⟨⟩ ho
      exact absurd ho not_touches_tryAcquireService
  | refused =>
    obtain ⟨hpid, hnone, -⟩ := hstands
    refine h.next rfl h.owners (fun _ => id) (fun _ _ => ⟨rfl, rfl⟩) (fun _ => ⟨rfl, rfl⟩)
      trivial (fun _ => hnone) ?_
    rintro before o r ⟨⟩ ho
    exact absurd ho not_touches_tryAcquireService
  | failed err =>
    obtain ⟨hpid, hnone, -⟩ := hstands
    refine h.next rfl h.owners (fun _ => id) (fun _ _ => ⟨rfl, rfl⟩) (fun _ => ⟨rfl, rfl⟩)
      trivial (fun _ => hnone) ?_
    rintro before o r ⟨⟩ ho
    exact absurd ho not_touches_tryAcquireService
  | dropped =>
    obtain ⟨hpid, hsome, -⟩ := hstands
    have howners : Owners (s.drop (processOf pid)) := by
      refine h.owners.released rfl rfl (fun _ => hsome) ?_
      rintro ⟨-, hreturned, -⟩
      cases hreturned
    have hturn : ∀ q, (s.process q).turn.isSome →
        ((s.drop (processOf pid)).process q).turn.isSome := setProcess_turn s _ id
    refine h.next rfl howners hturn (setProcess_others s _ _)
      (fun hwatchdog => absurd hwatchdog (hmain hpid)) trivial (fun hlost => ?_) ?_
    · have hnone := h.lost _ ((lostIn_called (by simp) _).mp hlost)
      rw [hnone] at hsome
      cases hsome
    · exact fun _ _ _ _ _ => hturn _ hsome
  | watched =>
    obtain ⟨hpid, hsome, hreturned⟩ := hstands
    have hself := s.setProcess_self (processOf pid)
      { s.process (processOf pid) with watched := true }
    have hturn : ∀ q, (s.process q).turn.isSome →
        ((s.setProcess (processOf pid)
          { s.process (processOf pid) with watched := true }).process q).turn.isSome :=
      setProcess_turn s _ id
    refine h.next rfl (h.owners.watch hsome) hturn (setProcess_others s _ _)
      (fun hwatchdog => absurd hwatchdog (hmain hpid)) ⟨hpid, hturn _ hsome, ?_⟩
      (fun hlost => ?_) ?_
    · rw [hself]
      exact hreturned
    · have hnone := h.lost _ ((lostIn_called (by simp) _).mp hlost)
      rw [hnone] at hsome
      cases hsome
    · exact fun _ _ _ _ _ => hturn _ hsome
  | other hkeeps hduty hsame =>
    have hlog : ∀ p, LostIn ((.called pid s o r : (endpoint path).Event) :: log) p ↔
        LostIn log p := lostIn_called hkeeps.1
    have hturn : ∀ q, (s'.process q).turn = (s.process q).turn := fun q => (hsame.fields q).1
    have hreturned : ∀ q, (s'.process q).returned = (s.process q).returned :=
      fun q => (hsame.fields q).2.2.1
    have hsome : (s.process (processOf pid)).turn.isSome := by
      rcases hduty with rfl | rfl
      · exact hstands.2.1
      · exact hstands.2
    rw [next_of_keepsLease hkeeps]
    refine h.next rfl (h.owners.same hsame) (fun q hq => ?_) (fun q _ => ⟨hturn q, hreturned q⟩)
      (fun _ => ⟨hturn _, hreturned _⟩) (hstands.frame (hturn _) (hreturned _) fun _ => hlog _)
      (fun hlost => ?_) (fun _ _ _ _ _ => ?_)
    · rwa [hturn]
    · rw [hturn]
      exact h.lost _ ((hlog _).mp hlost)
    · rwa [hturn]

/-- A process that comes to an end gives the lock up, and that is all. -/
theorem Inv.exit {log : List (endpoint path).Event} {gs : ℕ → Machine.Stage Duty} {s : State}
    (h : Inv log gs s) {pid : ℕ} {e : (endpoint path).Event} (hactor : e.actor = pid)
    (hevent : ∀ before o r, e ≠ .called pid before o r) (duty : Duty) :
    Inv (e :: log) (Function.update gs pid (.gone duty)) (s.exit (processOf pid)) := by
  have howners : Owners (s.exit (processOf pid)) := by
    refine h.owners.released rfl rfl (fun hreturned => h.owners.begun _ (.inr hreturned)) ?_
    rintro ⟨-, -, hended⟩
    cases hended
  have hturn : ((s.exit (processOf pid)).process (processOf pid)).turn =
      (s.process (processOf pid)).turn := by
    show ((s.setProcess _ _).process _).turn = _
    rw [s.setProcess_self]
  have hreturned : ((s.exit (processOf pid)).process (processOf pid)).returned =
      (s.process (processOf pid)).returned := by
    show ((s.setProcess _ _).process _).returned = _
    rw [s.setProcess_self]
  refine h.next hactor howners (setProcess_turn s _ id) (setProcess_others s _ _)
    (fun _ => ⟨hturn, hreturned⟩) trivial (fun hlost => ?_) ?_
  · rw [hturn]
    refine h.lost _ ((lostIn_cons fun before heq => ?_).mp hlost)
    rw [heq] at hactor
    have hpid : mainOf (processOf pid) = pid := hactor
    rw [hpid] at heq
    exact hevent _ _ _ heq
  · exact fun before o r heq => absurd heq (hevent before o r)

/-- A thread that starts is the first thread of its process, or the owner watchdog of a process
that has started it. -/
theorem startOf_some {pid : ℕ} {s s' : State} {job : Job} (h : startOf pid s job = some s') :
    s' = s ∧ match job with
      | .serve => pid = mainOf (processOf pid)
      | .ownerWatchdog =>
        pid = watchdogOf (processOf pid) ∧ (s.process (processOf pid)).watched = true := by
  cases job with
  | serve =>
    rw [startOf] at h
    split at h
    · rename_i hmain
      exact ⟨(Option.some.inj h).symm, hmain⟩
    · cases h
  | ownerWatchdog =>
    rw [startOf] at h
    split at h
    · rename_i hwatchdog
      exact ⟨(Option.some.inj h).symm, hwatchdog⟩
    · cases h

theorem endpointOutline_valid : (endpointOutline : (endpoint path).Outline Duty).Valid where
  init := by
    refine ⟨⟨fun p => ⟨?_, ?_⟩, ?_, ?_, ?_⟩, fun pid _ => ⟨rfl, ?_⟩, ?_, ?_⟩
    · exact fun h => nomatch h
    · exact fun h => nomatch h.1
    · exact fun _ _ h => nomatch h
    · exact fun _ _ h => nomatch h
    · rintro p (h | h)
      · exact nomatch h
      · exact nomatch h
    · rintro ⟨before, hmem⟩
      cases hmem
    · exact fun _ _ => rfl
    · rintro p ⟨pid, before, o, r, -, -, hmem⟩
      cases hmem
  main pid job s s' _ := by
    cases job with
    | serve => exact (serveWithLoader_follows path).mono fun _ _ _ => trivial
    | ownerWatchdog => exact ownerWatchdog_follows.mono fun _ _ _ => trivial
  start := by
    intro log gs s pid job s' hinv hunborn hstart
    have hstands := hinv.stands pid
    rw [hunborn] at hstands
    have hlog : ∀ q, LostIn ((.started pid job : (endpoint path).Event) :: log) q ↔ LostIn log q :=
      fun q => lostIn_cons fun _ heq => nomatch heq
    obtain ⟨rfl, hjob⟩ := startOf_some hstart
    refine hinv.next rfl hinv.owners (fun _ => id) (fun _ _ => ⟨rfl, rfl⟩) (fun _ => ⟨rfl, rfl⟩)
      ?_ (fun hlost => hinv.lost _ ((hlog _).mp hlost)) fun _ _ _ heq => nomatch heq
    cases job with
    | serve =>
      obtain ⟨hturn, hlost⟩ := hstands hjob
      exact ⟨hjob, hturn, fun hnow => hlost ((hlog _).mp hnow)⟩
    | ownerWatchdog => exact ⟨hjob.1, hinv.owners.begun _ (.inl hjob.2)⟩
  allowed := fun _ _ _ _ _ _ _ _ _ => trivial
  call := by
    intro log gs s pid duty o r s' hinv hlive hpre hexec
    have hexec : (if (s.process (processOf pid)).ended then none
      else execOf (processOf pid) s o r) = some s' := hexec
    split at hexec
    · cases hexec
    · rename_i hended
      exact hinv.call hlive (Bool.eq_false_iff.mpr hended) (effect_of_execOf hpre hexec)
  finish := by
    intro log gs s pid duty result hinv _ _
    refine hinv.exit rfl ?_ duty
    exact fun _ _ _ heq => nomatch heq
  kill := by
    rintro log gs s pid duty s' hinv _ ⟨⟩
    refine hinv.exit rfl ?_ duty
    exact fun _ _ _ heq => nomatch heq

/-! ## Ownership -/

/-- `q` is up, and it acquired the lock after `p`, if `p` ever did. -/
def State.Succeeds (s : State) (q p : ℕ) : Prop :=
  (s.process q).ended = false ∧
    ∃ m, (s.process q).turn = some m ∧ ∀ n, (s.process p).turn = some n → n < m

/-- The endpoint is in the hands of the lease holder alone. -/
structure SingleOwner (log : List (endpoint path).Event) : Prop where
  /-- Who unlinks or binds it holds the service lease at that moment. -/
  holder : ∀ pid before o r, .called pid before o r ∈ log → o.Touches →
    before.holder = some (processOf pid)
  /-- Who lost the attempt at the lock never touches it. -/
  loser : ∀ p, LostIn log p → ¬ TouchedIn log p
  /-- Nobody unlinks the socket of a live successor. -/
  successor : ∀ pid before q, .called pid before .removeFile (.ok ()) ∈ log →
    before.socket = some q → ¬ before.Succeeds q (processOf pid)

/-- No owner watchdog unlinks the endpoint once its process has left `serve_with_loader`. -/
def WatchdogsInTime (log : List (endpoint path).Event) : Prop :=
  ∀ p before r, .called (watchdogOf p) before .removeFile r ∈ log →
    (before.process p).returned = false

/-- What holds of the state that a thread touches the endpoint in. -/
theorem touch_spec {c : (endpoint path).Config} (h : (endpoint path).Reachable c) {pid : ℕ}
    {before : State} {o : Op} {r : o.Ret} (hmem : .called pid before o r ∈ c.log)
    (ho : o.Touches) :
    Owners before ∧ (before.process (processOf pid)).turn.isSome ∧
      (before.process (processOf pid)).ended = false ∧
      (pid = mainOf (processOf pid) ∧ (before.process (processOf pid)).returned = false ∨
        pid = watchdogOf (processOf pid) ∧ o = .removeFile) := by
  obtain ⟨log, gs, duty, hinv, hlive, hpre⟩ :=
    Machine.Outline.called endpointOutline_valid h hmem
  have hended : (before.process (processOf pid)).ended = false := by
    obtain ⟨s', hexec⟩ := h.exec_of_called hmem
    have hexec : (if (before.process (processOf pid)).ended then none
      else execOf (processOf pid) before o r) = some s' := hexec
    split at hexec
    · cases hexec
    · rename_i hup
      exact Bool.eq_false_iff.mpr hup
  have hstands := Inv.stands hinv pid
  rw [hlive] at hstands
  cases duty with
  | fresh =>
    have hservice : o = .tryAcquireService := hpre
    rw [hservice] at ho
    exact absurd ho not_touches_tryAcquireService
  | holding =>
    obtain ⟨hmain, hsome, hreturned⟩ := hstands
    exact ⟨hinv.owners, hsome, hended, .inl ⟨hmain, hreturned⟩⟩
  | watching =>
    refine ⟨hinv.owners, hstands.2, hended, .inr ⟨hstands.1, ?_⟩⟩
    -- of the calls an owner watchdog makes only the unlinking touches the endpoint
    rcases hpre with rfl | rfl | rfl
    · simp [Op.Touches] at ho
    · simp [Op.Touches] at ho
    · rfl
  | _ => exact (show False from hpre).elim

/-- **The endpoint has a single owner**, the holder of the service lease, in exactly the runs in
which no owner watchdog unlinks it after its process has left `serve_with_loader`. -/
theorem endpoint_isSingleOwner_iff {c : (endpoint path).Config}
    (h : (endpoint path).Reachable c) : SingleOwner c.log ↔ WatchdogsInTime c.log := by
  constructor
  · intro hsingle p before r hmem
    obtain ⟨howners, -⟩ := touch_spec h hmem (.inl rfl)
    have hheld := hsingle.holder _ _ _ _ hmem (.inl rfl)
    rw [processOf_watchdogOf] at hheld
    exact ((howners.holder p).mp hheld).2.1
  · intro hintime
    have hholder : ∀ pid before o r, .called pid before o r ∈ c.log → o.Touches →
        before.holder = some (processOf pid) := by
      intro pid before o r hmem ho
      obtain ⟨howners, hsome, hended, ⟨-, hreturned⟩ | ⟨hwatchdog, rfl⟩⟩ := touch_spec h hmem ho
      · exact (howners.holder _).mpr ⟨hsome, hreturned, hended⟩
      · rw [hwatchdog] at hmem
        exact (howners.holder _).mpr ⟨hsome, hintime _ _ _ hmem, hended⟩
    refine ⟨hholder, fun p hlost htouched => ?_, fun pid before q hmem _ hsucceeds => ?_⟩
    · obtain ⟨gs, hinv, -⟩ := Machine.Outline.reachable endpointOutline_valid h
      have hsome := Inv.touched hinv p htouched
      rw [Inv.lost hinv p hlost] at hsome
      cases hsome
    · obtain ⟨howners, hsome, -⟩ := touch_spec h hmem (.inl rfl)
      obtain ⟨n, hn⟩ := Option.isSome_iff_exists.mp hsome
      obtain ⟨-, m, hm, hlater⟩ := hsucceeds
      have hle := howners.le_latest (hholder _ _ _ _ hmem (.inl rfl)) hn hm
      have hlt := hlater n hn
      omega

end

/-- A single owner in the run of one process whose owner goes away once the endpoint is bound. -/
theorem endpoint_isSingleOwner_iff_ownerGone :
    ∃ c : (endpoint "/run/broker.sock").Config, (endpoint "/run/broker.sock").Reachable c ∧
      c.shared.socket = none ∧ (SingleOwner c.log ↔ WatchdogsInTime c.log) := by
  have started := Machine.Reachable.step Machine.Reachable.start
    (Machine.Step.start (M := endpoint "/run/broker.sock") 0 .serve rfl rfl)
  have service := started.step (.call 0 (Except.ok true) rfl rfl)
  have watched := service.step (.call 0 (Except.ok ()) rfl rfl)
  have accelerator := watched.step (.call 0 (Except.ok true) rfl rfl)
  have loaded := accelerator.step (.call 0 (Except.ok ()) rfl rfl)
  have created := loaded.step (.call 0 (Except.ok ()) rfl rfl)
  have restricted := created.step (.call 0 (Except.ok ()) rfl rfl)
  have removed := restricted.step (.call 0 (Except.error .notFound) rfl rfl)
  have bound := removed.step (.call 0 (Except.ok ()) rfl rfl)
  have flagged := bound.step (.call 0 () rfl rfl)
  have watchdog := flagged.step (.start 1 .ownerWatchdog rfl rfl)
  have turn := watchdog.step (.turn 1 rfl)
  have eof := turn.step (.call 1 (Except.ok 0) rfl rfl)
  have decided := eof.step (.call 1 true rfl rfl)
  have unlinked := decided.step (.call 1 (Except.ok ()) rfl rfl)
  exact ⟨_, unlinked, rfl, endpoint_isSingleOwner_iff unlinked⟩

/-- An owner watchdog takes the socket of a live successor away.  Process 0 binds the endpoint and
cannot start its accept thread, so it leaves `serve_with_loader` with its flag set; process 1
acquires the lock and binds the endpoint; and then the owner of process 0 goes away. -/
theorem endpoint_steals_socket :
    ∃ c : (endpoint "/run/broker.sock").Config, (endpoint "/run/broker.sock").Reachable c ∧
      (∃ before : State, .called (watchdogOf 0) before .removeFile (.ok ()) ∈ c.log ∧
        before.holder = some 1 ∧ before.socket = some 1) ∧
      ¬ SingleOwner c.log := by
  have started := Machine.Reachable.step Machine.Reachable.start
    (Machine.Step.start (M := endpoint "/run/broker.sock") 0 .serve rfl rfl)
  have service := started.step (.call 0 (Except.ok true) rfl rfl)
  have watched := service.step (.call 0 (Except.ok ()) rfl rfl)
  have accelerator := watched.step (.call 0 (Except.ok true) rfl rfl)
  have loaded := accelerator.step (.call 0 (Except.ok ()) rfl rfl)
  have created := loaded.step (.call 0 (Except.ok ()) rfl rfl)
  have restricted := created.step (.call 0 (Except.ok ()) rfl rfl)
  have removed := restricted.step (.call 0 (Except.error .notFound) rfl rfl)
  have bound := removed.step (.call 0 (Except.ok ()) rfl rfl)
  have flagged := bound.step (.call 0 () rfl rfl)
  have permitted := flagged.step (.call 0 (Except.ok ()) rfl rfl)
  -- the accept thread cannot be started, and the lease goes out of scope
  have failed := permitted.step (.call 0 (Except.error "no more threads") rfl rfl)
  have dropped := failed.step (.call 0 () rfl rfl)
  have started' := dropped.step (.start 2 .serve rfl rfl)
  have service' := started'.step (.call 2 (Except.ok true) rfl rfl)
  have watched' := service'.step (.call 2 (Except.ok ()) rfl rfl)
  have accelerator' := watched'.step (.call 2 (Except.ok true) rfl rfl)
  have loaded' := accelerator'.step (.call 2 (Except.ok ()) rfl rfl)
  have created' := loaded'.step (.call 2 (Except.ok ()) rfl rfl)
  have restricted' := created'.step (.call 2 (Except.ok ()) rfl rfl)
  have removed' := restricted'.step (.call 2 (Except.ok ()) rfl rfl)
  have bound' := removed'.step (.call 2 (Except.ok ()) rfl rfl)
  -- the owner watchdog of the first process goes by a flag that nobody has taken back
  have watchdog := bound'.step (.start 1 .ownerWatchdog rfl rfl)
  have turn := watchdog.step (.turn 1 rfl)
  have eof := turn.step (.call 1 (Except.ok 0) rfl rfl)
  have decided := eof.step (.call 1 true rfl rfl)
  have stolen := decided.step (.call 1 (Except.ok ()) rfl rfl)
  refine ⟨_, stolen, ⟨_, List.mem_cons_self, rfl, rfl⟩, fun hsingle => ?_⟩
  have hheld := hsingle.holder _ _ _ _ List.mem_cons_self (.inl rfl)
  have hnot : (some 1 : Option ℕ) = some 0 := hheld
  cases hnot

end Endpoint

end SemanticSidecar
