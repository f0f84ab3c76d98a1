import SemanticSidecar.Lib.Pool
import Mathlib.Data.List.Basic

/-!
# Cancelling a call on a Windows pipe

A thread that reads from a broker connection starts an overlapped operation and then waits for it,
for as long as the other side says nothing.  `cancel_io` is how another thread gets it back, and it
cannot know how far the call is: it raises a flag, for a call that has not started its operation,
and cancels what is outstanding, for one that has.  The call for its part looks at the flag once
its operation is under way.

`overlapped_handshake` is that none of the orders in which this can happen loses the cancellation:
no thread is left waiting for an operation that has not been cancelled when a `cancel_io` that
began after its call has returned.  It also shows that the memory of an operation is never freed
while the operation is outstanding, and that a call fails as cancelled only if somebody asked.

The calls on one connection are made one after the other, as the thread of a connection makes
them.  With two at a time the flag can be taken by the one that does not need it:
`not_handshake_of_shared`.
-/

set_option autoImplicit false

namespace SemanticSidecar.Windows

open Prog (perform Follows)

/-! ## The calls of the system -/

/-- `ERROR_IO_PENDING`. -/
def errorIoPending : ℕ := 997

/-- `ERROR_NOT_FOUND`. -/
def errorNotFound : ℕ := 1168

/-- `ERROR_OPERATION_ABORTED`. -/
def errorOperationAborted : ℕ := 995

/-- The operations on a pipe. -/
inductive IoKind where
  /-- `ReadFile`. -/
  | readFile
  /-- `WriteFile`. -/
  | writeFile
  deriving DecidableEq

/-- A call of the system, or on the flag of the connection. -/
inductive PipeOp where
  /-- `CreateEventW`. -/
  | createEvent
  /-- `ReadFile` or `WriteFile`, of so many bytes. -/
  | start (kind : IoKind) (size : ℕ)
  /-- `cancel_requested.swap(false)`. -/
  | swapRequested
  /-- `CancelIoEx` for the operation of the caller. -/
  | cancelOwn
  /-- `GetOverlappedResult`, which waits for the operation of the caller. -/
  | overlappedResult
  /-- The memory of the operation is given back. -/
  | free
  /-- `cancel_requested.store(true)`. -/
  | storeRequested
  /-- `CancelIoEx` for whatever is outstanding on the pipe. -/
  | cancelAll
  deriving DecidableEq

/-- What a call is answered with; an error is a code of the system. -/
@[reducible] def PipeOp.Ret : PipeOp → Type
  | .createEvent | .cancelAll => Except ℕ Unit
  | .start _ _ | .overlappedResult => Except ℕ ℕ
  | .swapRequested => Bool
  | .cancelOwn | .free | .storeRequested => Unit

/-- The calls of the threads of a connection. -/
@[reducible] def pipeSig : Sig := ⟨PipeOp, PipeOp.Ret⟩

/-- A call on the pipe. -/
def pipe (o : PipeOp) : Prog pipeSig o.Ret := perform (S := pipeSig) o

/-! ## The calls on a connection -/

/-- An operation and the memory it needs. -/
structure PendingIo where
  /-- The operation is not known to be over. -/
  pending : Bool

namespace PendingIo

/-- `PendingIo::new`. -/
def new : Prog pipeSig (Except ℕ PendingIo) := do
  match ← pipe .createEvent with
  | .error err => return .error err
  | .ok () => return .ok ⟨true⟩

/-- Waits until the operation is over. -/
def complete : Prog pipeSig (Except ℕ ℕ × PendingIo) := do
  let result ← pipe .overlappedResult
  return (result, ⟨false⟩)

/-- `PendingIo::finish_without_wait`. -/
def finishWithoutWait : PendingIo := ⟨false⟩

/-- The operation goes out of scope. -/
def drop (operation : PendingIo) : Prog pipeSig Unit := do
  if operation.pending then do
    pipe .cancelOwn
    let _ ← pipe .overlappedResult
    pipe .free
  else pipe .free

end PendingIo

/-- `finish_io`: an operation that has not completed at once is waited for. -/
def finishIo (started : Except ℕ ℕ) : Prog pipeSig (Except ℕ ℕ × PendingIo) :=
  match started with
  | .ok bytes => return (.ok bytes, .finishWithoutWait)
  | .error err =>
    if err ≠ errorIoPending then return (.error err, .finishWithoutWait)
    else PendingIo.complete

/-- A read or a write, once its operation has been started. -/
def awaitIo (started : Except ℕ ℕ) : Prog pipeSig (Except ℕ ℕ) := do
  if ← pipe .swapRequested then pipe .cancelOwn
  let (result, operation) ← finishIo started
  operation.drop
  return result

/-- `u32::MAX`. -/
def u32Max : ℕ := 0xFFFFFFFF

/-- A read or a write of a buffer of this length. -/
def overlappedIo (kind : IoKind) (len : ℕ) : Prog pipeSig (Except ℕ ℕ) :=
  if len = 0 then return .ok 0
  else do
    match ← PendingIo.new with
    | .error err => return .error err
    | .ok _ =>
      let started ← pipe (.start kind (min len u32Max))
      awaitIo started

namespace Connection

/-- `Connection::read`. -/
def read (len : ℕ) : Prog pipeSig (Except ℕ ℕ) := overlappedIo .readFile len

/-- `Connection::write`. -/
def write (len : ℕ) : Prog pipeSig (Except ℕ ℕ) := overlappedIo .writeFile len

/-- `Connection::cancel_io`; there may be nothing to cancel. -/
def cancelIo : Prog pipeSig (Except ℕ Unit) := do
  pipe .storeRequested
  match ← pipe .cancelAll with
  | .ok () => return .ok ()
  | .error err => if err = errorNotFound then return .ok () else return .error err

end Connection

/-- A call on a connection. -/
inductive PipeCall where
  /-- A read of at most so many bytes. -/
  | read (len : ℕ)
  /-- A write of so many bytes. -/
  | write (len : ℕ)
  /-- A cancellation of what the others are doing. -/
  | cancelIo

/-- What a job of a pipe returns. -/
inductive PipeResult where
  /-- What came of a read or a write. -/
  | io (result : Except ℕ ℕ)
  /-- What came of a cancellation. -/
  | cancelled (result : Except ℕ Unit)

/-- The program of a call. -/
def PipeCall.program : PipeCall → Prog pipeSig PipeResult
  | .read len => do return .io (← Connection.read len)
  | .write len => do return .io (← Connection.write len)
  | .cancelIo => do return .cancelled (← Connection.cancelIo)

/-! ## The pipe -/

/-- An operation that is outstanding. -/
structure Operation where
  /-- The thread that has started it. -/
  owner : ℕ
  /-- It has been asked to stop. -/
  cancelled : Bool
  deriving DecidableEq

/-- A connection, as its threads share it. -/
structure SharedPipe where
  /-- The flag of a cancellation. -/
  cancelRequested : Bool
  /-- The operations that are outstanding. -/
  operations : List Operation
  /-- The thread that is reading or writing, where there is only to be one. -/
  caller : Option ℕ

namespace SharedPipe

/-- The operation of a thread. -/
def own (pid : ℕ) (s : SharedPipe) : Option Operation := s.operations.find? (·.owner == pid)

/-- The operations of these threads are asked to stop. -/
def cancel (which : ℕ → Bool) (s : SharedPipe) : SharedPipe :=
  { s with operations := s.operations.map fun operation =>
      if which operation.owner then { operation with cancelled := true } else operation }

/-- The operation of the thread is over. -/
def finish (pid : ℕ) (s : SharedPipe) : SharedPipe :=
  { s with operations := s.operations.filter (·.owner != pid) }

/-- What a call does when it is answered so.  An operation is aborted only if it has been asked to
stop, and there is nothing to cancel only if nothing is outstanding. -/
def exec (pid : ℕ) (s : SharedPipe) (o : PipeOp) (r : o.Ret) : Option SharedPipe :=
  match o, r with
  | .start _ size, .ok bytes => if bytes ≤ size then some s else none
  | .start _ _, .error err =>
    if err = errorIoPending then some { s with operations := ⟨pid, false⟩ :: s.operations }
    else some s
  | .swapRequested, requested =>
    if requested = s.cancelRequested then some { s with cancelRequested := false } else none
  | .cancelOwn, () => some (s.cancel (· == pid))
  | .overlappedResult, .ok _ => some (s.finish pid)
  | .overlappedResult, .error err =>
    if err = errorOperationAborted ∧ ∀ operation ∈ s.operations, operation.owner = pid →
      operation.cancelled = false
    then none else some (s.finish pid)
  | .storeRequested, () => some { s with cancelRequested := true }
  | .cancelAll, .ok () => some (s.cancel fun _ => true)
  | .cancelAll, .error err =>
    if err = errorNotFound ∧ s.operations ≠ [] then none else some s
  | _, _ => some s

end SharedPipe

/-- Threads that use one connection; `exclusive` says that it is read and written by one at a
time. -/
@[reducible] def pipeMachine (exclusive : Bool) : Machine pipeSig PipeCall PipeResult where
  State := SharedPipe
  init := ⟨false, [], none⟩
  main := PipeCall.program
  start pid call s :=
    match call with
    | .cancelIo => some s
    | .read _ | .write _ =>
      if exclusive && s.caller.isSome then none else some { s with caller := some pid }
  exec := SharedPipe.exec
  leave pid s := if s.caller = some pid then { s with caller := none } else s
  kill _ _ := none

/-! ## What each thread keeps to -/

/-- How far a read or a write is. -/
inductive IoPhase where
  /-- It has not started its operation yet. -/
  | entering
  /-- The operation has been started and the flag not been looked at. -/
  | started
  /-- The flag was up, and the operation is about to be cancelled. -/
  | noticed
  /-- The flag has been dealt with; the operation is waited for, or over. -/
  | finishing
  deriving DecidableEq

/-- How far a `cancel_io` is. -/
inductive CancelPhase where
  /-- It has not set the flag yet. -/
  | entering
  /-- It has set the flag. -/
  | requested
  /-- Whatever was outstanding has been cancelled. -/
  | swept
  /-- The cancellation has failed. -/
  | failed
  deriving DecidableEq

/-- Where a thread stands.  An operation of its own may be outstanding only if it says so. -/
inductive PipeStage where
  /-- A thread that reads or writes, with an operation outstanding or not. -/
  | io (phase : IoPhase) (outstanding : Bool)
  /-- A thread that cancels. -/
  | cancel (phase : CancelPhase)
  deriving DecidableEq

namespace PipeStage

/-- The stage that a call begins in. -/
def enter : PipeCall → PipeStage
  | .read _ | .write _ => .io .entering false
  | .cancelIo => .cancel .entering

/-- What may be called in a stage. -/
def pre : PipeStage → PipeOp → Prop
  | .io phase outstanding, .createEvent | .io phase outstanding, .start _ _ =>
    phase = .entering ∧ outstanding = false
  | .io phase _, .swapRequested => phase = .started
  | .io phase _, .cancelOwn => phase = .noticed
  | .io phase _, .overlappedResult => phase = .finishing
  | .io phase outstanding, .free => phase = .finishing ∧ outstanding = false
  | .cancel phase, .storeRequested => phase = .entering
  | .cancel phase, .cancelAll => phase = .requested
  | _, _ => False

/-- The stage after a call. -/
def next (g : PipeStage) (o : PipeOp) (r : o.Ret) : PipeStage :=
  match g, o, r with
  | .io _ _, .start _ _, .ok _ => .io .started false
  | .io _ _, .start _ _, .error err => .io .started (err == errorIoPending)
  | .io _ outstanding, .swapRequested, requested =>
    .io (if requested then .noticed else .finishing) outstanding
  | .io _ outstanding, .cancelOwn, _ => .io .finishing outstanding
  | .io phase _, .overlappedResult, _ => .io phase false
  | .cancel _, .storeRequested, _ => .cancel .requested
  | .cancel _, .cancelAll, .ok _ => .cancel .swept
  | .cancel _, .cancelAll, .error err =>
    .cancel (if err = errorNotFound then .swept else .failed)
  | g, _, _ => g

/-- What may be returned in a stage. -/
def done : PipeResult → PipeStage → Prop
  | .io _, .io _ outstanding => outstanding = false
  | .cancelled (.ok ()), .cancel phase => phase = .swept
  | .cancelled (.error _), .cancel phase => phase = .failed
  | _, _ => False

end PipeStage

/-- The protocol of a thread of a connection. -/
def pipeProtocol : Prog.Protocol pipeSig PipeStage where
  pre := PipeStage.pre
  allowed _ _ _ := True
  next := PipeStage.next

/-- A read or a write waits for what it has started, and for nothing else. -/
theorem awaitIo_follows (kind : IoKind) (size : ℕ) (started : Except ℕ ℕ) :
    Follows pipeProtocol (awaitIo started)
      (PipeStage.next (.io .entering false) (.start kind size) started)
      fun _ g => g = .io .finishing false := by
  have hfinish : ∀ outstanding, PipeStage.next (.io .entering false) (.start kind size) started =
      .io .started outstanding → Follows pipeProtocol (do
        let (result, operation) ← finishIo started
        operation.drop
        return result) (.io .finishing outstanding) fun _ g => g = .io .finishing false := by
    intro outstanding hnext
    rcases started with err | bytes
    · have houtstanding : (err == errorIoPending) = outstanding := by
        injection hnext
      rw [finishIo]
      split
      · rename_i hne
        have hnone : outstanding = false := by
          rw [← houtstanding]
          exact beq_eq_false_iff_ne.mpr hne
        subst hnone
        exact ⟨⟨rfl, rfl⟩, fun _ _ => rfl⟩
      · exact ⟨rfl, fun _ _ => ⟨⟨rfl, rfl⟩, fun _ _ => rfl⟩⟩
    · have houtstanding : false = outstanding := by
        injection hnext
      subst houtstanding
      exact ⟨⟨rfl, rfl⟩, fun _ _ => rfl⟩
  obtain ⟨outstanding, hnext⟩ : ∃ outstanding, PipeStage.next (.io .entering false)
      (.start kind size) started = .io .started outstanding := by
    rcases started with err | bytes
    all_goals exact ⟨_, rfl⟩
  rw [hnext]
  refine ⟨rfl, fun requested _ => ?_⟩
  rcases requested with _ | _
  · exact hfinish outstanding hnext
  · exact ⟨rfl, fun _ _ => hfinish outstanding hnext⟩

theorem overlappedIo_follows (kind : IoKind) (len : ℕ) :
    Follows pipeProtocol (overlappedIo kind len) (.io .entering false)
      fun _ g => ∃ phase, g = .io phase false := by
  rw [overlappedIo]
  split
  · exact ⟨_, rfl⟩
  · refine ⟨⟨rfl, rfl⟩, fun made _ => ?_⟩
    rcases made with err | ⟨⟩
    · exact ⟨_, rfl⟩
    · exact ⟨⟨rfl, rfl⟩, fun started _ => (awaitIo_follows kind _ started).mono fun _ _ hg => ⟨_, hg⟩⟩

theorem cancelIo_follows :
    Follows pipeProtocol Connection.cancelIo (.cancel .entering)
      fun result g => PipeStage.done (.cancelled result) g := by
  refine ⟨rfl, fun _ _ => ⟨rfl, fun swept _ => ?_⟩⟩
  rcases swept with err | ⟨⟩
  · show Follows pipeProtocol (if err = errorNotFound then _ else _)
      (.cancel (if err = errorNotFound then .swept else .failed)) _
    split
    · exact rfl
    · exact rfl
  · exact rfl

/-- **Every call keeps to its part of the handshake.** -/
theorem pipeCall_follows (call : PipeCall) :
    Follows pipeProtocol call.program (.enter call) PipeStage.done := by
  have hio : ∀ kind len, Follows pipeProtocol
      ((overlappedIo kind len).bind fun result => .ret (PipeResult.io result))
      (.io .entering false) PipeStage.done := by
    intro kind len
    refine Follows.bind ((overlappedIo_follows kind len).mono ?_)
    rintro result _ ⟨phase, rfl⟩
    exact rfl
  cases call with
  | read len => exact hio .readFile len
  | write len => exact hio .writeFile len
  | cancelIo => exact Follows.bind cancelIo_follows

/-! ## What a call does -/

/-- What a permitted call does to the connection, and where it takes the thread. -/
inductive PipeStep (pid : ℕ) (s : SharedPipe) : PipeStage → SharedPipe → PipeStage → Prop
  /-- A call that changes nothing. -/
  | same {g : PipeStage} : PipeStep pid s g s g
  /-- An operation completes at once. -/
  | started : PipeStep pid s (.io .entering false) s (.io .started false)
  /-- An operation is outstanding. -/
  | pending : PipeStep pid s (.io .entering false)
      { s with operations := ⟨pid, false⟩ :: s.operations } (.io .started true)
  /-- The flag is read and found set. -/
  | noticed {outstanding : Bool} (hflag : s.cancelRequested = true) :
      PipeStep pid s (.io .started outstanding) { s with cancelRequested := false }
        (.io .noticed outstanding)
  /-- The flag is read and found clear. -/
  | missed {outstanding : Bool} (hflag : s.cancelRequested = false) :
      PipeStep pid s (.io .started outstanding) s (.io .finishing outstanding)
  /-- The thread cancels its own operation. -/
  | cancelled {outstanding : Bool} :
      PipeStep pid s (.io .noticed outstanding) (s.cancel (· == pid)) (.io .finishing outstanding)
  /-- The operation of the thread is over. -/
  | finished {outstanding : Bool} :
      PipeStep pid s (.io .finishing outstanding) (s.finish pid) (.io .finishing false)
  /-- The flag is set. -/
  | requested : PipeStep pid s (.cancel .entering) { s with cancelRequested := true }
      (.cancel .requested)
  /-- Every outstanding operation is asked to stop. -/
  | swept : PipeStep pid s (.cancel .requested) (s.cancel fun _ => true) (.cancel .swept)
  /-- There is nothing to cancel. -/
  | nothing (hnone : s.operations = []) :
      PipeStep pid s (.cancel .requested) s (.cancel .swept)
  /-- The cancellation fails. -/
  | failed : PipeStep pid s (.cancel .requested) s (.cancel .failed)

section

variable {pid : ℕ} {s s' : SharedPipe} {g : PipeStage} {o : PipeOp} {r : o.Ret}

theorem pipeStep_of_start {kind : IoKind} {size : ℕ} {started : Except ℕ ℕ}
    (hexec : s.exec pid (.start kind size) started = some s') :
    PipeStep pid s (.io .entering false) s'
      (PipeStage.next (.io .entering false) (.start kind size) started) := by
  rcases started with err | bytes
  · show PipeStep pid s _ s' (.io .started (err == errorIoPending))
    change (if err = errorIoPending then _ else _) = some s' at hexec
    split at hexec
    · rename_i hpending
      cases hexec
      rw [beq_iff_eq.mpr hpending]
      exact .pending
    · rename_i hne
      cases hexec
      rw [beq_eq_false_iff_ne.mpr hne]
      exact .started
  · change (if bytes ≤ size then some s else none) = some s' at hexec
    split at hexec
    · cases hexec
      exact .started
    · cases hexec

theorem pipeStep_of_swap {outstanding requested : Bool}
    (hexec : s.exec pid .swapRequested requested = some s') :
    PipeStep pid s (.io .started outstanding) s'
      (.io (if requested then .noticed else .finishing) outstanding) := by
  change (if requested = s.cancelRequested then some { s with cancelRequested := false } else none)
    = some s' at hexec
  split at hexec
  · rename_i hflag
    cases hexec
    cases requested with
    | true => exact .noticed hflag.symm
    | false =>
      have hsame : { s with cancelRequested := false } = s := by rw [hflag]
      rw [hsame]
      exact .missed hflag.symm
  · cases hexec

theorem pipeStep_of_cancelAll {answer : Except ℕ Unit}
    (hexec : s.exec pid .cancelAll answer = some s') :
    PipeStep pid s (.cancel .requested) s'
      (PipeStage.next (.cancel .requested) .cancelAll answer) := by
  rcases answer with err | ⟨⟩
  · show PipeStep pid s _ s' (.cancel (if err = errorNotFound then .swept else .failed))
    change (if err = errorNotFound ∧ s.operations ≠ [] then none else some s) = some s' at hexec
    split at hexec
    · cases hexec
    · rename_i hnot
      cases hexec
      split
      · rename_i hfound
        exact .nothing (not_not.mp fun hne => hnot ⟨hfound, hne⟩)
      · exact .failed
  · cases hexec
    exact .swept

/-- A wait that is over leaves nothing outstanding, and was not aborted for nothing. -/
theorem exec_overlappedResult {answer : Except ℕ ℕ}
    (hexec : s.exec pid .overlappedResult answer = some s') :
    s' = s.finish pid ∧ (answer = .error errorOperationAborted →
      ∃ operation ∈ s.operations, operation.owner = pid ∧ operation.cancelled = true) := by
  rcases answer with err | bytes
  · change (if err = errorOperationAborted ∧ ∀ operation ∈ s.operations, operation.owner = pid →
      operation.cancelled = false then none else some (s.finish pid)) = some s' at hexec
    split at hexec
    · cases hexec
    · rename_i hnot
      refine ⟨(Option.some.inj hexec).symm, fun hanswer => ?_⟩
      by_contra hnone
      refine hnot ⟨Except.error.inj hanswer, fun operation hmem howner => ?_⟩
      exact Bool.eq_false_iff.mpr fun hcancelled => hnone ⟨operation, hmem, howner, hcancelled⟩
  · exact ⟨(Option.some.inj hexec).symm, fun hanswer => by cases hanswer⟩

/-- **What a permitted call does.** -/
theorem pipeStep_of_exec (hpre : pipeProtocol.pre g o) (hexec : s.exec pid o r = some s') :
    PipeStep pid s g s' (pipeProtocol.next g o r) := by
  change g.pre o at hpre
  show PipeStep pid s g s' (g.next o r)
  rcases g with ⟨phase, outstanding⟩ | phase
  · cases o with
    | createEvent =>
      rcases r with err | ⟨⟩
      all_goals
        cases hexec
        exact .same
    | start kind size =>
      obtain ⟨rfl, rfl⟩ := hpre
      exact pipeStep_of_start hexec
    | swapRequested =>
      obtain rfl : phase = .started := hpre
      exact pipeStep_of_swap hexec
    | cancelOwn =>
      obtain rfl : phase = .noticed := hpre
      cases hexec
      exact .cancelled
    | overlappedResult =>
      obtain rfl : phase = .finishing := hpre
      obtain ⟨rfl, -⟩ := exec_overlappedResult hexec
      exact .finished
    | free =>
      cases hexec
      exact .same
    | storeRequested | cancelAll => exact hpre.elim
  · cases o with
    | storeRequested =>
      obtain rfl : phase = .entering := hpre
      cases hexec
      exact .requested
    | cancelAll =>
      obtain rfl : phase = .requested := hpre
      exact pipeStep_of_cancelAll hexec
    | createEvent | start | swapRequested | cancelOwn | overlappedResult | free => exact hpre.elim

theorem mem_cancel {which : ℕ → Bool} {operation : Operation}
    (hmem : operation ∈ (s.cancel which).operations) :
    ∃ before ∈ s.operations, before.owner = operation.owner ∧
      (operation.cancelled = true ∨ before = operation ∧ which operation.owner = false) := by
  obtain ⟨before, hbefore, rfl⟩ := List.mem_map.mp hmem
  split
  · exact ⟨before, hbefore, rfl, .inl rfl⟩
  · rename_i hnot
    exact ⟨before, hbefore, rfl, .inr ⟨rfl, Bool.eq_false_iff.mpr hnot⟩⟩

theorem mem_finish {operation : Operation} (hmem : operation ∈ (s.finish pid).operations) :
    operation ∈ s.operations ∧ operation.owner ≠ pid := by
  obtain ⟨hmem, hne⟩ := List.mem_filter.mp hmem
  exact ⟨hmem, bne_iff_ne.mp hne⟩

end

/-! ## What holds of all of them together -/

section

variable {exclusive : Bool}

/-- What threads do with a connection, the latest first. -/
abbrev PipeLog (exclusive : Bool) : Type := List (pipeMachine exclusive).Event

variable {log : PipeLog exclusive} {gs : ℕ → Machine.Stage PipeStage} {s s' : SharedPipe}
  {pid : ℕ} {g g' : PipeStage}

/-- An operation that is outstanding belongs to a thread that will wait for it. -/
def Owned (gs : ℕ → Machine.Stage PipeStage) (s : SharedPipe) : Prop :=
  ∀ operation ∈ s.operations, ∃ phase, gs operation.owner = .live (.io phase true)

theorem Owned.call (h : Owned gs s) (hlive : gs pid = .live g) (hstep : PipeStep pid s g s' g') :
    Owned (Function.update gs pid (.live g')) s' := by
  have hkept : ∀ {operation : Operation}, (∃ phase, gs operation.owner = .live (.io phase true)) →
      (∀ phase, g = .io phase true → ∃ phase', g' = .io phase' true) →
      ∃ phase, Function.update gs pid (.live g') operation.owner = .live (.io phase true) := by
    rintro operation ⟨phase, howner⟩ hself
    by_cases hpid : operation.owner = pid
    · rw [hpid] at howner ⊢
      obtain ⟨phase', rfl⟩ := hself phase (Machine.Stage.live.inj (hlive.symm.trans howner))
      exact ⟨phase', Function.update_self ..⟩
    · exact ⟨phase, by rw [Function.update_of_ne hpid, howner]⟩
  intro operation hmem
  cases hstep with
  | same => exact hkept (h operation hmem) fun phase hg => ⟨phase, hg⟩
  | started => exact hkept (h operation hmem) fun phase hg => by cases hg
  | pending =>
    rcases List.mem_cons.mp hmem with rfl | hmem
    · exact ⟨.started, Function.update_self ..⟩
    · exact hkept (h operation hmem) fun phase hg => by cases hg
  | noticed | missed =>
    refine hkept (h operation hmem) fun phase hg => ?_
    cases hg
    exact ⟨_, rfl⟩
  | cancelled =>
    obtain ⟨before, hbefore, howner, -⟩ := mem_cancel hmem
    rw [← howner]
    refine hkept (h before hbefore) fun phase hg => ?_
    cases hg
    exact ⟨_, rfl⟩
  | finished =>
    obtain ⟨hmem, hne⟩ := mem_finish hmem
    rw [Function.update_of_ne hne]
    exact h operation hmem
  | requested | nothing | failed => exact hkept (h operation hmem) fun phase hg => by cases hg
  | swept =>
    obtain ⟨before, hbefore, howner, -⟩ := mem_cancel hmem
    rw [← howner]
    exact hkept (h before hbefore) fun phase hg => by cases hg

/-- A thread that has nothing outstanding comes or goes. -/
theorem Owned.update (h : Owned gs s) {stage : Machine.Stage PipeStage}
    (hpid : ∀ phase, gs pid ≠ .live (.io phase true)) :
    Owned (Function.update gs pid stage) s := by
  intro operation hmem
  obtain ⟨phase, howner⟩ := h operation hmem
  refine ⟨phase, ?_⟩
  rw [Function.update_of_ne, howner]
  rintro rfl
  exact hpid phase howner

/-- The threads and what is outstanding. -/
def pipeOutline (exclusive : Bool) : (pipeMachine exclusive).Outline PipeStage where
  protocol := pipeProtocol
  enter _ := PipeStage.enter
  done := PipeStage.done
  inv _ gs s := Owned gs s

/-- A call is taken up in a connection that is otherwise as it was. -/
theorem pipe_start {call : PipeCall} (hstart : (pipeMachine exclusive).start pid call s = some s') :
    s'.operations = s.operations ∧ s'.cancelRequested = s.cancelRequested ∧
      (call = .cancelIo ∧ s' = s ∨
        PipeStage.enter call = .io .entering false ∧ s'.caller = some pid ∧
          (exclusive = true → s.caller = none)) := by
  have hio : (if exclusive && s.caller.isSome then none else some { s with caller := some pid }) =
      some s' → s'.operations = s.operations ∧ s'.cancelRequested = s.cancelRequested ∧
        s'.caller = some pid ∧ (exclusive = true → s.caller = none) := by
    intro hsome
    split at hsome
    · cases hsome
    · rename_i hfree
      cases hsome
      refine ⟨rfl, rfl, rfl, fun hexclusive => ?_⟩
      rw [hexclusive, Bool.true_and] at hfree
      exact Option.not_isSome_iff_eq_none.mp hfree
  cases call with
  | cancelIo =>
    obtain rfl : s = s' := Option.some.inj hstart
    exact ⟨rfl, rfl, .inl ⟨rfl, rfl⟩⟩
  | read | write =>
    obtain ⟨hops, hflag, hcaller, hfree⟩ := hio hstart
    exact ⟨hops, hflag, .inr ⟨rfl, hcaller, hfree⟩⟩

variable (exclusive) in
theorem pipe_leave : ((pipeMachine exclusive).leave pid s).operations = s.operations ∧
    ((pipeMachine exclusive).leave pid s).cancelRequested = s.cancelRequested ∧
    (s.caller ≠ some pid → ((pipeMachine exclusive).leave pid s).caller = s.caller) := by
  show (if s.caller = some pid then { s with caller := none } else s).operations = _ ∧
    (if s.caller = some pid then { s with caller := none } else s).cancelRequested = _ ∧
    (_ → (if s.caller = some pid then { s with caller := none } else s).caller = _)
  split
  · rename_i hcaller
    exact ⟨rfl, rfl, fun hne => absurd hcaller hne⟩
  · exact ⟨rfl, rfl, fun _ => rfl⟩

/-- A thread that is done has nothing outstanding. -/
theorem PipeStage.done.idle {result : PipeResult} (h : PipeStage.done result g) (phase : IoPhase) :
    g ≠ .io phase true := by
  rintro rfl
  rcases result with result | (err | ⟨⟩)
  · cases h
  · exact h.elim
  · exact h.elim

/-- **Whatever is outstanding is waited for.** -/
theorem pipeOutline_valid (exclusive : Bool) : (pipeOutline exclusive).Valid where
  init := fun _ hmem => by cases hmem
  main := fun _ call _ _ _ => pipeCall_follows call
  start := by
    intro log gs s pid call s' h hunborn hstart operation hmem
    rw [(pipe_start hstart).1] at hmem
    refine Owned.update h (fun phase hlive => ?_) operation hmem
    cases hunborn.symm.trans hlive
  allowed := fun _ _ _ _ _ _ _ _ _ => trivial
  call := fun pid g o r s' h hlive hpre hexec => Owned.call h hlive (pipeStep_of_exec hpre hexec)
  finish := by
    intro log gs s pid g result h hlive hdone operation hmem
    rw [(pipe_leave exclusive).1] at hmem
    refine Owned.update h (fun phase hlive' => ?_) operation hmem
    exact PipeStage.done.idle hdone phase (Machine.Stage.live.inj (hlive.symm.trans hlive'))
  kill := fun _ _ _ _ _ hkill => by cases hkill

/-! ## The handshake -/

/-- One thread reads or writes at a time. -/
def Alone (gs : ℕ → Machine.Stage PipeStage) (s : SharedPipe) : Prop :=
  ∀ pid phase outstanding, gs pid = .live (.io phase outstanding) → s.caller = some pid

theorem PipeStep.caller (hstep : PipeStep pid s g s' g') : s'.caller = s.caller := by
  cases hstep with
  | same | started | pending | noticed | missed | cancelled | finished | requested | swept
  | nothing | failed => rfl

theorem PipeStep.io {phase : IoPhase} {outstanding : Bool}
    (hstep : PipeStep pid s g s' (.io phase outstanding)) : ∃ phase outstanding,
      g = .io phase outstanding := by
  cases hstep with
  | same | started | pending | noticed | missed | cancelled | finished => exact ⟨_, _, rfl⟩

theorem alone_keeps : (pipeOutline true).Keeps fun _ gs s => Alone gs s where
  init := fun _ _ _ hlive => by cases hlive
  start := by
    intro log gs s pid call s' _ h _ hstart other phase outstanding hlive
    obtain ⟨-, -, ⟨rfl, rfl⟩ | ⟨-, hcaller, hfree⟩⟩ := pipe_start hstart
    · by_cases hother : other = pid
      · rw [hother, Function.update_self] at hlive
        cases hlive
      · rw [Function.update_of_ne hother] at hlive
        exact h other phase outstanding hlive
    · by_cases hother : other = pid
      · rw [hother]
        exact hcaller
      · rw [Function.update_of_ne hother] at hlive
        cases (h other phase outstanding hlive).symm.trans (hfree rfl)
  call := by
    intro log gs s pid g o r s' _ h hlive hpre hexec other phase outstanding hlive'
    have hstep : PipeStep pid s g s' ((pipeOutline true).protocol.next g o r) :=
      pipeStep_of_exec hpre hexec
    rw [hstep.caller]
    by_cases hother : other = pid
    · rw [hother, Function.update_self] at hlive'
      rw [Machine.Stage.live.inj hlive'] at hstep
      obtain ⟨phase', outstanding', rfl⟩ := hstep.io
      rw [hother]
      exact h pid phase' outstanding' hlive
    · rw [Function.update_of_ne hother] at hlive'
      exact h other phase outstanding hlive'
  finish := by
    intro log gs s pid g result _ h _ _ other phase outstanding hlive'
    by_cases hother : other = pid
    · rw [hother, Function.update_self] at hlive'
      cases hlive'
    · rw [Function.update_of_ne hother] at hlive'
      have hcaller := h other phase outstanding hlive'
      rw [(pipe_leave true).2.2, hcaller]
      rw [hcaller]
      exact fun heq => hother (Option.some.inj heq)
  kill := fun _ _ _ _ _ _ hkill => by cases hkill

/-- The call of the one began after that of the other. -/
def BeganAfter (canceller pid : ℕ) (log : PipeLog exclusive) : Prop :=
  ∃ newer call older, log = newer ++ .started canceller call :: older ∧
    ∃ call', .started pid call' ∈ older

theorem BeganAfter.of_cons {canceller : ℕ} {e : (pipeMachine exclusive).Event}
    (h : BeganAfter canceller pid (e :: log)) :
    (∃ call, e = .started canceller call) ∨ BeganAfter canceller pid log := by
  obtain ⟨newer, call, older, heq, hmem⟩ := h
  rcases newer with _ | ⟨e', newer⟩
  · exact .inl ⟨call, (List.cons.inj heq).1⟩
  · exact .inr ⟨newer, call, older, (List.cons.inj heq).2, hmem⟩

theorem BeganAfter.begins {canceller : ℕ} {call call' : PipeCall}
    (h : .started pid call' ∈ log) : BeganAfter canceller pid (.started canceller call :: log) :=
  ⟨[], call, log, rfl, call', h⟩

theorem BeganAfter.cons {canceller : ℕ} {e : (pipeMachine exclusive).Event}
    (h : BeganAfter canceller pid log) : BeganAfter canceller pid (e :: log) := by
  obtain ⟨newer, call, older, rfl, hmem⟩ := h
  exact ⟨e :: newer, call, older, rfl, hmem⟩

/-- What a cancellation began after is earlier in the log. -/
theorem BeganAfter.earlier {canceller : ℕ} {e : (pipeMachine exclusive).Event}
    (h : BeganAfter canceller pid (e :: log)) : ∃ call, .started pid call ∈ log := by
  obtain ⟨newer, call, older, heq, call', hmem⟩ := h
  rcases newer with _ | ⟨e', newer⟩
  · rw [(List.cons.inj heq).2]
    exact ⟨call', hmem⟩
  · rw [(List.cons.inj heq).2]
    exact ⟨call', List.mem_append_right _ (List.mem_cons_of_mem _ hmem)⟩

/-- What a `cancel_io` that has got so far has done to a read or a write that is so far: the flag
is up for the one that will look, and the operation is cancelled of the one that has looked. -/
def Reaches (s : SharedPipe) (pid : ℕ) : CancelPhase → IoPhase → Prop
  | .requested, .entering | .requested, .started | .swept, .entering | .swept, .started =>
    s.cancelRequested = true
  | .swept, .finishing =>
    ∀ operation ∈ s.operations, operation.owner = pid → operation.cancelled = true
  | _, _ => True

/-- A flag that stays up and operations that stay cancelled. -/
theorem Reaches.mono {cphase : CancelPhase} {phase : IoPhase} (h : Reaches s pid cphase phase)
    (hflag : s.cancelRequested = true → s'.cancelRequested = true)
    (hops : ∀ operation ∈ s'.operations, operation.owner = pid →
      operation.cancelled = true ∨ operation ∈ s.operations) : Reaches s' pid cphase phase := by
  have hcancelled : (∀ operation ∈ s.operations, operation.owner = pid →
      operation.cancelled = true) → ∀ operation ∈ s'.operations, operation.owner = pid →
      operation.cancelled = true := fun hall operation hmem howner =>
    (hops operation hmem howner).elim id fun hmem => hall operation hmem howner
  cases cphase with
  | entering | failed => trivial
  | requested =>
    cases phase with
    | entering | started => exact hflag h
    | noticed | finishing => trivial
  | swept =>
    cases phase with
    | entering | started => exact hflag h
    | noticed => trivial
    | finishing => exact hcancelled h

/-- What others have told a read or a write, it does not miss. -/
theorem Reaches.own {cphase : CancelPhase} {phase phase' : IoPhase} {outstanding outstanding' : Bool}
    (h : Reaches s pid cphase phase)
    (hstep : PipeStep pid s (.io phase outstanding) s' (.io phase' outstanding')) :
    Reaches s' pid cphase phase' := by
  cases hstep with
  | same => exact h
  | started | pending => cases cphase <;> exact h
  | noticed => cases cphase <;> trivial
  | missed hflag =>
    cases cphase with
    | entering | requested | failed => trivial
    | swept => cases hflag.symm.trans h
  | cancelled =>
    cases cphase with
    | entering | requested | failed => trivial
    | swept =>
      intro operation hmem howner
      obtain ⟨before, -, -, hcancelled | ⟨-, hnot⟩⟩ := mem_cancel hmem
      · exact hcancelled
      · exact absurd howner (beq_eq_false_iff_ne.mp hnot)
  | finished =>
    cases cphase with
    | entering | requested | failed => trivial
    | swept => exact fun operation hmem howner => absurd howner (mem_finish hmem).2

/-- What a `cancel_io` does next reaches every read and write. -/
theorem Reaches.told {canceller : ℕ} {cphase cphase' : CancelPhase} {phase : IoPhase}
    (h : Reaches s pid cphase phase)
    (hstep : PipeStep canceller s (.cancel cphase) s' (.cancel cphase')) :
    Reaches s' pid cphase' phase := by
  cases hstep with
  | same => exact h
  | requested => cases phase <;> trivial
  | swept =>
    cases phase with
    | entering | started => exact h
    | noticed => trivial
    | finishing =>
      intro operation hmem _
      obtain ⟨before, -, -, hcancelled | ⟨-, hnot⟩⟩ := mem_cancel hmem
      · exact hcancelled
      · cases hnot
  | nothing hnone =>
    cases phase with
    | entering | started => exact h
    | noticed => trivial
    | finishing =>
      intro operation hmem
      rw [hnone] at hmem
      cases hmem
  | failed => trivial

/-- What a `cancel_io` does takes nothing back. -/
theorem Reaches.kept {canceller : ℕ} {cphase : CancelPhase} {phase : IoPhase}
    {before : CancelPhase} (h : Reaches s pid cphase phase)
    (hstep : PipeStep canceller s (.cancel before) s' g') : Reaches s' pid cphase phase := by
  cases hstep with
  | same | nothing | failed => exact h
  | requested => exact h.mono (fun _ => rfl) fun _ hmem _ => .inr hmem
  | swept =>
    refine h.mono id fun operation hmem _ => ?_
    obtain ⟨before, -, -, hcancelled | ⟨-, hnot⟩⟩ := mem_cancel hmem
    · exact .inl hcancelled
    · cases hnot

/-- No read or write misses a `cancel_io` that began after it. -/
def Handshaken (log : PipeLog exclusive) (gs : ℕ → Machine.Stage PipeStage) (s : SharedPipe) :
    Prop :=
  ∀ pid phase outstanding canceller cphase, gs pid = .live (.io phase outstanding) →
    (gs canceller).ghost = some (.cancel cphase) → BeganAfter canceller pid log →
      Reaches s pid cphase phase

theorem handshaken_call {o : PipeOp} {r : o.Ret} (halone : Alone gs s)
    (h : Handshaken log gs s) (hlive : gs pid = .live g) (hstep : PipeStep pid s g s' g') :
    Handshaken (.called pid s o r :: log) (Function.update gs pid (.live g')) s' := by
  intro reader phase outstanding canceller cphase hreader hghost hbegan
  have hbegan' : BeganAfter canceller reader log :=
    hbegan.of_cons.resolve_left fun ⟨_, heq⟩ => by cases heq
  by_cases hcanceller : canceller = pid
  · subst hcanceller
    have hne : reader ≠ canceller := by
      rintro rfl
      rw [hreader] at hghost
      cases hghost
    rw [Function.update_of_ne hne] at hreader
    rw [Function.update_self] at hghost
    obtain rfl : g' = .cancel cphase := Option.some.inj hghost
    obtain ⟨cphase', rfl⟩ : ∃ cphase', g = .cancel cphase' := by
      cases hstep with
      | same | requested | swept | nothing | failed => exact ⟨_, rfl⟩
    have hghost' : (gs canceller).ghost = some (.cancel cphase') := by rw [hlive]; rfl
    exact (h reader phase outstanding canceller cphase' hreader hghost' hbegan').told hstep
  rw [Function.update_of_ne hcanceller] at hghost
  by_cases hpid : reader = pid
  · subst hpid
    rw [Function.update_self] at hreader
    rw [Machine.Stage.live.inj hreader] at hstep
    obtain ⟨phase', outstanding', rfl⟩ := hstep.io
    exact (h reader phase' outstanding' canceller cphase hlive hghost hbegan').own hstep
  · rw [Function.update_of_ne hpid] at hreader
    have hreaches := h reader phase outstanding canceller cphase hreader hghost hbegan'
    rcases g with ⟨phase', outstanding'⟩ | cphase'
    · have hself := halone pid phase' outstanding' hlive
      exact absurd (Option.some.inj ((halone reader phase outstanding hreader).symm.trans hself)) hpid
    · exact hreaches.kept hstep

/-- **No read or write misses a `cancel_io` that began after it.** -/
theorem handshaken_keeps :
    (((pipeOutline true).also fun _ gs s => Alone gs s).also
      fun log gs _ => Machine.Outline.Chronicle log gs).Keeps Handshaken where
  init := fun _ _ _ _ _ hlive => by cases hlive
  start := by
    intro log gs s pid call s' hinv h hunborn hstart reader phase outstanding canceller cphase
      hreader hghost hbegan
    obtain ⟨hops, hflag, -⟩ := pipe_start hstart
    by_cases hpid : reader = pid
    · subst hpid
      obtain ⟨call', hmem⟩ := hbegan.earlier
      exact absurd rfl (hinv.2.unborn reader hunborn _ hmem)
    rw [Function.update_of_ne hpid] at hreader
    by_cases hcanceller : canceller = pid
    · subst hcanceller
      rw [Function.update_self] at hghost
      cases call with
      | read | write => cases hghost
      | cancelIo =>
        cases hghost
        trivial
    · rw [Function.update_of_ne hcanceller] at hghost
      have hbegan' : BeganAfter canceller reader log := by
        refine hbegan.of_cons.resolve_left ?_
        rintro ⟨call', heq⟩
        cases heq
        exact hcanceller rfl
      refine (h reader phase outstanding canceller cphase hreader hghost hbegan').mono ?_ ?_
      · rw [hflag]
        exact id
      · rw [hops]
        exact fun _ hmem _ => .inr hmem
  call := fun pid g o r s' hinv h hlive hpre hexec =>
    handshaken_call hinv.1.2 h hlive (pipeStep_of_exec hpre hexec)
  finish := by
    intro log gs s pid g result hinv h hlive hdone reader phase outstanding canceller cphase
      hreader hghost hbegan
    have hbegan' : BeganAfter canceller reader log :=
      hbegan.of_cons.resolve_left fun ⟨_, heq⟩ => by cases heq
    have hpid : reader ≠ pid := by
      rintro rfl
      rw [Function.update_self] at hreader
      cases hreader
    rw [Function.update_of_ne hpid] at hreader
    have hghost' : (gs canceller).ghost = some (.cancel cphase) := by
      by_cases hcanceller : canceller = pid
      · rw [hcanceller, Function.update_self] at hghost
        rw [hcanceller, hlive]
        exact hghost
      · rwa [Function.update_of_ne hcanceller] at hghost
    refine (h reader phase outstanding canceller cphase hreader hghost' hbegan').mono ?_ ?_
    · rw [(pipe_leave true).2.1]
      exact id
    · rw [(pipe_leave true).1]
      exact fun _ hmem _ => .inr hmem
  kill := fun _ _ _ _ _ _ hkill => by cases hkill

/-- A `cancel_io` that has returned without an error has swept. -/
def Returned (log : PipeLog exclusive) (gs : ℕ → Machine.Stage PipeStage) : Prop :=
  ∀ canceller, .finished canceller (.cancelled (.ok ())) ∈ log →
    gs canceller = .gone (.cancel .swept)

theorem returned_keeps (exclusive : Bool) :
    (pipeOutline exclusive).Keeps fun log gs _ => Returned log gs where
  init := fun _ hmem => by cases hmem
  start := by
    intro log gs s pid call s' _ h hunborn _ canceller hmem
    have hgone := h canceller ((List.mem_cons.mp hmem).resolve_left fun heq => by cases heq)
    rw [Function.update_of_ne, hgone]
    rintro rfl
    cases hunborn.symm.trans hgone
  call := by
    intro log gs s pid g o r s' _ h hlive _ _ canceller hmem
    have hgone := h canceller ((List.mem_cons.mp hmem).resolve_left fun heq => by cases heq)
    rw [Function.update_of_ne, hgone]
    rintro rfl
    cases hlive.symm.trans hgone
  finish := by
    intro log gs s pid g result _ h hlive hdone canceller hmem
    rcases List.mem_cons.mp hmem with heq | hmem
    · cases heq
      rw [Function.update_self]
      rcases g with ⟨phase, outstanding⟩ | phase
      · exact hdone.elim
      · obtain rfl : phase = .swept := hdone
        rfl
    · have hgone := h canceller hmem
      rw [Function.update_of_ne, hgone]
      rintro rfl
      cases hlive.symm.trans hgone
  kill := fun _ _ _ _ _ _ hkill => by cases hkill

/-! ## Nobody is cancelled without being asked -/

/-- Somebody has called `cancel_io`. -/
def CancelBegan (log : PipeLog exclusive) : Prop := ∃ canceller, .started canceller .cancelIo ∈ log

/-- There is no trace of a cancellation. -/
structure Quiet (log : PipeLog exclusive) (gs : ℕ → Machine.Stage PipeStage) (s : SharedPipe) :
    Prop where
  /-- The flag is clear. -/
  flag : s.cancelRequested = false
  /-- No operation has been asked to stop. -/
  operations : ∀ operation ∈ s.operations, operation.cancelled = false
  /-- No thread has found the flag set. -/
  noticed : ∀ pid outstanding, gs pid ≠ .live (.io .noticed outstanding)
  /-- No thread is cancelling. -/
  cancelling : ∀ pid phase, gs pid ≠ .live (.cancel phase)
  /-- No thread has been answered that its operation was aborted. -/
  aborted : ∀ pid before,
    .called pid before .overlappedResult (.error errorOperationAborted) ∉ log

theorem Quiet.step (h : Quiet log gs s) (hlive : gs pid = .live g) (hstep : PipeStep pid s g s' g') :
    s'.cancelRequested = false ∧ (∀ operation ∈ s'.operations, operation.cancelled = false) ∧
      (∀ outstanding, g' ≠ .io .noticed outstanding) ∧ ∀ phase, g' ≠ .cancel phase := by
  have hcancel : ∀ phase, g ≠ .cancel phase := by
    rintro phase rfl
    exact h.cancelling pid phase hlive
  cases hstep with
  | same =>
    refine ⟨h.flag, h.operations, ?_, hcancel⟩
    rintro outstanding rfl
    exact h.noticed pid outstanding hlive
  | started | missed =>
    exact ⟨h.flag, h.operations, fun _ hg => (by cases hg), fun _ hg => by cases hg⟩
  | pending =>
    refine ⟨h.flag, fun operation hmem => ?_, fun _ hg => (by cases hg), fun _ hg => by cases hg⟩
    rcases List.mem_cons.mp hmem with rfl | hmem
    · rfl
    · exact h.operations operation hmem
  | noticed hflag => cases h.flag.symm.trans hflag
  | cancelled => exact absurd hlive (h.noticed pid _)
  | finished =>
    exact ⟨h.flag, fun operation hmem => h.operations operation (mem_finish hmem).1,
      fun _ hg => (by cases hg), fun _ hg => by cases hg⟩
  | requested | swept | nothing | failed => exact absurd rfl (hcancel _)

/-- **Without a `cancel_io` there is no trace of one.** -/
theorem quiet_keeps (exclusive : Bool) :
    (pipeOutline exclusive).Keeps fun log gs s => CancelBegan log ∨ Quiet log gs s where
  init := .inr ⟨rfl, fun _ hmem => (by cases hmem), fun _ _ hlive => (by cases hlive),
    fun _ _ hlive => (by cases hlive), fun _ _ hmem => by cases hmem⟩
  start := by
    intro log gs s pid call s' _ h _ hstart
    obtain ⟨hops, hflag, -⟩ := pipe_start hstart
    by_cases hcall : call = .cancelIo
    · subst hcall
      exact .inl ⟨pid, List.mem_cons_self⟩
    rcases h with ⟨canceller, hmem⟩ | h
    · exact .inl ⟨canceller, List.mem_cons_of_mem _ hmem⟩
    have hself : PipeStage.enter call = .io .entering false := by
      cases call with
      | read | write => rfl
      | cancelIo => exact absurd rfl hcall
    refine .inr ⟨hflag.trans h.flag, ?_, fun other outstanding hlive => ?_,
      fun other phase hlive => ?_, fun other before hmem => ?_⟩
    · rw [hops]
      exact h.operations
    · by_cases hother : other = pid
      · rw [hother, Function.update_self] at hlive
        cases hself.symm.trans (Machine.Stage.live.inj hlive)
      · rw [Function.update_of_ne hother] at hlive
        exact h.noticed other outstanding hlive
    · by_cases hother : other = pid
      · rw [hother, Function.update_self] at hlive
        cases hself.symm.trans (Machine.Stage.live.inj hlive)
      · rw [Function.update_of_ne hother] at hlive
        exact h.cancelling other phase hlive
    · exact h.aborted other before ((List.mem_cons.mp hmem).resolve_left fun heq => by cases heq)
  call := by
    intro log gs s pid g o r s' _ h hlive hpre hexec
    rcases h with ⟨canceller, hmem⟩ | h
    · exact .inl ⟨canceller, List.mem_cons_of_mem _ hmem⟩
    obtain ⟨hflag, hops, hnoticed, hcancelling⟩ := h.step hlive (pipeStep_of_exec hpre hexec)
    refine .inr ⟨hflag, hops, fun other outstanding hlive' => ?_, fun other phase hlive' => ?_,
      fun other before hmem => ?_⟩
    · by_cases hother : other = pid
      · rw [hother, Function.update_self] at hlive'
        exact hnoticed outstanding (Machine.Stage.live.inj hlive')
      · rw [Function.update_of_ne hother] at hlive'
        exact h.noticed other outstanding hlive'
    · by_cases hother : other = pid
      · rw [hother, Function.update_self] at hlive'
        exact hcancelling phase (Machine.Stage.live.inj hlive')
      · rw [Function.update_of_ne hother] at hlive'
        exact h.cancelling other phase hlive'
    · rcases List.mem_cons.mp hmem with heq | hmem
      · cases heq
        obtain ⟨operation, hmem, -, hcancelled⟩ := (exec_overlappedResult hexec).2 rfl
        cases (h.operations operation hmem).symm.trans hcancelled
      · exact h.aborted other before hmem
  finish := by
    intro log gs s pid g result _ h _ _
    rcases h with ⟨canceller, hmem⟩ | h
    · exact .inl ⟨canceller, List.mem_cons_of_mem _ hmem⟩
    refine .inr ⟨?_, ?_, fun other outstanding hlive => ?_, fun other phase hlive => ?_,
      fun other before hmem => ?_⟩
    · rw [(pipe_leave exclusive).2.1]
      exact h.flag
    · rw [(pipe_leave exclusive).1]
      exact h.operations
    · by_cases hother : other = pid
      · rw [hother, Function.update_self] at hlive
        cases hlive
      · rw [Function.update_of_ne hother] at hlive
        exact h.noticed other outstanding hlive
    · by_cases hother : other = pid
      · rw [hother, Function.update_self] at hlive
        cases hlive
      · rw [Function.update_of_ne hother] at hlive
        exact h.cancelling other phase hlive
    · exact h.aborted other before ((List.mem_cons.mp hmem).resolve_left fun heq => by cases heq)
  kill := fun _ _ _ _ _ _ hkill => by cases hkill

end

/-! ## Whole runs -/

/-- What the calls on a connection promise one another. -/
structure Handshake {exclusive : Bool} (c : (pipeMachine exclusive).Config) : Prop where
  /-- The operation a thread waits for has been cancelled, if a `cancel_io` that began after its
  call has returned. -/
  reaches : ∀ pid k canceller, c.thread pid = .running (.call .overlappedResult k) →
    .finished canceller (.cancelled (.ok ())) ∈ c.log → BeganAfter canceller pid c.log →
      ∀ operation ∈ c.shared.operations, operation.owner = pid → operation.cancelled = true
  /-- The memory of an operation stays for as long as the system may write to it. -/
  frees : ∀ pid before r, .called pid before .free r ∈ c.log →
    ∀ operation ∈ before.operations, operation.owner ≠ pid
  /-- A thread is told that its operation was aborted only after a cancellation has begun. -/
  asked : ∀ pid before,
    .called pid before .overlappedResult (.error errorOperationAborted) ∈ c.log →
      CancelBegan c.log

theorem freed_idle {exclusive : Bool} {c : (pipeMachine exclusive).Config}
    (h : (pipeMachine exclusive).Reachable c) {pid : ℕ} {before : SharedPipe}
    {r : PipeOp.free.Ret} (hmem : .called pid before .free r ∈ c.log) :
    ∀ operation ∈ before.operations, operation.owner ≠ pid := by
  obtain ⟨log, gs, g, howned, hlive, hpre⟩ :=
    Machine.Outline.called (pipeOutline_valid exclusive) h hmem
  rintro operation hop rfl
  obtain ⟨phase, howner⟩ := howned operation hop
  cases hlive.symm.trans howner
  cases hpre.2

theorem aborted_asked {exclusive : Bool} {c : (pipeMachine exclusive).Config}
    (h : (pipeMachine exclusive).Reachable c) {pid : ℕ} {before : SharedPipe}
    (hmem : .called pid before .overlappedResult (.error errorOperationAborted) ∈ c.log) :
    CancelBegan c.log := by
  obtain ⟨gs, ⟨-, hbegan | hquiet⟩, -⟩ :=
    Machine.Outline.reachable ((pipeOutline_valid exclusive).also (quiet_keeps exclusive)) h
  · exact hbegan
  · exact absurd hmem (hquiet.aborted pid before)

/-- **No order of steps loses a cancellation**, frees memory too early, or cancels what nobody
asked to cancel. -/
theorem overlapped_handshake (c : (pipeMachine true).Config)
    (h : (pipeMachine true).Reachable c) : Handshake c := by
  refine ⟨fun pid k canceller hthread hreturned hbegan operation hop howner => ?_,
    fun _ _ _ => freed_idle h, fun _ _ => aborted_asked h⟩
  have hvalid := ((pipeOutline_valid true).also alone_keeps).also
    (Machine.Outline.chronicle ((pipeOutline true).also fun _ gs s => Alone gs s))
  have hkeeps : (((((pipeOutline true).also fun _ gs s => Alone gs s).also
      fun log gs _ => Machine.Outline.Chronicle log gs).also Handshaken)).Keeps
      fun log gs _ => Returned log gs :=
    { init := (returned_keeps true).init
      start := fun pid job s' hinv => (returned_keeps true).start pid job s' hinv.1.1.1
      call := fun pid g o r s' hinv => (returned_keeps true).call pid g o r s' hinv.1.1.1
      finish := fun pid g a hinv => (returned_keeps true).finish pid g a hinv.1.1.1
      kill := fun pid g s' hinv => (returned_keeps true).kill pid g s' hinv.1.1.1 }
  obtain ⟨gs, ⟨⟨-, hshaken⟩, hgone⟩, hstands⟩ :=
    Machine.Outline.reachable ((hvalid.also handshaken_keeps).also hkeeps) h
  have hpid := hstands pid
  rw [hthread] at hpid
  obtain ⟨g, hlive, hpre, -⟩ := hpid
  rcases g with ⟨phase, outstanding⟩ | phase
  · obtain rfl : phase = .finishing := hpre
    have hghost : (gs canceller).ghost = some (.cancel .swept) := by
      rw [hgone canceller hreturned]
      rfl
    exact hshaken pid .finishing outstanding canceller .swept hlive hghost hbegan operation hop
      howner
  · exact hpre.elim

/-- A read waits for the other side, and is called back. -/
theorem overlapped_handshake_read : ∃ c : (pipeMachine true).Config,
    .finished 1 (.cancelled (.ok ())) ∈ c.log ∧ c.shared.operations = [⟨0, true⟩] ∧
      Handshake c := by
  have reading := Machine.Reachable.step Machine.Reachable.start
    (Machine.Step.start (M := pipeMachine true) 0 (.read 1) rfl rfl)
  have made := reading.step (.call 0 (Except.ok () : Except ℕ Unit) rfl rfl)
  have started := made.step (.call 0 (Except.error errorIoPending : Except ℕ ℕ) rfl rfl)
  have looked := started.step (.call 0 false rfl rfl)
  have cancelling := looked.step (.start 1 .cancelIo rfl rfl)
  have requested := cancelling.step (.call 1 () rfl rfl)
  have swept := requested.step (.call 1 (Except.ok () : Except ℕ Unit) rfl rfl)
  have cancelled := swept.step (.finish 1 rfl)
  exact ⟨_, List.mem_cons_self, rfl, overlapped_handshake _ cancelled⟩

/-- Two threads at a time: the one that is cancelled takes the flag from the other, which goes on
waiting. -/
theorem not_handshake_of_shared :
    ∃ c, (pipeMachine false).Reachable c ∧ ¬ Handshake c := by
  have reading := Machine.Reachable.step Machine.Reachable.start
    (Machine.Step.start (M := pipeMachine false) 0 (.read 1) rfl rfl)
  have writing := reading.step (.start 1 (.write 1) rfl rfl)
  have cancelling := writing.step (.start 2 .cancelIo rfl rfl)
  have requested := cancelling.step (.call 2 () rfl rfl)
  have nothing := requested.step (.call 2 (Except.error errorNotFound : Except ℕ Unit) rfl rfl)
  have cancelled := nothing.step (.finish 2 rfl)
  have made := cancelled.step (.call 0 (Except.ok () : Except ℕ Unit) rfl rfl)
  have started := made.step (.call 0 (Except.error errorIoPending : Except ℕ ℕ) rfl rfl)
  have took := started.step (.call 0 true rfl rfl)
  have made' := took.step (.call 1 (Except.ok () : Except ℕ Unit) rfl rfl)
  have started' := made'.step (.call 1 (Except.error errorIoPending : Except ℕ ℕ) rfl rfl)
  have missed := started'.step (.call 1 false rfl rfl)
  refine ⟨_, missed, fun h => ?_⟩
  have hreaches := h.reaches 1 _ 2 rfl
    (.tail _ (.tail _ (.tail _ (.tail _ (.tail _ (.tail _ (.head _)))))))
    (.cons (.cons (.cons (.cons (.cons (.cons (.cons (.cons (.cons (.begins (.head _)))))))))))
    ⟨1, false⟩ List.mem_cons_self rfl
  cases hreaches

end SemanticSidecar.Windows
