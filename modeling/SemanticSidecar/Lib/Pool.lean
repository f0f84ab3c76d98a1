import SemanticSidecar.Lib.Prog
import Mathlib.Data.Nat.Notation
import Mathlib.Logic.Relation

/-!
# Many programs on one environment

A `Machine` is an environment with state and a stock of jobs: at any moment a new participant may
take up a job, any participant may have its next call answered, finish, or be killed, in any
order.  `Machine.Reachable` is what can come of that, and the log of a configuration is its whole
history.

`Outline` is the proof method for such a machine.  It gives every participant a ghost state and a
protocol, and the machine one invariant over the log, the ghost states and the shared state.  The
programs are then looked at one at a time (each job keeps to the protocol), the invariant one
operation at a time (a permitted call keeps it), and `Outline.reachable` puts the two together for
every interleaving.  `Outline.called` is the same for the calls in the history.
-/

set_option autoImplicit false

/-- An environment that answers the calls of its participants, and the jobs they may take up. -/
structure Machine (S : Sig) (Job Res : Type) where
  /-- What the participants share. -/
  State : Type
  /-- The state at the beginning. -/
  init : State
  /-- The program of a job. -/
  main : Job → Prog S Res
  /-- The state once a participant has taken up a job, where it may. -/
  start : ℕ → Job → State → Option State
  /-- The state once a call has got an answer, where it may get that answer. -/
  exec : ℕ → State → (o : S.Op) → S.Ret o → Option State
  /-- The state once a participant has finished. -/
  leave : ℕ → State → State
  /-- The state once a participant has been killed, where it may be. -/
  kill : ℕ → State → Option State

namespace Machine

variable {S : Sig} {Job Res : Type} (M : Machine S Job Res)

/-- What happened.  A call records the shared state it was made in. -/
inductive Event where
  /-- A participant has taken up a job. -/
  | started (pid : ℕ) (job : Job)
  /-- A call has got an answer. -/
  | called (pid : ℕ) (before : M.State) (o : S.Op) (r : S.Ret o)
  /-- A participant has finished. -/
  | finished (pid : ℕ) (a : Res)
  /-- A participant was killed. -/
  | killed (pid : ℕ)

/-- One participant. -/
inductive Thread (S : Sig) (Res : Type) where
  /-- It has not taken up a job. -/
  | unborn
  /-- It is at its job, and this is what it has to do. -/
  | running (code : Prog S Res)
  /-- It has finished or was killed. -/
  | gone

/-- The participants, what they share, and what has happened. -/
structure Config where
  /-- What the participants share. -/
  shared : M.State
  /-- Where each participant is. -/
  thread : ℕ → Thread S Res
  /-- What happened, the latest first. -/
  log : List M.Event

/-- The configuration everything starts from. -/
def start₀ : M.Config := ⟨M.init, fun _ => .unborn, []⟩

variable {M} in
/-- The configuration in which `pid` is at `t` and the rest of it is as given. -/
def Config.set (c : M.Config) (shared : M.State) (pid : ℕ) (t : Thread S Res)
    (log : List M.Event) : M.Config :=
  ⟨shared, Function.update c.thread pid t, log⟩

/-- One step of one participant. -/
inductive Step : M.Config → M.Config → Prop where
  /-- A participant takes up a job. -/
  | start {c : M.Config} (pid : ℕ) (job : Job) {s : M.State} (hthread : c.thread pid = .unborn)
      (hstart : M.start pid job c.shared = some s) :
      Step c (c.set s pid (.running (M.main job)) (.started pid job :: c.log))
  /-- A call gets an answer. -/
  | call {c : M.Config} (pid : ℕ) {o : S.Op} {k : S.Ret o → Prog S Res} (r : S.Ret o)
      {s : M.State} (hthread : c.thread pid = .running (.call o k))
      (hexec : M.exec pid c.shared o r = some s) :
      Step c (c.set s pid (.running (k r)) (.called pid c.shared o r :: c.log))
  /-- A loop takes a turn. -/
  | turn {c : M.Config} (pid : ℕ) {σ β : Type} {body : σ → Prog S (σ ⊕ β)} {init : σ}
      {k : β → Prog S Res} (hthread : c.thread pid = .running (.loop body init k)) :
      Step c (c.set c.shared pid (.running (Prog.unroll body init k)) c.log)
  /-- A participant finishes. -/
  | finish {c : M.Config} (pid : ℕ) {a : Res} (hthread : c.thread pid = .running (.ret a)) :
      Step c (c.set (M.leave pid c.shared) pid .gone (.finished pid a :: c.log))
  /-- A participant is killed. -/
  | kill {c : M.Config} (pid : ℕ) {code : Prog S Res} {s : M.State}
      (hthread : c.thread pid = .running code) (hkill : M.kill pid c.shared = some s) :
      Step c (c.set s pid .gone (.killed pid :: c.log))

/-- What any interleaving can lead to. -/
inductive Reachable : M.Config → Prop where
  /-- The beginning. -/
  | start : Reachable M.start₀
  /-- One more step. -/
  | step {c c' : M.Config} (h : Reachable c) (hstep : M.Step c c') : Reachable c'

variable {M} in
/-- What the log says was called did get the answer it did, in the state it was called in. -/
theorem Reachable.exec_of_called {c : M.Config} (h : M.Reachable c) {pid : ℕ} {before : M.State}
    {o : S.Op} {r : S.Ret o} (hmem : .called pid before o r ∈ c.log) :
    ∃ s', M.exec pid before o r = some s' := by
  induction h with
  | start => cases hmem
  | step _ hstep ih =>
    cases hstep with
    | turn other hthread => exact ih hmem
    | call other r' hthread hexec =>
      rcases List.mem_cons.mp hmem with heq | hmem
      · cases heq
        exact ⟨_, hexec⟩
      · exact ih hmem
    | start | finish | kill =>
      rcases List.mem_cons.mp hmem with heq | hmem
      · cases heq
      · exact ih hmem

/-! ## What the log says of a participant -/

variable {M} in
/-- Whose event it is. -/
def Event.actor : M.Event → ℕ
  | .started pid _ => pid
  | .called pid _ _ _ => pid
  | .finished pid _ => pid
  | .killed pid => pid

variable {M} in
/-- A step moves one participant on, and logs at most one event, which is its own. -/
theorem Step.shape {c c' : M.Config} (hstep : M.Step c c') :
    ∃ s pid t log, c' = c.set s pid t log ∧ t ≠ .unborn ∧
      (log = c.log ∨ ∃ e, log = e :: c.log ∧ e.actor = pid) := by
  cases hstep with
  | start pid => exact ⟨_, pid, _, _, rfl, fun h => (by cases h), .inr ⟨_, rfl, rfl⟩⟩
  | call pid => exact ⟨_, pid, _, _, rfl, fun h => (by cases h), .inr ⟨_, rfl, rfl⟩⟩
  | turn pid => exact ⟨_, pid, _, _, rfl, fun h => (by cases h), .inl rfl⟩
  | finish pid => exact ⟨_, pid, _, _, rfl, fun h => (by cases h), .inr ⟨_, rfl, rfl⟩⟩
  | kill pid => exact ⟨_, pid, _, _, rfl, fun h => (by cases h), .inr ⟨_, rfl, rfl⟩⟩

variable {M} in
/-- The log says nothing of a participant that has not taken up a job. -/
theorem Reachable.actor_ne {c : M.Config} (h : M.Reachable c) {pid : ℕ}
    (hunborn : c.thread pid = .unborn) : ∀ e ∈ c.log, e.actor ≠ pid := by
  induction h with
  | start =>
    intro e he
    cases he
  | @step c _ _ hstep ih =>
    obtain ⟨s, other, t, log, rfl, hborn, hlog⟩ := hstep.shape
    change Function.update c.thread other t pid = .unborn at hunborn
    have hne : pid ≠ other := by
      rintro rfl
      rw [Function.update_self] at hunborn
      exact hborn hunborn
    rw [Function.update_of_ne hne] at hunborn
    have hbefore := ih hunborn
    rcases hlog with rfl | ⟨e, rfl, rfl⟩
    · exact hbefore
    · intro e' he'
      rcases List.mem_cons.mp he' with rfl | he'
      · exact hne.symm
      · exact hbefore e' he'

variable {M} in
/-- A participant takes up one job. -/
theorem Reachable.started_once {c : M.Config} (h : M.Reachable c) {pid : ℕ} {job job' : Job}
    (hjob : .started pid job ∈ c.log) (hjob' : .started pid job' ∈ c.log) : job = job' := by
  induction h with
  | start => cases hjob
  | step hreach hstep ih =>
    cases hstep with
    | turn => exact ih hjob hjob'
    | start other job₀ hthread =>
      have hquiet := hreach.actor_ne hthread
      rcases List.mem_cons.mp hjob with heq | hold
      · cases heq
        rcases List.mem_cons.mp hjob' with heq' | hold'
        · cases heq'
          rfl
        · have hne := hquiet _ hold'
          exact (hne rfl).elim
      · rcases List.mem_cons.mp hjob' with heq' | hold'
        · cases heq'
          have hne := hquiet _ hold
          exact (hne rfl).elim
        · exact ih hold hold'
    | call | finish | kill =>
      have hold := (List.mem_cons.mp hjob).resolve_left fun heq => by cases heq
      have hold' := (List.mem_cons.mp hjob').resolve_left fun heq => by cases heq
      exact ih hold hold'

variable {M} in
/-- **What the log says was called** was called in a configuration on the way. -/
theorem Reachable.called_in {c : M.Config} (h : M.Reachable c) {pid : ℕ} {before : M.State}
    {o : S.Op} {r : S.Ret o} (hmem : .called pid before o r ∈ c.log) :
    ∃ c₀, M.Reachable c₀ ∧ c₀.shared = before ∧ Relation.ReflTransGen M.Step c₀ c := by
  induction h with
  | start => cases hmem
  | @step c c' hreach hstep ih =>
    have hbefore : .called pid before o r ∈ c.log → ∃ c₀, M.Reachable c₀ ∧ c₀.shared = before ∧
        Relation.ReflTransGen M.Step c₀ c' := by
      intro hmem
      obtain ⟨c₀, hreach₀, hshared, hrun⟩ := ih hmem
      exact ⟨c₀, hreach₀, hshared, hrun.tail hstep⟩
    have hrun := Relation.ReflTransGen.single hstep
    cases hstep with
    | turn => exact hbefore hmem
    | call other r' hthread hexec =>
      rcases List.mem_cons.mp hmem with heq | hmem
      · cases heq
        exact ⟨c, hreach, rfl, hrun⟩
      · exact hbefore hmem
    | start | finish | kill =>
      exact hbefore ((List.mem_cons.mp hmem).resolve_left fun heq => by cases heq)

variable {M} in
/-- The job a participant took up. -/
def jobOf (pid : ℕ) : List M.Event → Option Job
  | [] => none
  | .started other job :: log => if other = pid then some job else jobOf pid log
  | .called _ _ _ _ :: log => jobOf pid log
  | .finished _ _ :: log => jobOf pid log
  | .killed _ :: log => jobOf pid log

variable {M} in
/-- Whether a participant is at its job. -/
def running (pid : ℕ) : List M.Event → Bool
  | [] => false
  | .started other _ :: log => other == pid || running pid log
  | .called _ _ _ _ :: log => running pid log
  | .finished other _ :: log => other != pid && running pid log
  | .killed other :: log => other != pid && running pid log

variable {M} in
/-- Every call of the history is as `P` says of it, given what had happened before. -/
def EveryCall (P : List M.Event → ℕ → M.State → (o : S.Op) → S.Ret o → Prop) :
    List M.Event → Prop
  | [] => True
  | .started _ _ :: log => EveryCall P log
  | .called pid before o r :: log => P log pid before o r ∧ EveryCall P log
  | .finished _ _ :: log => EveryCall P log
  | .killed _ :: log => EveryCall P log

/-! ## Proof outlines -/

/-- Where a participant stands, with its ghost state: the one it is in, or the one it left in. -/
inductive Stage (G : Type) where
  /-- It has not taken up a job. -/
  | unborn
  /-- It is at its job. -/
  | live (g : G)
  /-- It has left. -/
  | gone (g : G)

/-- The ghost state of a participant that has taken up a job. -/
def Stage.ghost {G : Type} : Stage G → Option G
  | .unborn => none
  | .live g => some g
  | .gone g => some g

/-- A protocol for every participant and an invariant for the whole. -/
structure Outline (G : Type) where
  /-- What a participant may do. -/
  protocol : Prog.Protocol S G
  /-- The ghost state of a participant that takes up a job. -/
  enter : ℕ → Job → G
  /-- The ghost states a participant can finish in. -/
  done : Res → G → Prop
  /-- The invariant, of the log, the ghost states and the shared state. -/
  inv : List M.Event → (ℕ → Stage G) → M.State → Prop

variable {M} {G : Type}

/-- What there is to show of an outline. -/
structure Outline.Valid (O : M.Outline G) : Prop where
  /-- The invariant holds at the beginning. -/
  init : O.inv [] (fun _ => .unborn) M.init
  /-- A job that may be taken up keeps to the protocol. -/
  main : ∀ pid job s s', M.start pid job s = some s' →
    Prog.Follows O.protocol (M.main job) (O.enter pid job) O.done
  /-- A participant that takes up a job keeps the invariant. -/
  start : ∀ {log gs s} pid job s', O.inv log gs s → gs pid = .unborn →
    M.start pid job s = some s' →
    O.inv (.started pid job :: log) (Function.update gs pid (.live (O.enter pid job))) s'
  /-- A permitted call gets an allowed answer. -/
  allowed : ∀ {log gs s} pid g (o : S.Op) (r : S.Ret o) s', O.inv log gs s → gs pid = .live g →
    O.protocol.pre g o → M.exec pid s o r = some s' → O.protocol.allowed g o r
  /-- A permitted call keeps the invariant. -/
  call : ∀ {log gs s} pid g (o : S.Op) (r : S.Ret o) s', O.inv log gs s → gs pid = .live g →
    O.protocol.pre g o → M.exec pid s o r = some s' →
    O.inv (.called pid s o r :: log) (Function.update gs pid (.live (O.protocol.next g o r))) s'
  /-- A participant that finishes keeps the invariant. -/
  finish : ∀ {log gs s} pid g a, O.inv log gs s → gs pid = .live g → O.done a g →
    O.inv (.finished pid a :: log) (Function.update gs pid (.gone g)) (M.leave pid s)
  /-- A kill keeps the invariant. -/
  kill : ∀ {log gs s} pid g s', O.inv log gs s → gs pid = .live g → M.kill pid s = some s' →
    O.inv (.killed pid :: log) (Function.update gs pid (.gone g)) s'

/-- A participant is where its stage says, and keeps to the protocol from there. -/
def Outline.Stands (O : M.Outline G) (t : Thread S Res) (stage : Stage G) : Prop :=
  match t with
  | .unborn => stage = .unborn
  | .running code => ∃ g, stage = .live g ∧ Prog.Follows O.protocol code g O.done
  | .gone => ∃ g, stage = .gone g

/-- The outline holds of a configuration, for some ghost states. -/
def Outline.Holds (O : M.Outline G) (c : M.Config) : Prop :=
  ∃ gs : ℕ → Stage G, O.inv c.log gs c.shared ∧ ∀ pid, O.Stands (c.thread pid) (gs pid)

namespace Outline

variable {O : M.Outline G}

/-- A step of one participant leaves the others where they stand. -/
theorem stands_update {c : M.Config} {gs : ℕ → Stage G}
    (h : ∀ pid, O.Stands (c.thread pid) (gs pid)) (pid : ℕ) {t : Thread S Res}
    {stage : Stage G} (ht : O.Stands t stage) (other : ℕ) :
    O.Stands (Function.update c.thread pid t other) (Function.update gs pid stage other) := by
  by_cases hother : other = pid
  · subst hother
    rw [Function.update_self, Function.update_self]
    exact ht
  · rw [Function.update_of_ne hother, Function.update_of_ne hother]
    exact h other

theorem holds_step (hO : O.Valid) {c c' : M.Config} (h : O.Holds c) (hstep : M.Step c c') :
    O.Holds c' := by
  obtain ⟨gs, hinv, hall⟩ := h
  have hrunning : ∀ {pid : ℕ} {code : Prog S Res}, c.thread pid = .running code →
      ∃ g, gs pid = .live g ∧ Prog.Follows O.protocol code g O.done := by
    intro pid code hthread
    have hstands := hall pid
    rw [hthread] at hstands
    exact hstands
  cases hstep with
  | start pid job hthread hstart =>
    have hstage := hall pid
    rw [hthread] at hstage
    have hstands : O.Stands (.running (M.main job)) (.live (O.enter pid job)) :=
      ⟨_, rfl, hO.main pid job _ _ hstart⟩
    exact ⟨_, hO.start pid job _ hinv hstage hstart, stands_update hall pid hstands⟩
  | call pid r hthread hexec =>
    obtain ⟨g, hstage, hfollows⟩ := hrunning hthread
    have hallowed := hO.allowed pid g _ r _ hinv hstage hfollows.1 hexec
    have hstands : O.Stands (.running _) (.live (O.protocol.next g _ r)) :=
      ⟨_, rfl, hfollows.2 r hallowed⟩
    exact ⟨_, hO.call pid g _ r _ hinv hstage hfollows.1 hexec, stands_update hall pid hstands⟩
  | turn pid hthread =>
    obtain ⟨g, hstage, hfollows⟩ := hrunning hthread
    refine ⟨gs, hinv, fun other => ?_⟩
    have hstands : O.Stands (.running _) (gs pid) := ⟨g, hstage, hfollows.unroll⟩
    have hturn := stands_update hall pid hstands other
    rwa [Function.update_eq_self] at hturn
  | finish pid hthread =>
    obtain ⟨g, hstage, hfollows⟩ := hrunning hthread
    exact ⟨_, hO.finish pid g _ hinv hstage hfollows, stands_update hall pid ⟨g, rfl⟩⟩
  | kill pid hthread hkill =>
    obtain ⟨g, hstage, -⟩ := hrunning hthread
    exact ⟨_, hO.kill pid g _ hinv hstage hkill, stands_update hall pid ⟨g, rfl⟩⟩

/-- **The outline holds wherever any interleaving leads.** -/
theorem reachable (hO : O.Valid) {c : M.Config} (h : M.Reachable c) : O.Holds c := by
  induction h with
  | start => exact ⟨fun _ => .unborn, hO.init, fun _ => rfl⟩
  | step _ hstep ih => exact holds_step hO ih hstep

/-- **What an outline says of every call in the history**: it was permitted, where the invariant
held. -/
theorem called (hO : O.Valid) {c : M.Config} (h : M.Reachable c) {pid : ℕ} {before : M.State}
    {o : S.Op} {r : S.Ret o} (hmem : .called pid before o r ∈ c.log) :
    ∃ log gs g, O.inv log gs before ∧ gs pid = .live g ∧ O.protocol.pre g o := by
  induction h with
  | start => cases hmem
  | step hreach hstep ih =>
    cases hstep with
    | turn other hthread => exact ih hmem
    | call other r' hthread hexec =>
      rcases List.mem_cons.mp hmem with heq | hmem
      · cases heq
        obtain ⟨gs, hinv, hall⟩ := reachable hO hreach
        have hstands := hall pid
        rw [hthread] at hstands
        obtain ⟨g, hstage, hfollows⟩ := hstands
        exact ⟨_, gs, g, hinv, hstage, hfollows.1⟩
      · exact ih hmem
    | start | finish | kill =>
      rcases List.mem_cons.mp hmem with heq | hmem
      · cases heq
      · exact ih hmem

/-! ## Outlines in layers

What a valid outline says can be used to show that something more holds, so an invariant can be
built up in layers, each with its own reasons. -/

/-- The outline with something more that holds. -/
def also (O : M.Outline G) (E : List M.Event → (ℕ → Stage G) → M.State → Prop) : M.Outline G :=
  { O with inv := fun log gs s => O.inv log gs s ∧ E log gs s }

/-- What there is to show of a further layer. -/
structure Keeps (O : M.Outline G) (E : List M.Event → (ℕ → Stage G) → M.State → Prop) : Prop where
  /-- The layer holds at the beginning. -/
  init : E [] (fun _ => .unborn) M.init
  /-- A participant that takes up a job keeps the layer. -/
  start : ∀ {log gs s} pid job s', O.inv log gs s → E log gs s → gs pid = .unborn →
    M.start pid job s = some s' →
    E (.started pid job :: log) (Function.update gs pid (.live (O.enter pid job))) s'
  /-- A permitted call keeps the layer. -/
  call : ∀ {log gs s} pid g (o : S.Op) (r : S.Ret o) s', O.inv log gs s → E log gs s →
    gs pid = .live g → O.protocol.pre g o → M.exec pid s o r = some s' →
    E (.called pid s o r :: log) (Function.update gs pid (.live (O.protocol.next g o r))) s'
  /-- A participant that finishes keeps the layer. -/
  finish : ∀ {log gs s} pid g a, O.inv log gs s → E log gs s → gs pid = .live g → O.done a g →
    E (.finished pid a :: log) (Function.update gs pid (.gone g)) (M.leave pid s)
  /-- A kill keeps the layer. -/
  kill : ∀ {log gs s} pid g s', O.inv log gs s → E log gs s → gs pid = .live g →
    M.kill pid s = some s' → E (.killed pid :: log) (Function.update gs pid (.gone g)) s'

/-- **A further layer of a valid outline.** -/
theorem Valid.also (hO : O.Valid) {E : List M.Event → (ℕ → Stage G) → M.State → Prop}
    (hE : O.Keeps E) : (O.also E).Valid where
  init := ⟨hO.init, hE.init⟩
  main := hO.main
  start := fun pid job s' hinv hunborn hstart =>
    ⟨hO.start pid job s' hinv.1 hunborn hstart, hE.start pid job s' hinv.1 hinv.2 hunborn hstart⟩
  allowed := fun pid g o r s' hinv hlive hpre hexec => hO.allowed pid g o r s' hinv.1 hlive hpre hexec
  call := fun pid g o r s' hinv hlive hpre hexec =>
    ⟨hO.call pid g o r s' hinv.1 hlive hpre hexec,
      hE.call pid g o r s' hinv.1 hinv.2 hlive hpre hexec⟩
  finish := fun pid g a hinv hlive hdone =>
    ⟨hO.finish pid g a hinv.1 hlive hdone, hE.finish pid g a hinv.1 hinv.2 hlive hdone⟩
  kill := fun pid g s' hinv hlive hkill =>
    ⟨hO.kill pid g s' hinv.1 hlive hkill, hE.kill pid g s' hinv.1 hinv.2 hlive hkill⟩

/-- The log says which participants are at their jobs, and nothing of those that have none. -/
structure Chronicle (log : List M.Event) (gs : ℕ → Stage G) : Prop where
  /-- The log says nothing of those that have no job. -/
  unborn : ∀ pid, gs pid = .unborn → ∀ e ∈ log, e.actor ≠ pid
  /-- By the log those are at their jobs who are. -/
  running : ∀ pid, running pid log = true ↔ ∃ g, gs pid = .live g

theorem Chronicle.cons {log : List M.Event} {gs : ℕ → Stage G} (h : Chronicle log gs) (pid : ℕ)
    {e : M.Event} (hactor : e.actor = pid) {stage : Stage G} (hborn : stage ≠ .unborn)
    (hself : Machine.running pid (e :: log) = true ↔ ∃ g, stage = .live g)
    (hothers : ∀ other, other ≠ pid →
      Machine.running other (e :: log) = Machine.running other log) :
    Chronicle (e :: log) (Function.update gs pid stage) := by
  refine ⟨fun other hunborn e' he' => ?_, fun other => ?_⟩
  · by_cases hother : other = pid
    · rw [hother, Function.update_self] at hunborn
      exact absurd hunborn hborn
    · rw [Function.update_of_ne hother] at hunborn
      rcases List.mem_cons.mp he' with rfl | he'
      · rw [hactor]
        exact Ne.symm hother
      · exact h.unborn other hunborn e' he'
  · by_cases hother : other = pid
    · rw [hother, Function.update_self]
      exact hself
    · rw [Function.update_of_ne hother, hothers other hother]
      exact h.running other

/-- **The log is right about who is at work**, whatever the outline. -/
theorem chronicle (O : M.Outline G) : O.Keeps fun log gs _ => Chronicle log gs where
  init := by
    refine ⟨fun _ _ e he => (nomatch he), fun pid => ⟨fun h => (nomatch h), ?_⟩⟩
    rintro ⟨g, hg⟩
    exact nomatch hg
  start := by
    intro log gs s pid job s' _ h _ _
    refine h.cons pid rfl (fun heq => nomatch heq) ⟨fun _ => ⟨_, rfl⟩, fun _ => ?_⟩ fun other hother => ?_
    · simp [running]
    · simp [running, Ne.symm hother]
  call := by
    intro log gs s pid g o r s' _ h hlive _ _
    refine h.cons pid rfl (fun heq => nomatch heq) ⟨fun _ => ⟨_, rfl⟩, fun _ => ?_⟩ fun _ _ => rfl
    exact (h.running pid).mpr ⟨g, hlive⟩
  finish := by
    intro log gs s pid g a _ h _ _
    refine h.cons pid rfl (fun heq => nomatch heq) ⟨fun hrun => ?_, ?_⟩ fun other hother => ?_
    · simp [running] at hrun
    · rintro ⟨_, hg⟩
      exact nomatch hg
    · simp [running, Ne.symm hother]
  kill := by
    intro log gs s pid g s' _ h _ _
    refine h.cons pid rfl (fun heq => nomatch heq) ⟨fun hrun => ?_, ?_⟩ fun other hother => ?_
    · simp [running] at hrun
    · rintro ⟨_, hg⟩
      exact nomatch hg
    · simp [running, Ne.symm hother]

end Outline

end Machine
