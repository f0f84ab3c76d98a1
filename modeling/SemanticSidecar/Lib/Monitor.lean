import SemanticSidecar.Lib.Pool
import Mathlib.Data.List.Basic

/-!
# A monitor

Data under a mutex, with one condition variable: threads take the mutex, look at the data, change
them, notify, sleep until they are notified, and give the mutex back.  A sleeping thread may also
wake up for no reason, and a notified one has to take the mutex like anyone else.

What the data are and what the threads do with them is left open.  An `Object` says what one time
in the mutex is supposed to come to, as a step of an object that has no mutex, and what the threads
sleep for.  `protocol` is how a thread has to use the monitor, and two things follow for any number
of threads that keep to it, whatever the interleaving:

* `linearized`: their times in the mutex are steps of the object, in an order that respects real
  time, and every call was answered as the object says;
* `no_lost_wakeup`: as long as someone sleeps, there are as many threads on their way to the data
  as there are items to be taken.
-/

set_option autoImplicit false

namespace Monitor

/-! ## How a thread uses it -/

/-- What a thread does with a monitor. -/
inductive Op (σ : Type) where
  /-- The mutex is taken, also at the end of a wait; the answer is the data as they are then. -/
  | lock
  /-- The data are changed. -/
  | put (data : σ)
  /-- The clock is read. -/
  | now
  /-- The answer is the thread that was woken. -/
  | notifyOne
  /-- The start of a wait: the mutex is given back, and the thread sleeps. -/
  | sleep
  /-- The mutex is given back. -/
  | unlock

/-- What a call is answered with. -/
@[reducible] def Op.Ret {σ : Type} : Op σ → Type
  | .lock => σ
  | .put _ => Unit
  | .now => ℕ
  | .notifyOne => Option ℕ
  | .sleep => Unit
  | .unlock => Unit

/-- The calls of a thread and their answers. -/
abbrev sig (σ : Type) : Sig := ⟨Op σ, Op.Ret⟩

/-- The data, the mutex and the condition variable. -/
structure State (σ : Type) where
  /-- The data. -/
  data : σ
  /-- The thread that has the mutex. -/
  holder : Option ℕ
  /-- The threads that sleep and have not been notified. -/
  asleep : List ℕ

variable {σ Job Res ε : Type}

/-- A time in the mutex: the data then and now, and the clock where it was read. -/
structure Turn (σ : Type) where
  /-- The data when the mutex was taken. -/
  before : σ
  /-- The data now. -/
  data : σ
  /-- The clock, if it was read. -/
  clock : Option ℕ

/-- What a monitor is for. -/
structure Object (σ Job Res ε : Type) where
  /-- What a time in the mutex comes to. -/
  event : Job → Turn σ → ε
  /-- What an event does to the data. -/
  Step : σ → ε → σ → Prop
  /-- What is answered to one who has come to these. -/
  Answers : Job → List ε → Res → Prop
  /-- How many items there are to be taken. -/
  items : σ → ℕ
  /-- Whether one is there to take an item, and sleeps as long as there is none. -/
  takes : Job → Bool

/-- Where a thread stands. -/
structure Ghost (σ Job ε : Type) where
  /-- What the thread is to do. -/
  job : Job
  /-- Its time in the mutex, while it holds it. -/
  inside : Option (Turn σ)
  /-- It has not taken its item yet. -/
  wants : Bool
  /-- The items it has added and notified nobody of. -/
  owes : ℕ
  /-- What its earlier times in the mutex have come to. -/
  events : List ε

namespace Ghost

variable (O : Object σ Job Res ε) (g : Ghost σ Job ε)

/-- A thread that begins. -/
def enter (job : Job) : Ghost σ Job ε := ⟨job, none, O.takes job, 0, []⟩

/-- The data have been changed. -/
def put (turn : Turn σ) (data : σ) : Ghost σ Job ε :=
  { g with
    inside := some { turn with data := data }
    wants := g.wants && decide (O.items turn.data ≤ O.items data)
    owes := g.owes + (O.items data - O.items turn.data) }

/-- The mutex has been given back. -/
def leave (turn : Turn σ) : Ghost σ Job ε :=
  { g with inside := none, owes := 0, events := g.events ++ [O.event g.job turn] }

/-- The time in the mutex is a step of the object. -/
def CanLeave (turn : Turn σ) : Prop :=
  g.inside = some turn ∧ O.Step turn.before (O.event g.job turn) turn.data

end Ghost

variable (O : Object σ Job Res ε)

/-- Where a call leaves a thread. -/
def next (g : Ghost σ Job ε) : (o : Op σ) → o.Ret → Ghost σ Job ε
  | .lock, data => { g with inside := some ⟨data, data, none⟩ }
  | .put data, _ => (g.inside.map fun turn => g.put O turn data).getD g
  | .now, now => { g with inside := g.inside.map fun turn => { turn with clock := some now } }
  | .notifyOne, _ => { g with owes := g.owes - 1 }
  | .sleep, _ => (g.inside.map (g.leave O)).getD g
  | .unlock, _ => (g.inside.map (g.leave O)).getD g

/-- The calls a thread may make: it gives the mutex back only after a step of the object and when it
owes no notification, and sleeps only where there is nothing to take. -/
def pre (g : Ghost σ Job ε) : Op σ → Prop
  | .lock => g.inside = none
  | .put _ => g.inside.isSome = true
  | .now => True
  | .notifyOne => g.inside.isSome = true
  | .sleep => g.wants = true ∧ ∃ turn, g.CanLeave O turn ∧ O.items turn.data = 0
  | .unlock => g.owes = 0 ∧ ∃ turn, g.CanLeave O turn

/-- What a thread may do with the monitor. -/
def protocol : Prog.Protocol (sig σ) (Ghost σ Job ε) where
  pre := pre O
  allowed _ _ _ := True
  next := next O

/-- A thread that ends has what it wants, and an answer. -/
def Done (result : Res) (g : Ghost σ Job ε) : Prop :=
  g.inside = none ∧ g.wants = false ∧ O.Answers g.job g.events result

/-! ## Who is where -/

/-- The time in the mutex that a thread is in. -/
def inside : Machine.Stage (Ghost σ Job ε) → Option (Turn σ)
  | .live g => g.inside
  | _ => none

/-- What a thread owes. -/
def owes : Machine.Stage (Ghost σ Job ε) → ℕ
  | .live g => g.owes
  | _ => 0

/-- What the times of a thread in the mutex have come to. -/
def events : Machine.Stage (Ghost σ Job ε) → List ε
  | .unborn => []
  | .live g => g.events
  | .gone g => g.events

variable {O} {gs : ℕ → Machine.Stage (Ghost σ Job ε)} {s s' : State σ} {pid : ℕ}
  {g : Ghost σ Job ε}

/-- The thread that holds the mutex is the only one. -/
theorem holder_of_ne {other : ℕ} (hheld : s.holder = some pid) (hne : other ≠ pid) :
    s.holder ≠ some other := by
  rw [hheld]
  exact fun heq => hne (Option.some.inj heq).symm

/-- What the thread in the mutex owes. -/
def owed (gs : ℕ → Machine.Stage (Ghost σ Job ε)) : Option ℕ → ℕ
  | none => 0
  | some pid => owes (gs pid)

/-- It does not sleep, and has yet to take its item. -/
def OnItsWay (gs : ℕ → Machine.Stage (Ghost σ Job ε)) (s : State σ) (pid : ℕ) : Prop :=
  pid ∉ s.asleep ∧ ∃ g, gs pid = .live g ∧ g.wants = true

variable (O) in
/-- As long as someone sleeps, every item has a thread that is on its way or a notification that is
still to come. -/
def Covered (gs : ℕ → Machine.Stage (Ghost σ Job ε)) (s : State σ) : Prop :=
  s.asleep ≠ [] → ∃ awake : List ℕ, awake.Nodup ∧ (∀ pid ∈ awake, OnItsWay gs s pid) ∧
    O.items s.data ≤ awake.length + owed gs s.holder

theorem OnItsWay.update {other : ℕ} (h : OnItsWay gs s other) (hne : other ≠ pid)
    (hasleep : other ∉ s'.asleep) (stage : Machine.Stage (Ghost σ Job ε)) :
    OnItsWay (Function.update gs pid stage) s' other := by
  obtain ⟨-, g, hlive, hwants⟩ := h
  exact ⟨hasleep, g, by rw [Function.update_of_ne hne]; exact hlive, hwants⟩

/-- Who is on its way stays so where it wants its item as before. -/
theorem OnItsWay.called {other : ℕ} (h : OnItsWay gs s other) (hlive : gs pid = .live g)
    (hasleep : other ∉ s'.asleep) {g' : Ghost σ Job ε} (hwants : g.wants = true → g'.wants = true) :
    OnItsWay (Function.update gs pid (.live g')) s' other := by
  by_cases hne : other = pid
  · subst hne
    obtain ⟨-, g'', hlive', hwants'⟩ := h
    obtain rfl : g = g'' := Machine.Stage.live.inj (hlive.symm.trans hlive')
    exact ⟨hasleep, g', by rw [Function.update_self], hwants hwants'⟩
  · exact h.update hne hasleep _

theorem owed_update_self (gs : ℕ → Machine.Stage (Ghost σ Job ε)) (pid : ℕ)
    (stage : Machine.Stage (Ghost σ Job ε)) :
    owed (Function.update gs pid stage) (some pid) = owes stage := by
  rw [owed, Function.update_self]

theorem owed_update_of_ne (gs : ℕ → Machine.Stage (Ghost σ Job ε)) {holder : Option ℕ}
    (hne : holder ≠ some pid) (stage : Machine.Stage (Ghost σ Job ε)) :
    owed (Function.update gs pid stage) holder = owed gs holder := by
  cases holder with
  | none => rfl
  | some other =>
    rw [owed, owed, Function.update_of_ne]
    exact fun heq => hne (by rw [heq])

theorem owed_self (hlive : gs pid = .live g) : owed gs (some pid) = g.owes := by
  rw [owed, hlive]
  rfl

/-- The data have been changed: one who took an item is on its way no longer, and who added items
owes a notification for each. -/
theorem Covered.put (h : Covered O gs s) (hlive : gs pid = .live g) (hheld : s.holder = some pid)
    {turn : Turn σ} (hturn : turn.data = s.data) (data : σ) :
    Covered O (Function.update gs pid (.live (g.put O turn data))) { s with data := data } := by
  intro hne
  obtain ⟨awake, hnodup, hway, hcount⟩ := h hne
  have howes : owed (Function.update gs pid (.live (g.put O turn data))) s.holder =
      g.owes + (O.items data - O.items s.data) := by
    rw [hheld, owed_update_self, ← hturn]
    rfl
  have hbefore : owed gs s.holder = g.owes := by rw [hheld, owed_self hlive]
  by_cases htaken : O.items data < O.items s.data
  · refine ⟨awake.erase pid, hnodup.erase pid, fun other hother => ?_, ?_⟩
    · have hother' : other ≠ pid := fun heq => hnodup.not_mem_erase (heq ▸ hother)
      have hold := hway other (List.mem_of_mem_erase hother)
      exact hold.update hother' hold.1 _
    · have hlength := List.length_erase_le (a := pid) (l := awake)
      have hlength' : awake.length ≤ (awake.erase pid).length + 1 := by
        rw [List.length_erase]
        split <;> omega
      show O.items data ≤ _
      rw [howes]
      omega
  · refine ⟨awake, hnodup, fun other hother => ?_, ?_⟩
    · refine (hway other hother).called hlive (hway other hother).1 fun hwants => ?_
      simp [Ghost.put, hwants, hturn, Nat.le_of_not_lt htaken]
    · show O.items data ≤ _
      rw [howes]
      omega

/-- The data as the last one to leave the mutex has left them. -/
def committed (gs : ℕ → Machine.Stage (Ghost σ Job ε)) (s : State σ) : σ :=
  match s.holder with
  | none => s.data
  | some pid => ((inside (gs pid)).map Turn.before).getD s.data

/-- The thread in the mutex has been given the data as they were committed. -/
theorem committed_self (hlive : gs pid = .live g) (hheld : s.holder = some pid) {turn : Turn σ}
    (hinside : g.inside = some turn) : committed gs s = turn.before := by
  simp [committed, hheld, hlive, inside, hinside]

/-- The commitment is that of the thread in the mutex. -/
theorem committed_update_of_ne (hne : s.holder ≠ some pid) (stage : Machine.Stage (Ghost σ Job ε)) :
    committed (Function.update gs pid stage) s = committed gs s := by
  cases hholder : s.holder with
  | none => simp [committed, hholder]
  | some other =>
    have hother : other ≠ pid := fun heq => hne (by rw [hholder, heq])
    simp [committed, hholder, Function.update_of_ne hother]

/-- Steps of the object, one after the other. -/
inductive Run (Step : σ → ε → σ → Prop) (first : σ) : List ε → σ → Prop
  /-- Nothing has happened. -/
  | nil : Run Step first [] first
  /-- One more event. -/
  | snoc {done : List ε} {x y : σ} {event : ε} (run : Run Step first done x) (step : Step x event y) :
    Run Step first (done ++ [event]) y

/-- What one thread has to do with an order of events. -/
def eventsOf (pid : ℕ) (order : List (ℕ × ε)) : List ε :=
  (order.filter fun entry => entry.1 = pid).map Prod.snd

theorem eventsOf_append_self (pid : ℕ) (event : ε) (order : List (ℕ × ε)) :
    eventsOf pid (order ++ [(pid, event)]) = eventsOf pid order ++ [event] := by
  simp [eventsOf]

theorem eventsOf_append_of_ne {pid other : ℕ} (hne : other ≠ pid) (event : ε)
    (order : List (ℕ × ε)) : eventsOf other (order ++ [(pid, event)]) = eventsOf other order := by
  simp [eventsOf, Ne.symm hne]

theorem ne_of_eventsOf {pid : ℕ} {order : List (ℕ × ε)} (h : eventsOf pid order = []) :
    ∀ entry ∈ order, entry.1 ≠ pid := by
  simpa [eventsOf] using h

/-! ## The machine -/

variable [DecidableEq σ]

/-- What a call does, where it gets the answer.  A sleeping thread that takes the mutex has woken
up for no reason. -/
def exec (pid : ℕ) (s : State σ) : (o : Op σ) → o.Ret → Option (State σ)
  | .lock, data =>
    if s.holder = none ∧ data = s.data then
      some { s with holder := some pid, asleep := s.asleep.erase pid }
    else none
  | .put data, _ => if s.holder = some pid then some { s with data := data } else none
  | .now, _ => some s
  | .notifyOne, none => if s.asleep = [] then some s else none
  | .notifyOne, some woken =>
    if woken ∈ s.asleep then some { s with asleep := s.asleep.erase woken } else none
  | .sleep, _ =>
    if s.holder = some pid then some { s with holder := none, asleep := pid :: s.asleep } else none
  | .unlock, _ => if s.holder = some pid then some { s with holder := none } else none

/-- Threads with programs of their own at one monitor. -/
def machine (main : Job → Prog (sig σ) Res) (data₀ : σ) : Machine (sig σ) Job Res where
  State := State σ
  init := ⟨data₀, none, []⟩
  main := main
  start _ _ s := some s
  exec := exec
  leave _ s := s
  kill _ _ := none

variable {main : Job → Prog (sig σ) Res} {data₀ : σ}

/-- What the threads have done. -/
abbrev Log (main : Job → Prog (sig σ) Res) (data₀ : σ) := List (machine main data₀).Event

/-- The monitor is where the threads say. -/
structure Inv (log : Log main data₀) (gs : ℕ → Machine.Stage (Ghost σ Job ε)) (s : State σ) :
    Prop where
  /-- The mutex is held by the thread that is inside. -/
  holder : ∀ pid, s.holder = some pid ↔ (inside (gs pid)).isSome = true
  /-- The thread inside knows the data. -/
  data : ∀ pid turn, inside (gs pid) = some turn → turn.data = s.data
  /-- Whoever sleeps is outside and wants an item. -/
  asleep : ∀ pid ∈ s.asleep, ∃ g, gs pid = .live g ∧ g.inside = none ∧ g.wants = true
  /-- Nobody sleeps twice. -/
  nodup : s.asleep.Nodup
  /-- The job of a thread is the one it was started with. -/
  job : ∀ pid g, (gs pid).ghost = some g → Machine.jobOf pid log = some g.job

variable {log : Log main data₀} {e : (machine main data₀).Event}

/-- The thread in the mutex holds it. -/
theorem Inv.holds (h : Inv log gs s) (hlive : gs pid = .live g) (hinside : g.inside.isSome = true) :
    s.holder = some pid := by
  rw [h.holder, hlive]
  exact hinside

/-- **One thread moves on.**  What it does to the data it does in the mutex. -/
theorem Inv.update (h : Inv log gs s) {stage : Machine.Stage (Ghost σ Job ε)}
    (hholder : ∀ other, other ≠ pid → (s'.holder = some other ↔ s.holder = some other))
    (hself : s'.holder = some pid ↔ (inside stage).isSome = true)
    (hdata : s'.data = s.data ∨ s.holder = some pid)
    (hturn : ∀ turn, inside stage = some turn → turn.data = s'.data)
    (hasleep : ∀ other ∈ s'.asleep, (other ≠ pid ∧ other ∈ s.asleep) ∨
      other = pid ∧ ∃ g, stage = .live g ∧ g.inside = none ∧ g.wants = true)
    (hnodup : s'.asleep.Nodup)
    (hjob : ∀ g, stage.ghost = some g → Machine.jobOf pid (e :: log) = some g.job)
    (hjobs : ∀ other, other ≠ pid → Machine.jobOf other (e :: log) = Machine.jobOf other log) :
    Inv (e :: log) (Function.update gs pid stage) s' := by
  refine ⟨?_, ?_, fun other hother => ?_, hnodup, ?_⟩
  · refine (Function.forall_update_iff gs fun other stage =>
      s'.holder = some other ↔ (inside stage).isSome = true).mpr ⟨hself, fun other hne => ?_⟩
    rw [hholder other hne]
    exact h.holder other
  · refine (Function.forall_update_iff gs fun other stage =>
      ∀ turn, inside stage = some turn → turn.data = s'.data).mpr ⟨hturn, fun other hne turn hin => ?_⟩
    rcases hdata with hsame | hheld
    · rw [hsame]
      exact h.data other turn hin
    · -- It is not another one who is in the mutex.
      have hthere := (h.holder other).mpr (by rw [hin]; rfl)
      exact absurd (Option.some.inj (hthere.symm.trans hheld)) hne
  · rcases hasleep other hother with ⟨hne, hold⟩ | ⟨rfl, hnew⟩
    · rw [Function.update_of_ne hne]
      exact h.asleep other hold
    · rw [Function.update_self]
      exact hnew
  · refine (Function.forall_update_iff gs fun other stage => ∀ g, stage.ghost = some g →
      Machine.jobOf other (e :: log) = some g.job).mpr ⟨hjob, fun other hne g hghost => ?_⟩
    rw [hjobs other hne]
    exact h.job other g hghost

/-- A call of a thread that leaves those who sleep alone. -/
theorem Inv.called (h : Inv log gs s) (hlive : gs pid = .live g) {g' : Ghost σ Job ε}
    (hsame : g'.job = g.job)
    (hholder : ∀ other, other ≠ pid → (s'.holder = some other ↔ s.holder = some other))
    (hself : s'.holder = some pid ↔ g'.inside.isSome = true)
    (hdata : s'.data = s.data ∨ s.holder = some pid)
    (hturn : ∀ turn, g'.inside = some turn → turn.data = s'.data)
    (hasleep : ∀ other ∈ s'.asleep, (other ≠ pid ∧ other ∈ s.asleep) ∨
      other = pid ∧ g'.inside = none ∧ g'.wants = true)
    (hnodup : s'.asleep.Nodup) {o : Op σ} {r : o.Ret} :
    Inv (.called pid s o r :: log) (Function.update gs pid (.live g')) s' := by
  refine h.update hholder hself hdata hturn (fun other hother => ?_) hnodup ?_ fun _ _ => rfl
  · exact (hasleep other hother).imp_right fun ⟨hpid, hin, hwants⟩ => ⟨hpid, g', rfl, hin, hwants⟩
  · rintro _ ⟨⟩
    rw [hsame]
    exact h.job pid g (by rw [hlive]; rfl)

/-! ## What a call does -/

theorem exec_lock {data : σ} (h : exec pid s .lock data = some s') :
    s.holder = none ∧ data = s.data ∧
      s' = { s with holder := some pid, asleep := s.asleep.erase pid } := by
  simp only [exec] at h
  split at h
  · rename_i hfree
    exact ⟨hfree.1, hfree.2, (Option.some.inj h).symm⟩
  · cases h

theorem exec_put {data : σ} (h : exec pid s (.put data) () = some s') :
    s.holder = some pid ∧ s' = { s with data := data } := by
  simp only [exec] at h
  split at h
  · exact ⟨‹_›, (Option.some.inj h).symm⟩
  · cases h

theorem exec_notifyOne {woken : Option ℕ} (h : exec pid s .notifyOne woken = some s') :
    (woken = none ∧ s.asleep = [] ∧ s' = s) ∨
      ∃ other ∈ s.asleep, woken = some other ∧ s' = { s with asleep := s.asleep.erase other } := by
  cases woken with
  | none =>
    simp only [exec] at h
    split at h
    · exact .inl ⟨rfl, ‹_›, (Option.some.inj h).symm⟩
    · cases h
  | some other =>
    simp only [exec] at h
    split at h
    · exact .inr ⟨other, ‹_›, rfl, (Option.some.inj h).symm⟩
    · cases h

theorem exec_sleep (h : exec pid s .sleep () = some s') :
    s.holder = some pid ∧ s' = { s with holder := none, asleep := pid :: s.asleep } := by
  simp only [exec] at h
  split at h
  · exact ⟨‹_›, (Option.some.inj h).symm⟩
  · cases h

theorem exec_unlock (h : exec pid s .unlock () = some s') :
    s.holder = some pid ∧ s' = { s with holder := none } := by
  simp only [exec] at h
  split at h
  · exact ⟨‹_›, (Option.some.inj h).symm⟩
  · cases h

/-- The mutex is given back. -/
theorem Inv.leaves (h : Inv log gs s) (hlive : gs pid = .live g) (turn : Turn σ)
    (hheld : s.holder = some pid) {asleep : List ℕ}
    (hasleep : ∀ other ∈ asleep, (other ≠ pid ∧ other ∈ s.asleep) ∨ other = pid ∧ g.wants = true)
    (hnodup : asleep.Nodup) {o : Op σ} {r : o.Ret} :
    Inv (.called pid s o r :: log) (Function.update gs pid (.live (g.leave O turn)))
      { s with holder := none, asleep := asleep } := by
  refine h.called hlive ?_ (fun other hne => ?_) ?_ ?_ ?_ (fun other hother => ?_) ?_
  · rfl
  · exact ⟨fun hnone => (nomatch hnone), fun hthere => absurd hthere (holder_of_ne hheld hne)⟩
  · exact ⟨fun hnone => (nomatch hnone), fun hnone => (nomatch hnone)⟩
  · exact .inl rfl
  · exact fun turn hnone => nomatch hnone
  · exact (hasleep other hother).imp_right fun ⟨hpid, hwants⟩ => ⟨hpid, rfl, hwants⟩
  · exact hnodup

/-- One who does not sleep is not among those who do. -/
theorem Inv.awake (h : Inv log gs s) (hheld : s.holder = some pid) : pid ∉ s.asleep := by
  intro hmem
  obtain ⟨g, hlive, hin, -⟩ := h.asleep pid hmem
  have hsome := (h.holder pid).mp hheld
  rw [hlive] at hsome
  simp [inside, hin] at hsome

/-- **A permitted call keeps the invariant.** -/
theorem Inv.call (h : Inv log gs s) (hlive : gs pid = .live g) {o : Op σ} {r : o.Ret}
    (hpre : pre O g o) (hexec : exec pid s o r = some s') :
    Inv (.called pid s o r :: log) (Function.update gs pid (.live (next O g o r))) s' := by
  have hsub : ∀ other, other ∈ s.asleep.erase pid → other ≠ pid ∧ other ∈ s.asleep :=
    fun other hother => ⟨fun heq => h.nodup.not_mem_erase (heq ▸ hother), List.mem_of_mem_erase hother⟩
  cases o with
  | lock =>
    obtain ⟨hfree, rfl, rfl⟩ := exec_lock hexec
    refine h.called hlive ?_ (fun other hne => ?_) ?_ ?_ ?_ (fun other hother => ?_) ?_
    · rfl
    · rw [hfree]
      exact ⟨fun heq => absurd (Option.some.inj heq).symm hne, fun heq => by cases heq⟩
    · exact ⟨fun _ => rfl, fun _ => rfl⟩
    · exact .inl rfl
    · rintro _ ⟨⟩
      rfl
    · exact .inl (hsub other hother)
    · exact h.nodup.erase pid
  | put data =>
    obtain ⟨hheld, rfl⟩ := exec_put hexec
    obtain ⟨turn, hturn⟩ := Option.isSome_iff_exists.mp hpre
    have hnext : next O g (.put data) r = g.put O turn data := by simp [next, hturn]
    rw [hnext]
    refine h.called hlive ?_ (fun _ _ => ?_) ?_ ?_ ?_ (fun other hother => .inl ⟨?_, ?_⟩) ?_
    · rfl
    · exact Iff.rfl
    · exact ⟨fun _ => rfl, fun _ => hheld⟩
    · exact .inr hheld
    · rintro _ ⟨⟩
      rfl
    · rintro rfl
      exact h.awake hheld hother
    · exact hother
    · exact h.nodup
  | now =>
    obtain rfl : s = s' := Option.some.inj hexec
    refine h.called hlive ?_ (fun _ _ => ?_) ?_ ?_ (fun turn hin => ?_) (fun other hother => ?_)
      h.nodup
    · rfl
    · exact Iff.rfl
    · rw [h.holder, hlive]
      simp [next, inside]
    · exact .inl rfl
    · obtain ⟨old, hold, rfl⟩ := Option.map_eq_some_iff.mp hin
      exact h.data pid old (by rw [hlive]; exact hold)
    · by_cases hne : other = pid
      · subst hne
        obtain ⟨g', hlive', hin, hwants⟩ := h.asleep other hother
        obtain rfl : g = g' := Machine.Stage.live.inj (hlive.symm.trans hlive')
        exact .inr ⟨rfl, by simp [next, hin], hwants⟩
      · exact .inl ⟨hne, hother⟩
  | notifyOne =>
    have hheld := h.holds hlive hpre
    have hframe : ∀ asleep : List ℕ, (∀ other ∈ asleep, other ∈ s.asleep) → asleep.Nodup →
        Inv (.called pid s .notifyOne r :: log)
          (Function.update gs pid (.live (next O g .notifyOne r))) { s with asleep := asleep } := by
      intro asleep hasleep hnodup
      refine h.called hlive ?_ (fun _ _ => ?_) ?_ ?_ (fun turn hin => ?_)
        (fun other hother => .inl ⟨?_, hasleep other hother⟩) hnodup
      · rfl
      · exact Iff.rfl
      · exact ⟨fun _ => hpre, fun _ => hheld⟩
      · exact .inl rfl
      · exact h.data pid turn (by rw [hlive]; exact hin)
      · rintro rfl
        exact h.awake hheld (hasleep other hother)
    rcases exec_notifyOne hexec with ⟨-, -, hsame⟩ | ⟨other, -, -, rfl⟩
    · rw [hsame]
      exact hframe s.asleep (fun _ => id) h.nodup
    · exact hframe _ (fun _ => List.mem_of_mem_erase) (h.nodup.erase other)
  | sleep =>
    obtain ⟨hheld, rfl⟩ := exec_sleep hexec
    obtain ⟨hwants, turn, hcan, -⟩ := hpre
    have hnext : next O g .sleep r = g.leave O turn := by simp [next, hcan.1]
    rw [hnext]
    refine h.leaves hlive turn hheld (fun other hother => ?_)
      (List.nodup_cons.mpr ⟨h.awake hheld, h.nodup⟩)
    rcases List.mem_cons.mp hother with rfl | hold
    · exact .inr ⟨rfl, hwants⟩
    · exact .inl ⟨fun heq => h.awake hheld (heq ▸ hold), hold⟩
  | unlock =>
    obtain ⟨hheld, rfl⟩ := exec_unlock hexec
    obtain ⟨-, turn, hcan⟩ := hpre
    have hnext : next O g .unlock r = g.leave O turn := by simp [next, hcan.1]
    rw [hnext]
    exact h.leaves hlive turn hheld
      (fun other hother => .inl ⟨fun heq => h.awake hheld (heq ▸ hother), hother⟩) h.nodup

variable (O) (main data₀) in
/-- The threads keep to the protocol, and the monitor is where they say. -/
def outline : (machine main data₀).Outline (Ghost σ Job ε) where
  protocol := protocol O
  enter _ := Ghost.enter O
  done := Done O
  inv := Inv

theorem outline_valid
    (hmain : ∀ job, Prog.Follows (protocol O) (main job) (Ghost.enter O job) (Done O)) :
    (outline O main data₀).Valid where
  init := by
    refine ⟨fun pid => ?_, ?_, ?_, List.nodup_nil, ?_⟩
    · exact ⟨fun hnone => (nomatch hnone), fun hnone => (nomatch hnone)⟩
    · exact fun pid turn hnone => nomatch hnone
    · exact fun pid hmem => nomatch hmem
    · exact fun pid g hnone => nomatch hnone
  main _ job _ _ _ := hmain job
  start := by
    rintro log gs s pid job s' hinv hunborn ⟨⟩
    have hout : inside (gs pid) = none := by rw [hunborn]; rfl
    refine Inv.update hinv (fun _ _ => Iff.rfl) ?_ (.inl rfl) (fun turn hnone => nomatch hnone)
      (fun other hother => .inl ⟨?_, hother⟩) hinv.nodup ?_ fun other hne => ?_
    · rw [hinv.holder, hout]
      exact ⟨fun hnone => (nomatch hnone), fun hnone => (nomatch hnone)⟩
    · rintro rfl
      obtain ⟨g, hlive, -⟩ := hinv.asleep other hother
      rw [hunborn] at hlive
      cases hlive
    · rintro _ ⟨⟩
      simp [Machine.jobOf, outline, Ghost.enter]
    · simp [Machine.jobOf, Ne.symm hne]
  allowed _ _ _ _ _ _ _ _ _ := trivial
  call pid g o r s' hinv hlive hpre hexec := Inv.call hinv hlive hpre hexec
  finish := by
    intro log gs s pid g result hinv hlive hdone
    have hout : inside (gs pid) = none := by rw [hlive]; exact hdone.1
    refine Inv.update hinv (fun _ _ => Iff.rfl) ?_ (.inl rfl) (fun turn hnone => nomatch hnone)
      (fun other hother => .inl ⟨?_, hother⟩) hinv.nodup ?_ fun _ _ => rfl
    · show s.holder = some pid ↔ _
      rw [hinv.holder, hout]
      exact ⟨fun hnone => (nomatch hnone), fun hnone => (nomatch hnone)⟩
    · rintro rfl
      obtain ⟨g', hlive', -, hwants⟩ := hinv.asleep other hother
      obtain rfl : g = g' := Machine.Stage.live.inj (hlive.symm.trans hlive')
      rw [hdone.2.1] at hwants
      cases hwants
    · rintro _ ⟨⟩
      exact hinv.job pid g (by rw [hlive]; rfl)
  kill := by
    rintro log gs s pid g s' hinv hlive ⟨⟩

/-! ## Wakeups -/

variable (O) in
/-- Only those want an item who are there to take one. -/
def Takers (gs : ℕ → Machine.Stage (Ghost σ Job ε)) : Prop :=
  ∀ pid g, gs pid = .live g → g.wants = true → O.takes g.job = true

omit [DecidableEq σ] in
theorem next_job (g : Ghost σ Job ε) (o : Op σ) (r : o.Ret) : (next O g o r).job = g.job := by
  cases o <;> simp only [next] <;> cases g.inside <;> rfl

omit [DecidableEq σ] in
theorem next_wants {g : Ghost σ Job ε} {o : Op σ} {r : o.Ret} (h : (next O g o r).wants = true) :
    g.wants = true := by
  cases o with
  | put data =>
    cases hinside : g.inside with
    | none => simpa [next, hinside] using h
    | some turn =>
      simp only [next, hinside, Option.map_some, Option.getD_some, Ghost.put, Bool.and_eq_true] at h
      exact h.1
  | sleep | unlock => cases hinside : g.inside <;> simpa [next, hinside, Ghost.leave] using h
  | lock | now | notifyOne => exact h

theorem takers : (outline O main data₀).Keeps fun _ gs _ => Takers O gs where
  init := fun _ _ hlive => nomatch hlive
  start := by
    intro log gs s pid job s' _ h _ _ other g hlive hwants
    by_cases hne : other = pid
    · subst hne
      rw [Function.update_self] at hlive
      cases hlive
      exact hwants
    · rw [Function.update_of_ne hne] at hlive
      exact h other g hlive hwants
  call := by
    intro log gs s pid g o r s' _ h hold _ _ other g' hlive hwants
    by_cases hne : other = pid
    · subst hne
      rw [Function.update_self] at hlive
      cases hlive
      show O.takes (next O g o r).job = true
      rw [next_job]
      exact h other g hold (next_wants hwants)
    · rw [Function.update_of_ne hne] at hlive
      exact h other g' hlive hwants
  finish := by
    intro log gs s pid g result _ h _ _ other g' hlive hwants
    by_cases hne : other = pid
    · subst hne
      rw [Function.update_self] at hlive
      cases hlive
    · rw [Function.update_of_ne hne] at hlive
      exact h other g' hlive hwants
  kill := by
    rintro log gs s pid g s' _ _ _ ⟨⟩

/-- **A permitted call leaves no item uncovered.** -/
theorem Covered.call (h : Covered O gs s) (hinv : Inv log gs s) (hlive : gs pid = .live g)
    {o : Op σ} {r : o.Ret} (hpre : pre O g o) (hexec : exec pid s o r = some s') :
    Covered O (Function.update gs pid (.live (next O g o r))) s' := by
  cases o with
  | lock =>
    obtain ⟨hfree, rfl, rfl⟩ := exec_lock hexec
    intro hne
    have hasleep : s.asleep ≠ [] := fun hnil => hne (by simp [hnil])
    obtain ⟨awake, hnodup, hway, hcount⟩ := h hasleep
    refine ⟨awake, hnodup, fun other hother => ?_, ?_⟩
    · refine (hway other hother).called hlive ?_ id
      exact fun hmem => (hway other hother).1 (List.mem_of_mem_erase hmem)
    · rw [hfree] at hcount
      exact Nat.le_trans hcount (Nat.le_add_right _ _)
  | put data =>
    obtain ⟨hheld, rfl⟩ := exec_put hexec
    obtain ⟨turn, hturn⟩ := Option.isSome_iff_exists.mp hpre
    have hnext : next O g (.put data) r = g.put O turn data := by simp [next, hturn]
    rw [hnext]
    exact h.put hlive hheld (hinv.data pid turn (by rw [hlive]; exact hturn)) data
  | now =>
    obtain rfl : s = s' := Option.some.inj hexec
    intro hne
    obtain ⟨awake, hnodup, hway, hcount⟩ := h hne
    refine ⟨awake, hnodup, fun other hother => ?_, Nat.le_trans hcount (Nat.le_of_eq ?_)⟩
    · exact (hway other hother).called hlive (hway other hother).1 id
    · by_cases hheld : s.holder = some pid
      · rw [hheld, owed_update_self, owed_self hlive]
        rfl
      · rw [owed_update_of_ne gs hheld]
  | notifyOne =>
    have hheld := hinv.holds hlive hpre
    rcases exec_notifyOne hexec with ⟨-, hnil, rfl⟩ | ⟨woken, hwoken, -, rfl⟩
    · exact fun hne => absurd hnil hne
    · intro _
      obtain ⟨awake, hnodup, hway, hcount⟩ := h (List.ne_nil_of_mem hwoken)
      obtain ⟨g', hlive', hout, hwants⟩ := hinv.asleep woken hwoken
      have hgone : woken ∉ s.asleep.erase woken := hinv.nodup.not_mem_erase
      have hne : woken ≠ pid := fun heq => hinv.awake hheld (heq ▸ hwoken)
      refine ⟨woken :: awake, List.nodup_cons.mpr ⟨fun hmem => (hway woken hmem).1 hwoken, hnodup⟩,
        fun other hother => ?_, ?_⟩
      · rcases List.mem_cons.mp hother with rfl | hold
        · exact ⟨hgone, g', by rw [Function.update_of_ne hne]; exact hlive', hwants⟩
        · refine (hway other hold).called hlive ?_ id
          exact fun hmem => (hway other hold).1 (List.mem_of_mem_erase hmem)
      · have hafter : owed (Function.update gs pid (.live (next O g .notifyOne r))) s.holder =
            g.owes - 1 := by
          rw [hheld, owed_update_self]
          rfl
        rw [hheld, owed_self hlive] at hcount
        show O.items s.data ≤ _
        rw [hafter, List.length_cons]
        omega
  | sleep =>
    obtain ⟨hheld, rfl⟩ := exec_sleep hexec
    obtain ⟨-, turn, hcan, hitems⟩ := hpre
    intro _
    refine ⟨[], List.nodup_nil, fun other hother => (nomatch hother), ?_⟩
    rw [← hinv.data pid turn (by rw [hlive]; exact hcan.1), hitems]
    exact Nat.zero_le _
  | unlock =>
    obtain ⟨hheld, rfl⟩ := exec_unlock hexec
    obtain ⟨howes, turn, hcan⟩ := hpre
    intro hne
    obtain ⟨awake, hnodup, hway, hcount⟩ := h hne
    refine ⟨awake, hnodup, fun other hother => ?_, ?_⟩
    · refine (hway other hother).called hlive (hway other hother).1 ?_
      simp [next, hcan.1, Ghost.leave]
    · rwa [hheld, owed_self hlive, howes] at hcount

/-- **No item is ever left uncovered.** -/
theorem covered : ((outline O main data₀).also fun _ gs _ => Takers O gs).Keeps
    fun _ gs s => Covered O gs s where
  init := fun hne => absurd rfl hne
  start := by
    rintro log gs s pid job s' ⟨hinv, -⟩ h hunborn ⟨⟩ hne
    obtain ⟨awake, hnodup, hway, hcount⟩ := h hne
    refine ⟨awake, hnodup, fun other hother => ?_, Nat.le_trans hcount (Nat.le_of_eq ?_)⟩
    · refine (hway other hother).update ?_ (hway other hother).1 _
      rintro rfl
      obtain ⟨-, g, hlive, -⟩ := hway other hother
      rw [hunborn] at hlive
      cases hlive
    · rw [owed_update_of_ne gs]
      intro hheld
      have hsome := (hinv.holder pid).mp hheld
      rw [hunborn] at hsome
      cases hsome
  call := fun pid g o r s' hinv h hlive hpre hexec => h.call hinv.1 hlive hpre hexec
  finish := by
    rintro log gs s pid g result ⟨hinv, -⟩ h hlive hdone hne
    obtain ⟨awake, hnodup, hway, hcount⟩ := h hne
    refine ⟨awake, hnodup, fun other hother => ?_, Nat.le_trans hcount (Nat.le_of_eq ?_)⟩
    · refine (hway other hother).update ?_ (hway other hother).1 _
      rintro rfl
      obtain ⟨-, g', hlive', hwants⟩ := hway other hother
      obtain rfl : g = g' := Machine.Stage.live.inj (hlive.symm.trans hlive')
      rw [hdone.2.1] at hwants
      cases hwants
    · show awake.length + owed gs s.holder = awake.length + owed _ s.holder
      rw [owed_update_of_ne gs]
      intro hheld
      have hsome := (hinv.holder pid).mp hheld
      rw [hlive, inside, hdone.1] at hsome
      cases hsome
  kill := by
    rintro log gs s pid g s' hinv h hlive ⟨⟩

/-! ## The order of the times in the mutex -/

/-- One thread had ended before the other began. -/
def Precedes (log : Log main data₀) (pid pid' : ℕ) : Prop :=
  ∃ newer older job result, log = newer ++ .started pid' job :: older ∧ .finished pid result ∈ older

variable (O) in
/-- The events of the threads in an order that agrees with everything that was answered, and with
real time. -/
structure Linearizes (log : Log main data₀) (order : List (ℕ × ε)) : Prop where
  /-- What a thread was answered is what its events come to. -/
  answered : ∀ pid result, .finished pid result ∈ log → ∃ job,
    Machine.jobOf pid log = some job ∧ O.Answers job (eventsOf pid order) result
  /-- A thread that had ended before another began comes first. -/
  realTime : ∀ pid pid', Precedes log pid pid' → ∃ front back, order = front ++ back ∧
    (∀ entry ∈ front, entry.1 ≠ pid') ∧ ∀ entry ∈ back, entry.1 ≠ pid

variable (O) in
/-- There is such an order, and it leads to the data. -/
structure Ordered (log : Log main data₀) (gs : ℕ → Machine.Stage (Ghost σ Job ε)) (s : State σ)
    (order : List (ℕ × ε)) : Prop where
  /-- The order agrees with what was answered. -/
  linearizes : Linearizes O log order
  /-- The order leads to the data. -/
  run : Run O.Step data₀ (order.map Prod.snd) (committed gs s)
  /-- Every thread has its events in the order. -/
  events : ∀ pid, eventsOf pid order = events (gs pid)
  /-- A thread that has finished is gone. -/
  ended : ∀ pid result, .finished pid result ∈ log → ∃ g, gs pid = .gone g

/-- A thread that begins comes after those that had ended; nothing else adds to what precedes
what. -/
theorem precedes_cons {pid pid' : ℕ} (h : Precedes (e :: log) pid pid') :
    (∃ job result, e = .started pid' job ∧ .finished pid result ∈ log) ∨ Precedes log pid pid' := by
  obtain ⟨newer, older, job, result, heq, hmem⟩ := h
  cases newer with
  | nil =>
    obtain ⟨rfl, rfl⟩ := List.cons.inj heq
    exact .inl ⟨job, result, rfl, hmem⟩
  | cons first newer =>
    obtain ⟨-, rfl⟩ := List.cons.inj heq
    exact .inr ⟨newer, older, job, result, rfl, hmem⟩

/-- What happens other than that a thread begins or ends. -/
theorem Linearizes.called {order : List (ℕ × ε)} (h : Linearizes O log order) {o : Op σ} {r : o.Ret} :
    Linearizes O (.called pid s o r :: log) order := by
  refine ⟨fun other result hmem => ?_, fun first second hprec => ?_⟩
  · exact h.answered other result ((List.mem_cons.mp hmem).resolve_left fun heq => nomatch heq)
  · rcases precedes_cons hprec with ⟨job, result, heq, -⟩ | hold
    · cases heq
    · exact h.realTime first second hold

/-- A thread that has not ended comes to something. -/
theorem Linearizes.extend {order : List (ℕ × ε)} (h : Linearizes O log order)
    (hrunning : ∀ result, .finished pid result ∉ log) (event : ε) :
    Linearizes O log (order ++ [(pid, event)]) := by
  refine ⟨fun other result hmem => ?_, fun first second hprec => ?_⟩
  · have hne : other ≠ pid := fun heq => hrunning result (heq ▸ hmem)
    rw [eventsOf_append_of_ne hne]
    exact h.answered other result hmem
  · obtain ⟨front, back, rfl, hfront, hback⟩ := h.realTime first second hprec
    refine ⟨front, back ++ [(pid, event)], List.append_assoc _ _ _, hfront, fun entry hentry => ?_⟩
    rcases List.mem_append.mp hentry with hold | hnew
    · exact hback entry hold
    · obtain rfl := List.mem_singleton.mp hnew
      rintro rfl
      obtain ⟨newer, older, job, result, rfl, hmem⟩ := hprec
      exact hrunning result (List.mem_append_right _ (List.mem_cons_of_mem _ hmem))

theorem Ordered.running {order : List (ℕ × ε)} (h : Ordered O log gs s order)
    (hlive : gs pid = .live g) (result : Res) : .finished pid result ∉ log := by
  intro hmem
  obtain ⟨g', hgone⟩ := h.ended pid result hmem
  rw [hlive] at hgone
  cases hgone

/-- A call that commits nothing. -/
theorem Ordered.stays {order : List (ℕ × ε)} (h : Ordered O log gs s order)
    (hlive : gs pid = .live g) {g' : Ghost σ Job ε} (hevents : g'.events = g.events)
    (hcommitted : committed (Function.update gs pid (.live g')) s' = committed gs s) {o : Op σ}
    {r : o.Ret} :
    Ordered O (.called pid s o r :: log) (Function.update gs pid (.live g')) s' order := by
  refine ⟨h.linearizes.called, ?_, fun other => ?_, fun other result hmem => ?_⟩
  · rw [hcommitted]
    exact h.run
  · by_cases hne : other = pid
    · subst hne
      rw [Function.update_self, h.events, hlive]
      exact hevents.symm
    · rw [Function.update_of_ne hne]
      exact h.events other
  · have hold := (List.mem_cons.mp hmem).resolve_left fun heq => nomatch heq
    have hne : other ≠ pid := fun heq => h.running hlive result (heq ▸ hold)
    rw [Function.update_of_ne hne]
    exact h.ended other result hold

/-- The mutex is given back, with the data as they are. -/
theorem Ordered.leaves {order : List (ℕ × ε)} (h : Ordered O log gs s order) (hinv : Inv log gs s)
    (hlive : gs pid = .live g) (hheld : s.holder = some pid) {turn : Turn σ}
    (hcan : g.CanLeave O turn) (asleep : List ℕ) {o : Op σ} {r : o.Ret} :
    Ordered O (.called pid s o r :: log) (Function.update gs pid (.live (g.leave O turn)))
      ⟨s.data, none, asleep⟩ (order ++ [(pid, O.event g.job turn)]) := by
  have hdata : turn.data = s.data := hinv.data pid turn (by rw [hlive]; exact hcan.1)
  refine ⟨(h.linearizes.extend (h.running hlive) _).called, ?_, fun other => ?_,
    fun other result hmem => ?_⟩
  · have hrun := h.run
    rw [committed_self hlive hheld hcan.1] at hrun
    rw [List.map_append]
    exact hrun.snoc (hdata ▸ hcan.2)
  · by_cases hne : other = pid
    · subst hne
      rw [Function.update_self, eventsOf_append_self, h.events, hlive]
      rfl
    · rw [Function.update_of_ne hne, eventsOf_append_of_ne hne]
      exact h.events other
  · have hold := (List.mem_cons.mp hmem).resolve_left fun heq => nomatch heq
    have hne : other ≠ pid := fun heq => h.running hlive result (heq ▸ hold)
    rw [Function.update_of_ne hne]
    exact h.ended other result hold

/-- **A permitted call keeps an order**, or adds what it has come to. -/
theorem Ordered.call {order : List (ℕ × ε)} (h : Ordered O log gs s order) (hinv : Inv log gs s)
    (hlive : gs pid = .live g) {o : Op σ} {r : o.Ret} (hpre : pre O g o)
    (hexec : exec pid s o r = some s') :
    ∃ order, Ordered O (.called pid s o r :: log)
      (Function.update gs pid (.live (next O g o r))) s' order := by
  cases o with
  | lock =>
    obtain ⟨hfree, rfl, rfl⟩ := exec_lock hexec
    refine ⟨order, h.stays hlive ?_ ?_⟩
    · rfl
    · simp [committed, hfree, next, inside]
  | put data =>
    obtain ⟨hheld, rfl⟩ := exec_put hexec
    obtain ⟨turn, hturn⟩ := Option.isSome_iff_exists.mp hpre
    have hnext : next O g (.put data) r = g.put O turn data := by simp [next, hturn]
    rw [hnext]
    refine ⟨order, h.stays hlive ?_ ?_⟩
    · rfl
    · rw [committed_self hlive hheld hturn]
      simp [committed, hheld, Ghost.put, inside]
  | now =>
    obtain rfl : s = s' := Option.some.inj hexec
    refine ⟨order, h.stays hlive ?_ ?_⟩
    · rfl
    · by_cases hheld : s.holder = some pid
      · obtain ⟨turn, hturn⟩ := Option.isSome_iff_exists.mp ((hinv.holder pid).mp hheld)
        have hinside : g.inside = some turn := by rw [hlive] at hturn; exact hturn
        rw [committed_self hlive hheld hinside]
        simp [committed, hheld, next, inside, hinside]
      · exact committed_update_of_ne hheld _
  | notifyOne =>
    have hheld := hinv.holds hlive hpre
    obtain ⟨turn, hturn⟩ := Option.isSome_iff_exists.mp hpre
    have hsame : s'.holder = s.holder ∧ s'.data = s.data := by
      rcases exec_notifyOne hexec with ⟨-, -, rfl⟩ | ⟨other, -, -, rfl⟩
      · exact ⟨rfl, rfl⟩
      · exact ⟨rfl, rfl⟩
    refine ⟨order, h.stays hlive ?_ ?_⟩
    · rfl
    · rw [committed_self hlive hheld hturn]
      simp [committed, hsame.1, hheld, next, inside, hturn]
  | sleep =>
    obtain ⟨hheld, rfl⟩ := exec_sleep hexec
    obtain ⟨-, turn, hcan, -⟩ := hpre
    have hnext : next O g .sleep r = g.leave O turn := by simp [next, hcan.1]
    rw [hnext]
    exact ⟨_, h.leaves hinv hlive hheld hcan _⟩
  | unlock =>
    obtain ⟨hheld, rfl⟩ := exec_unlock hexec
    obtain ⟨-, turn, hcan⟩ := hpre
    have hnext : next O g .unlock r = g.leave O turn := by simp [next, hcan.1]
    rw [hnext]
    exact ⟨_, h.leaves hinv hlive hheld hcan _⟩

/-- **There always is an order.** -/
theorem ordered : ((outline O main data₀).also fun log gs _ => Machine.Outline.Chronicle log gs).Keeps
    fun log gs s => ∃ order, Ordered O log gs s order where
  init := by
    refine ⟨[], ⟨fun _ _ hmem => (nomatch hmem), ?_⟩, .nil, fun _ => rfl, fun _ _ hmem => nomatch hmem⟩
    rintro _ _ ⟨newer, older, _, _, heq, -⟩
    cases newer <;> cases heq
  start := by
    rintro log gs s pid job s' ⟨hinv, hchronicle⟩ ⟨order, h⟩ hunborn ⟨⟩
    have hnew : eventsOf pid order = [] := by rw [h.events, hunborn]; rfl
    have hfree : s.holder ≠ some pid := by
      intro hheld
      have hsome := (hinv.holder pid).mp hheld
      rw [hunborn] at hsome
      cases hsome
    have hnever : ∀ result, .finished pid result ∉ log :=
      fun result hmem => hchronicle.unborn pid hunborn _ hmem rfl
    have hold : ∀ {other result}, .finished other result ∈
        (.started pid job :: log : Log main data₀) → other ≠ pid ∧ .finished other result ∈ log := by
      intro other result hmem
      have hmem := (List.mem_cons.mp hmem).resolve_left fun heq => nomatch heq
      exact ⟨fun heq => hnever result (heq ▸ hmem), hmem⟩
    refine ⟨order, ⟨fun other result hmem => ?_, fun first second hprec => ?_⟩, ?_,
      fun other => ?_, fun other result hmem => ?_⟩
    · obtain ⟨hne, hmem⟩ := hold hmem
      simpa [Machine.jobOf, Ne.symm hne] using h.linearizes.answered other result hmem
    · rcases precedes_cons hprec with ⟨_, _, heq, -⟩ | hprec
      · cases heq
        exact ⟨order, [], (List.append_nil order).symm, ne_of_eventsOf hnew, fun _ hnil => nomatch hnil⟩
      · exact h.linearizes.realTime first second hprec
    · rw [committed_update_of_ne hfree]
      exact h.run
    · by_cases hne : other = pid
      · subst hne
        rw [Function.update_self, hnew]
        rfl
      · rw [Function.update_of_ne hne]
        exact h.events other
    · obtain ⟨hne, hmem⟩ := hold hmem
      rw [Function.update_of_ne hne]
      exact h.ended other result hmem
  call := by
    rintro log gs s pid g o r s' ⟨hinv, -⟩ ⟨order, h⟩ hlive hpre hexec
    exact h.call hinv hlive hpre hexec
  finish := by
    rintro log gs s pid g result ⟨hinv, -⟩ ⟨order, h⟩ hlive hdone
    have hfree : s.holder ≠ some pid := by
      intro hheld
      have hsome := (hinv.holder pid).mp hheld
      rw [hlive, inside, hdone.1] at hsome
      cases hsome
    refine ⟨order, ⟨fun other result' hmem => ?_, fun first second hprec => ?_⟩, ?_,
      fun other => ?_, fun other result' hmem => ?_⟩
    · rcases List.mem_cons.mp hmem with heq | hmem
      · cases heq
        refine ⟨g.job, hinv.job pid g (by rw [hlive]; rfl), ?_⟩
        have hevents := h.events pid
        rw [hlive] at hevents
        rw [hevents]
        exact hdone.2.2
      · exact h.linearizes.answered other result' hmem
    · rcases precedes_cons hprec with ⟨_, _, heq, -⟩ | hprec
      · cases heq
      · exact h.linearizes.realTime first second hprec
    · show Run O.Step data₀ _ (committed _ s)
      rw [committed_update_of_ne hfree]
      exact h.run
    · by_cases hne : other = pid
      · subst hne
        rw [Function.update_self, h.events, hlive]
        rfl
      · rw [Function.update_of_ne hne]
        exact h.events other
    · by_cases hne : other = pid
      · subst hne
        exact ⟨g, Function.update_self _ _ _⟩
      · have hmem := (List.mem_cons.mp hmem).resolve_left fun heq => by
          cases heq
          exact hne rfl
        rw [Function.update_of_ne hne]
        exact h.ended other result' hmem
  kill := by
    rintro log gs s pid g s' _ _ _ ⟨⟩

/-! ## What can be relied on -/

section

variable (hmain : ∀ job, Prog.Follows (protocol O) (main job) (Ghost.enter O job) (Done O))
  {c : (machine main data₀).Config}

include hmain

/-- **The times in the mutex can be put in an order** in which they are steps of the object, and in
which every call was answered as the object says. -/
theorem linearized (h : (machine main data₀).Reachable c) : ∃ order data,
    Linearizes O c.log order ∧ Run O.Step data₀ (order.map Prod.snd) data ∧
      (c.shared.holder = none → data = c.shared.data) := by
  obtain ⟨gs, ⟨-, order, hordered⟩, -⟩ := Machine.Outline.reachable
    (((outline_valid hmain).also (outline O main data₀).chronicle).also ordered) h
  exact ⟨order, committed gs c.shared, hordered.linearizes, hordered.run,
    fun hfree => by simp only [committed, hfree]⟩

/-- **No wakeup is lost.**  While someone sleeps and the mutex is free, there are at least as many
threads awake that are there to take an item as there are items. -/
theorem no_lost_wakeup (h : (machine main data₀).Reachable c) (hfree : c.shared.holder = none)
    (hasleep : c.shared.asleep ≠ []) : ∃ awake : List ℕ, awake.Nodup ∧
      O.items c.shared.data ≤ awake.length ∧ ∀ pid ∈ awake, pid ∉ c.shared.asleep ∧
        Machine.running pid c.log = true ∧
        ∃ job, Machine.jobOf pid c.log = some job ∧ O.takes job = true := by
  obtain ⟨gs, ⟨⟨⟨hinv, htakers⟩, hcovered⟩, hchronicle⟩, -⟩ := Machine.Outline.reachable
    ((((outline_valid hmain).also takers).also covered).also (Machine.Outline.chronicle _)) h
  obtain ⟨awake, hnodup, hway, hcount⟩ := hcovered hasleep
  refine ⟨awake, hnodup, ?_, fun pid hpid => ?_⟩
  · rwa [hfree] at hcount
  · obtain ⟨hawake, g, hlive, hwants⟩ := hway pid hpid
    exact ⟨hawake, (hchronicle.running pid).mpr ⟨g, hlive⟩, g.job,
      hinv.job pid g (by rw [hlive]; rfl), htakers pid g hlive hwants⟩

end

end Monitor
