import SemanticSidecar.Broker.Exchanges

/-!
# The books of the broker balance

`ServeInv` is the invariant of the machine as a whole.  Its centre is `Waits`: a request that is in
the queue, or in the hands of the scheduler, belongs to a connection that is alive and waits for
its answer, on a channel that is still empty.  So no two requests under way belong to the same
connection, which bounds the queue by the number of connections; and no answer is lost.

The calls of a connection were looked at in `Broker/Exchanges`; those of the scheduler are looked
at here.  `broker_holds` puts them together.

What a call of the scheduler does to the books is said once, in `SchedulerStep`, and
`ServeInv.scheduler_called` goes through its calls.  Three kinds of them matter: it takes a request
off the queue, it decides what becomes of the request, and it sends the reply.  In between the
request is in the hands of the scheduler, and `Waits` has to hold of it as it did in the queue.

`ServeInv.waiting_le`, the bound on what waits, is used further on: a request is turned away for a
full queue only where there are more connections than the queue has room.
-/

set_option autoImplicit false

namespace SemanticSidecar

section

variable {serde : SerdeJson} {σ : Type} {engine : EmbedEngine σ} {engine₀ : σ}

/-- The request belongs to a connection that waits for its answer. -/
def Waits (gs : ℕ → Machine.Stage Party) (s : ServeState σ) (request : BrokerRequest) : Prop :=
  ∃ pid c, gs pid = .live (.connection c) ∧ c.phase = .waiting request.reply ∧
    c.line = request.line ∧ s.channels request.reply = some ⟨pid, true, none⟩

/-- The reply channels of the requests in the queue. -/
def queuedIds (s : ServeState σ) : List ℕ := s.queue.state.values.map BrokerRequest.reply

/-- What is known of the request the scheduler has in hand. -/
def SchedulerInv (log : List (broker serde engine engine₀).Event) (gs : ℕ → Machine.Stage Party)
    (s : ServeState σ) : SchedulerPhase → Prop
  | .idle => True
  | .processing request => Waits gs s request ∧ request.reply ∉ queuedIds s ∧
      request.reply ∉ decidedIds log
  | .answering request message => Waits gs s request ∧ request.reply ∉ queuedIds s ∧
      ∃ v, (request, v) ∈ verdicts log ∧ message = v.reply serde request.line

/-- **The invariant of the broker.** -/
structure ServeInv (log : List (broker serde engine engine₀).Event)
    (gs : ℕ → Machine.Stage Party) (s : ServeState σ) : Prop where
  /-- Every connection, live or gone, keeps its books. -/
  connection : ∀ pid c, (gs pid).ghost = some (.connection c) → ConnectionInv log s pid c
  /-- The connections that are counted are the live ones. -/
  alive : ∀ pid, pid ∈ s.connections ↔ ∃ c, gs pid = .live (.connection c)
  /-- There is one scheduler at most, and it knows about the request it has in hand. -/
  scheduler : ∀ pid phase, (gs pid).ghost = some (.scheduler phase) →
    s.scheduler = some pid ∧ SchedulerInv log gs s phase
  /-- Nothing is written to a connection that has not started. -/
  unborn : ∀ pid, gs pid = .unborn → s.output pid = []
  /-- The queue has the capacity it was made with. -/
  capacity : s.queue.capacity = queueCapacity
  /-- A queued request has a connection that waits for it, and no verdict yet. -/
  queued : ∀ request ∈ s.queue.state.values,
    Waits gs s request ∧ request.reply ∉ decidedIds log
  /-- No request is queued twice. -/
  queuedOnce : (queuedIds s).Nodup
  /-- No request gets two verdicts. -/
  decidedOnce : (decidedIds log).Nodup
  /-- A verdict is passed on requests of connections only. -/
  decided : ∀ x ∈ verdicts log, ∃ pid c, (gs pid).ghost = some (.connection c) ∧ x.1 ∈ c.requests
  /-- A request is turned away only where there are more connections than the queue has room. -/
  full : ∀ pid before cls request deadline,
    .called pid before (.tryEnqueue cls request deadline) (.error .full) ∈ log →
      queueCapacity < before.connections.length
  /-- The books of a connection are about the input it was started with. -/
  started : ∀ pid input, .started pid (.connection input) ∈ log ↔
    ∃ c, (gs pid).ghost = some (.connection c) ∧ c.input = input
  /-- A connection that has finished did so in a way its books allow. -/
  finished : ∀ pid result, .finished pid result ∈ log →
    ∃ c, gs pid = .gone (.connection c) ∧ c.Ended result

variable {log : List (broker serde engine engine₀).Event} {gs : ℕ → Machine.Stage Party}
  {s s' : ServeState σ} {pid : ℕ}

/-! ## Requests under way -/

theorem Waits.owned {request : BrokerRequest} (h : Waits gs s request) :
    ∃ pid c, gs pid = .live (.connection c) ∧ c.phase = .waiting request.reply ∧
      s.channels request.reply = some ⟨pid, true, none⟩ :=
  let ⟨pid, c, hlive, hphase, _, hchannel⟩ := h
  ⟨pid, c, hlive, hphase, hchannel⟩

theorem ConnectionInv.owned_requests {c : Connection} (h : ConnectionInv log s pid c) :
    ∀ request ∈ c.requests, Owned s pid request.reply := by
  intro request hmem
  rcases List.mem_append.mp hmem with hdone | hcurrent
  · obtain ⟨e, he, hrequest⟩ := List.mem_filterMap.mp hdone
    obtain ⟨k, hk, rfl⟩ := Option.map_eq_some_iff.mp hrequest
    exact h.owned k (List.mem_filterMap.mpr ⟨e, he, hk⟩)
  · have hinv := h.phase
    rw [Option.mem_toList, Connection.current] at hcurrent
    unfold PhaseInv at hinv
    split at hcurrent
    · rename_i k hphase
      rw [hphase] at hinv
      cases hcurrent
      exact ⟨_, hinv.2.2.2.2, rfl⟩
    · rename_i k hphase
      rw [hphase] at hinv
      cases hcurrent
      obtain ⟨-, -, -, channel, hchannel, hreceiver, -⟩ := hinv
      exact ⟨channel, hchannel, hreceiver⟩
    · rename_i e hphase
      rw [hphase] at hinv
      obtain ⟨k, hk, rfl⟩ := Option.map_eq_some_iff.mp hcurrent
      exact hinv.owned k hk
    · rename_i e written hphase
      rw [hphase] at hinv
      obtain ⟨k, hk, rfl⟩ := Option.map_eq_some_iff.mp hcurrent
      exact hinv.1.owned k hk
    · cases hcurrent
    · cases hcurrent

/-- A request with a verdict has a channel. -/
theorem ServeInv.allocated (h : ServeInv log gs s) :
    ∀ k ∈ decidedIds log, s.channels k ≠ none := by
  intro k hk
  obtain ⟨x, hx, rfl⟩ := List.mem_map.mp hk
  obtain ⟨pid, c, hghost, hmem⟩ := h.decided x hx
  obtain ⟨channel, hchannel, -⟩ := (h.connection pid c hghost).owned_requests _ hmem
  rw [hchannel]
  exact Option.some_ne_none _

/-- Every request in the queue has a connection of its own. -/
theorem ServeInv.receivers (h : ServeInv log gs s) :
    ∃ receivers : List ℕ, receivers.length = s.queue.state.waiting ∧ receivers.Nodup ∧
      ∀ pid ∈ receivers, ∃ c k, gs pid = .live (.connection c) ∧ c.phase = .waiting k := by
  let receiver := fun request : BrokerRequest =>
    (s.channels request.reply).elim 0 ReplyChannel.receiver
  have hreceiver : ∀ request ∈ s.queue.state.values, ∃ c,
      gs (receiver request) = .live (.connection c) ∧ c.phase = .waiting request.reply := by
    intro request hmem
    obtain ⟨pid, c, hlive, hphase, hchannel⟩ := (h.queued request hmem).1.owned
    have hpid : receiver request = pid := by
      show (s.channels request.reply).elim 0 ReplyChannel.receiver = pid
      rw [hchannel]
      rfl
    exact ⟨c, hpid ▸ hlive, hphase⟩
  refine ⟨s.queue.state.values.map receiver, ?_, ?_, ?_⟩
  · rw [List.length_map, length_values]
  · refine List.Nodup.map_on (fun x hx y hy heq => ?_) (List.Nodup.of_map _ h.queuedOnce)
    obtain ⟨c, hlive, hphase⟩ := hreceiver x hx
    obtain ⟨c', hlive', hphase'⟩ := hreceiver y hy
    rw [heq, hlive'] at hlive
    cases hlive
    have hids := ConnectionPhase.waiting.inj (hphase.symm.trans hphase')
    exact List.inj_on_of_nodup_map h.queuedOnce hx hy hids
  · intro pid hmem
    obtain ⟨request, hrequest, rfl⟩ := List.mem_map.mp hmem
    obtain ⟨c, hlive, hphase⟩ := hreceiver request hrequest
    exact ⟨c, _, hlive, hphase⟩

/-- **No more requests wait than there are connections.** -/
theorem ServeInv.waiting_le (h : ServeInv log gs s) :
    s.queue.state.waiting ≤ s.connections.length := by
  obtain ⟨receivers, hlength, hnodup, hlive⟩ := h.receivers
  rw [← hlength]
  refine (List.subperm_of_subset hnodup fun pid hmem => ?_).length_le
  obtain ⟨c, k, hpid, -⟩ := hlive pid hmem
  exact (h.alive pid).mpr ⟨c, hpid⟩

/-- A connection that is about to make a request is one more than those that wait. -/
theorem ServeInv.waiting_lt (h : ServeInv log gs s) {c : Connection} {k : ℕ}
    (hpid : gs pid = .live (.connection c)) (hphase : c.phase = .offering k) :
    s.queue.state.waiting < s.connections.length := by
  obtain ⟨receivers, hlength, hnodup, hlive⟩ := h.receivers
  have hnot : pid ∉ receivers := by
    intro hmem
    obtain ⟨c', k', hpid', hphase'⟩ := hlive pid hmem
    rw [hpid] at hpid'
    cases hpid'
    rw [hphase] at hphase'
    cases hphase'
  rw [← hlength]
  refine (List.subperm_of_subset (List.nodup_cons.mpr ⟨hnot, hnodup⟩) fun other hmem => ?_).length_le
  rcases List.mem_cons.mp hmem with rfl | hmem
  · exact (h.alive other).mpr ⟨c, hpid⟩
  · obtain ⟨c', k', hother, -⟩ := hlive other hmem
    exact (h.alive other).mpr ⟨c', hother⟩

/-! ## A call of a connection -/

theorem started_mem_called {o : ServeOp} {r : o.Ret} {other : ℕ} {job : ServeJob} :
    .started other job ∈ (.called pid s o r :: log) ↔ .started other job ∈ log := by
  rw [List.mem_cons]
  exact or_iff_right fun heq => nomatch heq

theorem decidedIds_called (log : List (broker serde engine engine₀).Event) (pid : ℕ)
    (s : ServeState σ) (o : ServeOp) (r : o.Ret) {k : ℕ} :
    k ∈ decidedIds (.called pid s o r :: log) ↔
      (∃ x ∈ ServeOp.verdict o r, x.1.reply = k) ∨ k ∈ decidedIds log := by
  rw [decidedIds, verdicts_called, List.map_append, List.mem_append, List.mem_map]
  simp only [Option.mem_toList, Option.mem_def]
  exact Iff.rfl

theorem decidedIds_called_nodup {o : ServeOp} {r : o.Ret} (h : (decidedIds log).Nodup)
    (hnew : ∀ x ∈ ServeOp.verdict o r, x.1.reply ∉ decidedIds log) :
    (decidedIds (.called pid s o r :: log)).Nodup := by
  rw [decidedIds, verdicts_called]
  cases hverdict : ServeOp.verdict o r with
  | none => exact h
  | some x => exact List.nodup_cons.mpr ⟨hnew x hverdict, h⟩

theorem WriteFailed.mono {e : (broker serde engine engine₀).Event} {other : ℕ}
    (h : WriteFailed log other) : WriteFailed (e :: log) other :=
  let ⟨before, reply, failed, hmem⟩ := h
  ⟨before, reply, failed, List.mem_cons_of_mem _ hmem⟩

/-- A call of a connection leaves a request under way to the connection that waits for it. -/
theorem Waits.connection {c c' : Connection} {o : ServeOp} {r : o.Ret}
    (hpid : gs pid = .live (.connection c)) (hstep : ConnectionStep log s s' pid c c' o r)
    {request : BrokerRequest} (h : Waits gs s request) :
    Waits (Function.update gs pid (.live (.connection c'))) s' request ∧
      ¬ Owned s' pid request.reply := by
  obtain ⟨receiver, cr, hlive, hphase, hline, hchannel⟩ := h
  have hne : receiver ≠ pid := by
    rintro rfl
    rw [hpid] at hlive
    cases hlive
    exact hstep.active _ hphase hchannel
  have hchannel' := hstep.channels _ _ hchannel hne
  refine ⟨⟨receiver, cr, ?_, hphase, hline, hchannel'⟩, ?_⟩
  · rw [Function.update_of_ne hne]
    exact hlive
  · rintro ⟨channel, hown, hreceiver⟩
    rw [hchannel'] at hown
    cases hown
    exact hne hreceiver

/-- A connection keeps its books through a call of another one. -/
theorem ConnectionInv.others {c c' : Connection} {o : ServeOp} {r : o.Ret}
    (hstep : ConnectionStep log s s' pid c c' o r) {other : ℕ} (hother : other ≠ pid)
    {co : Connection} (h : ConnectionInv log s other co) :
    ConnectionInv (.called pid s o r :: log) s' other co := by
  have hchannels : ∀ k, Owned s other k → s'.channels k = s.channels k := by
    rintro k ⟨channel, hchannel, hreceiver⟩
    rw [hchannel]
    exact hstep.channels k channel hchannel (hreceiver ▸ hother)
  refine h.frame (verdicts_mono log pid s o r) WriteFailed.mono (hstep.output other hother)
    hchannels fun k hphase hmem => ?_
  have hinv := h.phase
  rw [PhaseInv, hphase] at hinv
  obtain ⟨-, -, -, hnot, hchannel⟩ := hinv
  rcases (decidedIds_called log pid s o r).mp hmem with ⟨x, hx, rfl⟩ | hold
  · obtain ⟨channel, hown, hreceiver⟩ :=
      hstep.inv.owned_requests _ (hstep.verdict x hx).1
    rw [hchannels _ ⟨_, hchannel, rfl⟩, hchannel] at hown
    cases hown
    exact hother hreceiver
  · exact hnot hold

theorem offering_of_tryEnqueue {c : Connection} {cls : RequestClass} {request : BrokerRequest}
    {deadline : ℕ} (h : connectionPre serde c (.tryEnqueue cls request deadline)) :
    ∃ k, c.phase = .offering k := by
  cases hphase : c.phase with
  | offering k => exact ⟨k, rfl⟩
  | _ => simp [connectionPre, hphase] at h

theorem ServeInv.connection_called (h : ServeInv log gs s) {c : Connection}
    (hpid : gs pid = .live (.connection c)) {o : ServeOp} {r : o.Ret}
    (hpre : connectionPre serde c o) (hexec : serveExec serde engine pid s o r = some s') :
    ServeInv (.called pid s o r :: log)
      (Function.update gs pid (.live (.connection (connectionNext serde c o r)))) s' := by
  have hself := h.connection pid c (by rw [hpid]; rfl)
  have hstep := (connection_step hself h.allocated hpre hexec).2
  have hlive : ∀ other, other ≠ pid → Function.update gs pid
      (.live (.connection (connectionNext serde c o r))) other = gs other :=
    fun other hother => Function.update_of_ne hother _ _
  have hwaits : ∀ request, Waits gs s request → request.reply ∉ decidedIds log →
      Waits (Function.update gs pid (.live (.connection (connectionNext serde c o r)))) s'
        request ∧ request.reply ∉ decidedIds (.called pid s o r :: log) := by
    intro request hw hnot
    obtain ⟨hw', hown⟩ := hw.connection hpid hstep
    refine ⟨hw', fun hmem => ?_⟩
    rcases (decidedIds_called log pid s o r).mp hmem with ⟨x, hx, heq⟩ | hold
    · exact hown (heq ▸ hstep.inv.owned_requests _ (hstep.verdict x hx).1)
    · exact hnot hold
  have hqueued : ∀ request, Waits gs s request → request.reply ∉ queuedIds s →
      request.reply ∉ queuedIds s' := by
    intro request hw hnot hmem
    rcases hstep.queue with heq | ⟨k, hperm, -, -, -, hchannel, -⟩
    · rw [queuedIds, heq] at hmem
      exact hnot hmem
    · rcases List.mem_cons.mp ((hperm.map BrokerRequest.reply).mem_iff.mp hmem) with heq | hold
      · have hid : request.reply = k := heq
        exact (hw.connection hpid hstep).2 ⟨_, hid ▸ hchannel, rfl⟩
      · exact hnot hold
  refine ⟨?_, ?_, ?_, ?_, hstep.capacity.trans h.capacity, ?_, ?_, ?_, ?_, ?_, ?_, ?_⟩
  · intro other co hghost
    by_cases hother : other = pid
    · subst hother
      rw [Function.update_self] at hghost
      cases hghost
      exact hstep.inv
    · rw [hlive other hother] at hghost
      exact (h.connection other co hghost).others hstep hother
  · intro other
    rw [hstep.threads.2, h.alive other]
    by_cases hother : other = pid
    · subst hother
      rw [Function.update_self]
      exact ⟨fun _ => ⟨_, rfl⟩, fun _ => ⟨c, hpid⟩⟩
    · rw [hlive other hother]
  · intro other phase hghost
    have hother : other ≠ pid := by
      rintro rfl
      rw [Function.update_self] at hghost
      cases hghost
    rw [hlive other hother] at hghost
    obtain ⟨hscheduler, hinv⟩ := h.scheduler other phase hghost
    refine ⟨hstep.threads.1.trans hscheduler, ?_⟩
    cases phase with
    | idle => trivial
    | processing request =>
      obtain ⟨hw, hnot, hnew⟩ := hinv
      obtain ⟨hw', hnew'⟩ := hwaits request hw hnew
      exact ⟨hw', hqueued request hw hnot, hnew'⟩
    | answering request message =>
      obtain ⟨hw, hnot, v, hmem, hmessage⟩ := hinv
      exact ⟨(hw.connection hpid hstep).1, hqueued request hw hnot, v,
        verdicts_mono log pid s o r _ hmem, hmessage⟩
  · intro other hunborn
    have hother : other ≠ pid := by
      rintro rfl
      rw [Function.update_self] at hunborn
      cases hunborn
    rw [hlive other hother] at hunborn
    rw [hstep.output other hother, h.unborn other hunborn]
  · intro request hmem
    rcases hstep.queue with heq | ⟨k, hperm, hphase, hnext, hrest, hchannel, hverdict⟩
    · rw [heq] at hmem
      exact hwaits request (h.queued request hmem).1 (h.queued request hmem).2
    · rcases List.mem_cons.mp (hperm.mem_iff.mp hmem) with rfl | hold
      · refine ⟨⟨pid, _, Function.update_self _ _ _, ?_, ?_, hchannel⟩, fun hmem => ?_⟩
        · rw [hnext]
          rfl
        · rw [hnext]
          rfl
        · have hinv := hself.phase
          rw [PhaseInv, hphase] at hinv
          rcases (decidedIds_called log pid s o r).mp hmem with ⟨x, hx, -⟩ | hold
          · rw [hverdict] at hx
            cases hx
          · exact hinv.2.2.2.1 hold
      · exact hwaits request (h.queued request hold).1 (h.queued request hold).2
  · rcases hstep.queue with heq | ⟨k, hperm, hphase, -, -, hchannel, -⟩
    · rw [queuedIds, heq]
      exact h.queuedOnce
    · refine ((hperm.map BrokerRequest.reply).nodup_iff).mpr (List.nodup_cons.mpr ⟨?_, h.queuedOnce⟩)
      intro hmem
      obtain ⟨request, hrequest, heq⟩ := List.mem_map.mp hmem
      have hid : request.reply = k := heq
      exact ((h.queued request hrequest).1.connection hpid hstep).2 ⟨_, hid ▸ hchannel, rfl⟩
  · exact decidedIds_called_nodup h.decidedOnce fun x hx => (hstep.verdict x hx).2
  · intro x hx
    rw [verdicts_called, List.mem_append, Option.mem_toList] at hx
    rcases hx with hnew | hold
    · exact ⟨pid, _, by rw [Function.update_self]; rfl, (hstep.verdict x hnew).1⟩
    · obtain ⟨other, co, hghost, hmem⟩ := h.decided x hold
      by_cases hother : other = pid
      · subst hother
        rw [hpid] at hghost
        cases hghost
        exact ⟨other, _, by rw [Function.update_self]; rfl, hstep.requests _ hmem⟩
      · exact ⟨other, co, by rw [hlive other hother]; exact hghost, hmem⟩
  · intro other before cls request deadline hmem
    rcases List.mem_cons.mp hmem with heq | hold
    · cases heq
      rcases exec_tryEnqueue hexec with ⟨hok, -⟩ | ⟨-, hfull, -⟩
      · cases hok
      · obtain ⟨k, hphase⟩ := offering_of_tryEnqueue hpre
        rw [h.capacity] at hfull
        exact hfull.trans_lt (h.waiting_lt hpid hphase)
    · exact h.full other before cls request deadline hold
  · intro other input
    rw [started_mem_called, h.started other input]
    by_cases hother : other = pid
    · subst hother
      rw [Function.update_self, hpid]
      constructor
      · rintro ⟨co, ⟨⟩, hinput⟩
        exact ⟨_, rfl, hstep.input.trans hinput⟩
      · rintro ⟨co, ⟨⟩, hinput⟩
        exact ⟨c, rfl, hstep.input.symm.trans hinput⟩
    · rw [hlive other hother]
  · intro other result hmem
    obtain ⟨co, hgone, hended⟩ := h.finished other result
      ((List.mem_cons.mp hmem).resolve_left fun heq => by cases heq)
    have hother : other ≠ pid := by
      rintro rfl
      rw [hpid] at hgone
      cases hgone
    exact ⟨co, (hlive other hother).trans hgone, hended⟩

/-! ## A call of the scheduler -/

/-- A request under way stays so while the scheduler leaves its channel alone. -/
theorem Waits.scheduler {phase : SchedulerPhase} (phase' : SchedulerPhase)
    (hpid : gs pid = .live (.scheduler phase)) {request : BrokerRequest} (h : Waits gs s request)
    (hchannel : s'.channels request.reply = s.channels request.reply) :
    Waits (Function.update gs pid (.live (.scheduler phase'))) s' request := by
  obtain ⟨receiver, c, hlive, hphase, hline, hold⟩ := h
  refine ⟨receiver, c, ?_, hphase, hline, hchannel.trans hold⟩
  rw [Function.update_of_ne]
  · exact hlive
  · rintro rfl
    rw [hpid] at hlive
    cases hlive

/-- Two requests under way on one channel are in the same phase: a connection that waits is not
about to make a request. -/
theorem Waits.not_offering {request : BrokerRequest} (h : Waits gs s request) {other : ℕ}
    {c : Connection} (hghost : (gs other).ghost = some (.connection c))
    (hchannel : s.channels request.reply = some ⟨other, true, none⟩) :
    c.phase ≠ .offering request.reply := by
  obtain ⟨receiver, co, hlive, hphase, -, hold⟩ := h
  rw [hchannel] at hold
  cases hold
  rw [hlive] at hghost
  cases hghost
  rw [hphase]
  simp

/-- What a call of the scheduler does to everything but itself. -/
structure SchedulerStep (log : List (broker serde engine engine₀).Event) (s s' : ServeState σ)
    (gs gs' : ℕ → Machine.Stage Party) (pid : ℕ) (o : ServeOp) (r : o.Ret) : Prop where
  /-- Every connection keeps its books. -/
  connection : ∀ other c, (gs other).ghost = some (.connection c) →
    ConnectionInv log s other c → ConnectionInv (.called pid s o r :: log) s' other c
  /-- A verdict is passed on a request that is waited for and has none yet. -/
  verdict : ∀ x ∈ ServeOp.verdict o r, Waits gs s x.1 ∧ x.1.reply ∉ decidedIds log
  /-- What is queued afterwards is waited for and has no verdict. -/
  queued : ∀ request ∈ s'.queue.state.values, Waits gs' s' request ∧
    request.reply ∉ decidedIds (.called pid s o r :: log)
  /-- No request is queued twice afterwards. -/
  queuedOnce : (queuedIds s').Nodup
  /-- The capacity of the queue stays. -/
  capacity : s'.queue.capacity = s.queue.capacity
  /-- Nothing is written to a connection. -/
  output : s'.output = s.output
  /-- No thread comes or goes. -/
  threads : s'.scheduler = s.scheduler ∧ s'.connections = s.connections

/-- A connection keeps its books through a call of the scheduler that leaves the channels alone. -/
theorem ConnectionInv.schedules {o : ServeOp} {r : o.Ret} {other : ℕ} {c : Connection}
    (h : ConnectionInv log s other c) (hghost : (gs other).ghost = some (.connection c))
    (hverdict : ∀ x ∈ ServeOp.verdict o r, Waits gs s x.1) (houtput : s'.output = s.output)
    (hchannels : s'.channels = s.channels) :
    ConnectionInv (.called pid s o r :: log) s' other c := by
  refine h.frame (verdicts_mono log pid s o r) WriteFailed.mono (by rw [houtput])
    (fun k _ => by rw [hchannels]) fun k hphase hmem => ?_
  have hinv := h.phase
  rw [PhaseInv, hphase] at hinv
  obtain ⟨-, -, -, hnot, hchannel⟩ := hinv
  rcases (decidedIds_called log pid s o r).mp hmem with ⟨x, hx, rfl⟩ | hold
  · exact (hverdict x hx).not_offering hghost hchannel hphase
  · exact hnot hold

theorem schedulerStep_dequeue (h : ServeInv log gs s) {phase : SchedulerPhase}
    (phase' : SchedulerPhase) (hpid : gs pid = .live (.scheduler phase)) {taken : Dequeued BrokerRequest} {now : ℕ}
    (hexec : serveExec serde engine pid s .dequeue (taken, now) = some s') :
    SchedulerStep log s s' gs (Function.update gs pid (.live (.scheduler phase'))) pid .dequeue
        (taken, now) ∧
      Waits gs s taken.value ∧ taken.value.reply ∉ decidedIds log ∧
      taken.value.reply ∉ queuedIds s' ∧ s'.channels = s.channels := by
  obtain ⟨-, queue, hdequeue, rfl⟩ := exec_dequeue hexec
  obtain ⟨hcapacity, hperm⟩ := BrokerQueue.dequeue_some hdequeue
  obtain ⟨hwaits, hnew⟩ := h.queued taken.value (hperm.mem_iff.mpr List.mem_cons_self)
  have honce := (hperm.map BrokerRequest.reply).nodup_iff.mp h.queuedOnce
  obtain ⟨hnot, hrest⟩ := List.nodup_cons.mp honce
  have hverdict : ∀ x ∈ ServeOp.verdict .dequeue (taken, now), x.1 = taken.value := by
    intro x hx
    cases taken with
    | ready request => cases hx
    | expired request => cases hx; rfl
  refine ⟨⟨?_, ?_, ?_, hrest, hcapacity, rfl, rfl, rfl⟩, hwaits, hnew, hnot, rfl⟩
  · intro other c hghost hinv
    refine hinv.schedules hghost (fun x hx => ?_) rfl rfl
    rw [hverdict x hx]
    exact hwaits
  · intro x hx
    rw [hverdict x hx]
    exact ⟨hwaits, hnew⟩
  · intro request hmem
    obtain ⟨hw, hnot'⟩ := h.queued request (hperm.mem_iff.mpr (List.mem_cons_of_mem _ hmem))
    refine ⟨hw.scheduler _ hpid rfl, fun hdecided => ?_⟩
    rcases (decidedIds_called log pid s _ _).mp hdecided with ⟨x, hx, heq⟩ | hold
    · rw [hverdict x hx] at heq
      exact hnot (List.mem_map.mpr ⟨request, hmem, heq.symm⟩)
    · exact hnot' hold

theorem schedulerStep_processLine (h : ServeInv log gs s) {phase : SchedulerPhase}
    (phase' : SchedulerPhase) (hpid : gs pid = .live (.scheduler phase)) {request : BrokerRequest}
    (hwaits : Waits gs s request) (hnot : request.reply ∉ queuedIds s)
    (hnew : request.reply ∉ decidedIds log) {reply : Option ProtocolReply}
    (hexec : serveExec serde engine pid s (.processLine request) reply = some s') :
    SchedulerStep log s s' gs (Function.update gs pid (.live (.scheduler phase'))) pid
        (.processLine request) reply ∧
      s'.channels = s.channels ∧ queuedIds s' = queuedIds s := by
  obtain ⟨-, rfl⟩ := exec_processLine hexec
  have hverdict : ∀ x ∈ ServeOp.verdict (.processLine request) reply, x.1 = request := by
    rintro x ⟨⟩
    rfl
  refine ⟨⟨?_, ?_, ?_, h.queuedOnce, rfl, rfl, rfl, rfl⟩, rfl, rfl⟩
  · intro other c hghost hinv
    refine hinv.schedules hghost (fun x hx => ?_) rfl rfl
    rw [hverdict x hx]
    exact hwaits
  · intro x hx
    rw [hverdict x hx]
    exact ⟨hwaits, hnew⟩
  · intro other hmem
    obtain ⟨hw, hnot'⟩ := h.queued other hmem
    refine ⟨hw.scheduler _ hpid rfl, fun hdecided => ?_⟩
    rcases (decidedIds_called log pid s _ _).mp hdecided with ⟨x, hx, heq⟩ | hold
    · rw [hverdict x hx] at heq
      exact hnot (List.mem_map.mpr ⟨other, hmem, heq.symm⟩)
    · exact hnot' hold

theorem schedulerStep_send (h : ServeInv log gs s) {phase phase' : SchedulerPhase}
    (hpid : gs pid = .live (.scheduler phase)) {request : BrokerRequest}
    (hwaits : Waits gs s request) (hnot : request.reply ∉ queuedIds s) {v : Verdict}
    (hverdict : (request, v) ∈ verdicts log)
    (hexec : serveExec serde engine pid s
      (.send request.reply (v.reply serde request.line)) () = some s') :
    SchedulerStep log s s' gs (Function.update gs pid (.live (.scheduler phase'))) pid
      (.send request.reply (v.reply serde request.line)) () := by
  obtain ⟨receiver, cr, hlive, hphase, hline, hchannel⟩ := hwaits
  obtain ⟨channel, hold, rfl⟩ := exec_send hexec
  rw [hchannel] at hold
  cases hold
  refine ⟨?_, fun _ hx => (nomatch hx), ?_, h.queuedOnce, rfl, rfl, rfl, rfl⟩
  · intro other c hghost hinv
    by_cases hother : other = receiver
    · -- The connection that waits for this answer.
      subst hother
      rw [hlive] at hghost
      cases hghost
      have hsame : cr.goto cr.phase = cr := rfl
      have hinv' := hinv.phase
      rw [PhaseInv, hphase] at hinv'
      obtain ⟨hrest, hlen, hdone, -⟩ := hinv'
      rw [← hsame]
      refine hinv.goto (by rw [hphase]; simp) (torn_eq_nil (by rw [hphase]; simp))
        (verdicts_mono log pid s _ _) (fun k hk => (hinv.owned k hk).setChannel fun _ => rfl) ?_ ?_
      · rw [torn_eq_nil (by rw [hsame, hphase]; simp), List.append_nil]
        rfl
      · rw [PhaseInv, hsame, hphase]
        refine ⟨hrest, hlen, hdone, _, setChannel_self _ _ _, rfl, Or.inr rfl, ?_⟩
        rintro message ⟨⟩
        exact ⟨v, verdicts_mono log pid s _ _ _ (hline ▸ hverdict), by rw [hline]⟩
    · refine hinv.frame (verdicts_mono log pid s _ _) WriteFailed.mono rfl ?_ ?_
      · rintro k ⟨channel, hown, hreceiver⟩
        refine setChannel_of_ne s ?_ _
        rintro rfl
        rw [hchannel] at hown
        cases hown
        exact hother hreceiver.symm
      · intro k hoffering hmem
        have hinv' := hinv.phase
        rw [PhaseInv, hoffering] at hinv'
        rcases (decidedIds_called log pid s _ _).mp hmem with ⟨x, hx, -⟩ | hold
        · cases hx
        · exact hinv'.2.2.2.1 hold
  · intro other hmem
    obtain ⟨hw, hnot'⟩ := h.queued other hmem
    refine ⟨hw.scheduler _ hpid (setChannel_of_ne s ?_ _), fun hdecided => ?_⟩
    · intro heq
      exact hnot (List.mem_map.mpr ⟨other, hmem, heq⟩)
    · rcases (decidedIds_called log pid s _ _).mp hdecided with ⟨x, hx, -⟩ | hold
      · cases hx
      · exact hnot' hold

/-- The scheduler's call is booked. -/
theorem SchedulerStep.inv (h : ServeInv log gs s) {phase phase' : SchedulerPhase}
    (hpid : gs pid = .live (.scheduler phase)) {o : ServeOp} {r : o.Ret}
    (hstep : SchedulerStep log s s' gs (Function.update gs pid (.live (.scheduler phase'))) pid o r)
    (hself : SchedulerInv (.called pid s o r :: log)
      (Function.update gs pid (.live (.scheduler phase'))) s' phase')
    (hop : ∀ cls request deadline, o ≠ .tryEnqueue cls request deadline) :
    ServeInv (.called pid s o r :: log) (Function.update gs pid (.live (.scheduler phase'))) s' := by
  have hconnection : ∀ other c, (Function.update gs pid (.live (.scheduler phase')) other).ghost =
      some (.connection c) ↔ (gs other).ghost = some (.connection c) := by
    intro other c
    by_cases hother : other = pid
    · subst hother
      rw [Function.update_self, hpid]
      exact ⟨fun h => (by cases h), fun h => (by cases h)⟩
    · rw [Function.update_of_ne hother]
  refine ⟨?_, ?_, ?_, ?_, hstep.capacity.trans h.capacity, hstep.queued, hstep.queuedOnce, ?_, ?_,
    ?_, ?_, ?_⟩
  · intro other c hghost
    have hold := (hconnection other c).mp hghost
    exact hstep.connection other c hold (h.connection other c hold)
  · intro other
    rw [hstep.threads.2, h.alive other]
    by_cases hother : other = pid
    · subst hother
      rw [Function.update_self, hpid]
      constructor
      · rintro ⟨_, h⟩
        cases h
      · rintro ⟨_, h⟩
        cases h
    · rw [Function.update_of_ne hother]
  · intro other phase₁ hghost
    by_cases hother : other = pid
    · subst hother
      rw [Function.update_self] at hghost
      cases hghost
      exact ⟨hstep.threads.1.trans (h.scheduler other phase (by rw [hpid]; rfl)).1, hself⟩
    · -- There is one scheduler.
      rw [Function.update_of_ne hother] at hghost
      have hone := (h.scheduler other phase₁ hghost).1.symm.trans
        (h.scheduler pid phase (by rw [hpid]; rfl)).1
      exact absurd (Option.some.inj hone) hother
  · intro other hunborn
    have hother : other ≠ pid := by
      rintro rfl
      rw [Function.update_self] at hunborn
      cases hunborn
    rw [Function.update_of_ne hother] at hunborn
    rw [hstep.output, h.unborn other hunborn]
  · exact decidedIds_called_nodup h.decidedOnce fun x hx => (hstep.verdict x hx).2
  · intro x hx
    rw [verdicts_called, List.mem_append, Option.mem_toList] at hx
    rcases hx with hnew | hold
    · obtain ⟨⟨receiver, c, hlive, hphase, hline, -⟩, -⟩ := hstep.verdict x hnew
      refine ⟨receiver, c, (hconnection receiver c).mpr (by rw [hlive]; rfl), ?_⟩
      refine List.mem_append_right _ ?_
      rw [Connection.current, hphase, hline]
      exact List.mem_cons_self
    · obtain ⟨other, c, hghost, hmem⟩ := h.decided x hold
      exact ⟨other, c, (hconnection other c).mpr hghost, hmem⟩
  · intro other before cls request deadline hmem
    rcases List.mem_cons.mp hmem with heq | hold
    · cases heq
      exact absurd rfl (hop cls request deadline)
    · exact h.full other before cls request deadline hold
  · intro other input
    rw [started_mem_called, h.started other input]
    exact exists_congr fun c => and_congr_left fun _ => (hconnection other c).symm
  · intro other result hmem
    obtain ⟨c, hgone, hended⟩ := h.finished other result
      ((List.mem_cons.mp hmem).resolve_left fun heq => by cases heq)
    refine ⟨c, ?_, hended⟩
    rw [Function.update_of_ne]
    · exact hgone
    · rintro rfl
      rw [hpid] at hgone
      cases hgone

/-- **A call of the scheduler**, whatever it is. -/
theorem ServeInv.scheduler_called (h : ServeInv log gs s) {phase : SchedulerPhase}
    (hpid : gs pid = .live (.scheduler phase)) {o : ServeOp} {r : o.Ret}
    (hpre : schedulerPre phase o) (hexec : serveExec serde engine pid s o r = some s') :
    ServeInv (.called pid s o r :: log)
      (Function.update gs pid (.live (.scheduler (schedulerNext serde phase o r)))) s' := by
  have hself := (h.scheduler pid phase (by rw [hpid]; rfl)).2
  unfold schedulerPre at hpre
  split at hpre
  · obtain ⟨taken, now⟩ := r
    obtain ⟨hstep, hwaits, hnew, hnot, hchannels⟩ :=
      schedulerStep_dequeue h (schedulerNext serde .idle .dequeue (taken, now)) hpid hexec
    refine hstep.inv h hpid ?_ fun _ _ _ heq => nomatch heq
    have hwaits' : Waits _ s' taken.value := hwaits.scheduler
      (schedulerNext serde .idle .dequeue (taken, now)) hpid (by rw [hchannels])
    cases taken with
    | ready request =>
      refine ⟨hwaits', hnot, fun hdecided => ?_⟩
      rcases (decidedIds_called log pid s _ _).mp hdecided with ⟨x, hx, -⟩ | hold
      · cases hx
      · exact hnew hold
    | expired request =>
      refine ⟨hwaits', hnot, .expired, ?_, rfl⟩
      rw [verdicts_called]
      exact List.mem_cons_self
  · rename_i request request'
    obtain rfl := hpre
    obtain ⟨hwaits, hnot, hnew⟩ := hself
    obtain ⟨hstep, hchannels, hqueued⟩ := schedulerStep_processLine h
      (schedulerNext serde (.processing request') (.processLine request') r) hpid hwaits hnot hnew
      hexec
    refine hstep.inv h hpid ?_ fun _ _ _ heq => nomatch heq
    refine ⟨hwaits.scheduler _ hpid (by rw [hchannels]), by rw [hqueued]; exact hnot,
      .processed r, ?_, rfl⟩
    rw [verdicts_called]
    exact List.mem_cons_self
  · rename_i request message k message'
    obtain ⟨rfl, rfl⟩ := hpre
    obtain ⟨hwaits, hnot, v, hmem, rfl⟩ := hself
    exact (schedulerStep_send h hpid hwaits hnot hmem hexec).inv h hpid trivial
      fun _ _ _ heq => nomatch heq
  · exact absurd hpre id

/-! ## Coming and going -/

/-- What is known of a connection does not depend on who else comes and goes. -/
theorem ConnectionInv.quiet {e : (broker serde engine engine₀).Event}
    (he : ∀ pid s o r, e ≠ .called pid s o r) {other : ℕ} {c : Connection}
    (h : ConnectionInv log s other c) (houtput : s'.output = s.output)
    (hchannels : s'.channels = s.channels) : ConnectionInv (e :: log) s' other c := by
  have hverdicts := verdicts_quiet log he
  refine h.frame (fun x hx => by rw [hverdicts]; exact hx) WriteFailed.mono (by rw [houtput])
    (fun k _ => by rw [hchannels]) fun k hphase => ?_
  have hinv := h.phase
  rw [PhaseInv, hphase] at hinv
  rw [decidedIds, hverdicts]
  exact hinv.2.2.2.1

theorem connectionInv_accepted {input : Reader} (hout : s.output pid = []) :
    ConnectionInv log s pid (.accepted input) where
  lines := rfl
  decided _ he := nomatch he
  owned _ hk := nomatch hk
  nodup := List.nodup_nil
  output := hout
  going _ _ he := nomatch he
  phase := trivial

/-- Requests under way stay so when a thread comes or goes that is not waiting. -/
theorem Waits.update {stage : Machine.Stage Party} {request : BrokerRequest}
    (h : Waits gs s request) (hpid : ∀ c, gs pid = .live (.connection c) →
      ∀ k, c.phase ≠ .waiting k) (hchannels : s'.channels = s.channels) :
    Waits (Function.update gs pid stage) s' request := by
  obtain ⟨receiver, c, hlive, hphase, hline, hchannel⟩ := h
  refine ⟨receiver, c, ?_, hphase, hline, by rw [hchannels]; exact hchannel⟩
  rw [Function.update_of_ne]
  · exact hlive
  · rintro rfl
    exact hpid c hlive _ hphase

theorem SchedulerInv.update {stage : Machine.Stage Party}
    {e : (broker serde engine engine₀).Event} (he : ∀ pid s o r, e ≠ .called pid s o r)
    {phase : SchedulerPhase} (h : SchedulerInv log gs s phase)
    (hpid : ∀ c, gs pid = .live (.connection c) → ∀ k, c.phase ≠ .waiting k)
    (hchannels : s'.channels = s.channels) (hqueue : s'.queue = s.queue) :
    SchedulerInv (e :: log) (Function.update gs pid stage) s' phase := by
  have hverdicts := verdicts_quiet log he
  cases phase with
  | idle => trivial
  | processing request =>
    obtain ⟨hw, hnot, hnew⟩ := h
    refine ⟨hw.update hpid hchannels, by rw [queuedIds, hqueue]; exact hnot, ?_⟩
    rw [decidedIds, hverdicts]
    exact hnew
  | answering request message =>
    obtain ⟨hw, hnot, v, hmem, hmessage⟩ := h
    refine ⟨hw.update hpid hchannels, by rw [queuedIds, hqueue]; exact hnot, v, ?_, hmessage⟩
    rw [hverdicts]
    exact hmem

/-- What a thread that comes or goes leaves of the rest. -/
structure Quiet (gs : ℕ → Machine.Stage Party) (s s' : ServeState σ) (pid : ℕ)
    (stage : Machine.Stage Party) (e : (broker serde engine engine₀).Event) : Prop where
  /-- The event is not a call. -/
  event : ∀ pid s o r, e ≠ .called pid s o r
  /-- It is not waiting, and not gone already. -/
  idle : ∀ c, gs pid = .live (.connection c) → ∀ k, c.phase ≠ .waiting k
  /-- The thread is not gone yet. -/
  present : ∀ g, gs pid ≠ .gone g
  /-- The thread is not unborn afterwards. -/
  born : stage ≠ .unborn
  /-- Its books are kept. -/
  kept : ∀ c, (gs pid).ghost = some (.connection c) → stage.ghost = some (.connection c)
  /-- It has books if it had them, or is a connection that starts. -/
  origin : ∀ c, stage.ghost = some (.connection c) →
    (gs pid).ghost = some (.connection c) ∨ e = .started pid (.connection c.input)
  /-- The reply channels stay. -/
  channels : s'.channels = s.channels
  /-- Nothing is written to a connection. -/
  output : s'.output = s.output
  /-- The queue stays. -/
  queue : s'.queue = s.queue
  /-- A connection that starts is this thread, and its books are about its input. -/
  started : ∀ other input, e = .started other (.connection input) →
    other = pid ∧ ∃ c, stage.ghost = some (.connection c) ∧ c.input = input
  /-- A connection that finishes is this thread, in a way its books allow. -/
  finished : ∀ other result, e = .finished other result →
    other = pid ∧ ∃ c, stage = .gone (.connection c) ∧ c.Ended result

theorem ServeInv.quiet (h : ServeInv log gs s) {stage : Machine.Stage Party}
    {e : (broker serde engine engine₀).Event} (hquiet : Quiet gs s s' pid stage e)
    (hself : ∀ c, stage.ghost = some (.connection c) → ConnectionInv (e :: log) s' pid c)
    (halive : ∀ other, other ∈ s'.connections ↔
      ∃ c, Function.update gs pid stage other = .live (.connection c))
    (hscheduler : ∀ phase, stage.ghost = some (.scheduler phase) →
      s'.scheduler = some pid ∧ phase = .idle)
    (hothers : ∀ other ≠ pid, s.scheduler = some other → s'.scheduler = some other) :
    ServeInv (e :: log) (Function.update gs pid stage) s' := by
  have hverdicts := verdicts_quiet log hquiet.event
  have hstage : ∀ other, other ≠ pid → Function.update gs pid stage other = gs other :=
    fun other hother => Function.update_of_ne hother _ _
  have hghost : ∀ other c, (gs other).ghost = some (.connection c) →
      (Function.update gs pid stage other).ghost = some (.connection c) := by
    intro other c hold
    by_cases hother : other = pid
    · subst hother
      rw [Function.update_self]
      exact hquiet.kept c hold
    · rw [hstage other hother]
      exact hold
  refine ⟨?_, halive, ?_, ?_, by rw [hquiet.queue]; exact h.capacity, ?_, ?_, ?_, ?_, ?_, ?_, ?_⟩
  · intro other c hnow
    by_cases hother : other = pid
    · subst hother
      rw [Function.update_self] at hnow
      exact hself c hnow
    · rw [hstage other hother] at hnow
      exact (h.connection other c hnow).quiet hquiet.event hquiet.output hquiet.channels
  · intro other phase hnow
    by_cases hother : other = pid
    · subst hother
      rw [Function.update_self] at hnow
      obtain ⟨hone, rfl⟩ := hscheduler phase hnow
      exact ⟨hone, trivial⟩
    · rw [hstage other hother] at hnow
      obtain ⟨hone, hinv⟩ := h.scheduler other phase hnow
      exact ⟨hothers other hother hone,
        hinv.update hquiet.event hquiet.idle hquiet.channels hquiet.queue⟩
  · intro other hunborn
    have hother : other ≠ pid := by
      rintro rfl
      rw [Function.update_self] at hunborn
      exact hquiet.born hunborn
    rw [hstage other hother] at hunborn
    rw [hquiet.output, h.unborn other hunborn]
  · intro request hmem
    rw [hquiet.queue] at hmem
    obtain ⟨hw, hnew⟩ := h.queued request hmem
    refine ⟨hw.update hquiet.idle hquiet.channels, ?_⟩
    rw [decidedIds, hverdicts]
    exact hnew
  · rw [queuedIds, hquiet.queue]
    exact h.queuedOnce
  · rw [decidedIds, hverdicts]
    exact h.decidedOnce
  · intro x hx
    rw [hverdicts] at hx
    obtain ⟨other, c, hold, hmem⟩ := h.decided x hx
    exact ⟨other, c, hghost other c hold, hmem⟩
  · intro other before cls request deadline hmem
    rcases List.mem_cons.mp hmem with heq | hold
    · exact absurd heq.symm (hquiet.event _ _ _ _)
    · exact h.full other before cls request deadline hold
  · intro other input
    constructor
    · intro hmem
      rcases List.mem_cons.mp hmem with heq | hold
      · obtain ⟨rfl, c, hc, hinput⟩ := hquiet.started other input heq.symm
        exact ⟨c, by rw [Function.update_self]; exact hc, hinput⟩
      · obtain ⟨c, hc, hinput⟩ := (h.started other input).mp hold
        exact ⟨c, hghost other c hc, hinput⟩
    · rintro ⟨c, hc, hinput⟩
      by_cases hother : other = pid
      · subst hother
        rw [Function.update_self] at hc
        rcases hquiet.origin c hc with hold | heq
        · exact List.mem_cons_of_mem _ ((h.started other input).mpr ⟨c, hold, hinput⟩)
        · rw [heq, hinput]
          exact List.mem_cons_self
      · rw [hstage other hother] at hc
        exact List.mem_cons_of_mem _ ((h.started other input).mpr ⟨c, hc, hinput⟩)
  · intro other result hmem
    rcases List.mem_cons.mp hmem with heq | hold
    · obtain ⟨rfl, c, hc, hended⟩ := hquiet.finished other result heq.symm
      exact ⟨c, by rw [Function.update_self]; exact hc, hended⟩
    · obtain ⟨c, hgone, hended⟩ := h.finished other result hold
      refine ⟨c, ?_, hended⟩
      rw [hstage other fun heq => hquiet.present _ (heq ▸ hgone)]
      exact hgone

theorem ServeInv.startScheduler (h : ServeInv log gs s) (hunborn : gs pid = .unborn)
    (hnone : s.scheduler = none) :
    ServeInv (.started pid .scheduler :: log)
      (Function.update gs pid (.live (.scheduler .idle))) { s with scheduler := some pid } := by
  have hquiet : Quiet gs s { s with scheduler := some pid } pid (.live (.scheduler .idle))
      (.started pid .scheduler : (broker serde engine engine₀).Event) := by
    refine ⟨fun _ _ _ _ h => (nomatch h), fun c hc => ?_, fun g hg => ?_, fun h => (nomatch h),
      fun c hc => ?_, fun _ hc => (nomatch hc), rfl, rfl, rfl, fun _ _ h => (nomatch h),
      fun _ _ h => (nomatch h)⟩
    · rw [hunborn] at hc
      cases hc
    · rw [hunborn] at hg
      cases hg
    · rw [hunborn] at hc
      cases hc
  refine h.quiet hquiet (fun _ hc => (nomatch hc)) (fun other => ?_) ?_ ?_
  · show other ∈ s.connections ↔ _
    rw [h.alive other]
    by_cases hother : other = pid
    · subst hother
      rw [Function.update_self, hunborn]
      exact ⟨fun ⟨_, h⟩ => (nomatch h), fun ⟨_, h⟩ => (nomatch h)⟩
    · rw [Function.update_of_ne hother]
  · rintro phase ⟨⟩
    exact ⟨rfl, rfl⟩
  · intro other _ hold
    rw [hnone] at hold
    cases hold

theorem ServeInv.startConnection (h : ServeInv log gs s) (hunborn : gs pid = .unborn)
    (input : Reader) :
    ServeInv (.started pid (.connection input) :: log)
      (Function.update gs pid (.live (.connection (.accepted input))))
      { s with connections := pid :: s.connections } := by
  have hquiet : Quiet gs s { s with connections := pid :: s.connections } pid
      (.live (.connection (.accepted input)))
      (.started pid (.connection input) : (broker serde engine engine₀).Event) := by
    refine ⟨fun _ _ _ _ h => (nomatch h), fun c hc => ?_, fun g hg => ?_, fun h => (nomatch h),
      fun c hc => ?_, fun c hc => ?_, rfl, rfl, rfl, ?_, fun _ _ h => (nomatch h)⟩
    · rw [hunborn] at hc
      cases hc
    · rw [hunborn] at hg
      cases hg
    · rw [hunborn] at hc
      cases hc
    · cases hc
      exact Or.inr rfl
    · rintro other input' ⟨⟩
      exact ⟨rfl, _, rfl, rfl⟩
  refine h.quiet hquiet ?_ (fun other => ?_) (fun _ hc => (nomatch hc)) fun _ _ hold => hold
  · rintro c ⟨⟩
    exact connectionInv_accepted (h.unborn pid hunborn)
  · show other ∈ pid :: s.connections ↔ _
    rw [List.mem_cons, h.alive other]
    by_cases hother : other = pid
    · subst hother
      rw [Function.update_self]
      exact ⟨fun _ => ⟨_, rfl⟩, fun _ => Or.inl rfl⟩
    · rw [Function.update_of_ne hother]
      simp [hother]

theorem ServeInv.finishConnection (h : ServeInv log gs s) {c : Connection}
    (hpid : gs pid = .live (.connection c)) {result : Except IoError Unit}
    (hended : c.Ended result) :
    ServeInv (.finished pid result :: log) (Function.update gs pid (.gone (.connection c)))
      { s with connections := s.connections.filter (· ≠ pid) } := by
  have hquiet : Quiet gs s { s with connections := s.connections.filter (· ≠ pid) } pid
      (.gone (.connection c))
      (.finished pid result : (broker serde engine engine₀).Event) := by
    refine ⟨fun _ _ _ _ h => (nomatch h), fun c' hc k => ?_, fun g hg => ?_,
      fun h => (nomatch h), fun c' hc => ?_, fun c' hc => Or.inl ?_, rfl, rfl, rfl,
      fun _ _ h => (nomatch h), ?_⟩
    · rw [hpid] at hc
      cases hc
      rcases hended with ⟨hphase, -⟩ | ⟨hphase, -⟩ | ⟨e, written, err, hphase, -⟩
      · rw [hphase]; simp
      · rw [hphase]; simp
      · rw [hphase]; simp
    · rw [hpid] at hg
      cases hg
    · rw [hpid] at hc
      exact hc
    · rw [hpid]
      exact hc
    · rintro other result' ⟨⟩
      exact ⟨rfl, c, rfl, hended⟩
  refine h.quiet hquiet ?_ (fun other => ?_) (fun _ hc => (nomatch hc)) fun _ _ hold => hold
  · rintro c' ⟨⟩
    exact (h.connection pid c (by rw [hpid]; rfl)).quiet hquiet.event rfl rfl
  · show other ∈ s.connections.filter (· ≠ pid) ↔ _
    rw [List.mem_filter, h.alive other]
    by_cases hother : other = pid
    · subst hother
      rw [Function.update_self]
      simp
    · rw [Function.update_of_ne hother]
      simp [hother]

/-! ## The whole -/

/-- The protocol of every thread, and the invariant of the broker. -/
def brokerOutline : (broker serde engine engine₀).Outline Party where
  protocol := serveProtocol serde
  enter _ job :=
    match job with
    | .scheduler => .scheduler .idle
    | .connection input => .connection (.accepted input)
  done result g := ∃ c, g = .connection c ∧ c.Ended result
  inv := ServeInv

theorem brokerOutline_valid :
    (brokerOutline : (broker serde engine engine₀).Outline Party).Valid where
  init := by
    refine ⟨fun _ _ h => (nomatch h), fun pid => ⟨fun h => (nomatch h), fun ⟨_, h⟩ => (nomatch h)⟩,
      fun _ _ h => (nomatch h), fun _ _ => rfl, rfl, fun _ h => (nomatch h), List.nodup_nil,
      List.nodup_nil, fun _ h => (nomatch h), fun _ _ _ _ _ h => (nomatch h),
      fun _ _ => ⟨fun h => (nomatch h), fun ⟨_, h, _⟩ => (nomatch h)⟩, fun _ _ h => (nomatch h)⟩
  main pid job s s' _ := by
    cases job with
    | scheduler => exact schedule_follows.mono fun _ _ h => h.elim
    | connection input => exact handleConnection_follows input
  start := by
    intro log gs s pid job s' hinv hstage hstart
    cases job with
    | scheduler =>
      have hstart' : serveStart pid s .scheduler = some s' := hstart
      simp only [serveStart] at hstart'
      split at hstart'
      · rename_i hnone
        cases hstart'
        exact hinv.startScheduler hstage hnone
      · cases hstart'
    | connection input =>
      cases hstart
      exact hinv.startConnection hstage input
  allowed := by
    intro log gs s pid g o r s' hinv hstage hpre hexec
    cases g with
    | scheduler phase =>
      have hpre' : schedulerPre phase o := hpre
      unfold schedulerPre at hpre'
      split at hpre'
      · trivial
      · trivial
      · trivial
      · exact absurd hpre' id
    | connection c =>
      exact (connection_step (hinv.connection pid c (by rw [hstage]; rfl)) hinv.allocated hpre
        hexec).1
  call := by
    intro log gs s pid g o r s' hinv hstage hpre hexec
    cases g with
    | scheduler phase => exact hinv.scheduler_called hstage hpre hexec
    | connection c => exact hinv.connection_called hstage hpre hexec
  finish := by
    rintro log gs s pid g result hinv hstage ⟨c, rfl, hended⟩
    exact hinv.finishConnection hstage hended
  kill := by
    intro log gs s pid g s' _ _ hkill
    cases hkill

/-- **The books balance wherever any interleaving leads.** -/
theorem broker_holds {config : (broker serde engine engine₀).Config}
    (h : (broker serde engine engine₀).Reachable config) :
    ∃ gs, ServeInv config.log gs config.shared := by
  obtain ⟨gs, hinv, -⟩ := Machine.Outline.reachable brokerOutline_valid h
  exact ⟨gs, hinv⟩

end

end SemanticSidecar
