import SemanticSidecar.Broker.Serve
import Mathlib.Data.List.Nodup

/-!
# What becomes of every line

Two things are recorded of a run of the broker.  A *verdict* is what a request came to: it was
processed, it found the queue full, or it expired.  An *exchange* is what a connection made of it.

`ServeInv` holds them together.  A request has at most one verdict; a connection's exchanges are
the first lines of its input in order, each with the reply its verdict says, and their bytes are
what was written; and a request that is still under way belongs to a connection that waits for it.
`broker_holds` is the invariant for every interleaving of every number of connections.

The reason for the two records is that they are made at different times.  The scheduler decides on a
request before it sends the reply, and the connection writes the reply after it has received it;
between the two, the verdict is there and the exchange is not.  `ConnectionInv` says for each phase
of a connection how far the one is ahead of the other, and `connection_step` carries it over every
call that the connection can make.

A line over the cap is an exchange without a verdict, since it is rejected before there is a
request.  A write that fails ends the connection, and the bytes that went out are then a beginning
of what would have been written (`torn`).
-/

set_option autoImplicit false

namespace SemanticSidecar

/-! ## Verdicts -/

/-- What a request came to. -/
inductive Verdict where
  /-- The scheduler has had the request processed, with this reply. -/
  | processed (reply : Option ProtocolReply)
  /-- The queue had no room for the request. -/
  | full
  /-- The deadline of the request had passed. -/
  | expired

/-- The reply that goes with the verdict. -/
def Verdict.reply (serde : SerdeJson) (line : List UInt8) : Verdict → Option ProtocolReply
  | .processed reply => reply
  | .full => some (fullReply serde line)
  | .expired => some (expiredReply serde line)

/-- The verdict a call passes on a request, if it passes one. -/
def ServeOp.verdict : (o : ServeOp) → o.Ret → Option (BrokerRequest × Verdict)
  | .processLine request, reply => some (request, .processed reply)
  | .tryEnqueue _ request _, .error .full => some (request, .full)
  | .dequeue, (.expired request, _) => some (request, .expired)
  | _, _ => none

section

variable {serde : SerdeJson} {σ : Type} {engine : EmbedEngine σ} {engine₀ : σ}

/-- The verdicts of a run, the latest first. -/
def verdicts (log : List (broker serde engine engine₀).Event) : List (BrokerRequest × Verdict) :=
  log.filterMap fun e => match e with
    | .called _ _ o r => ServeOp.verdict o r
    | _ => none

/-- The requests that have a verdict, by their reply channels. -/
def decidedIds (log : List (broker serde engine engine₀).Event) : List ℕ :=
  (verdicts log).map fun x => x.1.reply

theorem verdicts_called (log : List (broker serde engine engine₀).Event) (pid : ℕ)
    (s : ServeState σ) (o : ServeOp) (r : o.Ret) :
    verdicts (.called pid s o r :: log : List (broker serde engine engine₀).Event) =
      (ServeOp.verdict o r).toList ++ verdicts log := by
  rw [verdicts, List.filterMap_cons]
  cases h : ServeOp.verdict o r with
  | none => simp only [h, Option.toList_none, List.nil_append, verdicts]
  | some x => simp only [h, Option.toList_some, List.singleton_append, verdicts]

theorem verdicts_quiet (log : List (broker serde engine engine₀).Event)
    {e : (broker serde engine engine₀).Event} (h : ∀ pid s o r, e ≠ .called pid s o r) :
    verdicts (e :: log) = verdicts log := by
  rw [verdicts, List.filterMap_cons]
  cases e with
  | called pid s o r => exact absurd rfl (h pid s o r)
  | started | finished | killed => rfl

/-- A write of the connection failed. -/
def WriteFailed (log : List (broker serde engine engine₀).Event) (pid : ℕ) : Prop :=
  ∃ s reply failed, .called pid s (.writeReply reply) (.error failed) ∈ log

/-! ## What the calls do -/

variable {pid : ℕ} {s s' : ServeState σ}

theorem exec_syncChannel {k : ℕ}
    (h : serveExec serde engine pid s .syncChannel k = some s') :
    s.channels k = none ∧ s' = s.setChannel k ⟨pid, true, none⟩ := by
  delta serveExec at h
  simp only at h
  split at h
  · rename_i hnone
    cases h
    exact ⟨hnone, rfl⟩
  · cases h

theorem exec_now {t : ℕ} (h : serveExec serde engine pid s .now t = some s') :
    s.clock ≤ t ∧ s' = s.setClock t := by
  delta serveExec at h
  simp only at h
  split at h
  · rename_i hle
    cases h
    exact ⟨hle, rfl⟩
  · cases h

theorem exec_tryEnqueue {cls : RequestClass} {request : BrokerRequest} {deadline : ℕ}
    {result : Except QueueError Unit}
    (h : serveExec serde engine pid s (.tryEnqueue cls request deadline) result = some s') :
    (result = .ok () ∧ ∃ queue, s.queue.tryEnqueue cls request deadline = (.ok (), queue) ∧
      s' = s.setQueue queue) ∨
    (result = .error .full ∧ s.queue.capacity ≤ s.queue.state.waiting ∧
      s' = s.setChannel request.reply ⟨pid, false, none⟩) := by
  delta serveExec at h
  simp only at h
  split at h
  · rename_i queue hok
    cases h
    exact Or.inl ⟨rfl, queue, hok, rfl⟩
  · rename_i queue hfull
    cases h
    obtain ⟨rfl, hcap⟩ := BrokerQueue.tryEnqueue_error hfull
    exact Or.inr ⟨rfl, hcap, rfl⟩
  · cases h

theorem exec_recv {k : ℕ} {result : Except RecvError (Option ProtocolReply)}
    (h : serveExec serde engine pid s (.recv k) result = some s') :
    (∃ receiver sender message, s.channels k = some ⟨receiver, sender, some message⟩ ∧
      result = .ok message ∧ s' = s.setChannel k ⟨receiver, sender, none⟩) ∨
    (∃ receiver, s.channels k = some ⟨receiver, false, none⟩ ∧
      result = .error .disconnected ∧ s' = s) := by
  delta serveExec at h
  simp only at h
  split at h
  · rename_i receiver sender message message' hchannel
    split at h
    · rename_i heq
      cases h
      exact Or.inl ⟨receiver, sender, message, hchannel, congrArg Except.ok heq, rfl⟩
    · cases h
  · rename_i receiver hchannel
    cases h
    exact Or.inr ⟨receiver, hchannel, rfl, rfl⟩
  · cases h

theorem exec_dequeue {taken : Dequeued BrokerRequest} {now : ℕ}
    (h : serveExec serde engine pid s .dequeue (taken, now) = some s') :
    s.clock ≤ now ∧ ∃ queue, s.queue.dequeue now = some (taken, queue) ∧
      s' = (s.setQueue queue).setClock now := by
  delta serveExec at h
  simp only at h
  split at h
  · rename_i hle
    split at h
    · rename_i dequeued queue hdequeue
      split at h
      · rename_i heq
        cases h
        exact ⟨hle, queue, heq ▸ hdequeue, rfl⟩
      · cases h
    · cases h
  · cases h

theorem exec_processLine {request : BrokerRequest} {reply : Option ProtocolReply}
    (h : serveExec serde engine pid s (.processLine request) reply = some s') :
    reply = (processLine serde engine .default request.line s.engine).1 ∧
      s' = s.setEngine (processLine serde engine .default request.line s.engine).2 := by
  delta serveExec at h
  simp only at h
  split at h
  · rename_i heq
    cases h
    exact ⟨heq.symm, rfl⟩
  · cases h

theorem exec_send {k : ℕ} {message : Option ProtocolReply}
    (h : serveExec serde engine pid s (.send k message) () = some s') :
    ∃ channel, s.channels k = some channel ∧
      s' = s.setChannel k ⟨channel.receiver, false, some message⟩ := by
  delta serveExec at h
  simp only at h
  split at h
  · rename_i channel hchannel
    cases h
    exact ⟨channel, hchannel, rfl⟩
  · cases h

/-! ## One connection -/

/-- The channel is one of the connection's. -/
def Owned (s : ServeState σ) (pid k : ℕ) : Prop :=
  ∃ channel, s.channels k = some channel ∧ channel.receiver = pid

/-- The exchange went the way its verdict says; a line over the cap was turned away unread. -/
def Decided (log : List (broker serde engine engine₀).Event) (e : Exchange) : Prop :=
  match e.request with
  | none => e.line.length > Limits.default.maxRequestBytes ∧
      e.reply = some (oversizedReply serde .default)
  | some k => e.line.length ≤ Limits.default.maxRequestBytes ∧
      ∃ v, (⟨e.line, k⟩, v) ∈ verdicts log ∧ e.reply = v.reply serde e.line

/-- The request of an exchange. -/
def Exchange.brokerRequest (e : Exchange) : Option BrokerRequest :=
  e.request.map fun k => ⟨e.line, k⟩

namespace Connection

/-- The channels of the requests that are done. -/
def doneIds (c : Connection) : List ℕ := c.done.filterMap Exchange.request

/-- What went out of a reply that could not be written whole. -/
def torn (c : Connection) : List UInt8 :=
  match c.phase with
  | .broken e written => e.bytes.take written
  | _ => []

/-- The request on the current line, if it has been made one. -/
def current (c : Connection) : Option BrokerRequest :=
  match c.phase with
  | .offering k | .waiting k => some ⟨c.line, k⟩
  | .replying e | .broken e _ => e.brokerRequest
  | .reading | .stopped => none

/-- The requests of a connection. -/
def requests (c : Connection) : List BrokerRequest :=
  c.done.filterMap Exchange.brokerRequest ++ c.current.toList

end Connection

/-- `e` is what the current line of `c` came to. -/
structure Current (log : List (broker serde engine engine₀).Event) (s : ServeState σ) (pid : ℕ)
    (c : Connection) (e : Exchange) : Prop where
  /-- The line is the next one of the input. -/
  rest : c.rest = e.line :: c.rest.tail
  /-- The reply is what the verdict says. -/
  decided : Decided log e
  /-- The reply channel of the request is the connection's own. -/
  owned : ∀ k, e.request = some k → Owned s pid k
  /-- The request is none of those that are done. -/
  fresh : ∀ k, e.request = some k → k ∉ c.doneIds

/-- What is known of the current line in each phase. -/
def PhaseInv (log : List (broker serde engine engine₀).Event) (s : ServeState σ) (pid : ℕ)
    (c : Connection) : Prop :=
  match c.phase with
  | .reading => True
  | .offering k => c.rest = c.line :: c.rest.tail ∧
      c.line.length ≤ Limits.default.maxRequestBytes ∧ k ∉ c.doneIds ∧ k ∉ decidedIds log ∧
      s.channels k = some ⟨pid, true, none⟩
  | .waiting k => c.rest = c.line :: c.rest.tail ∧
      c.line.length ≤ Limits.default.maxRequestBytes ∧ k ∉ c.doneIds ∧
      ∃ channel, s.channels k = some channel ∧ channel.receiver = pid ∧
        (channel.sender = true ∨ channel.message.isSome = true) ∧
        ∀ message, channel.message = some message →
          ∃ v, (⟨c.line, k⟩, v) ∈ verdicts log ∧ message = v.reply serde c.line
  | .replying e => Current log s pid c e
  | .stopped => ∃ first e, c.done = first ++ [e] ∧ e.stops = true ∧ ∀ e ∈ first, e.stops = false
  | .broken e _ => Current log s pid c e ∧ WriteFailed log pid

/-- What is known of a connection. -/
structure ConnectionInv (log : List (broker serde engine engine₀).Event) (s : ServeState σ)
    (pid : ℕ) (c : Connection) : Prop where
  /-- The lines of the input are those that are done and the rest. -/
  lines : Reader.framed c.input = c.done.map Exchange.line ++ c.rest
  /-- Every reply is what the verdict on its request says. -/
  decided : ∀ e ∈ c.done, Decided log e
  /-- The reply channels of the requests are the connection's own. -/
  owned : ∀ k ∈ c.doneIds, Owned s pid k
  /-- Every request has a reply channel of its own. -/
  nodup : c.doneIds.Nodup
  /-- What has been written are the replies, and the beginning of one that failed. -/
  output : s.output pid = c.done.flatMap Exchange.bytes ++ c.torn
  /-- None of the replies so far has ended the connection, unless it has stopped. -/
  going : c.phase ≠ .stopped → ∀ e ∈ c.done, e.stops = false
  /-- The phase of the connection agrees with the channels and the log. -/
  phase : PhaseInv log s pid c

/-! ### A step of the connection -/

variable {log log' : List (broker serde engine engine₀).Event} {c : Connection}

theorem Decided.mono {e : Exchange} (h : Decided log e)
    (hverdicts : ∀ x ∈ verdicts log, x ∈ verdicts log') : Decided log' e := by
  unfold Decided at h ⊢
  split
  · rename_i hrequest
    rw [hrequest] at h
    exact h
  · rename_i k hrequest
    rw [hrequest] at h
    obtain ⟨hlen, v, hmem, hreply⟩ := h
    exact ⟨hlen, v, hverdicts _ hmem, hreply⟩

theorem doneIds_finish (c : Connection) (e : Exchange) :
    (c.finish e).doneIds = c.doneIds ++ e.request.toList := by
  show (c.done ++ [e]).filterMap Exchange.request = _
  rw [List.filterMap_append, List.filterMap_cons, List.filterMap_nil]
  cases e.request <;> rfl

theorem torn_finish (c : Connection) (e : Exchange) : (c.finish e).torn = [] := by
  rw [Connection.torn, Connection.finish]
  split
  · rename_i hphase
    split at hphase <;> cases hphase
  · rfl

/-- The current line is done with. -/
theorem ConnectionInv.finish (h : ConnectionInv log s pid c) (hphase : c.phase ≠ .stopped)
    (htorn : c.torn = []) {e : Exchange} (hcurrent : Current log' s' pid c e)
    (hverdicts : ∀ x ∈ verdicts log, x ∈ verdicts log')
    (howned : ∀ k ∈ c.doneIds, Owned s' pid k) (hout : s'.output pid = s.output pid ++ e.bytes) :
    ConnectionInv log' s' pid (c.finish e) where
  lines := by
    show Reader.framed c.input = (c.done ++ [e]).map Exchange.line ++ c.rest.tail
    rw [h.lines, hcurrent.rest]
    simp
  decided := by
    intro e' he'
    rcases List.mem_append.mp he' with hold | hnew
    · exact (h.decided e' hold).mono hverdicts
    · rw [List.mem_singleton.mp hnew]
      exact hcurrent.decided
  owned := by
    intro k hk
    rw [doneIds_finish, List.mem_append, Option.mem_toList] at hk
    exact hk.elim (howned k) (hcurrent.owned k)
  nodup := by
    rw [doneIds_finish]
    cases hrequest : e.request with
    | none => simpa using h.nodup
    | some k =>
      rw [Option.toList_some, ← List.concat_eq_append]
      exact h.nodup.concat (hcurrent.fresh k hrequest)
  output := by
    rw [torn_finish, List.append_nil, hout, h.output, htorn, List.append_nil]
    show _ = (c.done ++ [e]).flatMap Exchange.bytes
    rw [List.flatMap_append, List.flatMap_singleton]
  going := by
    intro hgoing e' he'
    have hstops : e.stops = false := by
      cases hstops : e.stops with
      | false => rfl
      | true => exact absurd (by simp only [Connection.finish, hstops, if_true]) hgoing
    rcases List.mem_append.mp he' with hold | hnew
    · exact h.going hphase e' hold
    · rw [List.mem_singleton.mp hnew]
      exact hstops
  phase := by
    cases hstops : e.stops with
    | false => simp only [PhaseInv, Connection.finish, hstops, Bool.false_eq_true, if_false]
    | true =>
      simp only [PhaseInv, Connection.finish, hstops, if_true]
      exact ⟨c.done, e, rfl, hstops, h.going hphase⟩

/-- The current line goes on to another phase. -/
theorem ConnectionInv.goto (h : ConnectionInv log s pid c) (hphase : c.phase ≠ .stopped)
    (htorn : c.torn = []) {phase : ConnectionPhase}
    (hverdicts : ∀ x ∈ verdicts log, x ∈ verdicts log')
    (howned : ∀ k ∈ c.doneIds, Owned s' pid k)
    (hout : s'.output pid = s.output pid ++ (c.goto phase).torn)
    (hinv : PhaseInv log' s' pid (c.goto phase)) :
    ConnectionInv log' s' pid (c.goto phase) where
  lines := h.lines
  decided e he := (h.decided e he).mono hverdicts
  owned := howned
  nodup := h.nodup
  output := by
    rw [hout, h.output, htorn, List.append_nil]
    rfl
  going _ := h.going hphase
  phase := hinv

/-- What others do leaves a connection as it is. -/
theorem ConnectionInv.frame (h : ConnectionInv log s pid c)
    (hverdicts : ∀ x ∈ verdicts log, x ∈ verdicts log')
    (hfailed : WriteFailed log pid → WriteFailed log' pid)
    (hout : s'.output pid = s.output pid)
    (hchannels : ∀ k, Owned s pid k → s'.channels k = s.channels k)
    (hnew : ∀ k, c.phase = .offering k → k ∉ decidedIds log') :
    ConnectionInv log' s' pid c where
  lines := h.lines
  decided e he := (h.decided e he).mono hverdicts
  owned k hk := by
    obtain ⟨channel, hchannel, hreceiver⟩ := h.owned k hk
    exact ⟨channel, (hchannels k ⟨channel, hchannel, hreceiver⟩).trans hchannel, hreceiver⟩
  nodup := h.nodup
  output := hout.trans h.output
  going := h.going
  phase := by
    have hcurrent : ∀ e, Current log s pid c e → Current log' s' pid c e := by
      intro e hcur
      refine ⟨hcur.rest, hcur.decided.mono hverdicts, fun k hk => ?_, hcur.fresh⟩
      obtain ⟨channel, hchannel, hreceiver⟩ := hcur.owned k hk
      exact ⟨channel, (hchannels k ⟨channel, hchannel, hreceiver⟩).trans hchannel, hreceiver⟩
    have hinv := h.phase
    unfold PhaseInv at hinv ⊢
    split
    · trivial
    · rename_i k hphase
      rw [hphase] at hinv
      obtain ⟨hrest, hlen, hdone, -, hchannel⟩ := hinv
      exact ⟨hrest, hlen, hdone, hnew k hphase, (hchannels k ⟨_, hchannel, rfl⟩).trans hchannel⟩
    · rename_i k hphase
      rw [hphase] at hinv
      obtain ⟨hrest, hlen, hdone, channel, hchannel, hreceiver, hside, hmessage⟩ := hinv
      refine ⟨hrest, hlen, hdone, channel, ?_, hreceiver, hside, fun message hm => ?_⟩
      · exact (hchannels k ⟨channel, hchannel, hreceiver⟩).trans hchannel
      · obtain ⟨v, hmem, hreply⟩ := hmessage message hm
        exact ⟨v, hverdicts _ hmem, hreply⟩
    · rename_i e hphase
      rw [hphase] at hinv
      exact hcurrent e hinv
    · rename_i hphase
      rw [hphase] at hinv
      exact hinv
    · rename_i e written hphase
      rw [hphase] at hinv
      exact ⟨hcurrent e hinv.1, hfailed hinv.2⟩

/-- The calls a connection may make, one case each. -/
theorem connectionPre_cases {o : ServeOp} (h : connectionPre serde c o) :
    (c.phase = .reading ∧ o = .syncChannel ∧ c.rest = c.line :: c.rest.tail ∧
      c.line.length ≤ Limits.default.maxRequestBytes) ∨
    (c.phase = .reading ∧ o = .writeReply (oversizedReply serde .default) ∧
      c.rest = c.line :: c.rest.tail ∧ c.line.length > Limits.default.maxRequestBytes) ∨
    (∃ k, c.phase = .offering k ∧ o = .now) ∨
    (∃ k cls deadline, c.phase = .offering k ∧ o = .tryEnqueue cls ⟨c.line, k⟩ deadline) ∨
    (∃ k, c.phase = .waiting k ∧ o = .recv k) ∨
    ∃ e reply, c.phase = .replying e ∧ o = .writeReply reply ∧ e.reply = some reply := by
  unfold connectionPre at h
  split at h
  · rename_i hphase
    obtain ⟨line, rest, hrest, hlen⟩ := h
    have hline : c.line = line := by rw [Connection.line, hrest]; rfl
    exact Or.inl ⟨hphase, rfl, by rw [hline, hrest]; rfl, hline ▸ hlen⟩
  · rename_i reply hphase
    obtain ⟨line, rest, hrest, hlen, rfl⟩ := h
    have hline : c.line = line := by rw [Connection.line, hrest]; rfl
    exact Or.inr (Or.inl ⟨hphase, rfl, by rw [hline, hrest]; rfl, hline ▸ hlen⟩)
  · rename_i k hphase
    exact Or.inr (Or.inr (Or.inl ⟨k, hphase, rfl⟩))
  · rename_i k cls request deadline hphase
    obtain ⟨rfl, hline⟩ := h
    exact Or.inr (Or.inr (Or.inr (Or.inl ⟨request.reply, cls, deadline, hphase, by rw [← hline]⟩)))
  · rename_i k k' hphase
    obtain rfl := h
    exact Or.inr (Or.inr (Or.inr (Or.inr (Or.inl ⟨k', hphase, rfl⟩))))
  · rename_i e reply hphase
    exact Or.inr (Or.inr (Or.inr (Or.inr (Or.inr ⟨e, reply, hphase, rfl, h⟩))))
  · exact absurd h id

theorem requests_finish (c : Connection) (e : Exchange) :
    (c.finish e).requests =
      c.done.filterMap Exchange.brokerRequest ++ e.brokerRequest.toList := by
  have hcurrent : (c.finish e).current = none := by
    rw [Connection.current, Connection.finish]
    cases hstops : e.stops with
    | false => rfl
    | true => rfl
  rw [Connection.requests, hcurrent, Option.toList_none, List.append_nil]
  show (c.done ++ [e]).filterMap _ = _
  rw [List.filterMap_append, List.filterMap_cons, List.filterMap_nil]
  cases e.brokerRequest <;> rfl

/-- A reply that is written, whole or in part, belongs to the current line. -/
theorem ConnectionInv.wrote (h : ConnectionInv log s pid c) (hphase : c.phase ≠ .stopped)
    (htorn : c.torn = []) {e : Exchange} {reply : ProtocolReply} (he : e.reply = some reply)
    (hcurrent : Current log s pid c e) {result : Except WriteFailure Unit}
    (hexec : serveExec serde engine pid s (.writeReply reply) result = some s') :
    ConnectionInv (.called pid s (.writeReply reply) result :: log) s' pid (c.wrote e result) := by
  have hbytes : e.bytes = reply.bytes := by
    rw [Exchange.bytes, he, Option.toList_some, List.flatMap_singleton]
  have hverdicts : ∀ x ∈ verdicts log,
      x ∈ verdicts (.called pid s (.writeReply reply) result :: log) := by
    intro x hx
    rw [verdicts_called]
    exact List.mem_append_right _ hx
  have hcurrent' : ∀ output phase, Current (.called pid s (.writeReply reply) result :: log)
      { s with output := output } pid (c.goto phase) e := fun _ _ =>
    ⟨hcurrent.rest, hcurrent.decided.mono hverdicts, hcurrent.owned, hcurrent.fresh⟩
  rcases result with failed | ⟨⟨⟩⟩
  · cases hexec
    refine h.goto hphase htorn hverdicts h.owned ?_ ⟨hcurrent' _ _, s, reply, failed, ?_⟩
    · show Function.update s.output pid _ pid = s.output pid ++ e.bytes.take failed.written
      rw [Function.update_self, hbytes]
    · exact List.mem_cons_self
  · cases hexec
    refine h.finish hphase htorn (hcurrent' _ c.phase) hverdicts h.owned ?_
    show Function.update s.output pid _ pid = s.output pid ++ e.bytes
    rw [Function.update_self, hbytes]

/-- What a call of the connection does to itself and to everything else. -/
structure ConnectionStep (log : List (broker serde engine engine₀).Event) (s s' : ServeState σ)
    (pid : ℕ) (c c' : Connection) (o : ServeOp) (r : o.Ret) : Prop where
  /-- The connection keeps its books. -/
  inv : ConnectionInv (.called pid s o r :: log) s' pid c'
  /-- The input is the same. -/
  input : c'.input = c.input
  /-- No request is forgotten. -/
  requests : ∀ request ∈ c.requests, request ∈ c'.requests
  /-- It passes a verdict on a request of its own only, and on one that has none yet. -/
  verdict : ∀ x ∈ ServeOp.verdict o r, x.1 ∈ c'.requests ∧ x.1.reply ∉ decidedIds log
  /-- Nothing is written to another connection. -/
  output : ∀ other ≠ pid, s'.output other = s.output other
  /-- The channels of the other connections stay. -/
  channels : ∀ k channel, s.channels k = some channel → channel.receiver ≠ pid →
    s'.channels k = some channel
  /-- No thread comes or goes. -/
  threads : s'.scheduler = s.scheduler ∧ s'.connections = s.connections
  /-- It does not wait for the scheduler. -/
  active : ∀ k, c.phase = .waiting k → s.channels k ≠ some ⟨pid, true, none⟩
  /-- The capacity of the queue stays. -/
  capacity : s'.queue.capacity = s.queue.capacity
  /-- At most it offers its current line. -/
  queue : s'.queue.state.values = s.queue.state.values ∨
    ∃ k, s'.queue.state.values.Perm (⟨c.line, k⟩ :: s.queue.state.values) ∧
      c.phase = .offering k ∧ c' = c.goto (.waiting k) ∧ c.rest = c.line :: c.rest.tail ∧
      s'.channels k = some ⟨pid, true, none⟩ ∧ ServeOp.verdict o r = none

theorem verdicts_mono (log : List (broker serde engine engine₀).Event) (pid : ℕ)
    (s : ServeState σ) (o : ServeOp) (r : o.Ret) :
    ∀ x ∈ verdicts log, x ∈ verdicts (.called pid s o r :: log) := by
  intro x hx
  rw [verdicts_called]
  exact List.mem_append_right _ hx

theorem torn_eq_nil (h : ∀ e written, c.phase ≠ .broken e written) : c.torn = [] := by
  rw [Connection.torn]
  split
  · rename_i e written hphase
    exact absurd hphase (h e written)
  · rfl

theorem setChannel_of_ne (s : ServeState σ) {k k' : ℕ} (h : k' ≠ k) (channel : ReplyChannel) :
    (s.setChannel k channel).channels k' = s.channels k' := Function.update_of_ne h _ _

theorem setChannel_self (s : ServeState σ) (k : ℕ) (channel : ReplyChannel) :
    (s.setChannel k channel).channels k = some channel := Function.update_self _ _ _

/-- A channel keeps its owner. -/
theorem Owned.setChannel {k k' : ℕ} {channel : ReplyChannel} (h : Owned s pid k')
    (hreceiver : k' = k → channel.receiver = pid) : Owned (s.setChannel k channel) pid k' := by
  by_cases heq : k' = k
  · exact ⟨channel, by rw [heq, setChannel_self], hreceiver heq⟩
  · obtain ⟨old, hold, howner⟩ := h
    exact ⟨old, (setChannel_of_ne s heq channel).trans hold, howner⟩

/-- Where the current line has not been made a request, it has no verdict to keep. -/
theorem requests_subset {c' : Connection} (hdone : c'.done = c.done) (hcurrent : c.current = none) :
    ∀ request ∈ c.requests, request ∈ c'.requests := by
  intro request hmem
  rw [Connection.requests, hcurrent, Option.toList_none, List.append_nil, ← hdone] at hmem
  exact List.mem_append_left _ hmem

theorem step_syncChannel (h : ConnectionInv log s pid c)
    (halloc : ∀ k ∈ decidedIds log, s.channels k ≠ none) (hphase : c.phase = .reading)
    (hrest : c.rest = c.line :: c.rest.tail)
    (hlen : c.line.length ≤ Limits.default.maxRequestBytes) {k : ℕ}
    (hexec : serveExec serde engine pid s .syncChannel k = some s') :
    ConnectionStep log s s' pid c (c.goto (.offering k)) .syncChannel k := by
  obtain ⟨hfree, rfl⟩ := exec_syncChannel hexec
  have hne : ∀ k', s.channels k' ≠ none → k' ≠ k := by
    rintro k' hk' rfl
    exact hk' hfree
  have howned : ∀ k' ∈ c.doneIds, Owned (s.setChannel k ⟨pid, true, none⟩) pid k' :=
    fun k' hk' => (h.owned k' hk').setChannel fun _ => rfl
  have hfresh : k ∉ c.doneIds := by
    intro hk
    obtain ⟨channel, hchannel, -⟩ := h.owned k hk
    exact hne k (by rw [hchannel]; exact Option.some_ne_none _) rfl
  refine ⟨?_, rfl, ?_, ?_, fun _ _ => rfl, ?_, ⟨rfl, rfl⟩, ?_, rfl, Or.inl rfl⟩
  · refine h.goto (by rw [hphase]; simp) (torn_eq_nil (by rw [hphase]; simp))
      (verdicts_mono log pid s _ _) howned (List.append_nil _).symm ?_
    refine ⟨hrest, hlen, hfresh, fun hk => ?_, setChannel_self _ _ _⟩
    rw [decidedIds, verdicts_called] at hk
    exact hne k (halloc k hk) rfl
  · exact requests_subset rfl (by rw [Connection.current, hphase])
  · intro x hx
    cases hx
  · intro k' channel hchannel _
    exact (setChannel_of_ne s (hne k' (by rw [hchannel]; exact Option.some_ne_none _)) _).trans
      hchannel
  · intro k' hwaiting
    rw [hphase] at hwaiting
    cases hwaiting

theorem step_writeReply (h : ConnectionInv log s pid c) (hphase : c.phase ≠ .stopped)
    (hwaiting : ∀ k, c.phase ≠ .waiting k) (htorn : c.torn = []) {e : Exchange}
    {reply : ProtocolReply} (he : e.reply = some reply) (hcurrent : Current log s pid c e)
    (hsame : c.current = e.brokerRequest)
    {result : Except WriteFailure Unit}
    (hexec : serveExec serde engine pid s (.writeReply reply) result = some s') :
    ConnectionStep log s s' pid c (c.wrote e result) (.writeReply reply) result := by
  have hinv := h.wrote hphase htorn he hcurrent hexec
  have houtput : ∀ bytes, ∀ other ≠ pid, (s.write pid bytes).output other = s.output other :=
    fun _ other hother => Function.update_of_ne hother _ _
  rcases result with failed | ⟨⟨⟩⟩
  · cases hexec
    refine ⟨hinv, rfl, fun request hmem => ?_, fun _ hx => (nomatch hx), houtput _,
      fun _ _ hchannel _ => hchannel, ⟨rfl, rfl⟩, fun k hk => absurd hk (hwaiting k), rfl,
      Or.inl rfl⟩
    rw [Connection.requests, hsame] at hmem
    exact hmem
  · cases hexec
    refine ⟨hinv, rfl, fun request hmem => ?_, fun _ hx => (nomatch hx), houtput _,
      fun _ _ hchannel _ => hchannel, ⟨rfl, rfl⟩, fun k hk => absurd hk (hwaiting k), rfl,
      Or.inl rfl⟩
    rw [Connection.requests, hsame] at hmem
    show request ∈ (c.finish e).requests
    rw [requests_finish]
    exact hmem

theorem step_now (h : ConnectionInv log s pid c) {k : ℕ} (hphase : c.phase = .offering k) {t : ℕ}
    (hexec : serveExec serde engine pid s .now t = some s') :
    ConnectionStep log s s' pid c c .now t := by
  obtain ⟨-, rfl⟩ := exec_now hexec
  have hphase' := h.phase
  rw [PhaseInv, hphase] at hphase'
  refine ⟨?_, rfl, fun _ hmem => hmem, fun _ hx => (nomatch hx), fun _ _ => rfl,
    fun _ _ hchannel _ => hchannel, ⟨rfl, rfl⟩, fun k' hwaiting => ?_, rfl, Or.inl rfl⟩
  · refine h.frame (verdicts_mono log pid s _ _) ?_ rfl (fun _ _ => rfl) ?_
    · rintro ⟨before, reply, failed, hmem⟩
      exact ⟨before, reply, failed, List.mem_cons_of_mem _ hmem⟩
    · intro k' hk' hmem
      rw [hphase] at hk'
      cases hk'
      rw [decidedIds, verdicts_called] at hmem
      exact hphase'.2.2.2.1 hmem
  · rw [hphase] at hwaiting
    cases hwaiting

theorem step_tryEnqueue (h : ConnectionInv log s pid c) {k : ℕ} (hphase : c.phase = .offering k)
    {cls : RequestClass} {deadline : ℕ} {result : Except QueueError Unit}
    (hexec : serveExec serde engine pid s (.tryEnqueue cls ⟨c.line, k⟩ deadline) result =
      some s') :
    ConnectionStep log s s' pid c
      (connectionNext serde c (.tryEnqueue cls ⟨c.line, k⟩ deadline) result)
      (.tryEnqueue cls ⟨c.line, k⟩ deadline) result := by
  have hinv := h.phase
  rw [PhaseInv, hphase] at hinv
  obtain ⟨hrest, hlen, hdone, hnew, hchannel⟩ := hinv
  have hgoing : c.phase ≠ .stopped := by rw [hphase]; simp
  have htorn : c.torn = [] := torn_eq_nil (by rw [hphase]; simp)
  have hrequests : c.requests = c.done.filterMap Exchange.brokerRequest ++ [⟨c.line, k⟩] := by
    rw [Connection.requests, Connection.current, hphase]
    rfl
  have hactive : ∀ k', c.phase = .waiting k' → s.channels k' ≠ some ⟨pid, true, none⟩ := by
    intro k' hwaiting
    rw [hphase] at hwaiting
    cases hwaiting
  rcases exec_tryEnqueue hexec with ⟨rfl, queue, hqueue, rfl⟩ | ⟨rfl, -, rfl⟩
  · obtain ⟨hcapacity, hvalues⟩ := BrokerQueue.tryEnqueue_ok hqueue
    simp only [connectionNext, hphase]
    refine ⟨?_, rfl, fun request hmem => ?_, fun _ hx => (by cases hx), fun _ _ => rfl,
      fun _ _ hold _ => hold, ⟨rfl, rfl⟩, hactive, hcapacity,
      Or.inr ⟨k, hvalues, hphase, rfl, hrest, hchannel, rfl⟩⟩
    · refine h.goto hgoing htorn (verdicts_mono log pid s _ _) h.owned
        (List.append_nil _).symm ?_
      exact ⟨hrest, hlen, hdone, _, hchannel, rfl, Or.inl rfl, fun _ hm => by cases hm⟩
    · rw [hrequests] at hmem
      exact hmem
  · simp only [connectionNext, hphase]
    have hother : ∀ k' channel, s.channels k' = some channel → channel.receiver ≠ pid →
        k' ≠ k := by
      rintro k' channel hold hreceiver rfl
      rw [hold] at hchannel
      cases hchannel
      exact hreceiver rfl
    have howned : ∀ k', Owned s pid k' → Owned (s.setChannel k ⟨pid, false, none⟩) pid k' :=
      fun k' hk' => hk'.setChannel fun _ => rfl
    refine ⟨?_, rfl, fun request hmem => ?_, fun x hx => ?_, fun _ _ => rfl,
      fun k' channel hold hreceiver => ?_, ⟨rfl, rfl⟩, hactive, rfl, Or.inl rfl⟩
    · refine h.goto hgoing htorn (verdicts_mono log pid s _ _)
        (fun k' hk' => howned k' (h.owned k' hk')) (List.append_nil _).symm ?_
      refine ⟨hrest, ⟨hlen, .full, ?_, rfl⟩, fun k' hk' => ?_, fun k' hk' => ?_⟩
      · rw [verdicts_called]
        exact List.mem_cons_self
      · cases hk'
        exact howned k ⟨_, hchannel, rfl⟩
      · cases hk'
        exact hdone
    · rw [hrequests] at hmem
      exact hmem
    · cases hx
      refine ⟨List.mem_append_right _ List.mem_cons_self, hnew⟩
    · exact (setChannel_of_ne s (hother k' channel hold hreceiver) _).trans hold

theorem step_recv (h : ConnectionInv log s pid c) {k : ℕ} (hphase : c.phase = .waiting k)
    {result : Except RecvError (Option ProtocolReply)}
    (hexec : serveExec serde engine pid s (.recv k) result = some s') :
    (∃ message, result = .ok message) ∧
      ConnectionStep log s s' pid c (connectionNext serde c (.recv k) result) (.recv k) result := by
  have hinv := h.phase
  rw [PhaseInv, hphase] at hinv
  obtain ⟨hrest, hlen, hdone, channel, hchannel, hreceiver, hside, hmessage⟩ := hinv
  rcases exec_recv hexec with ⟨receiver, sender, message, hold, rfl, rfl⟩ | ⟨receiver, hold, -, -⟩
  · rw [hold] at hchannel
    cases hchannel
    obtain ⟨v, hmem, rfl⟩ := hmessage message rfl
    refine ⟨⟨_, rfl⟩, ?_⟩
    have hgoing : c.phase ≠ .stopped := by rw [hphase]; simp
    have htorn : c.torn = [] := torn_eq_nil (by rw [hphase]; simp)
    have howned : ∀ k', Owned s pid k' →
        Owned (s.setChannel k ⟨receiver, sender, none⟩) pid k' :=
      fun k' hk' => hk'.setChannel fun _ => hreceiver
    have hcurrent : ∀ phase, Current
        (.called pid s (.recv k) (.ok (v.reply serde c.line)) :: log)
        (s.setChannel k ⟨receiver, sender, none⟩) pid (c.goto phase)
        ⟨c.line, some k, v.reply serde c.line⟩ := by
      refine fun phase => ⟨hrest, ⟨hlen, v, ?_, rfl⟩, fun k' hk' => ?_, fun k' hk' => ?_⟩
      · exact verdicts_mono log pid s _ _ _ hmem
      · cases hk'
        exact howned k ⟨_, hold, hreceiver⟩
      · cases hk'
        exact hdone
    have hchannels : ∀ k' channel, s.channels k' = some channel → channel.receiver ≠ pid →
        (s.setChannel k ⟨receiver, sender, none⟩).channels k' = some channel := by
      intro k' channel hchannel hne
      refine (setChannel_of_ne s ?_ _).trans hchannel
      rintro rfl
      rw [hold] at hchannel
      cases hchannel
      exact hne hreceiver
    have hactive : ∀ k', c.phase = .waiting k' → s.channels k' ≠ some ⟨pid, true, none⟩ := by
      intro k' hwaiting
      rw [hphase] at hwaiting
      cases hwaiting
      rw [hold]
      simp
    have hrequests : c.requests =
        c.done.filterMap Exchange.brokerRequest ++ [⟨c.line, k⟩] := by
      rw [Connection.requests, Connection.current, hphase]
      rfl
    cases hreply : v.reply serde c.line with
    | none =>
      simp only [hreply] at hcurrent
      simp only [connectionNext, hphase]
      refine ⟨?_, rfl, fun request hmem => ?_, fun _ hx => (by cases hx), fun _ _ => rfl,
        hchannels, ⟨rfl, rfl⟩, hactive, rfl, Or.inl rfl⟩
      · exact h.finish hgoing htorn (hcurrent c.phase) (verdicts_mono log pid s _ _)
          (fun k' hk' => howned k' (h.owned k' hk')) (List.append_nil _).symm
      · rw [hrequests] at hmem
        rw [requests_finish]
        exact hmem
    | some reply =>
      simp only [hreply] at hcurrent
      simp only [connectionNext, hphase]
      refine ⟨?_, rfl, fun request hmem => ?_, fun _ hx => (by cases hx), fun _ _ => rfl,
        hchannels, ⟨rfl, rfl⟩, hactive, rfl, Or.inl rfl⟩
      · exact h.goto hgoing htorn (verdicts_mono log pid s _ _)
          (fun k' hk' => howned k' (h.owned k' hk')) (List.append_nil _).symm (hcurrent _)
      · rw [hrequests] at hmem
        exact hmem
  · -- The sender cannot be gone: the request has no answer yet.
    rw [hold] at hchannel
    cases hchannel
    exact hside.elim (fun h => by cases h) (fun h => by cases h)

/-- **A call of a connection**, whatever it is. -/
theorem connection_step (h : ConnectionInv log s pid c)
    (halloc : ∀ k ∈ decidedIds log, s.channels k ≠ none) {o : ServeOp} {r : o.Ret}
    (hpre : connectionPre serde c o) (hexec : serveExec serde engine pid s o r = some s') :
    (serveProtocol serde).allowed (.connection c) o r ∧
      ConnectionStep log s s' pid c (connectionNext serde c o r) o r := by
  rcases connectionPre_cases hpre with ⟨hphase, rfl, hrest, hlen⟩ | ⟨hphase, rfl, hrest, hlen⟩ |
    ⟨k, hphase, rfl⟩ | ⟨k, cls, deadline, hphase, rfl⟩ | ⟨k, hphase, rfl⟩ |
    ⟨e, reply, hphase, rfl, he⟩
  · have hnext : connectionNext serde c .syncChannel r = c.goto (.offering r) := by
      simp only [connectionNext, hphase]
    rw [hnext]
    exact ⟨trivial, step_syncChannel h halloc hphase hrest hlen hexec⟩
  · have hnext : connectionNext serde c (.writeReply (oversizedReply serde .default)) r =
        c.wrote (oversizedExchange serde c.line) r := by
      simp only [connectionNext, hphase]
    rw [hnext]
    have hcurrent : Current log s pid c (oversizedExchange serde c.line) :=
      ⟨hrest, ⟨hlen, rfl⟩, fun _ hk => (by cases hk), fun _ hk => (by cases hk)⟩
    exact ⟨trivial, step_writeReply h (by rw [hphase]; simp) (by rw [hphase]; simp)
      (torn_eq_nil (by rw [hphase]; simp)) rfl hcurrent
      (by rw [Connection.current, hphase]; rfl) hexec⟩
  · have hnext : connectionNext serde c .now r = c := by simp only [connectionNext, hphase]
    rw [hnext]
    exact ⟨trivial, step_now h hphase hexec⟩
  · exact ⟨trivial, step_tryEnqueue h hphase hexec⟩
  · obtain ⟨⟨message, rfl⟩, hstep⟩ := step_recv h hphase hexec
    exact ⟨trivial, hstep⟩
  · have hnext : connectionNext serde c (.writeReply reply) r = c.wrote e r := by
      simp only [connectionNext, hphase]
    rw [hnext]
    have hcurrent : Current log s pid c e := by
      have hinv := h.phase
      rw [PhaseInv, hphase] at hinv
      exact hinv
    exact ⟨trivial, step_writeReply h (by rw [hphase]; simp) (by rw [hphase]; simp)
      (torn_eq_nil (by rw [hphase]; simp)) he hcurrent
      (by rw [Connection.current, hphase]) hexec⟩

end

end SemanticSidecar
