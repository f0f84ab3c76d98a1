import SemanticSidecar.Broker.Queue
import SemanticSidecar.Broker.Reply
import SemanticSidecar.Lib.Pool

/-!
# One broker, many connections

A broker process has one scheduler, which owns the engine, and one thread for each connection.  A
connection reads a line, offers it to the queue together with the sending end of a fresh reply
channel, and waits at the receiving end.  The scheduler takes requests off the queue, answers
them, and sends the answers.

`schedule` and `handleConnection` are the two programs and `broker` is the machine they run on:
queue, reply channels, clock and engine are shared, and a connection has an output of its own.  A
`Reader` stands for everything a client is going to send, so that reading is local; writing can
fail, and then any part of the reply may have gone out.  The broker goes down as a whole or not at
all, so no thread is killed on its own.

The second half says what a thread keeps to.  A connection has a list of *exchanges*, the lines it
is done with and what they were answered, and a phase; the scheduler has a phase.  The two
`_follows` theorems say that the programs go through these phases, and nothing else of them is
used from there on.
-/

set_option autoImplicit false

namespace SemanticSidecar

open Prog (perform Follows)

/-- `QUEUE_CAPACITY`. -/
def queueCapacity : ℕ := 64

/-- `QUEUE_DEADLINE`, thirty seconds. -/
def queueDeadline : ℕ := 30 * 1000000000

/-- A line on its way to the scheduler, with the channel its reply goes to. -/
structure BrokerRequest where
  /-- The bytes of the line. -/
  line : List UInt8
  /-- The channel that the reply is sent into. -/
  reply : ℕ
  deriving DecidableEq, Repr

/-- A write that failed, and how many bytes of the reply were out by then. -/
structure WriteFailure where
  /-- The error. -/
  err : IoError
  /-- How many bytes were written before it. -/
  written : ℕ

/-- Receiving from a channel that is empty and has lost its sender. -/
inductive RecvError where
  /-- Nobody is left to send into the channel. -/
  | disconnected

/-- What the threads of a broker call on. -/
inductive ServeOp where
  /-- A reply channel is made. -/
  | syncChannel
  /-- The clock is read. -/
  | now
  /-- A request is offered to the queue. -/
  | tryEnqueue (cls : RequestClass) (request : BrokerRequest) (deadline : ℕ)
  /-- A reply is waited for. -/
  | recv (reply : ℕ)
  /-- A reply is written to the connection. -/
  | writeReply (reply : ProtocolReply)
  /-- The answer is what was taken, and the clock then. -/
  | dequeue
  /-- The engine processes a line. -/
  | processLine (request : BrokerRequest)
  /-- The request, and with it the sender, is gone afterwards. -/
  | send (reply : ℕ) (message : Option ProtocolReply)

/-- What a call of the broker's threads is answered with. -/
@[reducible] def ServeOp.Ret : ServeOp → Type
  | .syncChannel => ℕ
  | .now => ℕ
  | .tryEnqueue _ _ _ => Except QueueError Unit
  | .recv _ => Except RecvError (Option ProtocolReply)
  | .writeReply _ => Except WriteFailure Unit
  | .dequeue => Dequeued BrokerRequest × ℕ
  | .processLine _ => Option ProtocolReply
  | .send _ _ => Unit

/-- The operations of a broker. -/
abbrev serveSig : Sig := ⟨ServeOp, ServeOp.Ret⟩

/-! ## The two programs -/

section

variable (serde : SerdeJson)

/-- `request_class`. -/
def requestClass (line : List UInt8) : RequestClass :=
  if ((serde.fromSlice line).bind fun request => request.get "method").bind Json.asStr =
      some "embed_batch" then .batch
  else .interactive

/-- The reply to a request that has waited too long. -/
def expiredReply (line : List UInt8) : ProtocolReply :=
  failureReply serde line "BrokerRequestExpired" "broker request expired"

/-- The reply to a request that finds the queue full. -/
def fullReply (line : List UInt8) : ProtocolReply :=
  failureReply serde line "BrokerQueueFull" "broker queue is full"

/-- One turn of the scheduler loop in `serve_with_loader`. -/
def scheduleRequest (_ : Unit) : Prog serveSig (Unit ⊕ Except IoError Unit) := do
  match ← perform (S := serveSig) .dequeue with
  | (.ready request, _) =>
    let reply ← perform (S := serveSig) (.processLine request)
    perform (S := serveSig) (.send request.reply reply)
    return .inl ()
  | (.expired request, _) =>
    perform (S := serveSig) (.send request.reply (some (expiredReply serde request.line)))
    return .inl ()

/-- The scheduler loop in `serve_with_loader`. -/
def schedule : Prog serveSig (Except IoError Unit) := Prog.iterate (scheduleRequest serde) ()

/-- A line that was read: it is offered to the queue, and its reply is waited for. -/
def handleRequest (line : List UInt8) (input : Reader) :
    Prog serveSig (Reader ⊕ Except IoError Unit) := do
  let cls := requestClass serde line
  let channel : ℕ ← perform (S := serveSig) .syncChannel
  let now : ℕ ← perform (S := serveSig) .now
  match ← perform (S := serveSig) (.tryEnqueue cls ⟨line, channel⟩ (now + queueDeadline)) with
  | .error .full =>
    match ← perform (S := serveSig) (.writeReply (fullReply serde line)) with
    | .error failed => return .inr (.error failed.err)
    | .ok () => return .inl input
  | .ok () =>
    match ← perform (S := serveSig) (.recv channel) with
    | .error .disconnected => return .inr (.error ⟨"broker scheduler stopped"⟩)
    | .ok none => return .inl input
    | .ok (some reply) =>
      match ← perform (S := serveSig) (.writeReply reply) with
      | .error failed => return .inr (.error failed.err)
      | .ok () => if reply.stopConnection then return .inr (.ok ()) else return .inl input

/-- One turn of the loop in `handle_connection`. -/
def handleNext (input : Reader) : Prog serveSig (Reader ⊕ Except IoError Unit) :=
  match readRequest serde .default input with
  | (.error err, _) => return .inr (.error err)
  | (.ok .eof, _) => return .inr (.ok ())
  | (.ok (.rejected reply), input) => do
    match ← perform (S := serveSig) (.writeReply reply) with
    | .error failed => return .inr (.error failed.err)
    | .ok () => return .inl input
  | (.ok (.line line), input) => handleRequest serde line input

/-- `handle_connection`. -/
def handleConnection (input : Reader) : Prog serveSig (Except IoError Unit) :=
  Prog.iterate (handleNext serde) input

end

/-! ## What the threads share -/

/-- A `sync_channel(1)` that carries one reply. -/
structure ReplyChannel where
  /-- The connection at the receiving end. -/
  receiver : ℕ
  /-- The sending end has not been dropped. -/
  sender : Bool
  /-- What has been sent and not received: a reply, if the line has one. -/
  message : Option (Option ProtocolReply)

/-- What the threads of a broker share. -/
structure ServeState (σ : Type) where
  /-- The request queue. -/
  queue : BrokerQueue BrokerRequest
  /-- The time. -/
  clock : ℕ
  /-- The engine, with what it remembers. -/
  engine : σ
  /-- The reply channels that have been made. -/
  channels : ℕ → Option ReplyChannel
  /-- What has been written on each connection. -/
  output : ℕ → List UInt8
  /-- The thread that is the scheduler. -/
  scheduler : Option ℕ
  /-- The connection threads that are alive. -/
  connections : List ℕ

namespace ServeState

variable {σ : Type}

/-- The state with another queue. -/
def setQueue (s : ServeState σ) (queue : BrokerQueue BrokerRequest) : ServeState σ :=
  { s with queue := queue }

/-- The state at another time. -/
def setClock (s : ServeState σ) (clock : ℕ) : ServeState σ := { s with clock := clock }

/-- The state with another engine. -/
def setEngine (s : ServeState σ) (engine : σ) : ServeState σ := { s with engine := engine }

/-- The state with a channel changed. -/
def setChannel (s : ServeState σ) (k : ℕ) (channel : ReplyChannel) : ServeState σ :=
  { s with channels := Function.update s.channels k (some channel) }

/-- The state after more bytes were written to a connection. -/
def write (s : ServeState σ) (pid : ℕ) (bytes : List UInt8) : ServeState σ :=
  { s with output := Function.update s.output pid (s.output pid ++ bytes) }

end ServeState

/-- The threads there can be: the scheduler, and a connection with what its client sends. -/
inductive ServeJob where
  /-- The loop that takes requests from the queue. -/
  | scheduler
  /-- `handle_connection` on this input. -/
  | connection (input : Reader)

section

variable (serde : SerdeJson) {σ : Type} (engine : EmbedEngine σ)

/-- What a call does to the shared state, where it gets the answer. -/
def serveExec (pid : ℕ) (s : ServeState σ) : (o : ServeOp) → o.Ret → Option (ServeState σ)
  | .syncChannel, k =>
    match s.channels k with
    | none => some (s.setChannel k ⟨pid, true, none⟩)
    | some _ => none
  | .now, t => if s.clock ≤ t then some (s.setClock t) else none
  | .tryEnqueue cls request deadline, result =>
    match s.queue.tryEnqueue cls request deadline, result with
    | (.ok (), queue), .ok () => some (s.setQueue queue)
    | (.error .full, queue), .error .full =>
      -- The request is dropped, and the sender with it.
      some ((s.setQueue queue).setChannel request.reply ⟨pid, false, none⟩)
    | _, _ => none
  | .recv k, result =>
    match s.channels k, result with
    | some ⟨receiver, sender, some message⟩, .ok message' =>
      if message' = message then some (s.setChannel k ⟨receiver, sender, none⟩) else none
    | some ⟨_, false, none⟩, .error .disconnected => some s
    | _, _ => none
  | .writeReply reply, result =>
    match result with
    | .ok () => some (s.write pid reply.bytes)
    | .error failed => some (s.write pid (reply.bytes.take failed.written))
  | .dequeue, (taken, now) =>
    if s.clock ≤ now then
      match s.queue.dequeue now with
      | some (dequeued, queue) =>
        if dequeued = taken then some ((s.setQueue queue).setClock now) else none
      | none => none
    else none
  | .processLine request, reply =>
    let answer := processLine serde engine .default request.line s.engine
    if answer.1 = reply then some (s.setEngine answer.2) else none
  | .send k message, _ =>
    match s.channels k with
    | some channel => some (s.setChannel k ⟨channel.receiver, false, some message⟩)
    | none => none

/-- A thread that starts: there is one scheduler, and any number of connections. -/
def serveStart (pid : ℕ) (s : ServeState σ) : ServeJob → Option (ServeState σ)
  | .scheduler =>
    match s.scheduler with
    | none => some { s with scheduler := some pid }
    | some _ => none
  | .connection _ => some { s with connections := pid :: s.connections }

/-- A broker with one engine behind it, from the moment its queue exists. -/
def broker (engine₀ : σ) : Machine serveSig ServeJob (Except IoError Unit) where
  State := ServeState σ
  init := ⟨.new queueCapacity, 0, engine₀, fun _ => none, fun _ => [], none, []⟩
  main
    | .scheduler => schedule serde
    | .connection input => handleConnection serde input
  start pid job s := serveStart pid s job
  exec := serveExec serde engine
  leave pid s := { s with connections := s.connections.filter (· ≠ pid) }
  kill _ _ := none

end

/-! ## What a thread keeps to -/

/-- A line that a connection is done with. -/
structure Exchange where
  /-- The line that was read. -/
  line : List UInt8
  /-- The reply channel of its request.  A line over the cap is never made a request. -/
  request : Option ℕ
  /-- The reply to it, if there is one. -/
  reply : Option ProtocolReply

/-- What the exchange puts on the wire. -/
def Exchange.bytes (e : Exchange) : List UInt8 := e.reply.toList.flatMap ProtocolReply.bytes

/-- The reply ends the connection. -/
def Exchange.stops (e : Exchange) : Bool := e.reply.any ProtocolReply.stopConnection

/-- Where a connection stands with the line it has read last. -/
inductive ConnectionPhase where
  /-- There is no such line. -/
  | reading
  /-- It is about to be offered to the queue. -/
  | offering (k : ℕ)
  /-- It waits for the reply to its request. -/
  | waiting (k : ℕ)
  /-- It is answered, and the reply about to be written. -/
  | replying (e : Exchange)
  /-- The last reply ended the connection. -/
  | stopped
  /-- A write failed after so many bytes. -/
  | broken (e : Exchange) (written : ℕ)

/-- Where a connection stands. -/
structure Connection where
  /-- What the client sends. -/
  input : Reader
  /-- The lines that were dealt with, and their replies. -/
  done : List Exchange
  /-- The lines that are not done, the current one first. -/
  rest : List (List UInt8)
  /-- What it is about to do. -/
  phase : ConnectionPhase

/-- Where the scheduler stands. -/
inductive SchedulerPhase where
  /-- It has no request in hand. -/
  | idle
  /-- It has taken a request. -/
  | processing (request : BrokerRequest)
  /-- It has a reply for its request. -/
  | answering (request : BrokerRequest) (message : Option ProtocolReply)

/-- Where a thread stands. -/
inductive Party where
  /-- The scheduler. -/
  | scheduler (phase : SchedulerPhase)
  /-- A connection. -/
  | connection (c : Connection)

namespace Connection

/-- A connection that has just been accepted. -/
def accepted (input : Reader) : Connection := ⟨input, [], Reader.framed input, .reading⟩

/-- The current line. -/
def line (c : Connection) : List UInt8 := c.rest.headD []

/-- The connection in another phase. -/
def goto (c : Connection) (phase : ConnectionPhase) : Connection := { c with phase := phase }

/-- The current line is dealt with. -/
def finish (c : Connection) (e : Exchange) : Connection :=
  ⟨c.input, c.done ++ [e], c.rest.tail, if e.stops then .stopped else .reading⟩

/-- A write of the reply of `e` has come back. -/
def wrote (c : Connection) (e : Exchange) : Except WriteFailure Unit → Connection
  | .ok () => c.finish e
  | .error failed => c.goto (.broken e failed.written)

/-- The connection stands before `input`. -/
structure At (c : Connection) (input : Reader) : Prop where
  /-- It is about to read a line. -/
  phase : c.phase = .reading
  /-- What is left of the input are the lines of this reader. -/
  rest : c.rest = Reader.framed input
  /-- The input fails as this reader does. -/
  failure : Reader.failure c.input = Reader.failure input

/-- How a connection can have ended with `result`: its input is used up, a reply ended it, or a
write failed. -/
def Ended (c : Connection) (result : Except IoError Unit) : Prop :=
  (c.phase = .reading ∧ c.rest = [] ∧ result = endOfStream (Reader.failure c.input)) ∨
  (c.phase = .stopped ∧ result = .ok ()) ∨
  ∃ e written err, c.phase = .broken e written ∧ result = .error err

end Connection

section

variable (serde : SerdeJson)

/-- The exchange of a line over the cap. -/
def oversizedExchange (line : List UInt8) : Exchange :=
  ⟨line, none, some (oversizedReply serde .default)⟩

/-- The calls a connection may make. -/
def connectionPre (c : Connection) (o : ServeOp) : Prop :=
  match c.phase, o with
  | .reading, .syncChannel =>
    ∃ line rest, c.rest = line :: rest ∧ line.length ≤ Limits.default.maxRequestBytes
  | .reading, .writeReply reply =>
    ∃ line rest, c.rest = line :: rest ∧ line.length > Limits.default.maxRequestBytes ∧
      reply = oversizedReply serde .default
  | .offering _, .now => True
  | .offering k, .tryEnqueue _ request _ => request.reply = k ∧ request.line = c.line
  | .waiting k, .recv k' => k' = k
  | .replying e, .writeReply reply => e.reply = some reply
  | _, _ => False

/-- Where a call leaves a connection. -/
def connectionNext (c : Connection) (o : ServeOp) (r : o.Ret) : Connection :=
  match c.phase, o, r with
  | .reading, .syncChannel, k => c.goto (.offering k)
  | .reading, .writeReply _, result => c.wrote (oversizedExchange serde c.line) result
  | .offering k, .tryEnqueue _ _ _, .ok () => c.goto (.waiting k)
  | .offering k, .tryEnqueue _ _ _, .error .full =>
    c.goto (.replying ⟨c.line, some k, some (fullReply serde c.line)⟩)
  | .waiting k, .recv _, .ok none => c.finish ⟨c.line, some k, none⟩
  | .waiting k, .recv _, .ok (some reply) => c.goto (.replying ⟨c.line, some k, some reply⟩)
  | .replying e, .writeReply _, result => c.wrote e result
  | _, _, _ => c

/-- The calls the scheduler may make. -/
def schedulerPre (phase : SchedulerPhase) (o : ServeOp) : Prop :=
  match phase, o with
  | .idle, .dequeue => True
  | .processing request, .processLine request' => request' = request
  | .answering request message, .send k message' => k = request.reply ∧ message' = message
  | _, _ => False

/-- Where a call leaves the scheduler. -/
def schedulerNext (phase : SchedulerPhase) (o : ServeOp) (r : o.Ret) : SchedulerPhase :=
  match phase, o, r with
  | .idle, .dequeue, (.ready request, _) => .processing request
  | .idle, .dequeue, (.expired request, _) =>
    .answering request (some (expiredReply serde request.line))
  | .processing request, .processLine _, reply => .answering request reply
  | .answering _ _, .send _ _, _ => .idle
  | phase, _, _ => phase

/-- How a thread may use what is shared.  A connection counts on its sender to be there. -/
def serveProtocol : Prog.Protocol serveSig Party where
  pre
    | .scheduler phase, o => schedulerPre phase o
    | .connection c, o => connectionPre serde c o
  allowed _ o r :=
    match o, r with
    | .recv _, .error .disconnected => False
    | _, _ => True
  next
    | .scheduler phase, o, r => .scheduler (schedulerNext serde phase o r)
    | .connection c, o, r => .connection (connectionNext serde c o r)

end

variable {serde : SerdeJson}

theorem stopConnection_fullReply (line : List UInt8) :
    (fullReply serde line).stopConnection = false := rfl

theorem stopConnection_oversizedReply :
    (oversizedReply serde .default).stopConnection = false := rfl

theorem scheduleRequest_follows :
    Follows (serveProtocol serde) (scheduleRequest serde ()) (.scheduler .idle)
      fun turn g => turn = .inl () ∧ g = .scheduler .idle := by
  simp only [scheduleRequest, Prog.bind_eq, Prog.perform, Prog.call_bind, Prog.ret_bind,
    Follows.call]
  refine ⟨trivial, ?_⟩
  rintro ⟨request | request, now⟩ -
  · exact ⟨rfl, fun reply _ => ⟨⟨rfl, rfl⟩, fun _ _ => ⟨rfl, rfl⟩⟩⟩
  · exact ⟨⟨rfl, rfl⟩, fun _ _ => ⟨rfl, rfl⟩⟩

/-- The scheduler never comes to an end. -/
theorem schedule_follows :
    Follows (serveProtocol serde) (schedule serde) (.scheduler .idle) fun _ _ => False := by
  refine Follows.iterate (fun _ g => g = .scheduler .idle) rfl ?_
  rintro _ _ rfl
  refine scheduleRequest_follows.mono ?_
  rintro _ g ⟨rfl, hg⟩
  exact hg

/-- What is to hold after a turn of `handle_connection`. -/
def TurnEnds (turn : Reader ⊕ Except IoError Unit) (g : Party) : Prop :=
  ∃ c, g = .connection c ∧
    match turn with
    | .inl input => c.At input
    | .inr result => c.Ended result

/-- A connection that is done with a line stands before the next one. -/
theorem finish_at {c : Connection} {e : Exchange} {input : Reader} (he : e.stops = false)
    (hrest : c.rest.tail = Reader.framed input)
    (hfailure : Reader.failure c.input = Reader.failure input) : (c.finish e).At input := by
  refine ⟨?_, hrest, hfailure⟩
  simp only [Connection.finish, he, Bool.false_eq_true, if_false]

theorem finish_ended {c : Connection} {e : Exchange} (he : e.stops = true) :
    (c.finish e).Ended (.ok ()) := by
  refine Or.inr (Or.inl ⟨?_, rfl⟩)
  simp only [Connection.finish, he, if_true]

theorem handleRequest_follows {c : Connection} {line : List UInt8} {rest : List (List UInt8)}
    (hphase : c.phase = .reading) (hrest : c.rest = line :: rest)
    (hlen : line.length ≤ Limits.default.maxRequestBytes) {input : Reader}
    (hinput : rest = Reader.framed input)
    (hfailure : Reader.failure c.input = Reader.failure input) :
    Follows (serveProtocol serde) (handleRequest serde line input) (.connection c) TurnEnds := by
  have hline : c.line = line := by rw [Connection.line, hrest]; rfl
  have htail : c.rest.tail = Reader.framed input := by rw [hrest]; exact hinput
  simp only [handleRequest, Prog.bind_eq, Prog.perform, Prog.call_bind, Prog.ret_bind,
    Follows.call]
  refine ⟨?_, fun k _ => ?_⟩
  · simp only [serveProtocol, connectionPre, hphase]
    exact ⟨line, rest, hrest, hlen⟩
  simp only [serveProtocol, connectionNext, hphase]
  refine ⟨trivial, fun now _ => ⟨⟨rfl, hline.symm⟩, fun result _ => ?_⟩⟩
  rcases result with ⟨⟨⟩⟩ | ⟨⟨⟩⟩
  · -- The queue is full.
    refine ⟨congrArg some (congrArg (fullReply serde) hline), fun result _ => ?_⟩
    rcases result with failed | ⟨⟨⟩⟩
    · exact ⟨_, rfl, Or.inr (Or.inr ⟨_, _, _, rfl, rfl⟩)⟩
    · exact ⟨_, rfl, finish_at (stopConnection_fullReply _) htail hfailure⟩
  · refine ⟨rfl, fun result hallowed => ?_⟩
    rcases result with ⟨⟨⟩⟩ | _ | reply
    · exact absurd hallowed id
    · exact ⟨_, rfl, finish_at rfl htail hfailure⟩
    · refine ⟨rfl, fun result _ => ?_⟩
      rcases result with failed | ⟨⟨⟩⟩
      · exact ⟨_, rfl, Or.inr (Or.inr ⟨_, _, _, rfl, rfl⟩)⟩
      · cases hstop : reply.stopConnection with
        | true => exact ⟨_, rfl, finish_ended hstop⟩
        | false => exact ⟨_, rfl, finish_at hstop htail hfailure⟩

theorem handleNext_follows {c : Connection} {input : Reader} (h : c.At input) :
    Follows (serveProtocol serde) (handleNext serde input) (.connection c) TurnEnds := by
  have hspec := @readRequest_spec serde .default input
  rw [handleNext]
  cases hlines : Reader.framed input with
  | nil =>
    rw [hlines] at hspec
    have hrest : c.rest = [] := h.rest.trans hlines
    rcases hread : readRequest serde .default input with ⟨framed, input'⟩
    rw [hread] at hspec
    cases hfail : Reader.failure input with
    | none =>
      rw [hfail] at hspec
      obtain rfl : framed = .ok .eof := hspec
      exact ⟨c, rfl, Or.inl ⟨h.phase, hrest, by rw [h.failure, hfail]; rfl⟩⟩
    | some err =>
      rw [hfail] at hspec
      obtain rfl : framed = .error err := hspec
      exact ⟨c, rfl, Or.inl ⟨h.phase, hrest, by rw [h.failure, hfail]; rfl⟩⟩
  | cons line rest =>
    rw [hlines] at hspec
    obtain ⟨hread, hrest, hfail⟩ := hspec
    have hcrest : c.rest = line :: rest := h.rest.trans hlines
    rcases hframed : readRequest serde .default input with ⟨framed, input'⟩
    rw [hframed] at hread hrest hfail
    have hfailure : Reader.failure c.input = Reader.failure input' := h.failure.trans hfail.symm
    by_cases hlen : line.length > Limits.default.maxRequestBytes
    · rw [if_pos hlen] at hread
      obtain rfl : framed = .ok (.rejected (oversizedReply serde .default)) := hread
      have htail : c.rest.tail = Reader.framed input' := by rw [hcrest]; exact hrest.symm
      simp only [Prog.bind_eq, Prog.perform, Prog.call_bind, Prog.ret_bind, Follows.call]
      refine ⟨?_, fun result _ => ?_⟩
      · simp only [serveProtocol, connectionPre, h.phase]
        exact ⟨line, rest, hcrest, hlen, trivial⟩
      simp only [serveProtocol, connectionNext, h.phase]
      rcases result with failed | ⟨⟨⟩⟩
      · exact ⟨_, rfl, Or.inr (Or.inr ⟨_, _, _, rfl, rfl⟩)⟩
      · exact ⟨_, rfl, finish_at stopConnection_oversizedReply htail hfailure⟩
    · rw [if_neg hlen] at hread
      obtain rfl : framed = .ok (.line line) := hread
      exact handleRequest_follows h.phase hcrest (by omega) hrest.symm hfailure

/-- **A connection goes through its lines one by one.** -/
theorem handleConnection_follows (input : Reader) :
    Follows (serveProtocol serde) (handleConnection serde input)
      (.connection (.accepted input)) fun result g =>
        ∃ c, g = .connection c ∧ c.Ended result := by
  refine Follows.iterate (fun next g => ∃ c, g = .connection c ∧ c.At next)
    ⟨_, rfl, rfl, rfl, rfl⟩ ?_
  rintro next _ ⟨c, rfl, hat⟩
  refine (handleNext_follows hat).mono ?_
  rintro (next | result) g ⟨c, rfl, hc⟩
  · exact ⟨c, rfl, hc⟩
  · exact ⟨c, rfl, hc⟩

end SemanticSidecar
