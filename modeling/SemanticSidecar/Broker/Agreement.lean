import SemanticSidecar.Broker.Bookkeeping

/-!
# The broker agrees with the wire loop

Read off the books of the broker, this is what a client sees.  An `Account` of a connection lists
the lines it is done with, in the order of its input, with what each was answered; the bytes it
wrote are these answers.  `broker_agrees_with_runLoop` adds what holds across connections, and
compares with the loop on standard input: where no request was turned away and the engine does not
remember anything, a connection gets what `runLoop` would have written to it.

Three things go into it, and each is proved apart.

* `processLine_congr` and the lemmas around it: an engine whose results depend on the request alone
  gives a line the same reply whatever it was asked before, so the replies of one connection do not
  depend on what the others ask for.
* `Account.agrees`: if none of the lines of a connection was turned away, its answers are a
  beginning of what the wire loop writes to the same input.  It is all of it once the connection is
  through with its input or a reply has stopped it, provided that every reply could be written.
* `Ledger`: the accounts of all connections, and how many of their requests are under way.

What is not compared is an engine that remembers.  Requests of several connections reach it in one
order, and no loop on standard input has to see that order.
-/

set_option autoImplicit false

namespace SemanticSidecar

/-! ## Engines without memory -/

section

variable {serde : SerdeJson} {σ : Type} {engine : EmbedEngine σ} {limits : Limits}

theorem embedQuery_congr (h : engine.StateIndependent) (id : String) (params : Members) (s t : σ) :
    (embedQuery engine id params s).1 = (embedQuery engine id params t).1 := by
  rw [embedQuery, embedQuery]
  split
  · rename_i text _
    have hsame := h.embed [text] .query s t
    rcases hs : engine.embed [text] .query s with ⟨result, s'⟩
    rcases ht : engine.embed [text] .query t with ⟨result', t'⟩
    rw [hs, ht] at hsame
    obtain rfl : result = result' := hsame
    rcases result with err | output
    · rfl
    · simp only
      split
      · split <;> rfl
      · rfl
  · rfl

theorem embedBatch_congr (h : engine.StateIndependent) (id : String) (params : Members) (s t : σ) :
    (embedBatch engine limits id params s).1 = (embedBatch engine limits id params t).1 := by
  rw [embedBatch, embedBatch]
  split
  · split
    · rfl
    · split
      · rfl
      · rename_i texts _
        have hsame := h.embed texts .document s t
        rcases hs : engine.embed texts .document s with ⟨result, s'⟩
        rcases ht : engine.embed texts .document t with ⟨result', t'⟩
        rw [hs, ht] at hsame
        obtain rfl : result = result' := hsame
        rcases result with err | output
        · rfl
        · simp only
          split
          · rfl
          · split <;> rfl
  · rfl

theorem callMethod_congr (h : engine.StateIndependent) (id method : String) (params : Members)
    (s t : σ) : (callMethod engine limits id method params s).1 =
      (callMethod engine limits id method params t).1 := by
  unfold callMethod
  split
  · have hsame := h.health s t
    rcases hs : engine.healthFacts s with ⟨result, s'⟩
    rcases ht : engine.healthFacts t with ⟨result', t'⟩
    rw [hs, ht] at hsame
    obtain rfl : result = result' := hsame
    cases result <;> rfl
  · exact congrArg Outcome.reply (embedQuery_congr h id params s t)
  · exact congrArg Outcome.reply (embedBatch_congr h id params s t)
  · rfl
  · rfl

theorem dispatch_congr (h : engine.StateIndependent) (request : Members) (s t : σ) :
    (dispatch serde engine limits request s).1 = (dispatch serde engine limits request t).1 := by
  rw [dispatch, dispatch]
  split
  · rfl
  · split
    · rfl
    · split
      · split
        · rfl
        · exact callMethod_congr h _ _ _ s t
      · rfl

/-- **What an engine without memory is asked before makes no difference.** -/
theorem processLine_congr (h : engine.StateIndependent) (line : List UInt8) (s t : σ) :
    (processLine serde engine limits line s).1 = (processLine serde engine limits line t).1 := by
  have hline : (handleLine serde engine limits line s).1 =
      (handleLine serde engine limits line t).1 := by
    rw [handleLine, handleLine]
    split
    · rfl
    · split
      · rfl
      · split
        · rfl
        · exact congrArg some (dispatch_congr h _ s t)
        · rfl
  exact congrArg (Option.map (serializeOutcome serde)) hline

end

/-! ## Accounts -/

/-- The requests of a connection: one for each line within the cap that it is done with, and the
one under way. -/
def requestsOf (exchanges : List Exchange) (underway : Option BrokerRequest) :
    List BrokerRequest :=
  exchanges.filterMap Exchange.brokerRequest ++ underway.toList

section

variable {serde : SerdeJson} {σ : Type} {engine : EmbedEngine σ} {engine₀ : σ}

/-- What a connection that reads `input` has done: the lines it is done with, and the request it
has under way. -/
structure Account (config : (broker serde engine engine₀).Config) (pid : ℕ) (input : Reader)
    (exchanges : List Exchange) (underway : Option BrokerRequest) : Prop where
  /-- The lines of the requests, answered or under way, are the first lines of the input, in order. -/
  lines : exchanges.map Exchange.line ++ (underway.map BrokerRequest.line).toList <+:
    Reader.framed input
  /-- Each has at most one reply, which is the one its verdict says. -/
  decided : ∀ e ∈ exchanges, Decided config.log e
  /-- Only the last of them can have ended the connection. -/
  going : ∀ e ∈ exchanges.dropLast, e.stops = false
  /-- The replies are what was written, up to a part of the last one where a write failed. -/
  written : config.shared.output pid = exchanges.flatMap Exchange.bytes ∨
    WriteFailed config.log pid ∧ ∃ first e written, exchanges = first ++ [e] ∧
      config.shared.output pid = first.flatMap Exchange.bytes ++ e.bytes.take written

namespace Connection

/-- The lines a connection is done with, the one its last write failed for included. -/
def exchanges (c : Connection) : List Exchange :=
  match c.phase with
  | .broken e _ => c.done ++ [e]
  | _ => c.done

/-- The request that is on its way. -/
def underway (c : Connection) : Option BrokerRequest :=
  match c.phase with
  | .broken _ _ => none
  | _ => c.current

theorem requestsOf_eq (c : Connection) : requestsOf c.exchanges c.underway = c.requests := by
  rw [requestsOf, exchanges, underway, requests, current]
  split
  · rename_i e written hphase
    rw [List.filterMap_append, List.filterMap_cons, List.filterMap_nil]
    simp only [hphase, Option.toList_none, List.append_nil]
    cases e.brokerRequest <;> rfl
  · rfl

end Connection

theorem dropLast_append_singleton {first : List Exchange} {e : Exchange} :
    (first ++ [e]).dropLast = first := List.dropLast_concat

/-- The books of a connection are an account of it. -/
theorem ConnectionInv.account {config : (broker serde engine engine₀).Config} {pid : ℕ}
    {c : Connection} (h : ConnectionInv config.log config.shared pid c) :
    Account config pid c.input c.exchanges c.underway := by
  have hinv := h.phase
  have hlines := h.lines
  have hout := h.output
  unfold PhaseInv at hinv
  -- While the connection goes on, what it is done with is all that it has written.
  have hgoes : (∀ e written, c.phase ≠ .broken e written) → (∀ e ∈ c.done, e.stops = false) →
      c.done.map Exchange.line ++ (c.underway.map BrokerRequest.line).toList <+:
        Reader.framed c.input →
      Account config pid c.input c.exchanges c.underway := by
    intro hwhole hgoing hfirst
    have hdone : c.exchanges = c.done := by
      rw [Connection.exchanges]
      split
      · rename_i e written hphase
        exact absurd hphase (hwhole e written)
      · rfl
    rw [torn_eq_nil hwhole, List.append_nil] at hout
    rw [hdone]
    exact ⟨hfirst, h.decided, fun e he => hgoing e (List.dropLast_subset _ he), Or.inl hout⟩
  cases hphase : c.phase with
  | broken e written =>
    rw [hphase] at hinv
    obtain ⟨hcurrent, hfailed⟩ := hinv
    have hgoing := h.going (by rw [hphase]; simp)
    rw [Connection.torn, hphase] at hout
    simp only [Connection.exchanges, Connection.underway, hphase]
    refine ⟨?_, ?_, ?_, Or.inr ⟨hfailed, c.done, e, written, rfl, hout⟩⟩
    · rw [hlines, hcurrent.rest]
      simp
    · intro e' he'
      rcases List.mem_append.mp he' with hold | hnew
      · exact h.decided e' hold
      · rw [List.mem_singleton.mp hnew]
        exact hcurrent.decided
    · rw [dropLast_append_singleton]
      exact hgoing
  | stopped =>
    rw [hphase] at hinv
    obtain ⟨first, e, hdone, -, hfirst⟩ := hinv
    rw [torn_eq_nil (by rw [hphase]; simp), List.append_nil] at hout
    simp only [Connection.exchanges, Connection.underway, Connection.current, hphase]
    refine ⟨?_, h.decided, ?_, Or.inl hout⟩
    · rw [hlines]
      simp
    · rw [hdone, dropLast_append_singleton]
      exact hfirst
  | reading =>
    refine hgoes (by rw [hphase]; simp) (h.going (by rw [hphase]; simp)) ?_
    rw [hlines, Connection.underway, Connection.current, hphase]
    simp
  | offering k =>
    rw [hphase] at hinv
    refine hgoes (by rw [hphase]; simp) (h.going (by rw [hphase]; simp)) ?_
    rw [hlines, hinv.1, Connection.underway, Connection.current, hphase]
    simp
  | waiting k =>
    rw [hphase] at hinv
    refine hgoes (by rw [hphase]; simp) (h.going (by rw [hphase]; simp)) ?_
    rw [hlines, hinv.1, Connection.underway, Connection.current, hphase]
    simp
  | replying e =>
    rw [hphase] at hinv
    refine hgoes (by rw [hphase]; simp) (h.going (by rw [hphase]; simp)) ?_
    rw [hlines, hinv.rest, Connection.underway, Connection.current, hphase]
    dsimp only
    rw [Exchange.brokerRequest]
    cases e.request <;> simp

/-- A connection makes each of its requests on a channel of its own. -/
theorem ConnectionInv.requests_nodup {log : List (broker serde engine engine₀).Event}
    {s : ServeState σ} {pid : ℕ} {c : Connection} (h : ConnectionInv log s pid c) :
    (c.requests.map BrokerRequest.reply).Nodup := by
  have hdone : (c.done.filterMap Exchange.brokerRequest).map BrokerRequest.reply = c.doneIds := by
    rw [List.map_filterMap]
    refine List.filterMap_congr fun e _ => ?_
    rw [Exchange.brokerRequest]
    cases e.request <;> rfl
  rw [Connection.requests, List.map_append, hdone]
  have hfresh : ∀ request ∈ c.current, request.reply ∉ c.doneIds := by
    intro request hmem
    have hinv := h.phase
    unfold PhaseInv at hinv
    rw [Connection.current] at hmem
    split at hmem
    · rename_i k hphase
      rw [hphase] at hinv
      cases hmem
      exact hinv.2.2.1
    · rename_i k hphase
      rw [hphase] at hinv
      cases hmem
      exact hinv.2.2.1
    · rename_i e hphase
      rw [hphase] at hinv
      obtain ⟨k, hk, rfl⟩ := Option.map_eq_some_iff.mp hmem
      exact hinv.fresh k hk
    · rename_i e written hphase
      rw [hphase] at hinv
      obtain ⟨k, hk, rfl⟩ := Option.map_eq_some_iff.mp hmem
      exact hinv.1.fresh k hk
    · cases hmem
    · cases hmem
  cases hcurrent : c.current with
  | none => simpa using h.nodup
  | some request =>
    rw [Option.toList_some, List.map_singleton, ← List.concat_eq_append]
    exact h.nodup.concat (hfresh request hcurrent)

/-- The lines of the input are dealt with, or one of them ended the connection. -/
def Drained (input : Reader) (exchanges : List Exchange) : Prop :=
  exchanges.map Exchange.line = Reader.framed input ∨ ∃ e ∈ exchanges, e.stops = true

/-- The accounts of all connections. -/
structure Ledger (config : (broker serde engine engine₀).Config) (exchanges : ℕ → List Exchange)
    (underway : ℕ → Option BrokerRequest) : Prop where
  /-- Every connection that has started has an account of its lines. -/
  account : ∀ pid input, .started pid (.connection input) ∈ config.log →
    Account config pid input (exchanges pid) (underway pid)
  /-- Every line that is offered to the queue is a request of its own. -/
  distinct : ∀ pid, ((requestsOf (exchanges pid) (underway pid)).map BrokerRequest.reply).Nodup
  /-- Requests of different connections have different reply channels. -/
  disjoint : ∀ pid pid', ∀ request ∈ requestsOf (exchanges pid) (underway pid),
    ∀ request' ∈ requestsOf (exchanges pid') (underway pid'),
      request.reply = request'.reply → pid = pid'
  /-- Verdicts are passed on these requests only. -/
  verdict : ∀ x ∈ verdicts config.log, ∃ pid input,
    .started pid (.connection input) ∈ config.log ∧
      x.1 ∈ requestsOf (exchanges pid) (underway pid)
  /-- A thread that ends is a connection, and ends because its own input is used up, because of a
  `shutdown` of its own, or because it cannot write. -/
  finished : ∀ pid result, .finished pid result ∈ config.log →
    ∃ input, .started pid (.connection input) ∈ config.log ∧
      (((exchanges pid).map Exchange.line = Reader.framed input ∧
          (∀ e ∈ exchanges pid, e.stops = false) ∧
          result = endOfStream (Reader.failure input)) ∨
        ((∃ e ∈ exchanges pid, e.stops = true) ∧ result = .ok ()) ∨
        WriteFailed config.log pid)

/-- The exchanges of a connection. -/
def exchangesAt (stage : Machine.Stage Party) : List Exchange :=
  match stage.ghost with
  | some (.connection c) => c.exchanges
  | _ => []

/-- The request a connection is waiting for. -/
def underwayAt (stage : Machine.Stage Party) : Option BrokerRequest :=
  match stage.ghost with
  | some (.connection c) => c.underway
  | _ => none

/-- The books make a ledger. -/
theorem ServeInv.ledger {config : (broker serde engine engine₀).Config}
    {gs : ℕ → Machine.Stage Party} (h : ServeInv config.log gs config.shared) :
    ∃ exchanges underway, Ledger config exchanges underway := by
  let exchanges := fun pid => exchangesAt (gs pid)
  let underway := fun pid => underwayAt (gs pid)
  have hbook : ∀ pid c, (gs pid).ghost = some (.connection c) →
      exchanges pid = c.exchanges ∧ underway pid = c.underway := by
    intro pid c hghost
    simp only [exchanges, underway, exchangesAt, underwayAt, hghost, and_self]
  have hrequests : ∀ pid, ∀ request ∈ requestsOf (exchanges pid) (underway pid),
      ∃ c, (gs pid).ghost = some (.connection c) ∧ request ∈ c.requests := by
    intro pid request hmem
    cases hghost : (gs pid).ghost with
    | none => simp only [exchanges, underway, exchangesAt, underwayAt, hghost] at hmem; cases hmem
    | some g =>
      cases g with
      | scheduler phase => simp only [exchanges, underway, exchangesAt, underwayAt, hghost] at hmem; cases hmem
      | connection c =>
        obtain ⟨he, hu⟩ := hbook pid c hghost
        rw [he, hu, Connection.requestsOf_eq] at hmem
        exact ⟨c, rfl, hmem⟩
  refine ⟨exchanges, underway, ?_, ?_, ?_, ?_, ?_⟩
  · intro pid input hstarted
    obtain ⟨c, hghost, rfl⟩ := (h.started pid input).mp hstarted
    obtain ⟨he, hu⟩ := hbook pid c hghost
    rw [he, hu]
    exact (h.connection pid c hghost).account
  · intro pid
    cases hghost : (gs pid).ghost with
    | none => simp only [exchanges, underway, exchangesAt, underwayAt, hghost]; exact List.nodup_nil
    | some g =>
      cases g with
      | scheduler phase => simp only [exchanges, underway, exchangesAt, underwayAt, hghost]; exact List.nodup_nil
      | connection c =>
        obtain ⟨he, hu⟩ := hbook pid c hghost
        rw [he, hu, Connection.requestsOf_eq]
        exact (h.connection pid c hghost).requests_nodup
  · intro pid pid' request hmem request' hmem' heq
    obtain ⟨c, hghost, hrequest⟩ := hrequests pid request hmem
    obtain ⟨c', hghost', hrequest'⟩ := hrequests pid' request' hmem'
    obtain ⟨channel, hchannel, hreceiver⟩ :=
      (h.connection pid c hghost).owned_requests request hrequest
    obtain ⟨channel', hchannel', hreceiver'⟩ :=
      (h.connection pid' c' hghost').owned_requests request' hrequest'
    rw [heq, hchannel'] at hchannel
    cases hchannel
    exact hreceiver.symm.trans hreceiver'
  · intro x hx
    obtain ⟨pid, c, hghost, hmem⟩ := h.decided x hx
    obtain ⟨he, hu⟩ := hbook pid c hghost
    refine ⟨pid, c.input, (h.started pid c.input).mpr ⟨c, hghost, rfl⟩, ?_⟩
    rw [he, hu, Connection.requestsOf_eq]
    exact hmem
  · intro pid result hmem
    obtain ⟨c, hgone, hended⟩ := h.finished pid result hmem
    have hghost : (gs pid).ghost = some (.connection c) := by rw [hgone]; rfl
    have hinv := h.connection pid c hghost
    refine ⟨c.input, (h.started pid c.input).mpr ⟨c, hghost, rfl⟩, ?_⟩
    rw [(hbook pid c hghost).1]
    rcases hended with ⟨hphase, hrest, hresult⟩ | ⟨hphase, hresult⟩ | ⟨e, written, err, hphase, -⟩
    · have hexchanges : c.exchanges = c.done := by rw [Connection.exchanges, hphase]
      rw [hexchanges]
      refine Or.inl ⟨?_, hinv.going (by rw [hphase]; simp), hresult⟩
      rw [hinv.lines, hrest, List.append_nil]
    · have hstopped := hinv.phase
      unfold PhaseInv at hstopped
      rw [hphase] at hstopped
      obtain ⟨first, e, hdone, hstops, -⟩ := hstopped
      refine Or.inr (Or.inl ⟨⟨e, ?_, hstops⟩, hresult⟩)
      rw [Connection.exchanges, hphase]
      show e ∈ c.done
      rw [hdone]
      exact List.mem_append_right _ List.mem_cons_self
    · have hbroken := hinv.phase
      unfold PhaseInv at hbroken
      rw [hphase] at hbroken
      exact Or.inr (Or.inr hbroken.2)

/-! ## Against the wire loop -/

/-- What the loop writes to the first lines of a stream is their replies. -/
theorem transcript_exchanges {limits : Limits} {exchanges : List Exchange}
    (hreply : ∀ e ∈ exchanges, ∀ t, (answerLine serde engine limits e.line t).1 = e.reply)
    (hgoing : ∀ e ∈ exchanges.dropLast, e.stops = false) (rest : List (List UInt8)) (t : σ) :
    exchanges.filterMap Exchange.reply <+:
        (transcript serde engine limits (exchanges.map Exchange.line ++ rest) t).replies ∧
      (rest = [] ∨ (∃ e ∈ exchanges, e.stops = true) →
        (transcript serde engine limits (exchanges.map Exchange.line ++ rest) t).replies =
          exchanges.filterMap Exchange.reply) ∧
      ((∃ e ∈ exchanges, e.stops = true) →
        (transcript serde engine limits (exchanges.map Exchange.line ++ rest) t).stopped =
          true) ∧
      (rest = [] → (∀ e ∈ exchanges, e.stops = false) →
        (transcript serde engine limits (exchanges.map Exchange.line ++ rest) t).stopped =
          false) := by
  induction exchanges generalizing t with
  | nil =>
    refine ⟨List.nil_prefix, ?_, fun ⟨_, h, _⟩ => (nomatch h), ?_⟩
    · rintro (rfl | ⟨_, h, _⟩)
      · rfl
      · cases h
    · rintro rfl -
      rfl
  | cons e exchanges ih =>
    have hhead := hreply e List.mem_cons_self t
    have hrest : ∀ e ∈ exchanges.dropLast, e.stops = false := by
      intro e' he'
      cases exchanges with
      | nil => cases he'
      | cons first tail => exact hgoing e' (List.mem_cons_of_mem _ he')
    obtain ⟨hfirst, hreplies, hstopped, hgo⟩ :=
      ih (fun e' he' => hreply e' (List.mem_cons_of_mem _ he')) hrest
        (answerLine serde engine limits e.line t).2
    rw [List.map_cons, List.cons_append, transcript]
    rcases hanswer : answerLine serde engine limits e.line t with ⟨reply, t'⟩
    rw [hanswer] at hhead hfirst hreplies hstopped hgo
    obtain rfl : reply = e.reply := hhead
    cases hreplied : e.reply with
    | none =>
      have hnot : e.stops = false := by rw [Exchange.stops, hreplied]; rfl
      rw [List.filterMap_cons_none hreplied]
      simp only [List.exists_mem_cons_iff, List.forall_mem_cons, hnot, Bool.false_eq_true,
        false_or, true_and]
      exact ⟨hfirst, hreplies, hstopped, hgo⟩
    | some reply =>
      have hstops : e.stops = reply.stopConnection := by rw [Exchange.stops, hreplied]; rfl
      rw [List.filterMap_cons_some hreplied]
      by_cases hstop : reply.stopConnection = true
      · -- Nothing comes after the reply that ends the connection.
        have hlast : exchanges = [] := by
          cases exchanges with
          | nil => rfl
          | cons first tail =>
            have := hgoing e List.mem_cons_self
            rw [hstops, hstop] at this
            cases this
        subst hlast
        simp only [hstop, if_true, List.filterMap_nil, List.prefix_rfl, implies_true, true_and]
        intro _ hall
        have := hall e List.mem_cons_self
        rw [hstops, hstop] at this
        cases this
      · have hgo' : reply.stopConnection = false := by simpa using hstop
        simp only [List.exists_mem_cons_iff, List.forall_mem_cons, hstops, hgo',
          Bool.false_eq_true, if_false, false_or, true_and, List.prefix_cons_inj, List.cons.injEq]
        exact ⟨hfirst, hreplies, hstopped, hgo⟩

theorem flatMap_bytes (exchanges : List Exchange) :
    exchanges.flatMap Exchange.bytes =
      (exchanges.filterMap Exchange.reply).flatMap ProtocolReply.bytes := by
  induction exchanges with
  | nil => rfl
  | cons e exchanges ih =>
    rw [List.flatMap_cons, ih, Exchange.bytes]
    cases hreply : e.reply with
    | none => rw [List.filterMap_cons_none hreply]; rfl
    | some reply =>
      rw [List.filterMap_cons_some hreply, List.flatMap_cons, Option.toList_some,
        List.flatMap_singleton]

variable {config : (broker serde engine engine₀).Config}

theorem serveExec_of_called (h : (broker serde engine engine₀).Reachable config) {pid : ℕ}
    {before : ServeState σ} {o : ServeOp} {r : o.Ret} (hmem : .called pid before o r ∈ config.log) :
    ∃ s', serveExec serde engine pid before o r = some s' := h.exec_of_called hmem

/-- A line that was processed was answered by `process_line`. -/
theorem processed_of_verdict (h : (broker serde engine engine₀).Reachable config)
    {request : BrokerRequest} {reply : Option ProtocolReply}
    (hverdict : (request, .processed reply) ∈ verdicts config.log) :
    ∃ t, reply = (processLine serde engine .default request.line t).1 := by
  obtain ⟨e, hmem, he⟩ := List.mem_filterMap.mp hverdict
  cases e with
  | called pid before o r =>
    obtain ⟨s', hexec⟩ := serveExec_of_called h hmem
    cases o with
    | processLine request' =>
      cases he
      exact ⟨_, (exec_processLine hexec).1⟩
    | tryEnqueue cls request' deadline => rcases r with ⟨⟨⟩⟩ | ⟨⟨⟩⟩ <;> cases he
    | dequeue => rcases r with ⟨_ | _, now⟩ <;> cases he
    | _ => cases he
  | started | finished | killed => cases he

theorem processLine_stop {limits : Limits} {line : List UInt8} {t : σ} {reply : ProtocolReply}
    (h : (processLine serde engine limits line t).1 = some reply)
    (hstop : reply.stopConnection = true) :
    ∃ request, requestObject serde line = some request ∧ AcceptsShutdown serde request := by
  simp only [processLine, Option.map_eq_some_iff] at h
  obtain ⟨outcome, houtcome, rfl⟩ := h
  exact (handleLine_some houtcome).2.1.mp hstop

/-- Only an accepted `shutdown` on the line itself ends a connection. -/
theorem shutdownLine_of_stops (h : (broker serde engine engine₀).Reachable config) {e : Exchange}
    (hdecided : Decided config.log e) (hstops : e.stops = true) :
    ShutdownLine serde .default e.line := by
  unfold Decided at hdecided
  split at hdecided
  · rw [Exchange.stops, hdecided.2] at hstops
    cases hstops
  · obtain ⟨hlen, v, hverdict, hreply⟩ := hdecided
    rw [Exchange.stops, hreply] at hstops
    cases v with
    | processed reply =>
      obtain ⟨t, ht⟩ := processed_of_verdict h hverdict
      cases reply with
      | none => cases hstops
      | some reply => exact ⟨hlen, processLine_stop ht.symm hstops⟩
    | full => cases hstops
    | expired => cases hstops

/-- **A connection of which nothing was turned away** gets the bytes of the wire loop. -/
theorem Account.agrees (h : (broker serde engine engine₀).Reachable config) {pid : ℕ}
    {input : Reader} {exchanges : List Exchange} {underway : Option BrokerRequest}
    (haccount : Account config pid input exchanges underway) (hengine : engine.StateIndependent)
    (hall : ∀ x ∈ verdicts config.log, ∃ reply, x.2 = .processed reply) (t : σ) :
    config.shared.output pid <+: (runLoop serde engine input t).written ∧
      (Drained input exchanges → ¬ WriteFailed config.log pid →
        config.shared.output pid = (runLoop serde engine input t).written) ∧
      ((∃ e ∈ exchanges, e.stops = true) → (runLoop serde engine input t).result = .ok ()) ∧
      (exchanges.map Exchange.line = Reader.framed input → (∀ e ∈ exchanges, e.stops = false) →
        (runLoop serde engine input t).result = endOfStream (Reader.failure input)) := by
  have hreply : ∀ e ∈ exchanges, ∀ t,
      (answerLine serde engine .default e.line t).1 = e.reply := by
    intro e he t
    have hdecided := haccount.decided e he
    unfold Decided at hdecided
    rw [answerLine]
    split at hdecided
    · rw [if_pos hdecided.1, hdecided.2]
    · obtain ⟨hlen, v, hverdict, hv⟩ := hdecided
      obtain ⟨reply, hreply⟩ := hall _ hverdict
      obtain rfl : v = .processed reply := hreply
      obtain ⟨t', ht'⟩ := processed_of_verdict h hverdict
      rw [if_neg (by omega), hv]
      exact (processLine_congr hengine e.line t t').trans ht'.symm
  obtain ⟨rest, hlines⟩ : exchanges.map Exchange.line <+: Reader.framed input :=
    (List.prefix_append _ _).trans haccount.lines
  obtain ⟨hfirst, hreplies, hstopped, hgo⟩ :=
    transcript_exchanges hreply haccount.going rest t
  rw [hlines] at hfirst hreplies hstopped hgo
  obtain ⟨hwritten, -, hresult⟩ :=
    @runLoopWithLimits_eq_transcript serde σ engine .default input t
  have hdrained : Drained input exchanges → rest = [] ∨ ∃ e ∈ exchanges, e.stops = true := by
    rintro (hall | hstop)
    · rw [hall] at hlines
      exact Or.inl (List.append_right_eq_self.mp hlines)
    · exact Or.inr hstop
  rw [runLoop, hwritten, hresult]
  refine ⟨?_, fun hdone hok => ?_, fun hstop => ?_, fun hall hnot => ?_⟩
  · refine List.IsPrefix.trans ?_ (hfirst.flatMap ProtocolReply.bytes)
    rw [← flatMap_bytes]
    rcases haccount.written with hout | ⟨-, first, e, written, rfl, hout⟩
    · rw [hout]
    · rw [hout, List.flatMap_append, List.flatMap_singleton, List.prefix_append_right_inj]
      exact List.take_prefix _ _
  · rcases haccount.written with hout | ⟨hfailed, -⟩
    · rw [hout, hreplies (hdrained hdone), flatMap_bytes]
    · exact absurd hfailed hok
  · rw [hstopped hstop, if_pos rfl]
  · have hrest : rest = [] := by
      rw [hall] at hlines
      exact List.append_right_eq_self.mp hlines
    rw [hgo hrest hnot]
    rfl

/-- **The broker agrees with the wire loop.**  A request gets one verdict, so a line is processed
once at most, and not at all when it is turned away; every connection has its account, in which
each line has at most one reply, in order; and where nothing is turned away and the engine has no
memory, a connection gets what the wire loop would have written.  Nobody ends a connection but
itself, and no more requests wait than there are connections, so that one is turned away only where
there are more connections than the queue has room. -/
theorem broker_agrees_with_runLoop (h : (broker serde engine engine₀).Reachable config) :
    (decidedIds config.log).Nodup ∧
    (∀ request reply, (request, .processed reply) ∈ verdicts config.log →
      ∃ t, reply = (processLine serde engine .default request.line t).1) ∧
    (∃ exchanges underway, Ledger config exchanges underway ∧
      ∀ pid input, .started pid (.connection input) ∈ config.log →
        (∀ e ∈ exchanges pid, e.stops = true → ShutdownLine serde .default e.line) ∧
        (engine.StateIndependent →
          (∀ x ∈ verdicts config.log, ∃ reply, x.2 = .processed reply) → ∀ t,
            config.shared.output pid <+: (runLoop serde engine input t).written ∧
            (¬ WriteFailed config.log pid → Drained input (exchanges pid) →
              config.shared.output pid = (runLoop serde engine input t).written) ∧
            (¬ WriteFailed config.log pid → ∀ result, .finished pid result ∈ config.log →
              config.shared.output pid = (runLoop serde engine input t).written ∧
                result = (runLoop serde engine input t).result))) ∧
    config.shared.queue.state.waiting ≤ config.shared.connections.length ∧
    ∀ pid before cls request deadline,
      .called pid before (.tryEnqueue cls request deadline) (.error .full) ∈ config.log →
        queueCapacity < before.connections.length := by
  obtain ⟨gs, hinv⟩ := broker_holds h
  obtain ⟨exchanges, underway, hledger⟩ := hinv.ledger
  refine ⟨hinv.decidedOnce, fun request reply hmem => processed_of_verdict h hmem,
    ⟨exchanges, underway, hledger, fun pid input hstarted => ⟨?_, ?_⟩⟩, hinv.waiting_le, hinv.full⟩
  · intro e he hstops
    exact shutdownLine_of_stops h ((hledger.account pid input hstarted).decided e he) hstops
  · intro hengine hall t
    obtain ⟨hfirst, hdrained, hstop, hend⟩ :=
      (hledger.account pid input hstarted).agrees h hengine hall t
    refine ⟨hfirst, fun hok hdone => hdrained hdone hok, fun hok result hfinished => ?_⟩
    obtain ⟨input', hstarted', hcause⟩ := hledger.finished pid result hfinished
    obtain rfl : input' = input := by
      obtain ⟨c, hc, rfl⟩ := (hinv.started pid input).mp hstarted
      obtain ⟨c', hc', rfl⟩ := (hinv.started pid input').mp hstarted'
      rw [hc] at hc'
      cases hc'
      rfl
    rcases hcause with ⟨hlines, hgoing, hresult⟩ | ⟨hstops, hresult⟩ | hfailed
    · exact ⟨hdrained (Or.inl hlines) hok, by rw [hresult, hend hlines hgoing]⟩
    · exact ⟨hdrained (Or.inr hstops) hok, by rw [hresult, hstop hstops]⟩
    · exact absurd hfailed hok

end

/-! ### A run -/

/-- A parser that finds no JSON anywhere. -/
def rejectingSerde : SerdeJson :=
  ⟨fun _ => .error "expected value at line 1 column 1", fun _ => none, fun _ => ['0', '.', '0']⟩

/-- A broker that has no model. -/
abbrev unreadyBroker : Machine serveSig ServeJob (Except IoError Unit) :=
  broker rejectingSerde (UnreadyEngine.engine modelNotPrepared) ()

/-- A client that sends one line of one byte. -/
def oneByteLine (b : UInt8) : Reader := [.chunk ⟨[b, Text.newline], by simp⟩]

theorem recv_sent {serde : SerdeJson} {σ : Type} {engine : EmbedEngine σ} {engine₀ : σ}
    {s : ServeState σ} {pid k receiver : ℕ} {sender : Bool} {message : Option ProtocolReply}
    (h : s.channels k = some ⟨receiver, sender, some message⟩) :
    (broker serde engine engine₀).exec pid s (.recv k) (.ok message) =
      some (s.setChannel k ⟨receiver, sender, none⟩) := by
  simp only [broker, serveExec, h, if_true]

theorem processLine_exec {serde : SerdeJson} {σ : Type} {engine : EmbedEngine σ} {engine₀ : σ}
    {s : ServeState σ} {pid : ℕ} {request : BrokerRequest} :
    (broker serde engine engine₀).exec pid s (.processLine request)
        (processLine serde engine .default request.line s.engine).1 =
      some (s.setEngine (processLine serde engine .default request.line s.engine).2) := by
  simp only [broker, serveExec, if_true]

theorem unreadyEngine_stateIndependent (reason : String) :
    (UnreadyEngine.engine reason).StateIndependent := ⟨fun _ _ => rfl, fun _ _ _ _ => rfl⟩

/-- The connection whose write failed, if the event is such a write. -/
def failedWrite : unreadyBroker.Event → Option ℕ
  | .called pid _ (.writeReply _) (.error _) => some pid
  | _ => none

theorem not_writeFailed {log : List unreadyBroker.Event} (h : log.filterMap failedWrite = [])
    (pid : ℕ) : ¬ WriteFailed log pid := by
  rintro ⟨s, reply, failed, hmem⟩
  have hpid : pid ∈ log.filterMap failedWrite := List.mem_filterMap.mpr ⟨_, hmem, rfl⟩
  rw [h] at hpid
  exact List.not_mem_nil hpid

set_option maxRecDepth 4000 in
/-- A run of two connections, each of which gets the answer to its line, writes it and ends.  The
requests wait together, and the replies are written in the other order. -/
theorem twoLines_finished :
    ∃ config : unreadyBroker.Config, unreadyBroker.Reachable config ∧
      .started 1 (.connection (oneByteLine 120)) ∈ config.log ∧
      .started 2 (.connection (oneByteLine 121)) ∈ config.log ∧
      .finished 1 (.ok ()) ∈ config.log ∧ .finished 2 (.ok ()) ∈ config.log ∧
      config.log.filterMap failedWrite = [] ∧
      config.shared.output 1 ≠ [] ∧ config.shared.output 2 ≠ [] ∧
      ∃ reply reply', verdicts config.log =
        [(⟨[121], 1⟩, .processed reply'), (⟨[120], 0⟩, .processed reply)] := by
  have scheduler := Machine.Reachable.step Machine.Reachable.start
    (Machine.Step.start (M := unreadyBroker) 0 .scheduler rfl rfl)
  have accepted := scheduler.step (.start 1 (.connection (oneByteLine 120)) rfl rfl)
  have accepted' := accepted.step (.start 2 (.connection (oneByteLine 121)) rfl rfl)
  have offering := (accepted'.step (.turn 1 rfl)).step (.call 1 (0 : ℕ) rfl rfl)
  have waiting := (offering.step (.call 1 (0 : ℕ) rfl rfl)).step (.call 1 (Except.ok ()) rfl rfl)
  have offering' := (waiting.step (.turn 2 rfl)).step (.call 2 (1 : ℕ) rfl rfl)
  have waiting' := (offering'.step (.call 2 (0 : ℕ) rfl rfl)).step (.call 2 (Except.ok ()) rfl rfl)
  have dequeued := (waiting'.step (.turn 0 rfl)).step
    (.call 0 (Dequeued.ready ⟨[120], 0⟩, 0) rfl rfl)
  have sent := (dequeued.step (.call 0 _ rfl processLine_exec)).step (.call 0 () rfl rfl)
  have dequeued' := (sent.step (.turn 0 rfl)).step
    (.call 0 (Dequeued.ready ⟨[121], 1⟩, 0) rfl rfl)
  have sent' := (dequeued'.step (.call 0 _ rfl processLine_exec)).step (.call 0 () rfl rfl)
  have written' := (sent'.step (.call 2 (Except.ok _) rfl (recv_sent rfl))).step
    (.call 2 (Except.ok ()) rfl rfl)
  have written := (written'.step (.call 1 (Except.ok _) rfl (recv_sent rfl))).step
    (.call 1 (Except.ok ()) rfl rfl)
  have finished' := (written.step (.turn 2 rfl)).step (.finish 2 rfl)
  have finished := (finished'.step (.turn 1 rfl)).step (.finish 1 rfl)
  refine ⟨_, finished, ?_, ?_, ?_, ?_, rfl, by decide +kernel, by decide +kernel, _, _, rfl⟩
  all_goals repeat first | exact List.mem_cons_self | apply List.mem_cons_of_mem

/-- Both clients are answered, with what the wire loop would have written to them. -/
theorem broker_agrees_with_runLoop_oneByteLine :
    ∃ config : unreadyBroker.Config, unreadyBroker.Reachable config ∧
      config.shared.output 1 ≠ [] ∧ config.shared.output 2 ≠ [] ∧
      config.shared.output 1 = (runLoop rejectingSerde (UnreadyEngine.engine modelNotPrepared)
        (oneByteLine 120) ()).written ∧
      config.shared.output 2 = (runLoop rejectingSerde (UnreadyEngine.engine modelNotPrepared)
        (oneByteLine 121) ()).written := by
  obtain ⟨config, hreach, hstarted, hstarted', hfinished, hfinished', hwrites, hsome, hsome', reply,
    reply', hverdicts⟩ := twoLines_finished
  obtain ⟨-, -, ⟨exchanges, underway, -, hagrees⟩, -⟩ := broker_agrees_with_runLoop hreach
  have hall : ∀ x ∈ verdicts config.log, ∃ reply, x.2 = .processed reply := by
    rw [hverdicts]
    intro x hx
    rcases List.mem_pair.mp hx with rfl | rfl
    · exact ⟨reply', rfl⟩
    · exact ⟨reply, rfl⟩
  have hindependent := unreadyEngine_stateIndependent modelNotPrepared
  obtain ⟨-, -, hends⟩ := (hagrees 1 _ hstarted).2 hindependent hall ()
  obtain ⟨-, -, hends'⟩ := (hagrees 2 _ hstarted').2 hindependent hall ()
  exact ⟨config, hreach, hsome, hsome', (hends (not_writeFailed hwrites 1) _ hfinished).1,
    (hends' (not_writeFailed hwrites 2) _ hfinished').1⟩

end SemanticSidecar
