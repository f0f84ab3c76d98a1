import SemanticSidecar.Broker.Agreement

/-!
# Blank lines on the broker

The wire loop leaves a blank line unanswered.  So does the broker where it processes the line,
since the rule is a rule of `process_line`.  But a request that finds the queue full, or that has
waited too long, is answered without it, and then a blank line gets a reply.

`answersAllButBlank_of_sparesBlank` says that nothing else goes wrong: in a run where no blank line
meets a full queue or its own deadline, every connection has one reply for each line that is not
blank.  `blankLine_answered` is a run in which a blank line expires.

The two causes are on either side of `Broker/Exchanges`.  A full queue is noticed by the connection,
which answers at once; a deadline is noticed by the scheduler, which sends the reply of an expired
request.  In both cases the reply has an empty id, for there is no request on a blank line that
could have one.

`SparesBlank` is the condition on one step, and `SparesBlanks` the condition on the steps of a run.
Nothing in it speaks of replies.  The run with the expired line goes through every step that the
machine takes, from the first read to the write of the reply.
-/

set_option autoImplicit false

namespace SemanticSidecar

section

variable {serde : SerdeJson} {σ : Type} {engine : EmbedEngine σ} {engine₀ : σ}

/-- The call does not turn a blank line away: where it offers one there is room in the queue, and
where it takes one off the queue its deadline has not passed. -/
def SparesBlank (before : ServeState σ) : (o : ServeOp) → o.Ret → Prop
  | .tryEnqueue _ request _, _ =>
    Blank request.line → before.queue.state.waiting < before.queue.capacity
  | .dequeue, (_, now) => ∀ queued state, takeNext before.queue.state = (some queued, state) →
    Blank queued.value.line → now < queued.deadline
  | _, _ => True

/-- No call of the run turns a blank line away. -/
def SparesBlanks (log : List (broker serde engine engine₀).Event) : Prop :=
  ∀ pid before o r, .called pid before o r ∈ log → SparesBlank before o r

open Classical in
/-- Of the lines it is done with, every connection has answered those that are not blank, and no
others. -/
def AnswersAllButBlank (config : (broker serde engine engine₀).Config) : Prop :=
  ∀ pid input, .started pid (.connection input) ∈ config.log →
    ∃ exchanges underway, Account config pid input exchanges underway ∧
      (∀ e ∈ exchanges, e.reply = none ↔ SilentLine .default e.line) ∧
      (exchanges.filterMap Exchange.reply).length =
        ((exchanges.map Exchange.line).filter fun line => ¬ SilentLine .default line).length

variable {config : (broker serde engine engine₀).Config}

/-- Where blank lines are spared, their only verdict is that they are processed. -/
theorem processed_of_blank (h : (broker serde engine engine₀).Reachable config)
    (hspares : SparesBlanks config.log) {request : BrokerRequest} {v : Verdict} (hverdict : (request, v) ∈ verdicts config.log)
    (hblank : Blank request.line) : ∃ reply, v = .processed reply := by
  obtain ⟨e, hmem, he⟩ := List.mem_filterMap.mp hverdict
  cases e with
  | called pid before o r =>
    obtain ⟨s', hexec⟩ := serveExec_of_called h hmem
    have hspare := hspares pid before o r hmem
    cases o with
    | processLine request' =>
      cases he
      exact ⟨_, rfl⟩
    | tryEnqueue cls request' deadline =>
      rcases r with ⟨⟨⟩⟩ | ⟨⟨⟩⟩
      · cases he
        rcases exec_tryEnqueue hexec with ⟨hok, -⟩ | ⟨-, hfull, -⟩
        · cases hok
        · exact absurd (hspare hblank) (by omega)
      · cases he
    | dequeue =>
      rcases r with ⟨taken | taken, now⟩
      · cases he
      · cases he
        obtain ⟨-, queue, hdequeue, -⟩ := exec_dequeue hexec
        rw [BrokerQueue.dequeue] at hdequeue
        split at hdequeue
        · rename_i queued state htake
          simp only [Option.some.injEq, Prod.mk.injEq] at hdequeue
          obtain ⟨hclass, -⟩ := hdequeue
          rw [BrokerQueue.classify] at hclass
          split at hclass
          · rename_i hlate
            cases hclass
            exact absurd (hspare queued state htake hblank) (by omega)
          · cases hclass
        · cases hdequeue
    | _ => cases he
  | started | finished | killed => cases he

/-- A line that is done with has a reply unless it was blank and was processed. -/
theorem reply_eq_none_iff (h : (broker serde engine engine₀).Reachable config)
    (hspares : SparesBlanks config.log) {e : Exchange} (he : Decided config.log e) :
    e.reply = none ↔ SilentLine .default e.line := by
  unfold Decided at he
  split at he
  · rw [he.2, SilentLine]
    simp only [reduceCtorEq, false_iff, not_and]
    intro hle
    omega
  · rename_i k hrequest
    obtain ⟨hlen, v, hverdict, hreply⟩ := he
    rw [hreply, SilentLine]
    constructor
    · intro hnone
      cases v with
      | processed reply =>
        obtain ⟨t, ht⟩ := processed_of_verdict h hverdict
        exact ⟨hlen, (processLine_eq_none _ _).mp (ht.symm.trans hnone)⟩
      | full => cases hnone
      | expired => cases hnone
    · rintro ⟨-, hblank⟩
      obtain ⟨reply, rfl⟩ := processed_of_blank h hspares hverdict hblank
      obtain ⟨t, ht⟩ := processed_of_verdict h hverdict
      exact ht.trans ((processLine_eq_none _ _).mpr hblank)

open Classical in
theorem length_replies {exchanges : List Exchange}
    (h : ∀ e ∈ exchanges, e.reply = none ↔ SilentLine .default e.line) :
    (exchanges.filterMap Exchange.reply).length =
      ((exchanges.map Exchange.line).filter fun line => ¬ SilentLine .default line).length := by
  induction exchanges with
  | nil => rfl
  | cons e rest ih =>
    have hrest := ih fun e' he' => h e' (List.mem_cons_of_mem _ he')
    have hhead := h e List.mem_cons_self
    rw [List.map_cons]
    cases hcase : e.reply with
    | none =>
      rw [List.filterMap_cons_none hcase, List.filter_cons_of_neg (by simpa using hhead.mp hcase)]
      exact hrest
    | some reply =>
      have hnot : ¬ SilentLine .default e.line := by
        rw [← hhead, hcase]
        simp
      rw [List.filterMap_cons_some hcase, List.filter_cons_of_pos (by simpa using hnot),
        List.length_cons, List.length_cons, hrest]

/-- **Blank lines stay silent where they are spared.**  In a run in which no blank line meets a full
queue or its own deadline, the replies of every connection are as many as the lines that are not
blank. -/
theorem answersAllButBlank_of_sparesBlank (h : (broker serde engine engine₀).Reachable config)
    (hspares : SparesBlanks config.log) :
    AnswersAllButBlank config := by
  intro pid input hstarted
  obtain ⟨gs, hinv⟩ := broker_holds h
  obtain ⟨exchanges, underway, hledger⟩ := hinv.ledger
  have haccount := hledger.account pid input hstarted
  have hreply : ∀ e ∈ exchanges pid, e.reply = none ↔ SilentLine .default e.line :=
    fun e he => reply_eq_none_iff h hspares (haccount.decided e he)
  exact ⟨exchanges pid, underway pid, haccount, hreply, length_replies hreply⟩

/-! ### A blank line that is processed, and one that expires -/

theorem SparesBlanks.cons {log : List (broker serde engine engine₀).Event}
    {e : (broker serde engine engine₀).Event}
    (he : ∀ pid before o r, e = .called pid before o r → SparesBlank before o r)
    (h : SparesBlanks log) : SparesBlanks (e :: log) := by
  intro pid before o r hmem
  rcases List.mem_cons.mp hmem with heq | hold
  · exact he pid before o r heq.symm
  · exact h pid before o r hold

end

set_option maxRecDepth 2000 in
/-- A run in which a blank line is processed at once, up to where its connection has the answer. -/
theorem spaceLine_processed :
    ∃ config : unreadyBroker.Config, unreadyBroker.Reachable config ∧
      SparesBlanks config.log := by
  have scheduler := Machine.Reachable.step Machine.Reachable.start
    (Machine.Step.start (M := unreadyBroker) 0 .scheduler rfl rfl)
  have accepted := scheduler.step (.start 1 (.connection (oneByteLine 32)) rfl rfl)
  have reading := accepted.step (.turn 1 rfl)
  have offering := reading.step (.call 1 (0 : ℕ) rfl rfl)
  have stamped := offering.step (.call 1 (0 : ℕ) rfl rfl)
  have waiting := stamped.step (.call 1 (Except.ok ()) rfl rfl)
  have serving := waiting.step (.turn 0 rfl)
  have dequeued := serving.step (.call 0 (Dequeued.ready ⟨[32], 0⟩, 0) rfl rfl)
  have processed := dequeued.step (.call 0 _ rfl processLine_exec)
  have sent := processed.step (.call 0 () rfl rfl)
  have received := sent.step (.call 1 (Except.ok _) rfl (recv_sent rfl))
  refine ⟨_, received, ?_⟩
  refine .cons ?_ (.cons ?_ (.cons ?_ (.cons ?_ (.cons ?_ (.cons ?_ (.cons ?_ (.cons ?_
    (.cons ?_ ?_))))))))
  · rintro _ _ _ _ ⟨⟩
    trivial
  · rintro _ _ _ _ ⟨⟩
    trivial
  · rintro _ _ _ _ ⟨⟩
    trivial
  · rintro _ _ _ _ ⟨⟩ queued state htake -
    cases htake
    decide
  · rintro _ _ _ _ ⟨⟩ -
    decide
  · rintro _ _ _ _ ⟨⟩
    trivial
  · rintro _ _ _ _ ⟨⟩
    trivial
  · rintro _ _ _ _ ⟨⟩
  · rintro _ _ _ _ ⟨⟩
  · intro _ _ _ _ hmem
    cases hmem

theorem silentLine_space : SilentLine .default [32] := by
  refine ⟨by decide, " ", Text.fromUtf8_toUtf8 " ", fun c hc => ?_⟩
  have hspace : c = ' ' := by simpa using hc
  rw [hspace]
  decide

set_option maxRecDepth 2000 in
/-- A run in which a blank line waits for thirty seconds, up to where its connection has written
what it was answered. -/
theorem spaceLine_expired :
    ∃ config : unreadyBroker.Config, unreadyBroker.Reachable config ∧
      .started 1 (.connection (oneByteLine 32)) ∈ config.log ∧
      config.shared.output 1 = (expiredReply rejectingSerde [32]).bytes := by
  have scheduler := Machine.Reachable.step Machine.Reachable.start
    (Machine.Step.start (M := unreadyBroker) 0 .scheduler rfl rfl)
  have accepted := scheduler.step (.start 1 (.connection (oneByteLine 32)) rfl rfl)
  have reading := accepted.step (.turn 1 rfl)
  have offering := reading.step (.call 1 (0 : ℕ) rfl rfl)
  have stamped := offering.step (.call 1 (0 : ℕ) rfl rfl)
  have waiting := stamped.step (.call 1 (Except.ok ()) rfl rfl)
  have serving := waiting.step (.turn 0 rfl)
  have dequeued := serving.step (.call 0 (Dequeued.expired ⟨[32], 0⟩, queueDeadline) rfl rfl)
  have sent := dequeued.step (.call 0 () rfl rfl)
  have received := sent.step
    (.call 1 (Except.ok (some (expiredReply rejectingSerde [32]))) rfl (recv_sent rfl))
  have replied := received.step (.call 1 (Except.ok ()) rfl rfl)
  refine ⟨_, replied, ?_, rfl⟩
  repeat first | exact List.mem_cons_self | apply List.mem_cons_of_mem

/-- A blank line is answered where it expires. -/
theorem blankLine_answered :
    ∃ config : unreadyBroker.Config, unreadyBroker.Reachable config ∧
      ¬ AnswersAllButBlank config := by
  obtain ⟨config, hreach, hstarted, hout⟩ := spaceLine_expired
  refine ⟨config, hreach, fun h => ?_⟩
  obtain ⟨exchanges, underway, haccount, hreply, -⟩ := h 1 _ hstarted
  have hframed : Reader.framed (oneByteLine 32) = [[32]] := rfl
  have hsilent : ∀ e ∈ exchanges, e.bytes = [] := by
    intro e he
    have hmem : e.line ∈ Reader.framed (oneByteLine 32) :=
      haccount.lines.subset (List.mem_append_left _ (List.mem_map_of_mem he))
    rw [hframed, List.mem_singleton] at hmem
    have hnone := (hreply e he).mpr (hmem ▸ silentLine_space)
    rw [Exchange.bytes, hnone]
    rfl
  have hnothing : config.shared.output 1 = [] := by
    rcases haccount.written with hwritten | ⟨-, first, e, written, rfl, hwritten⟩
    · rw [hwritten]
      exact List.flatMap_eq_nil_iff.mpr hsilent
    · rw [hwritten, hsilent e (List.mem_append_right _ List.mem_cons_self), List.take_nil,
        List.append_nil]
      exact List.flatMap_eq_nil_iff.mpr fun e' he' => hsilent e' (List.mem_append_left _ he')
  rw [hout, ProtocolReply.bytes] at hnothing
  exact absurd hnothing (List.append_ne_nil_of_right_ne_nil _ (List.cons_ne_nil _ _))

/-- Silence in the run in which the blank line is processed. -/
theorem answersAllButBlank_of_sparesBlank_spaceLine :
    ∃ config : unreadyBroker.Config, unreadyBroker.Reachable config ∧
      AnswersAllButBlank config := by
  obtain ⟨config, hreach, hspares⟩ := spaceLine_processed
  exact ⟨config, hreach, answersAllButBlank_of_sparesBlank hreach hspares⟩

end SemanticSidecar
