import SemanticSidecar.Protocol.Dispatch
import SemanticSidecar.Protocol.Framing
import Mathlib.Data.List.Forall2

/-!
# The wire loop

`runLoopWithLimits` reads request lines until end of file or an accepted `shutdown` and writes one
reply line for each line that is not blank.  This file is about the *transcript* of such a run:
which bytes are written, whatever the stream, its chunks, the limits and the engine.

The specification has no loop over a transport in it.  `Reader.framed` cuts the whole stream into
lines; `transcript` answers these one by one, threading the engine, until a reply stops it.
`runLoopWithLimits_eq_transcript` says that the loop writes exactly the replies of the transcript,
and `transcript_answers` describes the transcript without the engine: its replies belong, one each
and in order, to the lines up to the first accepted `shutdown` that are not silent.
-/

set_option autoImplicit false

namespace SemanticSidecar

/-- One framing result for a bounded request. -/
inductive FramedRequest where
  /-- The end of the input. -/
  | eof
  /-- One line, within the cap. -/
  | line (buffer : List UInt8)
  /-- Framing rejected the request and produced the reply. -/
  | rejected (reply : ProtocolReply)

section

variable (serde : SerdeJson) {σ : Type} (engine : EmbedEngine σ) (limits : Limits)

/-- The reply to a line over the cap. -/
def oversizedReply : ProtocolReply :=
  serializeOutcome serde (.reply (failure "" invalidRequest
    ("request line exceeds max_request_bytes (" ++ toString limits.maxRequestBytes ++ ")")))

/-- `read_request`: the next line, turned away where it is over the cap. -/
def readRequest (input : Reader) : Except IoError FramedRequest × Reader :=
  match readLineCapped input limits.maxRequestBytes with
  | (.error err, input) => (.error err, input)
  | (.ok .eof, input) => (.ok .eof, input)
  | (.ok (.line buffer), input) => (.ok (.line buffer), input)
  | (.ok .oversized, input) => (.ok (.rejected (oversizedReply serde limits)), input)

/-- How a run of the loop ends: what it returns, what it wrote, and what it leaves. -/
structure LoopExit (σ : Type) where
  /-- What the loop returns. -/
  result : Except IoError Unit
  /-- What it has written. -/
  written : List UInt8
  /-- The engine as it leaves it. -/
  engine : σ
  /-- What it has not read. -/
  input : Reader

/-- A reply is written, and the loop goes on to `rest` unless the reply stops it. -/
def LoopExit.write (reply : ProtocolReply) (s : σ) (input : Reader) (rest : LoopExit σ) :
    LoopExit σ :=
  if reply.stopConnection then ⟨.ok (), reply.bytes, s, input⟩
  else { rest with written := reply.bytes ++ rest.written }

variable {serde limits} in
theorem size_readRequest_lt {input input' : Reader} {framed : FramedRequest}
    (h : readRequest serde limits input = (.ok framed, input')) (hframed : framed ≠ .eof) :
    Reader.size input' < Reader.size input := by
  have hne : input ≠ [] := by
    rintro rfl
    simp only [readRequest, readLineCapped, readLineLoop, Bool.false_eq_true, if_false, if_true,
      Prod.mk.injEq, Except.ok.injEq] at h
    exact hframed h.1.symm
  have hlt := size_readLineCapped_lt hne limits.maxRequestBytes
  rw [readRequest] at h
  split at h <;> simp_all

/-- `run_loop_with_limits`. -/
def runLoopWithLimits (input : Reader) (s : σ) : LoopExit σ :=
  match _h : readRequest serde limits input with
  | (.error err, input') => ⟨.error err, [], s, input'⟩
  | (.ok .eof, input') => ⟨.ok (), [], s, input'⟩
  | (.ok (.rejected reply), input') =>
    LoopExit.write reply s input' (runLoopWithLimits input' s)
  | (.ok (.line buffer), input') =>
    match processLine serde engine limits buffer s with
    | (none, s) => runLoopWithLimits input' s
    | (some reply, s) => LoopExit.write reply s input' (runLoopWithLimits input' s)
termination_by input.size
decreasing_by all_goals exact size_readRequest_lt _h (by simp)

/-- `run_loop`, with the limits the sidecar advertises. -/
def runLoop (input : Reader) (s : σ) : LoopExit σ :=
  runLoopWithLimits serde engine .default input s

/-! ## The specification -/

/-- The answer to one whole line of the stream, over the cap or not. -/
def answerLine (line : List UInt8) (s : σ) : Option ProtocolReply × σ :=
  if line.length > limits.maxRequestBytes then (some (oversizedReply serde limits), s)
  else processLine serde engine limits line s

/-- The replies to a list of lines, whether one of them stopped the run, and the engine then. -/
structure Transcript (σ : Type) where
  /-- The replies, in the order of the lines. -/
  replies : List ProtocolReply
  /-- One of them stopped the run. -/
  stopped : Bool
  /-- The engine after it. -/
  engine : σ

/-- The lines are answered in order until a reply stops the run. -/
def transcript : List (List UInt8) → σ → Transcript σ
  | [], s => ⟨[], false, s⟩
  | line :: rest, s =>
    match answerLine serde engine limits line s with
    | (none, s) => transcript rest s
    | (some reply, s) =>
      if reply.stopConnection then ⟨[reply], true, s⟩
      else { transcript rest s with replies := reply :: (transcript rest s).replies }

/-- What the loop returns when the stream runs out. -/
def endOfStream (failure : Option IoError) : Except IoError Unit :=
  match failure with
  | some err => .error err
  | none => .ok ()

end

/-! ## The loop writes the transcript -/

section

variable {serde : SerdeJson} {σ : Type} {engine : EmbedEngine σ} {limits : Limits}

/-- What `readRequest` yields on a stream with the lines `lines`. -/
theorem readRequest_spec (input : Reader) :
    match Reader.framed input with
    | line :: rest =>
      (readRequest serde limits input).1 = .ok
        (if line.length > limits.maxRequestBytes then .rejected (oversizedReply serde limits)
          else .line line) ∧
      Reader.framed (readRequest serde limits input).2 = rest ∧
      Reader.failure (readRequest serde limits input).2 = Reader.failure input
    | [] => (readRequest serde limits input).1 =
        match Reader.failure input with | some err => .error err | none => .ok .eof := by
  have hspec := readLineCapped_spec input limits.maxRequestBytes
  unfold ReadsFirst at hspec
  rw [readRequest]
  cases hlines : Reader.framed input with
  | nil =>
    rw [hlines] at hspec
    simp only at hspec ⊢
    cases hfail : Reader.failure input with
    | none =>
      rw [hfail] at hspec
      split <;> simp_all
    | some err =>
      rw [hfail] at hspec
      split <;> simp_all
  | cons line rest =>
    rw [hlines] at hspec
    simp only at hspec ⊢
    obtain ⟨hread, hrest, hfail⟩ := hspec
    by_cases hlen : line.length > limits.maxRequestBytes
    · rw [LineRead.ofLine, if_pos hlen] at hread
      split <;> simp_all
    · rw [LineRead.ofLine, if_neg hlen] at hread
      split <;> simp_all

/-- **The loop writes exactly the replies of the transcript**, leaves the engine as the transcript
does, and returns early only where the transcript stops. -/
theorem runLoopWithLimits_eq_transcript (input : Reader) (s : σ) :
    let exit := runLoopWithLimits serde engine limits input s
    let t := transcript serde engine limits (Reader.framed input) s
    exit.written = t.replies.flatMap ProtocolReply.bytes ∧ exit.engine = t.engine ∧
      exit.result = if t.stopped then .ok () else endOfStream (Reader.failure input) := by
  induction hn : Reader.size input using Nat.strong_induction_on generalizing input s with
  | _ n ih =>
    have hspec := @readRequest_spec serde limits input
    cases hlines : Reader.framed input with
    | nil =>
      rw [hlines] at hspec
      simp only at hspec
      simp only [transcript]
      rw [runLoopWithLimits]
      cases hfail : Reader.failure input with
      | none =>
        rw [hfail] at hspec
        split <;> simp_all [endOfStream]
      | some err =>
        rw [hfail] at hspec
        split <;> simp_all [endOfStream]
    | cons line rest =>
      rw [hlines] at hspec
      simp only at hspec
      obtain ⟨hread, hrest, hfail⟩ := hspec
      have hstep : ∀ input', readRequest serde limits input =
          ((readRequest serde limits input).1, input') → ∀ t : σ,
          let exit := runLoopWithLimits serde engine limits input' t
          let tr := transcript serde engine limits rest t
          exit.written = tr.replies.flatMap ProtocolReply.bytes ∧ exit.engine = tr.engine ∧
            exit.result = if tr.stopped then .ok () else endOfStream (Reader.failure input) := by
        intro input' hinput t
        have hlt : Reader.size input' < n := by
          rw [← hn]
          rw [hread] at hinput
          exact size_readRequest_lt hinput (by split <;> simp)
        rw [hinput] at hrest hfail
        have := ih _ hlt input' t rfl
        simpa only [hrest, hfail] using this
      rw [transcript, answerLine, runLoopWithLimits]
      by_cases hlen : line.length > limits.maxRequestBytes
      · rw [if_pos hlen] at hread ⊢
        split
        · simp_all
        · simp_all
        · rename_i reply input' hr
          have hrec := hstep input' (by rw [hr]) s
          simp only [hr, Except.ok.injEq, FramedRequest.rejected.injEq] at hread
          subst hread
          simp only [LoopExit.write]
          split
          · simp
          · simpa using hrec
        · simp_all
      · rw [if_neg hlen] at hread ⊢
        split
        · simp_all
        · simp_all
        · simp_all
        · rename_i buffer input' hr
          simp only [hr, Except.ok.injEq, FramedRequest.line.injEq] at hread
          subst hread
          split
          · rename_i s' hp
            exact hstep input' (by rw [hr]) s'
          · rename_i reply s' hp
            have hrec := hstep input' (by rw [hr]) s'
            simp only [LoopExit.write]
            split
            · simp
            · simpa using hrec

/-! ## The transcript, line by line -/

/-- The line is answered by ending the loop. -/
def ShutdownLine (serde : SerdeJson) (limits : Limits) (line : List UInt8) : Prop :=
  line.length ≤ limits.maxRequestBytes ∧
    ∃ request, requestObject serde line = some request ∧ AcceptsShutdown serde request

/-- The line gets no reply: it is blank, and short enough to be looked at. -/
def SilentLine (limits : Limits) (line : List UInt8) : Prop :=
  line.length ≤ limits.maxRequestBytes ∧ Blank line

/-- The id a reply to the line carries.  A line over the cap is never looked at. -/
def replyId (serde : SerdeJson) (limits : Limits) (line : List UInt8) : String :=
  if line.length > limits.maxRequestBytes then "" else lineRequestId serde line

/-- `reply` is an answer to `line`: in shape, in id, and in whether it ends the loop. -/
structure Answers (serde : SerdeJson) (limits : Limits) (line : List UInt8)
    (reply : ProtocolReply) : Prop where
  /-- It is an envelope with the id of the line. -/
  shape : WireReply serde (replyId serde limits line) reply
  /-- It ends the loop if and only if the line is a shutdown. -/
  stop : reply.stopConnection = true ↔ ShutdownLine serde limits line
  /-- If it ends the loop it says so. -/
  stopping : reply.stopConnection = true →
    reply.line = serde.toString (success (replyId serde limits line) stopping).toValue

theorem answerLine_eq_none (line : List UInt8) (s : σ) :
    (answerLine serde engine limits line s).1 = none ↔ SilentLine limits line := by
  rw [answerLine, SilentLine]
  split
  · rename_i hlen
    simp only [reduceCtorEq, false_iff, not_and]
    intro hle
    omega
  · rename_i hlen
    rw [processLine_eq_none]
    exact ⟨fun h => ⟨by omega, h⟩, fun h => h.2⟩

theorem answerLine_answers (hfmt : serde.PrintsFloats) {line : List UInt8} {s : σ}
    {reply : ProtocolReply} (h : (answerLine serde engine limits line s).1 = some reply) :
    Answers serde limits line reply := by
  rw [answerLine] at h
  by_cases hlen : line.length > limits.maxRequestBytes
  · rw [if_pos hlen, Option.some.injEq] at h
    subst h
    refine ⟨?_, ?_, by simp [oversizedReply, serializeOutcome, Outcome.reply]⟩
    · rw [replyId, if_pos hlen]
      exact wireReply_serialize hfmt (wellFormed_failure "" _ (by decide))
    · simp only [oversizedReply, serializeOutcome, Outcome.reply, Bool.false_eq_true, false_iff,
        ShutdownLine, not_and]
      intro hle
      omega
  · rw [if_neg hlen] at h
    obtain ⟨hshape, hstop, hstopping⟩ := processLine_shape hfmt h
    refine ⟨?_, ?_, by rwa [replyId, if_neg hlen]⟩
    · rw [replyId, if_neg hlen]
      exact hshape
    · rw [hstop, ShutdownLine]
      exact ⟨fun h => ⟨by omega, h⟩, fun h => h.2⟩

open Classical in
/-- The lines a run gets to: those up to and including the first one that ends it. -/
noncomputable def servedLines (serde : SerdeJson) (limits : Limits) :
    List (List UInt8) → List (List UInt8)
  | [] => []
  | line :: rest =>
    if ShutdownLine serde limits line then [line] else line :: servedLines serde limits rest

open Classical in
/-- **The replies of a transcript belong to the lines it got to, silent ones left out.** -/
theorem transcript_answers (hfmt : serde.PrintsFloats) (lines : List (List UInt8)) (s : σ) :
    List.Forall₂ (Answers serde limits)
        ((servedLines serde limits lines).filter fun line => ¬ SilentLine limits line)
        (transcript serde engine limits lines s).replies ∧
      ((transcript serde engine limits lines s).stopped = true ↔
        ∃ line ∈ lines, ShutdownLine serde limits line) := by
  induction lines generalizing s with
  | nil => simp [servedLines, transcript]
  | cons line rest ih =>
    rw [transcript]
    have hsilent := @answerLine_eq_none serde σ engine limits line s
    have hanswers := @answerLine_answers serde σ engine limits hfmt line s
    rcases ha : answerLine serde engine limits line s with ⟨_ | reply, s'⟩
    · -- No reply: the line is silent, and a silent line is no shutdown.
      have hs : SilentLine limits line := hsilent.mp (by rw [ha])
      have hnot : ¬ ShutdownLine serde limits line := by
        rintro ⟨-, request, hrequest, -⟩
        obtain ⟨text, htext, hblank⟩ := hs.2
        rw [requestObject, htext] at hrequest
        simp [Text.trim_isEmpty.mpr hblank] at hrequest
      obtain ⟨hreplies, hstop⟩ := ih s'
      refine ⟨?_, ?_⟩
      · rw [servedLines, if_neg hnot, List.filter_cons_of_neg (by simpa using hs)]
        exact hreplies
      · simp only [hstop, List.mem_cons, exists_eq_or_imp, hnot, false_or]
    · have hans := hanswers (by rw [ha])
      have hns : ¬ SilentLine limits line := by
        rw [← hsilent, ha]; simp
      by_cases hstop : reply.stopConnection = true
      · have hshut := hans.stop.mp hstop
        rw [servedLines, if_pos hshut, List.filter_cons_of_pos (by simpa using hns)]
        simp only [hstop, if_true, List.filter_nil, List.mem_cons, exists_eq_or_imp, hshut,
          true_or, and_true]
        exact List.Forall₂.cons hans List.Forall₂.nil
      · have hshut : ¬ ShutdownLine serde limits line := fun h => hstop (hans.stop.mpr h)
        obtain ⟨hreplies, hrest⟩ := ih s'
        rw [servedLines, if_neg hshut, List.filter_cons_of_pos (by simpa using hns)]
        simp only [hstop, Bool.false_eq_true, if_false, List.mem_cons, exists_eq_or_imp, hshut,
          false_or]
        exact ⟨List.Forall₂.cons hans hreplies, hrest⟩

open Classical in
/-- **The transcript law of the wire loop.**  What is written is one reply line for each line that
is not silent, in order, up to and including the first accepted `shutdown`; and the loop returns
only there or where the stream ends. -/
theorem runLoopWithLimits_law (hfmt : serde.PrintsFloats) (input : Reader) (s : σ) :
    ∃ replies : List ProtocolReply,
      (runLoopWithLimits serde engine limits input s).written =
        replies.flatMap ProtocolReply.bytes ∧
      replies = (transcript serde engine limits (Reader.framed input) s).replies ∧
      List.Forall₂ (Answers serde limits)
        ((servedLines serde limits (Reader.framed input)).filter
          fun line => ¬ SilentLine limits line) replies ∧
      (runLoopWithLimits serde engine limits input s).result =
        if ∃ line ∈ Reader.framed input, ShutdownLine serde limits line then .ok ()
        else endOfStream (Reader.failure input) := by
  obtain ⟨hwritten, -, hresult⟩ :=
    @runLoopWithLimits_eq_transcript serde σ engine limits input s
  obtain ⟨hreplies, hstopped⟩ :=
    @transcript_answers serde σ engine limits hfmt (Reader.framed input) s
  refine ⟨_, hwritten, rfl, hreplies, ?_⟩
  rw [hresult]
  simp only [hstopped]

end

/-- The law at work on a stream of a blank line and an empty request, in front of an engine that
has no model. -/
theorem runLoopWithLimits_law_emptyRequest :
    let serde := SerdeJson.ofTable [("\x7b\x7d", .object [])]
    let engine := UnreadyEngine.engine modelNotPrepared
    let input : Reader := [.chunk ⟨[32, 10, 0x7b], by decide⟩, .interrupted,
      .chunk ⟨[0x7d, 10], by decide⟩]
    ∃ replies : List ProtocolReply,
      (runLoopWithLimits serde engine .default input ()).written =
        replies.flatMap ProtocolReply.bytes ∧
      replies = (transcript serde engine .default (Reader.framed input) ()).replies :=
  let ⟨replies, hwritten, htranscript, _⟩ :=
    runLoopWithLimits_law (SerdeJson.ofTable_printsFloats _) _ ()
  ⟨replies, hwritten, htranscript⟩

end SemanticSidecar
