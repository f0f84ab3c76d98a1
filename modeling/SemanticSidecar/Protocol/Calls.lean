import SemanticSidecar.Protocol.Framing
import Mathlib.Data.List.GetD

/-!
# Repeated reads into one buffer

`read_line_capped` does not return a line: it fills a buffer of its caller, who passes the same one
to every call.  `fillLine` is the loop of the call with that buffer in it, and `fillLineCapped`
the call.  Besides what the loop returns and leaves, a `Call` has everything the buffer has held
during it, in `held`.

The reference `splitLines` knows the stream and the cap only: it splits the stream on newline
bytes and hands over the segments.  `fillLines_eq_splitLines` says that the calls return the
reference, one segment each, and then `eof`, for any chunks, any interruptions and anything the
buffer held before.  It comes from `readLineCapped_spec` through `fillLineCapped_delivered`: the
reused buffer shows nothing but what a fresh one would.

A buffer that is reused can show what was in it before, so this is about more than results.
`fillLine_held` is the bound on what a buffer holds at any time in a call: the cap, whatever the
line is like, and from the second call on whatever the first caller had in it is gone.
-/

set_option autoImplicit false

namespace SemanticSidecar

open Text (newline)

/-- What `read_line_capped` returns: the line itself is in the buffer. -/
inductive LineFound where
  /-- A line. -/
  | line
  /-- A line over the cap, which has been read past. -/
  | oversized
  /-- The end of the input. -/
  | eof
  deriving DecidableEq, Repr

/-- The outcome of one call, and what the buffer held in the course of it. -/
structure Call where
  /-- What the call returns. -/
  result : Except IoError LineFound
  /-- What is left of the input. -/
  input : Reader
  /-- The buffer at its end. -/
  buffer : List UInt8
  /-- The buffer at the beginning of each turn of the loop. -/
  held : List (List UInt8)

/-- The same call, with one turn of the loop before it. -/
def Call.after (call : Call) (buffer : List UInt8) : Call :=
  { call with held := buffer :: call.held }

/-- The loop of `read_line_capped`, on the buffer of the caller. -/
def fillLine (maxBytes : ℕ) : Reader → List UInt8 → Bool → Call
  | [], buffer, oversized =>
    ⟨.ok (if oversized then .oversized else if buffer = [] then .eof else .line), [], buffer,
      [buffer]⟩
  | .interrupted :: rest, buffer, oversized => (fillLine maxBytes rest buffer oversized).after buffer
  | .failed err :: rest, buffer, _ => ⟨.error err, rest, buffer, [buffer]⟩
  | .chunk available :: rest, buffer, oversized =>
    match available.bytes.idxOf? newline with
    | some content =>
      let (filled, oversized) := pushCapped maxBytes buffer oversized (available.bytes.take content)
      ⟨.ok (if oversized then .oversized else .line), consume available.bytes (content + 1) rest,
        filled, [buffer, filled]⟩
    | none =>
      let (filled, oversized) := pushCapped maxBytes buffer oversized available.bytes
      (fillLine maxBytes rest filled oversized).after buffer

/-- `Vec::clear`. -/
def clear (_buffer : List UInt8) : List UInt8 := []

/-- `read_line_capped`, with the buffer its caller reuses. -/
def fillLineCapped (input : Reader) (buffer : List UInt8) (maxBytes : ℕ) : Call :=
  fillLine maxBytes input (clear buffer) false

/-- `n` calls in a row, each with the buffer the call before left. -/
def fillLines (maxBytes : ℕ) : ℕ → Reader → List UInt8 → List Call
  | 0, _, _ => []
  | n + 1, input, buffer =>
    let call := fillLineCapped input buffer maxBytes
    call :: fillLines maxBytes n call.input call.buffer

/-- What a caller gets from a call: the line is what the buffer holds when the call returns. -/
def Call.delivered (call : Call) : Except IoError LineRead :=
  match call.result with
  | .ok .line => .ok (.line call.buffer)
  | .ok .oversized => .ok .oversized
  | .ok .eof => .ok .eof
  | .error err => .error err

/-- The reference: the segments between newline bytes, of which the last one counts only when it
is not empty. -/
def splitLines (maxBytes : ℕ) (stream : List UInt8) : List LineRead :=
  let segments := stream.splitOn newline
  segments.dropLast.map (LineRead.ofLine maxBytes) ++
    (segments.getLast?.filter (· ≠ [])).toList.map (LineRead.ofLine maxBytes)

/-! ## One call -/

theorem fillLine_delivered (maxBytes : ℕ) (r : Reader) (buffer : List UInt8) (oversized : Bool) :
    ((fillLine maxBytes r buffer oversized).delivered, (fillLine maxBytes r buffer oversized).input)
      = readLineLoop maxBytes r buffer oversized := by
  induction r generalizing buffer oversized with
  | nil =>
    rw [fillLine, readLineLoop, Call.delivered]
    rcases oversized with _ | _
    · by_cases hbuffer : buffer = [] <;> simp [hbuffer]
    · simp
  | cons fill rest ih =>
    rcases fill with available | _ | err
    · rcases hidx : available.bytes.idxOf? newline with _ | content
      · simp only [fillLine, readLineLoop, hidx]
        exact ih _ _
      · simp only [fillLine, readLineLoop, hidx]
        rcases pushCapped maxBytes buffer oversized _ with ⟨filled, _ | _⟩
        · rfl
        · rfl
    · exact ih _ _
    · rfl

/-- The reused buffer shows nothing but what a fresh one would. -/
theorem fillLineCapped_delivered (input : Reader) (buffer : List UInt8) (maxBytes : ℕ) :
    ((fillLineCapped input buffer maxBytes).delivered,
      (fillLineCapped input buffer maxBytes).input) = readLineCapped input maxBytes :=
  fillLine_delivered maxBytes input (clear buffer) false

theorem length_pushCapped_le {maxBytes : ℕ} {buffer : List UInt8} (h : buffer.length ≤ maxBytes)
    (oversized : Bool) (content : List UInt8) :
    (pushCapped maxBytes buffer oversized content).1.length ≤ maxBytes := by
  rw [pushCapped]
  split
  · exact h
  · split
    · exact Nat.zero_le _
    · rename_i hfits
      rw [List.length_append]
      exact Nat.le_of_not_lt hfits

/-- **The buffer never holds more than the cap.** -/
theorem fillLine_held {maxBytes : ℕ} (r : Reader) {buffer : List UInt8}
    (h : buffer.length ≤ maxBytes) (oversized : Bool) :
    ∀ content ∈ (fillLine maxBytes r buffer oversized).held, content.length ≤ maxBytes := by
  induction r generalizing buffer oversized with
  | nil => simpa [fillLine] using h
  | cons fill rest ih =>
    rcases fill with available | _ | err
    · rw [fillLine]
      split
      · have hfilled := length_pushCapped_le h oversized
        simpa using ⟨h, hfilled _⟩
      · rintro content hcontent
        rcases List.mem_cons.mp hcontent with rfl | hcontent
        · exact h
        · exact ih (length_pushCapped_le h oversized _) _ content hcontent
    · rintro content hcontent
      rcases List.mem_cons.mp hcontent with rfl | hcontent
      · exact h
      · exact ih h oversized content hcontent
    · simpa [fillLine] using h

/-! ## The reference -/

theorem splitLines_cons (maxBytes : ℕ) {line : List UInt8} (h : newline ∉ line)
    (rest : List UInt8) : splitLines maxBytes (line ++ newline :: rest) =
      .ofLine maxBytes line :: splitLines maxBytes rest := by
  have hsplit : (line ++ newline :: rest).splitOn newline = line :: rest.splitOn newline := by
    rw [List.splitOn_append_cons_self, List.splitOn_eq_singleton h, List.singleton_append]
  have hne := List.splitOn_ne_nil newline rest
  rw [splitLines, hsplit, splitLines, List.dropLast_cons_of_ne_nil hne,
    List.getLast?_cons_of_ne_nil hne, List.map_cons, List.cons_append]

theorem splitLines_of_notMem (maxBytes : ℕ) {tail : List UInt8} (h : newline ∉ tail) :
    splitLines maxBytes tail = if tail = [] then [] else [.ofLine maxBytes tail] := by
  rw [splitLines, List.splitOn_eq_singleton h]
  by_cases htail : tail = [] <;> simp [htail]

/-- The reference is the framing of the whole stream. -/
theorem splitLines_eq_framedLines (maxBytes : ℕ) (stream : List UInt8) :
    splitLines maxBytes stream = (framedLines stream none).map (LineRead.ofLine maxBytes) := by
  induction hlength : stream.length using Nat.strongRecOn generalizing stream with
  | ind n ih =>
    by_cases hmem : newline ∈ stream
    · obtain ⟨line, rest, rfl, hline⟩ := List.eq_append_cons_of_mem hmem
      rw [splitLines_cons maxBytes hline, framedLines_cons hline, List.map_cons]
      refine congrArg (List.cons _) (ih rest.length ?_ rest rfl)
      simp only [List.length_append, List.length_cons] at hlength
      omega
    · rw [splitLines_of_notMem maxBytes hmem, framedLines_of_notMem hmem]
      by_cases hstream : stream = [] <;> simp [hstream]

/-! ## Every call -/

theorem bytes_of_framed {r : Reader} (h : Reader.framed r = [])
    (hfailure : Reader.failure r = none) : Reader.bytes r = [] := by
  rw [Reader.framed, hfailure] at h
  by_cases hmem : newline ∈ Reader.bytes r
  · obtain ⟨line, rest, hbytes, hline⟩ := List.eq_append_cons_of_mem hmem
    rw [hbytes, framedLines_cons hline] at h
    exact absurd h (by simp)
  · rw [framedLines_of_notMem hmem] at h
    by_contra hne
    rw [if_pos ⟨rfl, hne⟩] at h
    exact absurd h (by simp)

/-- A stream without bytes is at its end once the interruptions are over. -/
theorem readLineCapped_drained (maxBytes : ℕ) {r : Reader} (h : Reader.bytes r = [])
    (hfailure : Reader.failure r = none) : readLineCapped r maxBytes = (.ok .eof, []) := by
  induction r with
  | nil => rfl
  | cons fill rest ih =>
    rcases fill with available | _ | err
    · exact absurd (List.append_eq_nil_iff.mp h).1 available.nonempty
    · exact ih h hfailure
    · exact absurd hfailure (by simp [Reader.failure])

theorem fillLines_framed (maxBytes n : ℕ) {input : Reader}
    (hfailure : Reader.failure input = none) (buffer : List UInt8) :
    (fillLines maxBytes n input buffer).map Call.delivered = (List.range n).map
      fun k => .ok (((Reader.framed input).map (LineRead.ofLine maxBytes)).getD k .eof) := by
  induction n generalizing input buffer with
  | zero => rfl
  | succ n ih =>
    have hcall := fillLineCapped_delivered input buffer maxBytes
    have hdelivered : (fillLineCapped input buffer maxBytes).delivered =
        (readLineCapped input maxBytes).1 := congrArg Prod.fst hcall
    have hinput : (fillLineCapped input buffer maxBytes).input =
        (readLineCapped input maxBytes).2 := congrArg Prod.snd hcall
    rw [fillLines, List.map_cons, hdelivered, List.range_succ_eq_map, List.map_cons, List.map_map]
    rcases hframed : Reader.framed input with _ | ⟨line, rest⟩
    · -- The end of the stream, where every later call is too.
      have hdrained := readLineCapped_drained maxBytes (bytes_of_framed hframed hfailure) hfailure
      rw [hdrained] at hinput
      rw [hdrained, ih (hinput ▸ rfl), hinput]
      rfl
    · -- A line: it goes first, and the rest is what the other calls read.
      have hspec := readLineCapped_spec input maxBytes
      rw [hframed, hfailure] at hspec
      obtain ⟨hfirst, hrest, hleft⟩ := hspec
      rw [← hinput] at hrest hleft
      rw [hfirst, ih hleft, hrest]
      rfl

/-- **Repeated calls return the reference**: the lines of the stream one by one, and then `eof`.
The buffer holds no more than the cap all the while. -/
theorem fillLines_eq_splitLines {stream : List UInt8} {input : Reader}
    (hstream : Reader.bytes input = stream) (hfailure : Reader.failure input = none)
    (maxBytes n : ℕ) (buffer : List UInt8) :
    (fillLines maxBytes n input buffer).map Call.delivered =
        (List.range n).map (fun k => .ok ((splitLines maxBytes stream).getD k .eof)) ∧
      ∀ call ∈ fillLines maxBytes n input buffer,
        ∀ content ∈ call.held, content.length ≤ maxBytes := by
  refine ⟨?_, ?_⟩
  · rw [fillLines_framed maxBytes n hfailure, splitLines_eq_framedLines, ← hstream,
      Reader.framed, hfailure]
  · clear hstream hfailure
    induction n generalizing input buffer with
    | zero => simp [fillLines]
    | succ n ih =>
      rw [fillLines]
      rintro call hcall
      rcases List.mem_cons.mp hcall with rfl | hcall
      · exact fillLine_held input (Nat.zero_le _) false
      · exact ih _ call hcall

/-- The line `ab` in two chunks, an oversized line, and an unterminated one. -/
def sampleReader : Reader :=
  [.chunk ⟨[97], by simp⟩, .interrupted, .chunk ⟨[98, 10, 97], by simp⟩,
    .chunk ⟨[98, 99], by simp⟩, .chunk ⟨[10, 99], by simp⟩]

theorem fillLines_eq_splitLines_sample :
    (fillLines 2 4 sampleReader [120, 120]).map Call.delivered =
      [.ok (.line [97, 98]), .ok .oversized, .ok (.line [99]), .ok .eof] := by
  have hstream : Reader.bytes sampleReader = [97, 98, 10, 97, 98, 99, 10, 99] := rfl
  exact (fillLines_eq_splitLines hstream rfl 2 4 [120, 120]).1

end SemanticSidecar
