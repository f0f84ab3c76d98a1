import SemanticSidecar.Lib.Lines
import SemanticSidecar.Lib.Text

/-!
# Framing: one request line at a time, never more than the cap

`readLineCapped` is the bounded line reader of `protocol.rs`.  It pulls whatever the transport has
buffered, copies at most `max_bytes` of the current line, and drains the rest of a line that turns
out to be longer.

A `Reader` is the sequence of answers `fill_buf` is going to give: a non-empty chunk, an
`Interrupted` error that the loop retries, or an error it returns; when the sequence is used up
the stream is at end of file for good.  `consume` leaves the unread part of a chunk in front, so a
reader is its own buffer.

`readLineCapped_spec` says what all of that amounts to, with no chunks in it: reading a line from
`r` takes the first line off `r.framed`, the lines of the stream as a whole, and hands it over
when it fits the cap.
-/

set_option autoImplicit false

namespace SemanticSidecar

open Text (newline)

/-- An I/O error of the transport or the file system, by its message. -/
structure IoError where
  /-- The text of the error. -/
  message : String
  deriving DecidableEq, Repr

/-- A non-empty run of bytes: an empty one is how `fill_buf` reports end of file. -/
structure Chunk where
  /-- The bytes. -/
  bytes : List UInt8
  /-- There are some. -/
  nonempty : bytes ≠ []

/-- One answer of `fill_buf`. -/
inductive Fill where
  /-- Bytes are available. -/
  | chunk (available : Chunk)
  /-- `ErrorKind::Interrupted`: the loop asks again. -/
  | interrupted
  /-- Any other error. -/
  | failed (err : IoError)

/-- The answers a transport is still going to give.  The empty list is end of file. -/
abbrev Reader := List Fill

/-- What one `readLineCapped` call found. -/
inductive LineRead where
  /-- One line's bytes, terminator excluded. -/
  | line (buffer : List UInt8)
  /-- The line exceeded the cap and was discarded without being buffered. -/
  | oversized
  /-- The end of the input. -/
  | eof
  deriving DecidableEq, Repr

/-- The reader after `consume n` on its first chunk. -/
def consume (available : List UInt8) (n : ℕ) (rest : Reader) : Reader :=
  if h : available.drop n = [] then rest else .chunk ⟨available.drop n, h⟩ :: rest

/-- The buffer and the oversize flag after `content` more bytes of the line. -/
def pushCapped (maxBytes : ℕ) (buffer : List UInt8) (oversized : Bool) (content : List UInt8) :
    List UInt8 × Bool :=
  if oversized then (buffer, true)
  else if buffer.length + content.length > maxBytes then ([], true)
  else (buffer ++ content, false)

/-- The loop of `read_line_capped`.  A chunk without a newline is consumed whole, which is why the
reader shrinks to its tail there. -/
def readLineLoop (maxBytes : ℕ) :
    Reader → List UInt8 → Bool → Except IoError LineRead × Reader
  | [], buffer, oversized =>
    (.ok (if oversized then .oversized else if buffer = [] then .eof else .line buffer), [])
  | .interrupted :: rest, buffer, oversized => readLineLoop maxBytes rest buffer oversized
  | .failed err :: rest, _, _ => (.error err, rest)
  | .chunk available :: rest, buffer, oversized =>
    match available.bytes.idxOf? newline with
    | some content =>
      let (buffer, oversized) := pushCapped maxBytes buffer oversized (available.bytes.take content)
      (.ok (if oversized then .oversized else .line buffer),
        consume available.bytes (content + 1) rest)
    | none =>
      let (buffer, oversized) := pushCapped maxBytes buffer oversized available.bytes
      readLineLoop maxBytes rest buffer oversized

/-- Reads one newline-terminated line, never buffering more than `maxBytes`. -/
def readLineCapped (input : Reader) (maxBytes : ℕ) : Except IoError LineRead × Reader :=
  readLineLoop maxBytes input [] false

/-! ## Reading makes progress -/

/-- How much a reader still has to give: bytes, plus one for every answer that carries none. -/
def Reader.size : Reader → ℕ
  | [] => 0
  | .chunk available :: rest => available.bytes.length + Reader.size rest
  | _ :: rest => 1 + Reader.size rest

theorem size_consume_lt (available : Chunk) (n : ℕ) (rest : Reader) :
    Reader.size (consume available.bytes (n + 1) rest) <
      Reader.size (.chunk available :: rest) := by
  have hpos := List.length_pos_iff.mpr available.nonempty
  rw [consume]
  split
  · simp only [Reader.size]; omega
  · simp only [Reader.size, List.length_drop]; omega

theorem size_readLineLoop_le (maxBytes : ℕ) (r : Reader) (buffer : List UInt8) (oversized : Bool) :
    Reader.size (readLineLoop maxBytes r buffer oversized).2 ≤ Reader.size r := by
  induction r generalizing buffer oversized with
  | nil => simp [readLineLoop, Reader.size]
  | cons f rest ih =>
    cases f with
    | interrupted =>
      simp only [readLineLoop, Reader.size]
      exact (ih _ _).trans (by omega)
    | failed err => simp only [readLineLoop, Reader.size]; omega
    | chunk available =>
      simp only [readLineLoop]
      split
      · exact (size_consume_lt available _ rest).le
      · refine (ih _ _).trans ?_
        simp only [Reader.size]; omega

/-- **A read from a stream that is not at its end consumes something.** -/
theorem size_readLineCapped_lt {input : Reader} (h : input ≠ []) (maxBytes : ℕ) :
    Reader.size (readLineCapped input maxBytes).2 < Reader.size input := by
  cases input with
  | nil => exact absurd rfl h
  | cons f rest =>
    cases f with
    | interrupted =>
      have := size_readLineLoop_le maxBytes rest [] false
      simp only [readLineCapped, readLineLoop, Reader.size]
      omega
    | failed err => simp only [readLineCapped, readLineLoop, Reader.size]; omega
    | chunk available =>
      have hpos := List.length_pos_iff.mpr available.nonempty
      simp only [readLineCapped, readLineLoop]
      split
      · exact size_consume_lt available _ rest
      · refine (size_readLineLoop_le _ _ _ _).trans_lt ?_
        simp only [Reader.size]; omega

/-! ## The lines of a stream -/

/-- The bytes a reader delivers before it fails or ends. -/
def Reader.bytes : Reader → List UInt8
  | [] => []
  | .chunk available :: rest => available.bytes ++ Reader.bytes rest
  | .interrupted :: rest => Reader.bytes rest
  | .failed _ :: _ => []

/-- The error a reader ends in, if it does not end at end of file. -/
def Reader.failure : Reader → Option IoError
  | [] => none
  | .failed err :: _ => some err
  | _ :: rest => Reader.failure rest

/-- The lines of a stream that ended with `failure`: an unterminated last line counts, unless it is
empty or the stream broke off in it. -/
def framedLines (bytes : List UInt8) (failure : Option IoError) : List (List UInt8) :=
  let lines := Lines.cut newline bytes
  if failure = none ∧ lines.2 ≠ [] then lines.1 ++ [lines.2] else lines.1

/-- The lines of a stream, terminators excluded. -/
def Reader.framed (r : Reader) : List (List UInt8) :=
  framedLines (Reader.bytes r) (Reader.failure r)

theorem framedLines_cons {line : List UInt8} (h : newline ∉ line) (rest : List UInt8)
    (failure : Option IoError) :
    framedLines (line ++ newline :: rest) failure = line :: framedLines rest failure := by
  simp only [framedLines, Lines.cut_append_separator h]
  split <;> simp

theorem framedLines_of_notMem {tail : List UInt8} (h : newline ∉ tail)
    (failure : Option IoError) :
    framedLines tail failure = if failure = none ∧ tail ≠ [] then [tail] else [] := by
  simp only [framedLines, Lines.cut_of_notMem h, List.nil_append]

theorem bytes_consume (available : List UInt8) (n : ℕ) (rest : Reader) :
    Reader.bytes (consume available n rest) = available.drop n ++ Reader.bytes rest := by
  rw [consume]
  split
  · simp [*]
  · simp [Reader.bytes]

theorem failure_consume (available : List UInt8) (n : ℕ) (rest : Reader) :
    Reader.failure (consume available n rest) = Reader.failure rest := by
  rw [consume]
  split <;> simp [Reader.failure]

/-! ## What a read returns -/

/-- How a framed line is handed over under the cap. -/
def LineRead.ofLine (maxBytes : ℕ) (line : List UInt8) : LineRead :=
  if line.length > maxBytes then .oversized else .line line

/-- What a read of the stream with lines `lines` returns, and what it leaves behind. -/
def ReadsFirst (maxBytes : ℕ) (lines : List (List UInt8)) (failure : Option IoError)
    (result : Except IoError LineRead × Reader) : Prop :=
  match lines with
  | line :: rest =>
    result.1 = .ok (.ofLine maxBytes line) ∧ Reader.framed result.2 = rest ∧
      Reader.failure result.2 = failure
  | [] => result.1 = match failure with | some err => .error err | none => .ok .eof

/-- The buffer that stands for the part `seen` of the current line. -/
def capped (maxBytes : ℕ) (seen : List UInt8) : List UInt8 :=
  if seen.length > maxBytes then [] else seen

theorem pushCapped_capped (maxBytes : ℕ) (seen content : List UInt8) :
    pushCapped maxBytes (capped maxBytes seen) (decide (seen.length > maxBytes)) content =
      (capped maxBytes (seen ++ content), decide ((seen ++ content).length > maxBytes)) := by
  by_cases hs : seen.length > maxBytes
  · have hsc : (seen ++ content).length > maxBytes := by rw [List.length_append]; omega
    simp only [pushCapped, capped, hs, hsc, decide_true, if_true]
  · have hc : capped maxBytes seen = seen := by rw [capped, if_neg hs]
    simp only [pushCapped, hc, hs, decide_false, Bool.false_eq_true, if_false]
    rw [← List.length_append, capped]
    by_cases hsc : (seen ++ content).length > maxBytes
    · rw [if_pos hsc, if_pos hsc, decide_eq_true hsc]
    · rw [if_neg hsc, if_neg hsc, decide_eq_false hsc]

/-- The loop invariant: the buffer holds the part `seen` of the line read so far, or nothing once
that part is over the cap. -/
theorem readLineLoop_spec (maxBytes : ℕ) (r : Reader) (seen : List UInt8) (h : newline ∉ seen) :
    ReadsFirst maxBytes (framedLines (seen ++ Reader.bytes r) (Reader.failure r))
      (Reader.failure r)
      (readLineLoop maxBytes r (capped maxBytes seen) (decide (seen.length > maxBytes))) := by
  induction r generalizing seen with
  | nil =>
    rw [Reader.bytes, Reader.failure, List.append_nil, framedLines_of_notMem h]
    by_cases hseen : seen = []
    · subst hseen
      simp [ReadsFirst, readLineLoop, capped]
    · by_cases hlen : seen.length > maxBytes
      · simp [ReadsFirst, readLineLoop, hseen, hlen, LineRead.ofLine, Reader.framed,
          framedLines, Reader.bytes, Reader.failure, Lines.cut]
      · simp [ReadsFirst, readLineLoop, capped, hseen, hlen, LineRead.ofLine, Reader.framed,
          framedLines, Reader.bytes, Reader.failure, Lines.cut]
  | cons f rest ih =>
    cases f with
    | interrupted => simpa only [readLineLoop, Reader.bytes, Reader.failure] using ih seen h
    | failed err =>
      rw [Reader.bytes, Reader.failure, List.append_nil, framedLines_of_notMem h]
      simp [ReadsFirst, readLineLoop]
    | chunk available =>
      simp only [readLineLoop, Reader.bytes, Reader.failure]
      split
      · -- The chunk holds the end of the line.
        rename_i content hidx
        obtain ⟨hlt, hget, hbefore⟩ := List.idxOf?_eq_some_iff.mp hidx
        have hnot : newline ∉ seen ++ available.bytes.take content := by
          rw [List.mem_append, not_or]
          refine ⟨h, fun hmem => ?_⟩
          obtain ⟨i, hi, heq⟩ := List.mem_take_iff_getElem.mp hmem
          exact hbefore i (by omega) (by simpa using heq)
        have hsplit : available.bytes =
            available.bytes.take content ++ newline :: available.bytes.drop (content + 1) := by
          conv_lhs => rw [← List.take_append_drop content available.bytes,
            List.drop_eq_getElem_cons hlt, hget]
        have hstream : seen ++ (available.bytes ++ Reader.bytes rest) =
            (seen ++ available.bytes.take content) ++
              newline :: (available.bytes.drop (content + 1) ++ Reader.bytes rest) := by
          conv_lhs => rw [hsplit]
          simp only [List.append_assoc, List.cons_append]
        rw [hstream, framedLines_cons hnot, pushCapped_capped]
        refine ⟨?_, ?_, failure_consume _ _ _⟩
        · simp only [LineRead.ofLine, capped, decide_eq_true_eq]
          split
          · rfl
          · rfl
        · rw [Reader.framed, bytes_consume, failure_consume]
      · -- The chunk lies inside the line: it joins `seen`.
        rename_i hidx
        have hnot : newline ∉ available.bytes := List.idxOf?_eq_none_iff.mp hidx
        have hseen : newline ∉ seen ++ available.bytes := by
          rw [List.mem_append, not_or]
          exact ⟨h, hnot⟩
        rw [pushCapped_capped, ← List.append_assoc]
        exact ih _ hseen

/-- **Reading one line takes the first line of the stream**, whatever the chunks it comes in. -/
theorem readLineCapped_spec (r : Reader) (maxBytes : ℕ) :
    ReadsFirst maxBytes (Reader.framed r) (Reader.failure r) (readLineCapped r maxBytes) := by
  have h := readLineLoop_spec maxBytes r [] (by simp)
  simpa [capped, readLineCapped, Reader.framed] using h

end SemanticSidecar
