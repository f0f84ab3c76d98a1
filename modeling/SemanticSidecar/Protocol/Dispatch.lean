import SemanticSidecar.EngineTrait
import SemanticSidecar.Health
import SemanticSidecar.Lib.Text

/-!
# Answering one request line

The request half of `protocol.rs`: from the bytes of one line to the reply, or to no reply for a
blank line.  Every failure on the way is answered with an error envelope, so nothing here can end
the loop except a successful `shutdown`.

The definitions follow the source function by function.  The engine is threaded as a state, since
`embed` and `health_facts` may change it.

What the rest of the development needs to know about a reply is collected in two places.
`processLine_eq_none` says which lines are answered at all, and `processLine_shape` that a reply
is a `WireReply` for its line: one JSON object on one line, with the fixed schema and version, one
of `result` and `error`, a known error code, and the id that `lineRequestId` reads off the line.
-/

set_option autoImplicit false

namespace SemanticSidecar

/-! ## The envelope -/

/-- Schema identifier carried by every envelope. -/
def schema : String := "julie.embedding.sidecar"

/-- Protocol version carried by every envelope. -/
def version : ℕ := 1

/-- `INVALID_REQUEST`. -/
def invalidRequest : String := "invalid_request"
/-- `INVALID_JSON`. -/
def invalidJson : String := "invalid_json"
/-- `UNKNOWN_METHOD`. -/
def unknownMethod : String := "unknown_method"
/-- `INTERNAL_ERROR`. -/
def internalErrorCode : String := "internal_error"

/-- The codes an error can carry. -/
def errorCodes : List String := [invalidRequest, invalidJson, unknownMethod, internalErrorCode]

/-- `ErrorBody`: the error of a response. -/
structure ErrorBody where
  /-- One of the error codes. -/
  code : String
  /-- What is wrong, for a reader. -/
  message : String

/-- `Response`: the envelope of an answer. -/
structure Response where
  /-- The schema identifier. -/
  schema : String
  /-- The protocol version. -/
  version : ℕ
  /-- The id of the request, empty where there is none. -/
  requestId : String
  /-- The result, where the request succeeds. -/
  result : Option Value
  /-- The error, where it fails. -/
  error : Option ErrorBody

/-- The object a response is serialized as: an absent `result` or `error` is skipped. -/
def Response.toValue (r : Response) : Value :=
  .object ([("schema", .string r.schema), ("version", .number (.posInt r.version)),
      ("request_id", .string r.requestId)] ++
    (r.result.toList.map fun v => ("result", v)) ++
    (r.error.toList.map fun e =>
      ("error", .object [("code", .string e.code), ("message", .string e.message)])))

/-- `success`: a response with a result. -/
def success (requestId : String) (result : Value) : Response :=
  ⟨schema, version, requestId, some result, none⟩

/-- `failure`: a response with an error. -/
def failure (requestId code message : String) : Response :=
  ⟨schema, version, requestId, none, some ⟨code, message⟩⟩

/-- `internal_error`: a response with an error of the engine. -/
def internalError (requestId : String) (err : EngineError) : Response :=
  failure requestId internalErrorCode err.toString

/-- `Outcome`: a response, and what it means for the loop. -/
structure Outcome where
  /-- What is to be answered. -/
  response : Response
  /-- The loop is to end. -/
  stop : Bool

/-- An outcome after which the loop goes on. -/
def Outcome.reply (response : Response) : Outcome := ⟨response, false⟩

/-- Serialized response for one request line. -/
structure ProtocolReply where
  /-- The JSON of the response, without a line break behind it. -/
  line : String
  /-- The loop is to end once the line is written. -/
  stopConnection : Bool
  deriving DecidableEq

/-- The bytes a reply puts on the wire. -/
def ProtocolReply.bytes (reply : ProtocolReply) : List UInt8 :=
  Text.toUtf8 reply.line ++ [Text.newline]

/-! ## Validation -/

/-- `extract_request_id`: the first of the two keys that is present decides. -/
def extractRequestId (request : Members) : Except String String :=
  match request.lookup "request_id" with
  | some (.string id) => .ok id
  | some _ => .error "request_id must be a string"
  | none =>
    match request.lookup "id" with
    | some (.string id) => .ok id
    | some _ => .error "id must be a string"
    | none => .ok ""

section

variable (serde : SerdeJson)

/-- `validate_schema`: an absent schema passes, and so does null. -/
def validateSchema (request : Members) : Except String Unit :=
  match request.lookup "schema" with
  | none | some .null => .ok ()
  | some other =>
    if other.asStr = some schema then .ok ()
    else .error ("schema mismatch: expected '" ++ schema ++ "', got " ++ serde.toString other)

/-- Whether a value is a number that reads as the version. -/
def isVersion : Value → Bool
  | .number n => n.asF64 == Float.ofNat version
  | _ => false

/-- `validate_version`: an absent version passes, and so does null. -/
def validateVersion (request : Members) : Except String Unit :=
  match request.lookup "version" with
  | none | some .null => .ok ()
  | some other =>
    if isVersion other then .ok ()
    else .error ("unsupported version: expected " ++ toString version ++ ", got " ++
      serde.toString other)

/-! ## The methods -/

variable {σ : Type} (engine : EmbedEngine σ) (limits : Limits)

/-- `embed_query`: one text, and one vector for it. -/
def embedQuery (requestId : String) (params : Members) (s : σ) : Response × σ :=
  match params.lookup "text" with
  | some (.string text) =>
    match engine.embed [text] .query s with
    | (.error err, s) => (internalError requestId err, s)
    | (.ok output, s) =>
      match output.vectors with
      | [vector] =>
        if vector.length ≠ output.dims then
          (internalError requestId (.new "EmbeddingDimsError"
            ("expected " ++ toString output.dims ++ " dims, got " ++ toString vector.length)), s)
        else
          (success requestId (.object [("dims", .number (.posInt output.dims)),
            ("vector", vectorValue vector)]), s)
      | vectors =>
        (internalError requestId (.new "EmbeddingCountError"
          ("expected 1 vector, got " ++ toString vectors.length)), s)
  | _ => (failure requestId invalidRequest "embed_query params.text must be a string", s)

/-- The texts of an array of strings; `none` as soon as one item is not a string. -/
def stringTexts (rawTexts : List Value) : Option (List String) := rawTexts.mapM Json.asStr

/-- The position and length of the first vector that is not of the declared length. -/
def firstBadVector (output : EmbedOutput) : Option (ℕ × ℕ) :=
  (output.vectors.zipIdx.find? fun v => v.1.length ≠ output.dims).map fun v => (v.2, v.1.length)

/-- `embed_batch`: texts up to the limit, and a vector for each. -/
def embedBatch (requestId : String) (params : Members) (s : σ) : Response × σ :=
  match params.lookup "texts" with
  | some (.array rawTexts) =>
    if rawTexts.length > limits.maxBatchItems then
      (failure requestId invalidRequest ("embed_batch params.texts exceeds max_batch_items (" ++
        toString limits.maxBatchItems ++ "): got " ++ toString rawTexts.length), s)
    else
      match stringTexts rawTexts with
      | none =>
        (failure requestId invalidRequest "embed_batch params.texts must contain only strings", s)
      | some texts =>
        match engine.embed texts .document s with
        | (.error err, s) => (internalError requestId err, s)
        | (.ok output, s) =>
          if output.vectors.length ≠ texts.length then
            (internalError requestId (.new "EmbeddingCountError"
              ("expected " ++ toString texts.length ++ " vectors, got " ++
                toString output.vectors.length)), s)
          else
            match firstBadVector output with
            | some (index, actual) =>
              (internalError requestId (.new "EmbeddingDimsError"
                ("expected " ++ toString output.dims ++ " dims at index " ++ toString index ++
                  ", got " ++ toString actual)), s)
            | none =>
              (success requestId (.object [("dims", .number (.posInt output.dims)),
                ("vectors", .array (output.vectors.map vectorValue))]), s)
  | _ => (failure requestId invalidRequest "embed_batch params.texts must be an array", s)

/-- The result of a `shutdown`. -/
def stopping : Value := .object [("stopping", .bool true)]

/-- The answer to a request whose envelope is in order, by method. -/
def callMethod (requestId method : String) (params : Members) (s : σ) : Outcome × σ :=
  match method with
  | "health" =>
    match engine.healthFacts s with
    | (.ok facts, s) => (.reply (success requestId facts), s)
    | (.error err, s) => (.reply (internalError requestId err), s)
  | "embed_query" =>
    let (response, s) := embedQuery engine requestId params s
    (.reply response, s)
  | "embed_batch" =>
    let (response, s) := embedBatch engine limits requestId params s
    (.reply response, s)
  | "shutdown" => (⟨success requestId stopping, true⟩, s)
  | other => (.reply (failure requestId unknownMethod ("unknown method: " ++ other)), s)

/-- The `params` of a request; an absent one is empty. -/
def requestParams (request : Members) : Option Members :=
  match request.lookup "params" with
  | none => some []
  | some (.object params) => some params
  | some _ => none

/-- `dispatch`: the envelope is checked before the method is looked at. -/
def dispatch (request : Members) (s : σ) : Outcome × σ :=
  match extractRequestId request with
  | .error message => (.reply (failure "" invalidRequest message), s)
  | .ok requestId =>
    match validateSchema serde request >>= fun _ => validateVersion serde request with
    | .error message => (.reply (failure requestId invalidRequest message), s)
    | .ok () =>
      match request.lookup "method" with
      | some (.string method) =>
        match requestParams request with
        | none => (.reply (failure requestId invalidRequest "params must be an object"), s)
        | some params => callMethod engine limits requestId method params s
      | _ => (.reply (failure requestId invalidRequest "method must be a string"), s)

/-! ## A line -/

/-- `handle_line`: the outcome of a line, none where it is blank. -/
def handleLine (raw : List UInt8) (s : σ) : Option Outcome × σ :=
  match Text.fromUtf8 raw with
  | none =>
    (some (.reply (failure "" invalidJson "invalid json: line is not valid UTF-8")), s)
  | some text =>
    if (Text.trim text).isEmpty then (none, s)
    else
      match serde.fromStr (Text.trim text) with
      | .error err => (some (.reply (failure "" invalidJson ("invalid json: " ++ err))), s)
      | .ok (.object request) =>
        let (outcome, s) := dispatch serde engine limits request s
        (some outcome, s)
      | .ok _ => (some (.reply (failure "" invalidRequest "request must be an object")), s)

/-- `serialize_outcome`: the response as a line. -/
def serializeOutcome (outcome : Outcome) : ProtocolReply :=
  ⟨serde.toString outcome.response.toValue, outcome.stop⟩

/-- `process_line`: the reply to one bounded line, or none for a blank one. -/
def processLine (line : List UInt8) (s : σ) : Option ProtocolReply × σ :=
  let (outcome, s) := handleLine serde engine limits line s
  (outcome.map (serializeOutcome serde), s)

/-- `internal_error_reply`: an application failure through the same serializer. -/
def internalErrorReply (requestId kind message : String) : ProtocolReply :=
  serializeOutcome serde (.reply (internalError requestId (.new kind message)))

end

/-! ## What a request is, seen from outside

The three readings of a line that the rest of the development speaks in: whether it is blank, the
request object on it, and the id a reply to it carries. -/

/-- The line is white space throughout. -/
def Blank (line : List UInt8) : Prop :=
  ∃ text, Text.fromUtf8 line = some text ∧ ∀ c ∈ text.toList, Text.isWhitespace c = true

/-- The object a line holds once it is decoded, trimmed and parsed. -/
def requestObject (serde : SerdeJson) (line : List UInt8) : Option Members :=
  match Text.fromUtf8 line with
  | none => none
  | some text =>
    if (Text.trim text).isEmpty then none
    else
      match serde.fromStr (Text.trim text) with
      | .ok (.object request) => some request
      | _ => none

/-- The id of a request: the string under `request_id`; the string under `id` when there is no
`request_id`; and the empty string otherwise. -/
def memberRequestId (request : Members) : String :=
  match request.lookup "request_id" with
  | some v => v.asStr.getD ""
  | none => ((request.lookup "id").bind Json.asStr).getD ""

/-- The id of a line, empty where there is no request on it. -/
def lineRequestId (serde : SerdeJson) (line : List UInt8) : String :=
  ((requestObject serde line).map memberRequestId).getD ""

/-- The envelope is in order and the method is `shutdown`. -/
structure AcceptsShutdown (serde : SerdeJson) (request : Members) : Prop where
  /-- Its id is a text, or there is none. -/
  id : ∃ id, extractRequestId request = .ok id
  /-- Its schema passes. -/
  schema : validateSchema serde request = .ok ()
  /-- Its version passes. -/
  version : validateVersion serde request = .ok ()
  /-- Its method is `shutdown`. -/
  method : request.lookup "method" = some (.string "shutdown")
  /-- Its params are an object, or there are none. -/
  params : (requestParams request).isSome

/-- Both outcomes of `extract_request_id` answer with the id of the request. -/
theorem extractRequestId_spec (request : Members) :
    extractRequestId request = .ok (memberRequestId request) ∨
      (∃ message, extractRequestId request = .error message) ∧ memberRequestId request = "" := by
  rw [extractRequestId, memberRequestId]
  rcases hreq : request.lookup "request_id" with _ | v
  · rcases hid : request.lookup "id" with _ | v
    · exact Or.inl rfl
    · cases v <;> simp [Json.asStr]
  · cases v <;> simp [Json.asStr]

theorem extractRequestId_ok {request : Members} {id : String}
    (h : extractRequestId request = .ok id) : memberRequestId request = id := by
  rcases extractRequestId_spec request with hok | ⟨⟨message, herr⟩, -⟩
  · rw [hok] at h
    exact Except.ok.inj h
  · simp [herr] at h

theorem extractRequestId_error {request : Members} {message : String}
    (h : extractRequestId request = .error message) : memberRequestId request = "" := by
  rcases extractRequestId_spec request with hok | ⟨-, hempty⟩
  · simp [hok] at h
  · exact hempty

/-! ## The shape of a reply -/

/-- A response fit for the wire: the fixed envelope, one of result and error, a known code. -/
structure Response.WellFormed (requestId : String) (r : Response) : Prop where
  /-- The schema identifier is the fixed one. -/
  schema : r.schema = SemanticSidecar.schema
  /-- The version is the fixed one. -/
  version : r.version = SemanticSidecar.version
  /-- The id is the request's. -/
  requestId : r.requestId = requestId
  /-- It has a result or an error, and not both. -/
  exclusive : r.result.isSome = !r.error.isSome
  /-- The code of an error is one of the codes. -/
  code : ∀ e ∈ r.error, e.code ∈ errorCodes

theorem wellFormed_success (id : String) (result : Value) :
    (success id result).WellFormed id :=
  ⟨rfl, rfl, rfl, rfl, by simp [success]⟩

theorem wellFormed_failure (id message : String) {code : String} (h : code ∈ errorCodes) :
    (failure id code message).WellFormed id :=
  ⟨rfl, rfl, rfl, rfl, by simpa [failure] using h⟩

theorem wellFormed_internalError (id : String) (err : EngineError) :
    (internalError id err).WellFormed id :=
  wellFormed_failure id _ (by decide)

section

variable {serde : SerdeJson} {σ : Type} {engine : EmbedEngine σ} {limits : Limits}

theorem wellFormed_embedQuery (id : String) (params : Members) (s : σ) :
    (embedQuery engine id params s).1.WellFormed id := by
  rw [embedQuery]
  split
  · split
    · exact wellFormed_internalError id _
    · split
      · split
        · exact wellFormed_internalError id _
        · exact wellFormed_success id _
      · exact wellFormed_internalError id _
  · exact wellFormed_failure id _ (by decide)

theorem wellFormed_embedBatch (id : String) (params : Members) (s : σ) :
    (embedBatch engine limits id params s).1.WellFormed id := by
  rw [embedBatch]
  split
  · split
    · exact wellFormed_failure id _ (by decide)
    · split
      · exact wellFormed_failure id _ (by decide)
      · split
        · exact wellFormed_internalError id _
        · split
          · exact wellFormed_internalError id _
          · split
            · exact wellFormed_internalError id _
            · exact wellFormed_success id _
  · exact wellFormed_failure id _ (by decide)

theorem wellFormed_callMethod (id method : String) (params : Members) (s : σ) :
    (callMethod engine limits id method params s).1.response.WellFormed id := by
  unfold callMethod
  split
  · split
    · exact wellFormed_success id _
    · exact wellFormed_internalError id _
  · exact wellFormed_embedQuery id params s
  · exact wellFormed_embedBatch id params s
  · exact wellFormed_success id _
  · exact wellFormed_failure id _ (by decide)

theorem wellFormed_dispatch (request : Members) (s : σ) :
    (dispatch serde engine limits request s).1.response.WellFormed (memberRequestId request) := by
  rw [dispatch]
  split
  · rename_i message hid
    rw [extractRequestId_error hid]
    exact wellFormed_failure "" _ (by decide)
  · rename_i id hid
    rw [extractRequestId_ok hid]
    split
    · exact wellFormed_failure id _ (by decide)
    · split
      · split
        · exact wellFormed_failure id _ (by decide)
        · exact wellFormed_callMethod id _ _ s
      · exact wellFormed_failure id _ (by decide)

theorem callMethod_stop (id method : String) (params : Members) (s : σ) :
    (callMethod engine limits id method params s).1.stop = true ↔ method = "shutdown" := by
  unfold callMethod
  split
  · split <;> simp [Outcome.reply]
  · simp [Outcome.reply]
  · simp [Outcome.reply]
  · simp
  · rename_i h
    simpa [Outcome.reply] using h

/-- **Only an accepted `shutdown` stops the loop.** -/
theorem dispatch_stop (request : Members) (s : σ) :
    (dispatch serde engine limits request s).1.stop = true ↔ AcceptsShutdown serde request := by
  constructor
  · intro h
    rw [dispatch] at h
    split at h
    · simp [Outcome.reply] at h
    · rename_i id hid
      split at h
      · simp [Outcome.reply] at h
      · rename_i hvalid
        have hschema : validateSchema serde request = .ok () := by
          cases hs : validateSchema serde request with
          | error e => simp [hs, bind, Except.bind] at hvalid
          | ok u => rfl
        have hversion : validateVersion serde request = .ok () := by
          simpa [hschema, bind, Except.bind] using hvalid
        split at h
        · rename_i method hmethod
          split at h
          · simp [Outcome.reply] at h
          · rename_i params hparams
            rw [callMethod_stop] at h
            subst h
            exact ⟨⟨id, hid⟩, hschema, hversion, hmethod, by simp [hparams]⟩
        · simp [Outcome.reply] at h
  · rintro ⟨⟨id, hid⟩, hschema, hversion, hmethod, hparams⟩
    obtain ⟨params, hparams⟩ := Option.isSome_iff_exists.mp hparams
    simp only [dispatch, hid, hschema, hversion, hmethod, hparams, bind, Except.bind]
    exact (callMethod_stop id "shutdown" params s).mpr rfl

/-- An outcome that stops the loop is the success of that `shutdown`. -/
theorem dispatch_stopping {request : Members} {s : σ}
    (h : (dispatch serde engine limits request s).1.stop = true) :
    (dispatch serde engine limits request s).1.response =
      success (memberRequestId request) stopping := by
  obtain ⟨⟨id, hid⟩, hschema, hversion, hmethod, hparams⟩ := (dispatch_stop request s).mp h
  obtain ⟨params, hparams⟩ := Option.isSome_iff_exists.mp hparams
  rw [extractRequestId_ok hid]
  simp only [dispatch, hid, hschema, hversion, hmethod, hparams, bind, Except.bind, callMethod]

/-- A reply as a client of the line `line` sees it. -/
structure WireReply (serde : SerdeJson) (requestId : String) (reply : ProtocolReply) : Prop where
  /-- The line is the text of one JSON object with the members of a response. -/
  object : ∃ r : Response, r.WellFormed requestId ∧ reply.line = serde.toString r.toValue
  /-- The text has no newline in it. -/
  oneLine : Text.newline ∉ Text.toUtf8 reply.line

theorem wireReply_serialize (hfmt : serde.PrintsFloats) {requestId : String} {outcome : Outcome}
    (h : outcome.response.WellFormed requestId) :
    WireReply serde requestId (serializeOutcome serde outcome) :=
  ⟨⟨outcome.response, h, rfl⟩,
    fun hmem => SerdeJson.newline_notMem_toString hfmt _ (Text.newline_mem_toUtf8 hmem)⟩

theorem handleLine_eq_none (line : List UInt8) (s : σ) :
    (handleLine serde engine limits line s).1 = none ↔ Blank line := by
  rw [handleLine, Blank]
  split
  · rename_i h
    simp [h]
  · rename_i text htext
    simp only [htext, Option.some.injEq, exists_eq_left']
    by_cases hempty : (Text.trim text).isEmpty = true
    · simp only [hempty, if_true, true_iff]
      exact Text.trim_isEmpty.mp hempty
    · rw [if_neg hempty]
      have hnot : ¬ ∀ c ∈ text.toList, Text.isWhitespace c = true :=
        fun h => hempty (Text.trim_isEmpty.mpr h)
      constructor
      · intro h
        split at h <;> simp at h
      · exact fun h => absurd h hnot

/-- **A line is left unanswered exactly when it is blank.** -/
theorem processLine_eq_none (line : List UInt8) (s : σ) :
    (processLine serde engine limits line s).1 = none ↔ Blank line := by
  rw [← @handleLine_eq_none serde σ engine limits line s]
  simp [processLine]

theorem handleLine_some {line : List UInt8} {s : σ} {outcome : Outcome}
    (h : (handleLine serde engine limits line s).1 = some outcome) :
    outcome.response.WellFormed (lineRequestId serde line) ∧
      (outcome.stop = true ↔ ∃ request, requestObject serde line = some request ∧
        AcceptsShutdown serde request) ∧
      (outcome.stop = true → outcome.response = success (lineRequestId serde line) stopping) := by
  rw [handleLine] at h
  rw [lineRequestId, requestObject]
  split at h
  · rename_i htext
    simp only [Option.some.injEq] at h
    subst h
    exact ⟨wellFormed_failure _ _ (by decide), by simp [Outcome.reply], by simp [Outcome.reply]⟩
  · rename_i text htext
    by_cases hempty : (Text.trim text).isEmpty = true
    · simp [hempty] at h
    · rw [if_neg hempty] at h ⊢
      split at h
      · rename_i err hparse
        simp only [Option.some.injEq] at h
        subst h
        simp only [hparse]
        exact ⟨wellFormed_failure _ _ (by decide), by simp [Outcome.reply],
          by simp [Outcome.reply]⟩
      · rename_i request hparse
        simp only [Option.some.injEq] at h
        subst h
        simp only [hparse, Option.map_some, Option.getD_some, Option.some.injEq,
          exists_eq_left']
        exact ⟨wellFormed_dispatch request s, dispatch_stop request s, dispatch_stopping⟩
      · rename_i v hnot hparse
        simp only [Option.some.injEq] at h
        subst h
        have hobject : (match serde.fromStr (Text.trim text) with
            | .ok (.object request) => some request
            | _ => none) = (none : Option Members) := by
          rw [hparse]
          cases v <;> simp_all
        rw [hobject]
        exact ⟨wellFormed_failure _ _ (by decide), by simp [Outcome.reply],
          by simp [Outcome.reply]⟩

/-- **The shape of a reply**, and when it ends the loop. -/
theorem processLine_shape (hfmt : serde.PrintsFloats) {line : List UInt8} {s : σ}
    {reply : ProtocolReply} (h : (processLine serde engine limits line s).1 = some reply) :
    WireReply serde (lineRequestId serde line) reply ∧
      (reply.stopConnection = true ↔ ∃ request, requestObject serde line = some request ∧
        AcceptsShutdown serde request) ∧
      (reply.stopConnection = true →
        reply.line = serde.toString (success (lineRequestId serde line) stopping).toValue) := by
  simp only [processLine, Option.map_eq_some_iff] at h
  obtain ⟨outcome, houtcome, rfl⟩ := h
  obtain ⟨hshape, hstop, hstopping⟩ := handleLine_some houtcome
  exact ⟨wireReply_serialize hfmt hshape, hstop,
    fun h => by rw [serializeOutcome, hstopping h]⟩

end

end SemanticSidecar
