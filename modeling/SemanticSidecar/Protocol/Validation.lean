import SemanticSidecar.Protocol.Dispatch

/-!
# Validation comes before the engine

`dispatch` checks a request while it answers it.  `lineRequest` does the checking alone: it reads
off a line what is asked for, or with what error the line is turned away, and knows neither the
engine nor its state.  `answer` does what is asked for.  `handleLine_eq_answer` puts the two
together, so that no check of a request is left when the engine is called.

`Accepts` and `AsksEmbed` say in the terms of the protocol which lines ask for an embedding, and
`processLine_embed` what becomes of all of them, over an engine that notes its calls.

The order of the checks is part of this.  The id is looked at first, since every answer needs it,
then the schema and the version, the method, the params, and at last what the method asks of its
params, in which the number of texts comes before their type.  A line with several faults is turned
away for the first of them.

`EmbedEngine.noting` is the engine with its calls written down.  A line that does not ask for an
embedding makes no `embed` call, and one that does makes exactly one, with the texts of the line and
the role of the method.
-/

set_option autoImplicit false

namespace SemanticSidecar

/-! ## What a line asks for -/

/-- What is read off a line before the engine is called. -/
inductive LineRequest where
  /-- The line is white space. -/
  | blank
  /-- The line is turned away. -/
  | rejected (requestId code message : String)
  /-- The line asks for the facts of the engine. -/
  | health (requestId : String)
  /-- The line asks for the end of the loop. -/
  | shutdown (requestId : String)
  /-- The line asks for vectors. -/
  | embed (requestId : String) (texts : List String) (role : Role)

/-- What a method asks for. -/
def methodRequest (limits : Limits) (requestId method : String) (params : Members) :
    LineRequest :=
  match method with
  | "health" => .health requestId
  | "embed_query" =>
    match params.lookup "text" with
    | some (.string text) => .embed requestId [text] .query
    | _ => .rejected requestId invalidRequest "embed_query params.text must be a string"
  | "embed_batch" =>
    match params.lookup "texts" with
    | some (.array rawTexts) =>
      if rawTexts.length > limits.maxBatchItems then
        .rejected requestId invalidRequest ("embed_batch params.texts exceeds max_batch_items (" ++
          toString limits.maxBatchItems ++ "): got " ++ toString rawTexts.length)
      else
        match stringTexts rawTexts with
        | none =>
          .rejected requestId invalidRequest "embed_batch params.texts must contain only strings"
        | some texts => .embed requestId texts .document
    | _ => .rejected requestId invalidRequest "embed_batch params.texts must be an array"
  | "shutdown" => .shutdown requestId
  | other => .rejected requestId unknownMethod ("unknown method: " ++ other)

section

variable (serde : SerdeJson)

/-- What an object asks for. -/
def objectRequest (limits : Limits) (request : Members) : LineRequest :=
  match extractRequestId request with
  | .error message => .rejected "" invalidRequest message
  | .ok requestId =>
    match validateSchema serde request >>= fun _ => validateVersion serde request with
    | .error message => .rejected requestId invalidRequest message
    | .ok () =>
      match request.lookup "method" with
      | some (.string method) =>
        match requestParams request with
        | none => .rejected requestId invalidRequest "params must be an object"
        | some params => methodRequest limits requestId method params
      | _ => .rejected requestId invalidRequest "method must be a string"

/-- What a line asks for. -/
def lineRequest (limits : Limits) (raw : List UInt8) : LineRequest :=
  match Text.fromUtf8 raw with
  | none => .rejected "" invalidJson "invalid json: line is not valid UTF-8"
  | some text =>
    if (Text.trim text).isEmpty then .blank
    else
      match serde.fromStr (Text.trim text) with
      | .error err => .rejected "" invalidJson ("invalid json: " ++ err)
      | .ok (.object request) => objectRequest serde limits request
      | .ok _ => .rejected "" invalidRequest "request must be an object"

end

/-! ## Answering it -/

/-- The answer to an `embed_query`, from what the engine gave. -/
def queryResponse (requestId : String) : Except EngineError EmbedOutput → Response
  | .error err => internalError requestId err
  | .ok output =>
    match output.vectors with
    | [vector] =>
      if vector.length ≠ output.dims then
        internalError requestId (.new "EmbeddingDimsError"
          ("expected " ++ toString output.dims ++ " dims, got " ++ toString vector.length))
      else
        success requestId (.object [("dims", .number (.posInt output.dims)),
          ("vector", vectorValue vector)])
    | vectors =>
      internalError requestId (.new "EmbeddingCountError"
        ("expected 1 vector, got " ++ toString vectors.length))

/-- The answer to an `embed_batch`, from what the engine gave. -/
def batchResponse (requestId : String) (texts : List String) :
    Except EngineError EmbedOutput → Response
  | .error err => internalError requestId err
  | .ok output =>
    if output.vectors.length ≠ texts.length then
      internalError requestId (.new "EmbeddingCountError"
        ("expected " ++ toString texts.length ++ " vectors, got " ++
          toString output.vectors.length))
    else
      match firstBadVector output with
      | some (index, actual) =>
        internalError requestId (.new "EmbeddingDimsError"
          ("expected " ++ toString output.dims ++ " dims at index " ++ toString index ++
            ", got " ++ toString actual))
      | none =>
        success requestId (.object [("dims", .number (.posInt output.dims)),
          ("vectors", .array (output.vectors.map vectorValue))])

/-- The answer to a request for an embedding. -/
def embedResponse (requestId : String) (texts : List String) :
    Role → Except EngineError EmbedOutput → Response
  | .query, result => queryResponse requestId result
  | .document, result => batchResponse requestId texts result

/-- The answer to a `health` request. -/
def healthResponse (requestId : String) : Except EngineError Value → Response
  | .ok facts => success requestId facts
  | .error err => internalError requestId err

section

variable {σ : Type} (engine : EmbedEngine σ)

/-- The engine is called for what is asked, and for nothing else. -/
def answer : LineRequest → σ → Option Outcome × σ
  | .blank, s => (none, s)
  | .rejected requestId code message, s => (some (.reply (failure requestId code message)), s)
  | .health requestId, s =>
    (some (.reply (healthResponse requestId (engine.healthFacts s).1)), (engine.healthFacts s).2)
  | .shutdown requestId, s => (some ⟨success requestId stopping, true⟩, s)
  | .embed requestId texts role, s =>
    (some (.reply (embedResponse requestId texts role (engine.embed texts role s).1)),
      (engine.embed texts role s).2)

variable {engine}

/-- The `embed_query` of the source, checked before it is answered. -/
theorem embedQuery_eq_answer (limits : Limits) (requestId : String) (params : Members) (s : σ) :
    answer engine (methodRequest limits requestId "embed_query" params) s =
      (some (.reply (embedQuery engine requestId params s).1),
        (embedQuery engine requestId params s).2) := by
  rw [methodRequest, embedQuery]
  rcases params.lookup "text" with _ | (_ | _ | _ | text | _ | _)
  · rfl
  · rfl
  · rfl
  · rfl
  · dsimp only
    rw [answer]
    rcases engine.embed [text] .query s with ⟨err | output, s'⟩
    · rfl
    · dsimp only
      rw [embedResponse, queryResponse]
      rcases output.vectors with _ | ⟨vector, _ | ⟨second, rest⟩⟩
      · rfl
      · dsimp only
        split
        · rfl
        · rfl
      · rfl
  · rfl
  · rfl

/-- The `embed_batch` of the source, checked before it is answered. -/
theorem embedBatch_eq_answer (limits : Limits) (requestId : String) (params : Members) (s : σ) :
    answer engine (methodRequest limits requestId "embed_batch" params) s =
      (some (.reply (embedBatch engine limits requestId params s).1),
        (embedBatch engine limits requestId params s).2) := by
  rw [methodRequest, embedBatch]
  rcases params.lookup "texts" with _ | (_ | _ | _ | _ | rawTexts | _)
  · rfl
  · rfl
  · rfl
  · rfl
  · rfl
  · dsimp only
    split
    · rfl
    · rcases stringTexts rawTexts with _ | texts
      · rfl
      · dsimp only
        rw [answer]
        rcases engine.embed texts .document s with ⟨err | output, s'⟩
        · rfl
        · dsimp only
          rw [embedResponse, batchResponse]
          split
          · rfl
          · rcases firstBadVector output with _ | ⟨index, actual⟩
            · rfl
            · rfl
  · rfl

theorem callMethod_eq_answer (limits : Limits) (requestId method : String) (params : Members)
    (s : σ) :
    answer engine (methodRequest limits requestId method params) s =
      (some (callMethod engine limits requestId method params s).1,
        (callMethod engine limits requestId method params s).2) := by
  rw [callMethod.eq_def]
  split
  · rw [methodRequest, answer]
    rcases engine.healthFacts s with ⟨err | facts, s'⟩
    · rfl
    · rfl
  · exact embedQuery_eq_answer limits requestId params s
  · exact embedBatch_eq_answer limits requestId params s
  · rfl
  · rename_i hhealth hquery hbatch hshutdown
    rw [methodRequest.eq_def]
    split
    · exact absurd rfl hhealth
    · exact absurd rfl hquery
    · exact absurd rfl hbatch
    · exact absurd rfl hshutdown
    · rfl

theorem dispatch_eq_answer (serde : SerdeJson) (limits : Limits) (request : Members) (s : σ) :
    answer engine (objectRequest serde limits request) s =
      (some (dispatch serde engine limits request s).1,
        (dispatch serde engine limits request s).2) := by
  rw [objectRequest, dispatch]
  rcases extractRequestId request with message | requestId
  · rfl
  · dsimp only
    rcases validateSchema serde request >>= fun _ => validateVersion serde request with message | _
    · rfl
    · dsimp only
      rcases request.lookup "method" with _ | (_ | _ | _ | method | _ | _)
      · rfl
      · rfl
      · rfl
      · rfl
      · dsimp only
        rcases requestParams request with _ | params
        · rfl
        · exact callMethod_eq_answer limits requestId method params s
      · rfl
      · rfl

/-- **The checks come first**: a line is read without the engine, and the engine does what was
read. -/
theorem handleLine_eq_answer (serde : SerdeJson) (limits : Limits) (line : List UInt8) (s : σ) :
    handleLine serde engine limits line s = answer engine (lineRequest serde limits line) s := by
  rw [handleLine, lineRequest]
  rcases Text.fromUtf8 line with _ | text
  · rfl
  · dsimp only
    split
    · rfl
    · rcases serde.fromStr (Text.trim text) with err | (_ | _ | _ | _ | _ | request)
      · rfl
      · rfl
      · rfl
      · rfl
      · rfl
      · rfl
      · exact (dispatch_eq_answer serde limits request s).symm

end

/-! ## What the protocol accepts -/

/-- The envelope of a request is in order. -/
structure Accepts (request : Members) (method : String) (params : Members) : Prop where
  /-- The id is a text under one of its two keys, or there is none. -/
  id : (∃ id, request.lookup "request_id" = some (.string id)) ∨
    request.lookup "request_id" = none ∧
      (request.lookup "id" = none ∨ ∃ id, request.lookup "id" = some (.string id))
  /-- The schema is the fixed one, null or absent. -/
  schema : ∀ v, request.lookup "schema" = some v → v = .null ∨ v = .string SemanticSidecar.schema
  /-- The version is the fixed one, null or absent. -/
  version : ∀ v, request.lookup "version" = some v → v = .null ∨ isVersion v = true
  /-- The method is this text. -/
  method : request.lookup "method" = some (.string method)
  /-- The params are this object, or absent and empty. -/
  params : request.lookup "params" = some (.object params) ∨
    request.lookup "params" = none ∧ params = []

/-- The line asks for an embedding of these texts. -/
inductive AsksEmbed (serde : SerdeJson) (limits : Limits) (line : List UInt8) :
    List String → Role → Prop
  /-- One text, by `embed_query`. -/
  | query {request params : Members} {text : String}
      (object : requestObject serde line = some request)
      (envelope : Accepts request "embed_query" params)
      (hasText : params.lookup "text" = some (.string text)) :
      AsksEmbed serde limits line [text] .query
  /-- Texts up to the limit, by `embed_batch`. -/
  | batch {request params : Members} {texts : List String}
      (object : requestObject serde line = some request)
      (envelope : Accepts request "embed_batch" params)
      (hasTexts : params.lookup "texts" = some (.array (texts.map .string)))
      (count : texts.length ≤ limits.maxBatchItems) :
      AsksEmbed serde limits line texts .document

/-- The line asks for something that takes no text: `health` or `shutdown`. -/
def AsksOther (serde : SerdeJson) (line : List UInt8) : Prop :=
  ∃ request params, requestObject serde line = some request ∧
    (Accepts request "health" params ∨ Accepts request "shutdown" params)

section

variable {serde : SerdeJson} {limits : Limits} {request params : Members} {method : String}

theorem extractRequestId_isOk (request : Members) :
    (∃ id, extractRequestId request = .ok id) ↔
      (∃ id, request.lookup "request_id" = some (.string id)) ∨
        request.lookup "request_id" = none ∧
          (request.lookup "id" = none ∨ ∃ id, request.lookup "id" = some (.string id)) := by
  rw [extractRequestId]
  rcases request.lookup "request_id" with _ | (_ | _ | _ | id | _ | _)
  · rcases request.lookup "id" with _ | (_ | _ | _ | id | _ | _)
    all_goals simp
  all_goals simp

theorem validateSchema_eq_ok (request : Members) :
    validateSchema serde request = .ok () ↔
      ∀ v, request.lookup "schema" = some v → v = .null ∨ v = .string schema := by
  rw [validateSchema]
  rcases request.lookup "schema" with _ | (_ | _ | _ | text | _ | _)
  all_goals simp [Json.asStr]

theorem validateVersion_eq_ok (request : Members) :
    validateVersion serde request = .ok () ↔
      ∀ v, request.lookup "version" = some v → v = .null ∨ isVersion v = true := by
  rw [validateVersion]
  rcases request.lookup "version" with _ | (_ | _ | _ | text | _ | _)
  all_goals simp

theorem requestParams_eq_some (request params : Members) :
    requestParams request = some params ↔ request.lookup "params" = some (.object params) ∨
      request.lookup "params" = none ∧ params = [] := by
  rw [requestParams]
  rcases request.lookup "params" with _ | (_ | _ | _ | text | _ | _)
  all_goals simp [eq_comm]

/-- The request is turned away with one of the codes for it. -/
def LineRequest.IsRejected (asked : LineRequest) : Prop :=
  ∃ requestId message, ∃ code ∈ [invalidRequest, invalidJson, unknownMethod],
    asked = .rejected requestId code message

theorem isRejected_invalidRequest (requestId message : String) :
    (LineRequest.rejected requestId invalidRequest message).IsRejected :=
  ⟨requestId, message, invalidRequest, by simp, rfl⟩

theorem objectRequest_of_accepts (h : Accepts request method params) :
    objectRequest serde limits request =
      methodRequest limits (memberRequestId request) method params := by
  obtain ⟨id, hid⟩ := (extractRequestId_isOk request).mpr h.id
  rw [extractRequestId_ok hid]
  simp only [objectRequest, hid, (validateSchema_eq_ok request).mpr h.schema,
    (validateVersion_eq_ok request).mpr h.version, h.method,
    (requestParams_eq_some request params).mpr h.params, bind, Except.bind]

/-- An object whose envelope is out of order is turned away. -/
theorem objectRequest_cases (serde : SerdeJson) (limits : Limits) (request : Members) :
    (∃ method params, Accepts request method params) ∨
      (objectRequest serde limits request).IsRejected := by
  rw [objectRequest]
  rcases hid : extractRequestId request with message | requestId
  · exact Or.inr (isRejected_invalidRequest _ _)
  dsimp only
  rcases hschema : validateSchema serde request with message | _
  · exact Or.inr (isRejected_invalidRequest _ _)
  rcases hversion : validateVersion serde request with message | _
  · exact Or.inr (isRejected_invalidRequest _ _)
  by_cases hmethod : ∃ method, request.lookup "method" = some (.string method)
  · obtain ⟨method, hmethod⟩ := hmethod
    rcases hparams : requestParams request with _ | params
    · refine Or.inr ?_
      simp only [hmethod, bind, Except.bind]
      exact isRejected_invalidRequest _ _
    · refine Or.inl ⟨method, params, ?_, ?_, ?_, hmethod, ?_⟩
      · exact (extractRequestId_isOk request).mp ⟨requestId, hid⟩
      · exact (validateSchema_eq_ok request).mp hschema
      · exact (validateVersion_eq_ok request).mp hversion
      · exact (requestParams_eq_some request params).mp hparams
  · refine Or.inr ?_
    simp only [bind, Except.bind]
    split
    · exact absurd ⟨_, ‹_›⟩ hmethod
    · exact isRejected_invalidRequest _ _

theorem stringTexts_eq_some {rawTexts : List Value} {texts : List String} :
    stringTexts rawTexts = some texts ↔ rawTexts = texts.map .string := by
  rw [stringTexts]
  induction rawTexts generalizing texts with
  | nil => simp [eq_comm]
  | cons value rest ih =>
    have hhead : ∀ text, value.asStr = some text ↔ value = .string text := by
      intro text
      cases value <;> simp [Json.asStr]
    simp only [List.mapM_cons, Option.bind_eq_bind, Option.bind_eq_some_iff, hhead, ih, Option.pure_def,
      Option.some.injEq]
    constructor
    · rintro ⟨text, rfl, more, rfl, rfl⟩
      rfl
    · intro h
      obtain ⟨text, more, rfl, rfl, hmore⟩ := List.map_eq_cons_iff.mp h.symm
      exact ⟨text, rfl, more, hmore.symm, rfl⟩

theorem map_string_inj {texts texts' : List String} :
    (texts.map .string : List Value) = texts'.map .string ↔ texts = texts' :=
  List.map_inj_right fun _ _ => Json.string.inj

/-- What the two embedding methods ask for. -/
theorem methodRequest_eq_embed {requestId id : String} {texts : List String} {role : Role} :
    methodRequest limits requestId method params = .embed id texts role ↔ id = requestId ∧
      ((method = "embed_query" ∧ role = .query ∧
          ∃ text, params.lookup "text" = some (.string text) ∧ texts = [text]) ∨
        method = "embed_batch" ∧ role = .document ∧
          params.lookup "texts" = some (.array (texts.map .string)) ∧
          texts.length ≤ limits.maxBatchItems) := by
  rw [methodRequest.eq_def]
  split
  · simp
  · rcases params.lookup "text" with _ | (_ | _ | _ | text | _ | _)
    all_goals simp [eq_comm]
    tauto
  · rcases params.lookup "texts" with _ | (_ | _ | _ | _ | rawTexts | _)
    case some.array =>
      dsimp only
      split
      · rename_i hcount
        simp only [reduceCtorEq, Option.some.injEq, Json.array.injEq, false_iff, not_and]
        rintro rfl (⟨h, -⟩ | ⟨-, -, rfl, hle⟩)
        · exact absurd h (by decide)
        · rw [List.length_map] at hcount
          omega
      · rename_i hcount
        rcases htexts : stringTexts rawTexts with _ | parsed
        · simp only [reduceCtorEq, Option.some.injEq, Json.array.injEq, false_iff, not_and]
          rintro rfl (⟨h, -⟩ | ⟨-, -, hmap, -⟩)
          · exact absurd h (by decide)
          · rw [stringTexts_eq_some.mpr hmap] at htexts
            cases htexts
        · obtain rfl := stringTexts_eq_some.mp htexts
          have hle : parsed.length ≤ limits.maxBatchItems := by
            rw [List.length_map] at hcount
            omega
          simp only [LineRequest.embed.injEq, Option.some.injEq, Json.array.injEq,
            map_string_inj]
          constructor
          · rintro ⟨rfl, rfl, rfl⟩
            exact ⟨rfl, Or.inr ⟨trivial, rfl, rfl, hle⟩⟩
          · rintro ⟨rfl, ⟨h, -⟩ | ⟨-, rfl, rfl, -⟩⟩
            · exact absurd h (by decide)
            · exact ⟨rfl, rfl, rfl⟩
    all_goals simp [eq_comm]
  · simp
  · rename_i hquery hbatch _
    simp only [reduceCtorEq, false_iff, not_and]
    rintro rfl (⟨h, -⟩ | ⟨h, -⟩)
    · exact hquery h
    · exact hbatch h

/-- A method asks for an embedding, takes no text, or is turned away. -/
theorem methodRequest_cases (limits : Limits) (requestId method : String) (params : Members) :
    (∃ texts role, methodRequest limits requestId method params = .embed requestId texts role) ∨
      (method = "health" ∨ method = "shutdown") ∨
      (methodRequest limits requestId method params).IsRejected := by
  rw [methodRequest.eq_def]
  split
  · exact Or.inr (Or.inl (Or.inl rfl))
  · split
    · exact Or.inl ⟨_, _, rfl⟩
    · exact Or.inr (Or.inr (isRejected_invalidRequest _ _))
  · split
    · split
      · exact Or.inr (Or.inr (isRejected_invalidRequest _ _))
      · split
        · exact Or.inr (Or.inr (isRejected_invalidRequest _ _))
        · exact Or.inl ⟨_, _, rfl⟩
    · exact Or.inr (Or.inr (isRejected_invalidRequest _ _))
  · exact Or.inr (Or.inl (Or.inr rfl))
  · exact Or.inr (Or.inr ⟨_, _, unknownMethod, by simp, rfl⟩)

/-- The line of an object asks for what the object does. -/
theorem lineRequest_of_object {line : List UInt8} (h : requestObject serde line = some request) :
    lineRequest serde limits line = objectRequest serde limits request := by
  rw [requestObject] at h
  rw [lineRequest]
  rcases htext : Text.fromUtf8 line with _ | text
  · rw [htext] at h
    cases h
  · rw [htext] at h
    dsimp only at h ⊢
    split at h
    · cases h
    · rw [if_neg ‹_›]
      rcases hvalue : serde.fromStr (Text.trim text) with err | (_ | _ | _ | _ | _ | members)
      case ok.object =>
        rw [hvalue] at h
        rw [Option.some.inj h]
      all_goals
        rw [hvalue] at h
        cases h

/-- A line without an object is blank or turned away. -/
theorem lineRequest_of_none {line : List UInt8} (h : requestObject serde line = none) :
    lineRequest serde limits line = .blank ∧ Blank line ∨
      (lineRequest serde limits line).IsRejected := by
  rw [requestObject] at h
  rw [lineRequest]
  rcases htext : Text.fromUtf8 line with _ | text
  · exact Or.inr ⟨_, _, invalidJson, by simp, rfl⟩
  · rw [htext] at h
    dsimp only at h ⊢
    split
    · exact Or.inl ⟨rfl, text, htext, Text.trim_isEmpty.mp ‹_›⟩
    · rw [if_neg ‹_›] at h
      split
      · exact Or.inr ⟨_, _, invalidJson, by simp, rfl⟩
      · rw [‹serde.fromStr _ = _›] at h
        cases h
      · exact Or.inr (isRejected_invalidRequest _ _)

/-- **The lines that ask for an embedding.** -/
theorem lineRequest_eq_embed {line : List UInt8} {id : String} {texts : List String} {role : Role} :
    lineRequest serde limits line = .embed id texts role ↔
      id = lineRequestId serde line ∧ AsksEmbed serde limits line texts role := by
  constructor
  · intro h
    rcases hobject : requestObject serde line with _ | request
    · rcases @lineRequest_of_none serde limits line hobject with ⟨hblank, -⟩ | ⟨_, _, _, -, hrejected⟩
      · rw [hblank] at h
        cases h
      · rw [hrejected] at h
        cases h
    · rw [lineRequest_of_object hobject] at h
      rcases objectRequest_cases serde limits request with ⟨method, params, haccepts⟩ |
        ⟨_, _, _, -, hrejected⟩
      · rw [objectRequest_of_accepts haccepts] at h
        obtain ⟨rfl, ⟨rfl, rfl, text, htext, rfl⟩ | ⟨rfl, rfl, htexts, hcount⟩⟩ :=
          methodRequest_eq_embed.mp h
        · exact ⟨by simp [lineRequestId, hobject], .query hobject haccepts htext⟩
        · exact ⟨by simp [lineRequestId, hobject], .batch hobject haccepts htexts hcount⟩
      · rw [hrejected] at h
        cases h
  · rintro ⟨rfl, hasks⟩
    rcases hasks with ⟨hobject, haccepts, htext⟩ | ⟨hobject, haccepts, htexts, hcount⟩
    · rw [lineRequest_of_object hobject, objectRequest_of_accepts haccepts]
      refine methodRequest_eq_embed.mpr ⟨by simp [lineRequestId, hobject], Or.inl ?_⟩
      exact ⟨rfl, rfl, _, htext, rfl⟩
    · rw [lineRequest_of_object hobject, objectRequest_of_accepts haccepts]
      refine methodRequest_eq_embed.mpr ⟨by simp [lineRequestId, hobject], Or.inr ?_⟩
      exact ⟨rfl, rfl, htexts, hcount⟩

/-- Every other line that is not blank asks for `health` or `shutdown`, or is turned away. -/
theorem lineRequest_rejected {line : List UInt8} (hblank : ¬ Blank line)
    (hembed : ∀ texts role, ¬ AsksEmbed serde limits line texts role)
    (hother : ¬ AsksOther serde line) : (lineRequest serde limits line).IsRejected := by
  rcases hobject : requestObject serde line with _ | request
  · rcases lineRequest_of_none hobject with ⟨-, hline⟩ | hrejected
    · exact absurd hline hblank
    · exact hrejected
  · rcases objectRequest_cases serde limits request with ⟨method, params, haccepts⟩ | hrejected
    · rw [lineRequest_of_object hobject, objectRequest_of_accepts haccepts]
      rcases methodRequest_cases limits (memberRequestId request) method params with
        ⟨texts, role, hasks⟩ | (rfl | rfl) | hrejected
      · have hline : lineRequest serde limits line =
            .embed (memberRequestId request) texts role := by
          rw [lineRequest_of_object hobject, objectRequest_of_accepts haccepts, hasks]
        exact absurd (lineRequest_eq_embed.mp hline).2 (hembed texts role)
      · exact absurd ⟨request, params, hobject, Or.inl haccepts⟩ hother
      · exact absurd ⟨request, params, hobject, Or.inr haccepts⟩ hother
      · exact hrejected
    · rw [lineRequest_of_object hobject]
      exact hrejected

end

/-! ## The answer to a request for an embedding -/

/-- The engine gave one vector for every text, each as long as it declared. -/
def Serves (texts : List String) (output : EmbedOutput) : Prop :=
  output.vectors.length = texts.length ∧ ∀ vector ∈ output.vectors, vector.length = output.dims

/-- The `result` of an embedding: one vector for a query, a list of them for a batch. -/
def servedResult (output : EmbedOutput) : Role → Value
  | .query => .object [("dims", .number (.posInt output.dims)),
      ("vector", (output.vectors.map vectorValue).headD .null)]
  | .document => .object [("dims", .number (.posInt output.dims)),
      ("vectors", .array (output.vectors.map vectorValue))]

/-- A response to a request for an embedding that the engine answered with `result`. -/
structure IsEmbedResponse (requestId : String) (texts : List String) (role : Role)
    (result : Except EngineError EmbedOutput) (response : Response) : Prop where
  /-- It has the id of the request. -/
  id : response.requestId = requestId
  /-- It is a success if and only if the engine served every text. -/
  success_iff : response.error = none ↔ ∃ output, result = .ok output ∧ Serves texts output
  /-- A success has what the engine computed. -/
  served : ∀ output, result = .ok output → Serves texts output →
    response = success requestId (servedResult output role)
  /-- Everything else is an internal error. -/
  failed : (∀ output, result = .ok output → ¬ Serves texts output) →
    ∃ message, response = failure requestId internalErrorCode message

theorem isEmbedResponse_internalError {requestId : String} {texts : List String} {role : Role}
    {result : Except EngineError EmbedOutput} {err : EngineError}
    (h : ∀ output, result = .ok output → ¬ Serves texts output) :
    IsEmbedResponse requestId texts role result (internalError requestId err) := by
  refine ⟨rfl, ⟨fun hnone => absurd hnone (by simp [internalError, failure]), ?_⟩, ?_, ?_⟩
  · rintro ⟨output, hok, hserves⟩
    exact absurd hserves (h output hok)
  · exact fun output hok hserves => absurd hserves (h output hok)
  · exact fun _ => ⟨err.toString, rfl⟩

theorem isEmbedResponse_success {requestId : String} {texts : List String} {role : Role}
    {output : EmbedOutput} (h : Serves texts output) :
    IsEmbedResponse requestId texts role (.ok output)
      (success requestId (servedResult output role)) := by
  refine ⟨rfl, ⟨fun _ => ⟨output, rfl, h⟩, fun _ => rfl⟩, ?_, fun hnot => absurd h (hnot output rfl)⟩
  intro served hok _
  rw [Except.ok.inj hok]

theorem firstBadVector_eq_none {output : EmbedOutput} :
    firstBadVector output = none ↔ ∀ vector ∈ output.vectors, vector.length = output.dims := by
  rw [firstBadVector, Option.map_eq_none_iff, List.find?_eq_none]
  constructor
  · intro h vector hvector
    obtain ⟨i, hi, rfl⟩ := List.getElem_of_mem hvector
    have hmem : (output.vectors[i], i) ∈ output.vectors.zipIdx :=
      List.mem_zipIdx_iff_getElem?.mpr (List.getElem?_eq_getElem hi)
    simpa using h _ hmem
  · rintro h ⟨vector, i⟩ hmem
    simpa using h vector (List.mem_of_getElem? (List.mem_zipIdx_iff_getElem?.mp hmem))

theorem isEmbedResponse_query (requestId text : String) (result : Except EngineError EmbedOutput) :
    IsEmbedResponse requestId [text] .query result (queryResponse requestId result) := by
  rcases result with err | ⟨dims, vectors⟩
  · exact isEmbedResponse_internalError fun _ h => by cases h
  rw [queryResponse]
  rcases vectors with _ | ⟨vector, _ | ⟨second, rest⟩⟩
  · refine isEmbedResponse_internalError fun output hok hserves => ?_
    rw [← Except.ok.inj hok] at hserves
    exact absurd hserves.1 (by simp)
  · dsimp only
    split
    · refine isEmbedResponse_internalError fun output hok hserves => ?_
      rw [← Except.ok.inj hok] at hserves
      exact absurd (hserves.2 vector List.mem_cons_self) ‹_›
    · refine @isEmbedResponse_success requestId [text] .query ⟨dims, [vector]⟩ ⟨rfl, ?_⟩
      intro v hv
      rw [List.mem_singleton.mp hv]
      exact not_not.mp ‹_›
  · refine isEmbedResponse_internalError fun output hok hserves => ?_
    rw [← Except.ok.inj hok] at hserves
    exact absurd hserves.1 (by simp)

theorem isEmbedResponse_batch (requestId : String) (texts : List String)
    (result : Except EngineError EmbedOutput) :
    IsEmbedResponse requestId texts .document result (batchResponse requestId texts result) := by
  rcases result with err | output
  · exact isEmbedResponse_internalError fun _ h => by cases h
  rw [batchResponse]
  split
  · refine isEmbedResponse_internalError fun _ hok hserves => ?_
    rw [← Except.ok.inj hok] at hserves
    exact absurd hserves.1 ‹_›
  · rcases hbad : firstBadVector output with _ | ⟨index, actual⟩
    · exact isEmbedResponse_success ⟨not_not.mp ‹_›, firstBadVector_eq_none.mp hbad⟩
    · refine isEmbedResponse_internalError fun _ hok hserves => ?_
      rw [← Except.ok.inj hok] at hserves
      rw [firstBadVector_eq_none.mpr hserves.2] at hbad
      cases hbad

/-! ## The calls of the engine -/

/-- A call of the engine that a request can make. -/
inductive EmbedEngine.Call where
  /-- `health_facts`. -/
  | healthFacts
  /-- `embed`. -/
  | embed (texts : List String) (role : Role)

section

variable {σ : Type}

/-- The engine, with its calls noted. -/
def EmbedEngine.noting (engine : EmbedEngine σ) : EmbedEngine (σ × List EmbedEngine.Call) where
  healthFacts s :=
    ((engine.healthFacts s.1).1, (engine.healthFacts s.1).2, s.2 ++ [.healthFacts])
  isAccelerated s := engine.isAccelerated s.1
  embed texts role s :=
    ((engine.embed texts role s.1).1, (engine.embed texts role s.1).2, s.2 ++ [.embed texts role])

/-- The calls that what is asked for makes. -/
def LineRequest.calls : LineRequest → List EmbedEngine.Call
  | .health _ => [.healthFacts]
  | .embed _ texts role => [.embed texts role]
  | _ => []

theorem answer_noting (engine : EmbedEngine σ) (asked : LineRequest)
    (s : σ × List EmbedEngine.Call) :
    answer engine.noting asked s =
      ((answer engine asked s.1).1, (answer engine asked s.1).2, s.2 ++ asked.calls) := by
  cases asked with
  | blank => simp [answer, LineRequest.calls]
  | rejected => simp [answer, LineRequest.calls]
  | health => rfl
  | shutdown => simp [answer, LineRequest.calls]
  | embed => rfl

theorem processLine_eq_answer (serde : SerdeJson) (engine : EmbedEngine σ) (limits : Limits)
    (line : List UInt8) (s : σ) : processLine serde engine limits line s =
      ((answer engine (lineRequest serde limits line) s).1.map (serializeOutcome serde),
        (answer engine (lineRequest serde limits line) s).2) := by
  rw [← handleLine_eq_answer]
  rfl

/-- **Embedding requests.**  A line makes one call of the engine at most; it calls `embed` exactly
when the whole request is in order, and then with its texts.  The reply is a success exactly when
the engine gave a vector of the declared length for every text.  A line that asks for nothing the
protocol knows is turned away without a call. -/
theorem processLine_embed (serde : SerdeJson) (engine : EmbedEngine σ) (limits : Limits)
    (line : List UInt8) (s : σ) :
    let run := processLine serde engine.noting limits line (s, [])
    processLine serde engine limits line s = (run.1, run.2.1) ∧
      run.2.2.length ≤ 1 ∧
      (∀ texts role, .embed texts role ∈ run.2.2 ↔ AsksEmbed serde limits line texts role) ∧
      (∀ texts role, AsksEmbed serde limits line texts role →
        ∃ response, run.1 = some (serializeOutcome serde (.reply response)) ∧
          IsEmbedResponse (lineRequestId serde line) texts role (engine.embed texts role s).1
            response) ∧
      (¬ Blank line → (∀ texts role, ¬ AsksEmbed serde limits line texts role) →
        ¬ AsksOther serde line → run.2.2 = [] ∧
          ∃ requestId message, ∃ code ∈ [invalidRequest, invalidJson, unknownMethod],
            run.1 = some (serializeOutcome serde (.reply (failure requestId code message)))) := by
  intro run
  have hrun : run = ((answer engine (lineRequest serde limits line) s).1.map
      (serializeOutcome serde), (answer engine (lineRequest serde limits line) s).2,
        (lineRequest serde limits line).calls) := by
    simp only [run, processLine_eq_answer, answer_noting, List.nil_append]
  rw [hrun]
  refine ⟨processLine_eq_answer serde engine limits line s, ?_, fun texts role => ?_,
    fun texts role hasks => ?_, fun hblank hembed hother => ?_⟩
  · cases lineRequest serde limits line <;> simp [LineRequest.calls]
  · constructor
    · intro hcall
      rcases hline : lineRequest serde limits line with _ | _ | _ | _ | ⟨id, asked, as⟩
      all_goals simp [hline, LineRequest.calls] at hcall
      obtain ⟨rfl, rfl⟩ := hcall
      exact (lineRequest_eq_embed.mp hline).2
    · intro hasks
      rw [lineRequest_eq_embed.mpr ⟨rfl, hasks⟩]
      exact List.mem_singleton_self _
  · rw [lineRequest_eq_embed.mpr ⟨rfl, hasks⟩]
    refine ⟨_, rfl, ?_⟩
    rcases hasks with ⟨-, -, -⟩ | ⟨-, -, -, -⟩
    · exact isEmbedResponse_query _ _ _
    · exact isEmbedResponse_batch _ _ _
  · obtain ⟨requestId, message, code, hcode, hrejected⟩ :=
      @lineRequest_rejected serde limits line hblank hembed hother
    rw [hrejected]
    exact ⟨rfl, requestId, message, code, hcode, rfl⟩

end

end SemanticSidecar
