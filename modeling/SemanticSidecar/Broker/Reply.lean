import SemanticSidecar.Protocol.Loop

/-!
# Replies the broker makes up itself

When the broker turns a request away, because its queue is full or the request waited too long, it
answers without running the line through the protocol.  It then needs the id of the request, and
reads it with an extractor of its own, `brokerRequestId`.

The two extractors do not agree on every line.  The broker's knows nothing of the `id` alias, and
it parses the bytes as they are, where the protocol trims Unicode white space first.
`brokerRequestId_eq_iff` says exactly where they agree, and `failureReply_correlated_iff` what that
means on the wire, where a reply has exactly one id in it.

The difference has a consequence for a client that correlates by `id`: a request that is turned away
is answered with an empty `request_id`, and the client has nothing to match it with, while the same
request is answered with its id when it is processed.  `aliasRequest` is such a request, and
`failureReply_aliasRequest` what becomes of it.

The id of a reply is read off its bytes.  `carriesRequestId_unique` is what makes that a definition:
a reply is the text of an object whose members come in a fixed order, so no text that was put into
it can pass for another id.
-/

set_option autoImplicit false

namespace SemanticSidecar

section

variable (serde : SerdeJson)

/-- `request_id` of the broker. -/
def brokerRequestId (line : List UInt8) : String :=
  (((serde.fromSlice line).bind fun request => request.get "request_id").bind Json.asStr).getD ""

/-- `failure_reply`. -/
def failureReply (line : List UInt8) (kind message : String) : ProtocolReply :=
  internalErrorReply serde (brokerRequestId serde line) kind message

end

/-! ## Where the two extractors agree -/

/-- The request carries an id that is not empty. -/
def CarriesId (request : Members) : Prop :=
  ∃ id, id ≠ "" ∧ (request.lookup "request_id" = some (.string id) ∨
    request.lookup "request_id" = none ∧ request.lookup "id" = some (.string id))

/-- The white space around the line is white space of JSON. -/
def JsonMargins (line : List UInt8) : Prop :=
  ∀ text, Text.fromUtf8 line = some text → Text.trim text = SerdeJson.trimJson text

theorem carriesId_iff (request : Members) : CarriesId request ↔ memberRequestId request ≠ "" := by
  rw [CarriesId, memberRequestId]
  rcases request.lookup "request_id" with _ | v
  · rcases request.lookup "id" with _ | v
    · simp
    · cases v <;> simp [Json.asStr]
  · cases v <;> simp [Json.asStr]

variable {serde : SerdeJson}

theorem isWhitespace_of_isJsonSpace {c : Char} (h : SerdeJson.isJsonSpace c = true) :
    Text.isWhitespace c = true := by
  simp only [SerdeJson.isJsonSpace, Bool.or_eq_true, decide_eq_true_eq] at h
  rcases h with ((rfl | rfl) | rfl) | rfl <;> decide

/-- Trimming JSON white space first does not change what trimming leaves. -/
theorem trim_trimJson (text : String) :
    Text.trim (SerdeJson.trimJson text) = Text.trim text := by
  rw [Text.trim, SerdeJson.trimJson, String.toList_ofList,
    Text.trimBy_trimBy fun _ => isWhitespace_of_isJsonSpace, ← Text.trim]

/-- What the broker parses is what the protocol parses, where the margins are JSON white space,
and nothing elsewhere. -/
theorem fromSlice_eq (h : serde.Lawful) {line : List UInt8} {text : String}
    (htext : Text.fromUtf8 line = some text) :
    (JsonMargins line → serde.fromSlice line = (serde.fromStr (Text.trim text)).toOption) ∧
      (¬ JsonMargins line → serde.fromSlice line = none) := by
  rw [h.slice, htext, Option.bind_some, JsonMargins]
  simp only [htext, Option.some.injEq, forall_eq']
  refine ⟨fun hmargin => ?_, fun hmargin => ?_⟩
  · rw [hmargin]
    exact h.space text
  · cases hparse : serde.fromStr text with
    | error err => rfl
    | ok v => exact absurd (trim_trimJson text ▸ h.margin text v hparse) hmargin

theorem brokerRequestId_of_notUtf8 (h : serde.Lawful) {line : List UInt8}
    (htext : Text.fromUtf8 line = none) : brokerRequestId serde line = "" := by
  rw [brokerRequestId, h.slice, htext]
  rfl

theorem brokerRequestId_of_not_jsonMargins (h : serde.Lawful) {line : List UInt8}
    (hmargin : ¬ JsonMargins line) : brokerRequestId serde line = "" := by
  cases htext : Text.fromUtf8 line with
  | none => exact brokerRequestId_of_notUtf8 h htext
  | some text =>
    rw [brokerRequestId, (fromSlice_eq h htext).2 hmargin]
    rfl

/-- Inside JSON margins the broker reads `request_id`, and `request_id` only. -/
theorem brokerRequestId_of_jsonMargins (h : serde.Lawful) {line : List UInt8}
    (hblank : ¬ Blank line) (hmargin : JsonMargins line) :
    brokerRequestId serde line = (((requestObject serde line).bind fun request =>
      request.lookup "request_id").bind Json.asStr).getD "" := by
  cases htext : Text.fromUtf8 line with
  | none =>
    rw [brokerRequestId_of_notUtf8 h htext, requestObject]
    simp [htext]
  | some text =>
    have hnot : ¬ (Text.trim text).isEmpty = true :=
      fun hempty => hblank ⟨text, htext, Text.trim_isEmpty.mp hempty⟩
    rw [brokerRequestId, (fromSlice_eq h htext).1 hmargin]
    simp only [requestObject, htext, if_neg hnot]
    cases hparse : serde.fromStr (Text.trim text) with
    | error err => simp [Except.toOption]
    | ok v => cases v <;> simp [Except.toOption, Json.get]

/-- The broker's id and the protocol's agree on a line that is answered exactly when the request
on it, if any, carries no id or carries it under `request_id` inside JSON margins. -/
theorem brokerRequestId_eq_iff (h : serde.Lawful) {line : List UInt8} (hblank : ¬ Blank line) :
    brokerRequestId serde line = lineRequestId serde line ↔
      ∀ request, requestObject serde line = some request → CarriesId request →
        JsonMargins line ∧ (request.lookup "request_id").isSome := by
  rw [lineRequestId]
  cases hobject : requestObject serde line with
  | none =>
    simp only [Option.map_none, Option.getD_none, reduceCtorEq, false_implies, implies_true,
      iff_true]
    by_cases hmargin : JsonMargins line
    · rw [brokerRequestId_of_jsonMargins h hblank hmargin, hobject]
      rfl
    · exact brokerRequestId_of_not_jsonMargins h hmargin
  | some request =>
    simp only [Option.map_some, Option.getD_some, Option.some.injEq, forall_eq', carriesId_iff]
    by_cases hmargin : JsonMargins line
    · rw [brokerRequestId_of_jsonMargins h hblank hmargin, hobject, Option.bind_some]
      simp only [hmargin, true_and]
      cases hreq : request.lookup "request_id" with
      | none =>
        -- The broker reads nothing here, whatever stands under `id`.
        simp only [Option.bind_none, Option.getD_none, Option.isSome_none, Bool.false_eq_true]
        exact ⟨fun heq hne => hne heq.symm, fun hid => (not_not.mp hid).symm⟩
      | some v =>
        simp only [memberRequestId, hreq, Option.bind_some, Option.isSome_some, implies_true]
    · rw [brokerRequestId_of_not_jsonMargins h hmargin]
      simp only [hmargin, false_and]
      exact ⟨fun heq hne => hne heq.symm, fun hid => (not_not.mp hid).symm⟩

/-! ## The id on the wire -/

/-- The line of the reply is the text of a response with the id `requestId`. -/
def CarriesRequestId (serde : SerdeJson) (reply : ProtocolReply) (requestId : String) : Prop :=
  ∃ r : Response, r.WellFormed requestId ∧ reply.line = serde.toString r.toValue

/-- The text of a response up to its id. -/
def envelopeStart (serde : SerdeJson) : List Char :=
  '{' :: (Json.quote "schema" ++ ':' :: (Json.quote schema ++
    ',' :: (Json.quote "version" ++ ':' :: (serde.fmtNumber (.posInt version) ++
      ',' :: (Json.quote "request_id" ++ [':'])))))

theorem toString_response {r : Response} {requestId : String} (h : r.WellFormed requestId) :
    ∃ x, (serde.toString r.toValue).toList = envelopeStart serde ++ (Json.quote requestId ++ x) := by
  obtain ⟨x, hx⟩ := Json.renderMembers_cons serde.fmtNumber "request_id" (.string r.requestId)
    ((r.result.toList.map fun v => ("result", v)) ++ (r.error.toList.map fun e =>
      ("error", .object [("code", .string e.code), ("message", .string e.message)])))
  rw [h.requestId, Json.render] at hx
  refine ⟨x ++ ['}'], ?_⟩
  rw [SerdeJson.toString, String.toList_ofList, Response.toValue, Json.render]
  simp only [List.cons_append, List.nil_append, Json.renderMembers, hx, Json.render, h.schema,
    h.version, h.requestId, envelopeStart, List.append_assoc]

/-- **A reply carries one id.** -/
theorem carriesRequestId_unique {reply : ProtocolReply} {id id' : String}
    (h : CarriesRequestId serde reply id) (h' : CarriesRequestId serde reply id') : id = id' := by
  obtain ⟨r, hr, hline⟩ := h
  obtain ⟨r', hr', hline'⟩ := h'
  obtain ⟨x, hx⟩ := @toString_response serde r id hr
  obtain ⟨x', hx'⟩ := @toString_response serde r' id' hr'
  have htext : envelopeStart serde ++ (Json.quote id ++ x) =
      envelopeStart serde ++ (Json.quote id' ++ x') := by
    rw [← hx, ← hx', ← hline, ← hline']
  exact (Json.quote_append_inj (List.append_cancel_left htext)).1

theorem carriesRequestId_failureReply (line : List UInt8) (kind message : String) :
    CarriesRequestId serde (failureReply serde line kind message) (brokerRequestId serde line) :=
  ⟨_, wellFormed_internalError _ (.new kind message), rfl⟩

section

variable {σ : Type} {engine : EmbedEngine σ} {limits : Limits}

theorem carriesRequestId_processLine {line : List UInt8} {s : σ} {reply : ProtocolReply}
    (h : (processLine serde engine limits line s).1 = some reply) :
    CarriesRequestId serde reply (lineRequestId serde line) := by
  simp only [processLine, Option.map_eq_some_iff] at h
  obtain ⟨outcome, houtcome, rfl⟩ := h
  exact ⟨outcome.response, (handleLine_some houtcome).1, rfl⟩

/-- **When a rejection is correlated.**  A rejection carries the id of the reply it stands in for
exactly when the request on the line, if any, carries no id or carries it under `request_id`
inside JSON margins. -/
theorem failureReply_correlated_iff (h : serde.Lawful) {line : List UInt8} {s : σ}
    {reply : ProtocolReply} (hreply : (processLine serde engine limits line s).1 = some reply)
    (kind message : String) :
    (∃ id, CarriesRequestId serde (failureReply serde line kind message) id ∧
        CarriesRequestId serde reply id) ↔
      ∀ request, requestObject serde line = some request → CarriesId request →
        JsonMargins line ∧ (request.lookup "request_id").isSome := by
  have hblank : ¬ Blank line := by
    rw [← @processLine_eq_none serde σ engine limits line s, hreply]
    simp
  rw [← brokerRequestId_eq_iff h hblank]
  have hfailure := @carriesRequestId_failureReply serde line kind message
  have hprocess := carriesRequestId_processLine hreply
  constructor
  · rintro ⟨id, hid, hid'⟩
    rw [carriesRequestId_unique hfailure hid, carriesRequestId_unique hprocess hid']
  · intro heq
    exact ⟨_, hfailure, heq ▸ hprocess⟩

end

/-- A request whose id stands under the `id` alias. -/
def aliasRequest : String := "\x7b\"id\":\"x\"\x7d"

/-- A parser that knows that request. -/
def aliasSerde : SerdeJson := .ofTable [(aliasRequest, .object [("id", .string "x")])]

theorem requestObject_aliasRequest :
    requestObject aliasSerde (Text.toUtf8 aliasRequest) = some [("id", .string "x")] := by
  have hlist : aliasRequest.toList = '{' :: ['"', 'i', 'd', '"', ':', '"', 'x', '"'] ++ ['}'] := by
    decide
  have htrim : Text.trim aliasRequest = aliasRequest := by
    rw [Text.trim, hlist, Text.trimBy_of_ends rfl rfl, ← hlist, String.ofList_toList]
  have htrimJson : SerdeJson.trimJson aliasRequest = aliasRequest := by
    rw [SerdeJson.trimJson, hlist, Text.trimBy_of_ends rfl rfl, ← hlist, String.ofList_toList]
  have hparse : aliasSerde.fromStr aliasRequest = .ok (.object [("id", .string "x")]) := by
    simp only [aliasSerde, SerdeJson.ofTable, SerdeJson.tableValue, htrimJson, htrim, if_true]
    simp
  rw [requestObject, Text.fromUtf8_toUtf8]
  simp only [htrim, hparse]
  exact if_neg (by decide)

theorem not_blank_aliasRequest : ¬ Blank (Text.toUtf8 aliasRequest) := by
  rintro ⟨text, htext, hspace⟩
  rw [Text.fromUtf8_toUtf8, Option.some.injEq] at htext
  subst htext
  exact absurd (hspace '{' (by decide)) (by decide)

theorem processLine_aliasRequest :
    ∃ reply, (processLine aliasSerde (UnreadyEngine.engine modelNotPrepared) .default
      (Text.toUtf8 aliasRequest) ()).1 = some reply := by
  refine Option.ne_none_iff_exists'.mp fun hnone => ?_
  exact not_blank_aliasRequest (processLine_eq_none _ _ |>.mp hnone)

/-- A rejection of `aliasRequest` carries no id, where its reply carries `x`. -/
theorem failureReply_aliasRequest :
    ∃ reply, (processLine aliasSerde (UnreadyEngine.engine modelNotPrepared) .default
        (Text.toUtf8 aliasRequest) ()).1 = some reply ∧
      CarriesRequestId aliasSerde reply "x" ∧
      ¬ CarriesRequestId aliasSerde (failureReply aliasSerde (Text.toUtf8 aliasRequest)
        "BrokerQueueFull" "broker queue is full") "x" := by
  obtain ⟨reply, hreply⟩ := processLine_aliasRequest
  have hid : lineRequestId aliasSerde (Text.toUtf8 aliasRequest) = "x" := by
    rw [lineRequestId, requestObject_aliasRequest]
    decide
  refine ⟨reply, hreply, hid ▸ carriesRequestId_processLine hreply, fun h => ?_⟩
  have hbroker := carriesRequestId_unique h (carriesRequestId_failureReply _ _ _)
  have hcarries : CarriesId [("id", .string "x")] := ⟨"x", by decide, Or.inr ⟨rfl, rfl⟩⟩
  have hiff := (brokerRequestId_eq_iff (SerdeJson.ofTable_lawful _) not_blank_aliasRequest).mp
    (hbroker.symm.trans hid.symm) _ requestObject_aliasRequest hcarries
  exact absurd hiff.2 (by decide)

/-- The correlation of rejections on the alias request. -/
theorem failureReply_correlated_iff_aliasRequest :
    ∃ reply, (∃ id, CarriesRequestId aliasSerde (failureReply aliasSerde
          (Text.toUtf8 aliasRequest) "BrokerQueueFull" "broker queue is full") id ∧
        CarriesRequestId aliasSerde reply id) ↔
      ∀ request, requestObject aliasSerde (Text.toUtf8 aliasRequest) = some request →
        CarriesId request →
        JsonMargins (Text.toUtf8 aliasRequest) ∧ (request.lookup "request_id").isSome :=
  let ⟨reply, hreply⟩ := processLine_aliasRequest
  ⟨reply, failureReply_correlated_iff (SerdeJson.ofTable_lawful _) hreply "BrokerQueueFull"
    "broker queue is full"⟩

end SemanticSidecar
