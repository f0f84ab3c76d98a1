import SemanticSidecar.Broker.Serve
import SemanticSidecar.Protocol.Validation

/-!
# The scheduling class of a line

The broker reads a line twice.  `request_class` parses its bytes as they are, to find out whether
it may go ahead of the batches; `process_line` decodes and trims them first, to answer it.  The two
disagree on a line with white space around it that is none for JSON, such as a no-break space:
there the first reading fails, and a failed reading is interactive.  `requestClass_eq_batch_iff`
says that this is the only difference.

Nothing is assumed of the parser but that it does not take the empty text for a value,
`SerdeJson.RejectsEmpty`, and what `SerdeJson.Lawful` says of white space.  The condition is on the
line, in terms of the margins that are white space for `str::trim` and not for JSON.

What follows for a client is small: a batch with such margins goes ahead of other batches.  It is
answered like any other, since the class decides on the order of the answers and on nothing else.
-/

set_option autoImplicit false

namespace SemanticSidecar

/-- An empty text is no value. -/
def SerdeJson.RejectsEmpty (serde : SerdeJson) : Prop := ∀ v, serde.fromStr "" ≠ .ok v

/-- The line, as `process_line` reads it, is an object whose method is `embed_batch`. -/
def IsBatchLine (serde : SerdeJson) (line : List UInt8) : Prop :=
  ∃ request, requestObject serde line = some request ∧
    request.lookup "method" = some (.string "embed_batch")

section

variable {serde : SerdeJson} {line : List UInt8}

theorem requestClass_eq_batch {line : List UInt8} :
    requestClass serde line = .batch ↔
      ((serde.fromSlice line).bind fun request => request.get "method").bind Json.asStr =
        some "embed_batch" := by
  rw [requestClass]
  split
  · simp [*]
  · simp [*]

/-- The method of a value is a string only where the value is an object. -/
theorem method_eq_some {value : Value} {method : String} :
    (value.get "method").bind Json.asStr = some method ↔
      ∃ request, value = .object request ∧ request.lookup "method" = some (.string method) := by
  rcases value with _ | _ | _ | _ | _ | request
  case object =>
    simp only [Json.get, Json.object.injEq, exists_eq_left']
    rcases request.lookup "method" with _ | (_ | _ | _ | _ | _ | _)
    all_goals simp [Json.asStr]
  all_goals simp [Json.get]

/-- Inside JSON margins the two readings of a line agree. -/
theorem requestClass_of_jsonMargins (h : serde.Lawful) (hempty : serde.RejectsEmpty)
    (hmargin : JsonMargins line) : requestClass serde line = .batch ↔ IsBatchLine serde line := by
  rw [requestClass_eq_batch, IsBatchLine, requestObject]
  rcases htext : Text.fromUtf8 line with _ | text
  · rw [h.slice, htext]
    simp
  · rw [(fromSlice_eq h htext).1 hmargin]
    dsimp only
    by_cases hblank : (Text.trim text).isEmpty = true
    · -- The protocol stops at a blank line, and the parser finds no value in one.
      rw [if_pos hblank, String.isEmpty_iff.mp hblank]
      rcases hvalue : serde.fromStr "" with err | value
      · simp [Except.toOption]
      · exact absurd hvalue (hempty value)
    · rw [if_neg hblank]
      rcases serde.fromStr (Text.trim text) with err | value
      · simp [Except.toOption]
      · simp only [Except.toOption, Option.bind_some, method_eq_some]
        rcases value with _ | _ | _ | _ | _ | request
        all_goals simp

/-- Outside of them every line is interactive. -/
theorem requestClass_of_not_jsonMargins (h : serde.Lawful) (hmargin : ¬ JsonMargins line) :
    requestClass serde line ≠ .batch := by
  rw [Ne, requestClass_eq_batch]
  rcases htext : Text.fromUtf8 line with _ | text
  · rw [h.slice, htext]
    simp
  · rw [(fromSlice_eq h htext).2 hmargin]
    simp

/-- **Where the class matches the dispatch**: on every line but a batch request in other margins
than those of JSON. -/
theorem requestClass_eq_batch_iff (h : serde.Lawful) (hempty : serde.RejectsEmpty)
    (line : List UInt8) :
    (requestClass serde line = .batch ↔ IsBatchLine serde line) ↔
      (IsBatchLine serde line → JsonMargins line) := by
  by_cases hmargin : JsonMargins line
  · simp only [requestClass_of_jsonMargins h hempty hmargin, hmargin, implies_true]
  · have hclass := requestClass_of_not_jsonMargins h hmargin
    simp only [hclass, hmargin, false_iff, imp_false]

end

/-! ## A batch that goes ahead -/

/-- An empty batch. -/
def batchText : String := "\x7b\"method\":\"embed_batch\",\"params\":\x7b\"texts\":[]\x7d\x7d"

/-- A parser that knows it. -/
def batchSerde : SerdeJson :=
  .ofTable [(batchText, .object [("method", .string "embed_batch"),
    ("params", .object [("texts", .array [])])])]

/-- White space of Unicode that is none of JSON. -/
def noBreakSpace : Char := Char.ofNat 0xA0

/-- A no-break space in front of a text. -/
def spaced (text : String) : String := String.ofList (noBreakSpace :: text.toList)

theorem toList_batchText :
    ∃ middle, batchText.toList = '{' :: middle ++ ['}'] := by
  refine ⟨batchText.toList.tail.dropLast, ?_⟩
  decide

theorem trim_batchText : Text.trim batchText = batchText := by
  obtain ⟨middle, hlist⟩ := toList_batchText
  rw [Text.trim, hlist, Text.trimBy_of_ends (by decide) (by decide), ← hlist, String.ofList_toList]

theorem trimJson_batchText : SerdeJson.trimJson batchText = batchText := by
  obtain ⟨middle, hlist⟩ := toList_batchText
  rw [SerdeJson.trimJson, hlist, Text.trimBy_of_ends (by decide) (by decide), ← hlist,
    String.ofList_toList]

theorem trim_spaced : Text.trim (spaced batchText) = batchText := by
  have hspace : ∀ c ∈ [noBreakSpace], Text.isWhitespace c = true := by
    intro c hc
    rw [List.mem_singleton.mp hc]
    decide
  have happend := Text.trimBy_append_left hspace batchText.toList
  rw [Text.trim, spaced, String.toList_ofList]
  exact (congrArg String.ofList happend).trans trim_batchText

theorem trimJson_spaced : SerdeJson.trimJson (spaced batchText) = spaced batchText := by
  obtain ⟨middle, hlist⟩ := toList_batchText
  have hends : (spaced batchText).toList = noBreakSpace :: ('{' :: middle) ++ ['}'] := by
    rw [spaced, String.toList_ofList, hlist]
    rfl
  rw [SerdeJson.trimJson, hends, Text.trimBy_of_ends (by decide) (by decide), ← hends,
    String.ofList_toList]

theorem trimJson_empty : SerdeJson.trimJson "" = "" := by decide

theorem batchSerde_rejectsEmpty : batchSerde.RejectsEmpty := by
  intro v h
  have hvalue := (SerdeJson.toOption_ofTable _ "").symm.trans (congrArg Except.toOption h)
  have hne : ("" == batchText) = false := by decide
  rw [SerdeJson.tableValue, trimJson_empty, List.lookup_cons, hne] at hvalue
  split at hvalue
  · cases hvalue
  · cases hvalue

theorem fromStr_batchText : batchSerde.fromStr batchText =
    .ok (.object [("method", .string "embed_batch"), ("params", .object [("texts", .array [])])]) := by
  simp only [batchSerde, SerdeJson.ofTable, SerdeJson.tableValue, trimJson_batchText,
    trim_batchText, if_true, List.lookup_cons, beq_self_eq_true, Option.elim]

theorem requestObject_spaced :
    requestObject batchSerde (Text.toUtf8 (spaced batchText)) =
      some [("method", .string "embed_batch"), ("params", .object [("texts", .array [])])] := by
  rw [requestObject, Text.fromUtf8_toUtf8]
  simp only [trim_spaced, fromStr_batchText]
  exact if_neg (by decide)

theorem not_jsonMargins_spaced : ¬ JsonMargins (Text.toUtf8 (spaced batchText)) := by
  intro hmargin
  have heq := hmargin _ (Text.fromUtf8_toUtf8 _)
  rw [trim_spaced, trimJson_spaced] at heq
  have hlength := congrArg (fun text : String => text.toList.length) heq
  simp [spaced] at hlength

/-- A batch behind a no-break space is interactive, and is answered as a batch. -/
theorem requestClass_spaced :
    batchSerde.Lawful ∧ requestClass batchSerde (Text.toUtf8 (spaced batchText)) = .interactive ∧
      IsBatchLine batchSerde (Text.toUtf8 (spaced batchText)) ∧
      AsksEmbed batchSerde .default (Text.toUtf8 (spaced batchText)) [] .document := by
  refine ⟨SerdeJson.ofTable_lawful _, ?_, ⟨_, requestObject_spaced, rfl⟩, ?_⟩
  · have hclass := @requestClass_of_not_jsonMargins batchSerde _ (SerdeJson.ofTable_lawful _)
      not_jsonMargins_spaced
    rcases h : requestClass batchSerde (Text.toUtf8 (spaced batchText)) with _ | _
    · rfl
    · exact absurd h hclass
  · refine .batch requestObject_spaced ⟨Or.inr ⟨rfl, Or.inl rfl⟩, ?_, ?_, rfl, Or.inl rfl⟩ rfl
      (Nat.zero_le _)
    · exact fun v h => by cases h
    · exact fun v h => by cases h

/-- `batchText` is a batch line without a space in front of it, and it is classed as a batch. -/
theorem requestClass_eq_batch_iff_batchText :
    (requestClass batchSerde (Text.toUtf8 batchText) = .batch ↔
        IsBatchLine batchSerde (Text.toUtf8 batchText)) ↔
      (IsBatchLine batchSerde (Text.toUtf8 batchText) → JsonMargins (Text.toUtf8 batchText)) :=
  requestClass_eq_batch_iff (SerdeJson.ofTable_lawful _) batchSerde_rejectsEmpty _

end SemanticSidecar
