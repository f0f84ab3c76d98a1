import SemanticSidecar.Engine.Encode

/-!
# What llama.cpp answers to a batch

A request on a batch is a conversation with the tokenizer and with llama.cpp, and `embed` shows the
end of it only: vectors, or an error.  This file is about the other side, the answers as they come
in.  An `Answer` to a slice of the batch is the outcome of one encode, with the rows as they were
read out of the context, before anything is normalized or cut.

Which question comes next depends on the answers so far.  `asked` follows the halving of
`isolate`: a slice that was encoded is done, a slice of one item is never cut, and a failure that
is not blamed on the inputs ends the request, which is what `Answer.stops` says.

* `Answer.refused` is the lone slice that the answer has no row for.  It is all that a zero vector
  is ever substituted for.
* `Answer.rows` are the rows of a slice that was encoded.
* `rawGroup` is `encodeGroup` up to the point where the rows are normalized, and
  `encodeGroup_eq` puts the two together: a row is made into a vector by `ModelPin.lane`.

Nothing here looks at what a request returns, so that a statement about answers is one about
llama.cpp.
-/

set_option autoImplicit false

namespace SemanticSidecar

/-! ## Vectors of unit length -/

/-- `l2_norm` of the conformance gate, which is taken in double precision. -/
def l2Norm (vector : List Float32) : Float :=
  ((vector.map fun component : Float32 => component.toFloat * component.toFloat).foldl (· + ·) 0.0).sqrt

/-- `NORM_TOLERANCE` of the conformance gate. -/
def normTolerance : Float := 1e-3

/-- The gate's test of a vector: its components are finite, and its norm is not off by more than
the tolerance. -/
def IsUnitVector (tolerance : Float) (vector : List Float32) : Prop :=
  (∀ component ∈ vector, component.isFinite = true) ∧ ¬ tolerance < (l2Norm vector - 1.0).abs

/-! ## Answers -/

/-- What comes back in the course of a probe: from the loader, from the tokenizer, or from
llama.cpp for one slice of a batch. -/
inductive Answer where
  /-- The model does not load. -/
  | loadFailed (err : EngineError)
  /-- A text of the batch cannot be built. -/
  | unbuilt (err : EngineError)
  /-- The outcome of the encode of a slice, with the rows as they were read. -/
  | encoded (slice : List (List LlamaToken))
      (outcome : Except EncodeFailure (List (List Float32)))

namespace Answer

/-- Nothing is asked after this answer. -/
def stops : Answer → Bool
  | loadFailed _ => true
  | unbuilt _ => true
  | encoded slice outcome =>
    match settled slice.length outcome with
    | some (.error _) => true
    | _ => false

/-- The slice, if it is one of a single item and the answer has no row for it. -/
def refused : Answer → List (List LlamaToken)
  | loadFailed _ => []
  | unbuilt _ => []
  | encoded slice outcome =>
    if slice.length = 1 ∧ (settled slice.length outcome).isNone then slice else []

/-- The rows of a slice that was encoded. -/
def rows : Answer → List (List Float32)
  | loadFailed _ => []
  | unbuilt _ => []
  | encoded slice outcome =>
    match settled slice.length outcome with
    | some (.ok rows) => rows
    | _ => []

end Answer

/-- One of the answers ends the conversation. -/
def stopped (answers : List Answer) : Bool := answers.any Answer.stops

/-- The lone slices without a row. -/
def refusals (answers : List Answer) : List (List LlamaToken) := answers.flatMap Answer.refused

/-- The rows of all slices that were encoded, in order. -/
def rowsOf (answers : List Answer) : List (List Float32) := answers.flatMap Answer.rows

section

variable (answer : Answer) (front back : List Answer)

theorem stopped_cons : stopped (answer :: back) = (answer.stops || stopped back) := rfl

theorem refusals_cons : refusals (answer :: back) = answer.refused ++ refusals back := rfl

theorem rowsOf_cons : rowsOf (answer :: back) = answer.rows ++ rowsOf back := rfl

@[simp] theorem stopped_append : stopped (front ++ back) = (stopped front || stopped back) :=
  List.any_append

@[simp] theorem refusals_append : refusals (front ++ back) = refusals front ++ refusals back :=
  List.flatMap_append

@[simp] theorem rowsOf_append : rowsOf (front ++ back) = rowsOf front ++ rowsOf back :=
  List.flatMap_append

/-- Nothing comes of a slice that is cut. -/
theorem Answer.cut {slice : List (List LlamaToken)}
    {outcome : Except EncodeFailure (List (List Float32))} (hmany : 1 < slice.length)
    (h : settled slice.length outcome = none) :
    (encoded slice outcome).stops = false ∧ (encoded slice outcome).refused = [] ∧
      (encoded slice outcome).rows = [] := by
  rw [stops, refused, rows, h]
  exact ⟨rfl, if_neg fun hlone => absurd hlone.1 (by omega), rfl⟩

end

/-! ## A conversation -/

section

variable {σ : Type}

/-- Goes on with the second part, unless the first has been stopped. -/
def thenAsked (x y : StateM σ (List Answer)) : StateM σ (List Answer) := do
  let front ← x
  if stopped front then pure front
  else do
    let back ← y
    pure (front ++ back)

theorem thenAsked_run (x y : StateM σ (List Answer)) (s : σ) :
    (thenAsked x y).run s =
      if stopped (x.run s).1 then x.run s
      else ((x.run s).1 ++ (y.run (x.run s).2).1, (y.run (x.run s).2).2) := by
  rw [thenAsked, run_bind_state]
  split
  · rfl
  · rfl

variable (attempt : List (List LlamaToken) →
  StateM σ (Except EncodeFailure (List (List Float32))))

/-- The answers to the slices that `isolate` tries, one after the other. -/
def asked (items : List (List LlamaToken)) : StateM σ (List Answer) :=
  if _hempty : items.isEmpty then pure []
  else do
    let outcome ← attempt items
    if _hdone : (settled items.length outcome).isSome ∨ items.length = 1 then
      pure [.encoded items outcome]
    else do
      let halves ← thenAsked (asked (items.take (items.length / 2)))
        (asked (items.drop (items.length / 2)))
      pure (.encoded items outcome :: halves)
termination_by items.length
decreasing_by
  all_goals
    have hpos := List.length_pos_iff.mpr fun hnil => _hempty (List.isEmpty_iff.mpr hnil)
    have hmany : items.length ≠ 1 := fun hone => _hdone (Or.inr hone)
    simp only [List.length_take, List.length_drop]
    omega

/-- The answers to the groups of a batch. -/
def askedGroups : List (List (List LlamaToken)) → StateM σ (List Answer)
  | [] => pure []
  | group :: rest => thenAsked (asked attempt group) (askedGroups rest)

/-- The answers to a request. -/
def LlamaEngine.askedEmbed (engine : LlamaEngine) (texts : List String) (role : Role) :
    StateM σ (List Answer) :=
  if texts.isEmpty then pure []
  else
    match engine.buildInputs role texts with
    | .error err => pure [.unbuilt err]
    | .ok inputs =>
      let limits := groupLimits engine.pin.pooling
      askedGroups attempt (groupByCellBudget inputs limits.1 limits.2)

/-- Every text that is built is one item. -/
theorem LlamaEngine.length_buildInputs {engine : LlamaEngine} {role : Role} {texts : List String}
    {inputs : List (List LlamaToken)} (h : engine.buildInputs role texts = .ok inputs) :
    inputs.length = texts.length := by
  induction texts generalizing inputs with
  | nil => exact congrArg List.length (Except.ok.inj h).symm
  | cons text rest ih =>
    rw [buildInputs] at h
    rcases hinput : engine.buildInput text role with err | input
    · rw [hinput] at h
      exact absurd h (by simp)
    rcases hrest : engine.buildInputs role rest with err | others
    · rw [hinput, hrest] at h
      exact absurd h (by simp)
    rw [hinput, hrest] at h
    obtain rfl := Except.ok.inj h
    exact congrArg Nat.succ (ih hrest)

variable {attempt} {items : List (List LlamaToken)} {s : σ}

theorem asked_nil : (asked attempt []).run s = ([], s) := by
  rw [asked, dif_pos List.isEmpty_nil]
  rfl

/-- A slice that is not cut. -/
theorem asked_leaf (hne : items ≠ [])
    (h : (settled items.length ((attempt items).run s).1).isSome ∨ items.length = 1) :
    (asked attempt items).run s =
      ([.encoded items ((attempt items).run s).1], ((attempt items).run s).2) := by
  rw [asked, dif_neg fun hempty => hne (List.isEmpty_iff.mp hempty), run_bind_state, dif_pos h]
  rfl

/-- A slice that is cut, and its halves. -/
theorem asked_halves (hmany : 1 < items.length)
    (h : settled items.length ((attempt items).run s).1 = none) :
    (asked attempt items).run s =
      (fun halves : List Answer × σ =>
        (.encoded items ((attempt items).run s).1 :: halves.1, halves.2))
      ((thenAsked (asked attempt (items.take (items.length / 2)))
        (asked attempt (items.drop (items.length / 2)))).run ((attempt items).run s).2) := by
  have hne : ¬ items.isEmpty = true := by
    rw [List.isEmpty_iff_length_eq_zero]
    omega
  have hcut : ¬ ((settled items.length ((attempt items).run s).1).isSome ∨ items.length = 1) := by
    rw [h]
    rintro (hsome | hone)
    · exact absurd hsome (by simp)
    · omega
  rw [asked, dif_neg hne, run_bind_state, dif_neg hcut]
  rfl

end

/-! ## Rows as they are read -/

/-- The vector that is made of a row: the served lane of the pin, for a row that has one. -/
def ModelPin.lane (pin : ModelPin) (raw : List Float32) : List Float32 :=
  (if raw.length < pin.serveDims then none
    else (l2Normalize raw).bind fun vector => l2Normalize (vector.take pin.serveDims)).getD []

theorem getD_serveLane (engine : LlamaEngine) (raw : List Float32) :
    (engine.serveLane raw).getD [] = engine.pin.lane raw := rfl

section

variable {σ : Type} (engine : LlamaEngine) (runtime : LlamaRuntime σ)

/-- The row of one sequence, if the served lane accepts it. -/
def readRaw (seqId : ℕ) : EncodeM σ (List Float32) := do
  let id ← EncodeM.ofOption (tryFromI32 seqId)
  let raw ← EncodeM.call (runtime.embeddingsSeqIth id) fun err =>
    .systemic (.new "Embeddings" err)
  EncodeM.ofOption (if (engine.serveLane raw).isSome then some raw else none)

/-- The rows of `count` sequences, numbered from `seqId`. -/
def readRaws : ℕ → ℕ → EncodeM σ (List (List Float32))
  | 0, _ => pure []
  | count + 1, seqId => do
    let row ← readRaw engine runtime seqId
    let rows ← readRaws count (seqId + 1)
    pure (row :: rows)

/-- The calls of `encodeGroup`, up to the rows. -/
def rawGroup (group : List (List LlamaToken)) : EncodeM σ (List (List Float32)) := do
  let (params, shape) ← EncodeM.ofOption (contextFor engine.pin.pooling group)
  EncodeM.call (runtime.newContext params) fun err =>
    .systemic (.resourceExhausted "ContextAlloc" (err ++ " (" ++ shape.toString ++ ")"))
  ExceptT.lift (runtime.newBatch shape.totalTokens shape.nSeq)
  addSequences runtime group 0
  forward engine runtime shape
  readRaws engine runtime group.length 0

theorem readRow_eq (seqId : ℕ) :
    readRow engine runtime seqId = engine.pin.lane <$> readRaw engine runtime seqId := by
  rw [readRow, readRaw, map_bind]
  refine congrArg _ (funext fun id => ?_)
  rw [map_bind]
  refine congrArg _ (funext fun raw => ?_)
  rcases hlane : engine.serveLane raw with _ | vector
  · rfl
  · have hvector : engine.pin.lane raw = vector := by
      rw [← getD_serveLane, hlane]
      rfl
    rw [← hvector]
    rfl

theorem readRows_eq (count seqId : ℕ) :
    readRows engine runtime count seqId =
      List.map engine.pin.lane <$> readRaws engine runtime count seqId := by
  induction count generalizing seqId with
  | zero => rfl
  | succ count ih =>
    rw [readRows, readRaws, readRow_eq, map_bind, bind_map_left]
    refine congrArg _ (funext fun row => ?_)
    rw [ih, map_bind, bind_map_left]
    rfl

/-- **An encode is an attempt whose rows are made into vectors.** -/
theorem encodeGroup_eq (group : List (List LlamaToken)) :
    encodeGroup engine runtime group =
      List.map engine.pin.lane <$> rawGroup engine runtime group := by
  simp only [encodeGroup, rawGroup, map_bind, readRows_eq]

variable {engine} {runtime}

theorem readRaw_ok {seqId : ℕ} {s : σ} {row : List Float32}
    (h : ((readRaw engine runtime seqId).run.run s).1 = .ok row) :
    (engine.serveLane row).isSome = true := by
  rw [readRaw] at h
  obtain ⟨id, -, h⟩ := EncodeM.bind_ok h
  obtain ⟨raw, -, h⟩ := EncodeM.bind_ok h
  have hraw := EncodeM.ofOption_ok h
  split at hraw
  · rename_i haccepted
    obtain rfl := Option.some.inj hraw
    exact haccepted
  · exact absurd hraw (by simp)

theorem readRaws_ok {count seqId : ℕ} {s : σ} {rows : List (List Float32)}
    (h : ((readRaws engine runtime count seqId).run.run s).1 = .ok rows) :
    ∀ row ∈ rows, (engine.serveLane row).isSome = true := by
  induction count generalizing seqId s rows with
  | zero =>
    obtain rfl := Except.ok.inj h
    exact fun row hrow => absurd hrow (by simp)
  | succ count ih =>
    rw [readRaws] at h
    obtain ⟨first, hfirst, h⟩ := EncodeM.bind_ok h
    obtain ⟨rest, hrest, h⟩ := EncodeM.bind_ok h
    obtain rfl := Except.ok.inj h
    intro row hrow
    rcases List.mem_cons.mp hrow with rfl | hrow
    · exact readRaw_ok hfirst
    · exact ih hrest row hrow

/-- The rows of an attempt are accepted by the served lane. -/
theorem rawGroup_ok {group : List (List LlamaToken)} {s : σ} {rows : List (List Float32)}
    (h : ((rawGroup engine runtime group).run.run s).1 = .ok rows) :
    ∀ row ∈ rows, (engine.serveLane row).isSome = true := by
  rw [rawGroup] at h
  obtain ⟨⟨params, shape⟩, -, h⟩ := EncodeM.bind_ok h
  obtain ⟨-, -, h⟩ := EncodeM.bind_ok h
  obtain ⟨-, -, h⟩ := EncodeM.bind_ok h
  obtain ⟨-, -, h⟩ := EncodeM.bind_ok h
  obtain ⟨-, -, h⟩ := EncodeM.bind_ok h
  exact readRaws_ok h

/-- An encoder makes the rows of its attempts into vectors of a declared width. -/
structure ServesRows (encode attempt : List (List LlamaToken) →
    StateM σ (Except EncodeFailure (List (List Float32)))) (lane : List Float32 → List Float32)
    (dims : ℕ) : Prop where
  /-- The encoder runs the attempt, and nothing besides. -/
  encode : ∀ group s, (encode group).run s =
    (((attempt group).run s).1.map (List.map lane), ((attempt group).run s).2)
  /-- A row that is read has a vector of that width. -/
  width : ∀ group s rows, ((attempt group).run s).1 = .ok rows →
    ∀ row ∈ rows, (lane row).length = dims

theorem length_lane {row : List Float32} (h : (engine.serveLane row).isSome = true) :
    (engine.pin.lane row).length = engine.pin.serveDims := by
  obtain ⟨vector, hvector⟩ := Option.isSome_iff_exists.mp h
  rw [← getD_serveLane, hvector]
  exact length_serveLane hvector

/-- llama.cpp's rows, and the vectors that `encodeGroup` makes of them. -/
theorem encodeGroup_servesRows (engine : LlamaEngine) (runtime : LlamaRuntime σ) :
    ServesRows (fun group => (encodeGroup engine runtime group).run)
      (fun group => (rawGroup engine runtime group).run) engine.pin.lane engine.pin.serveDims := by
  refine ⟨fun group s => ?_, fun group s rows hrows row hrow => length_lane (rawGroup_ok hrows row hrow)⟩
  rw [encodeGroup_eq, ExceptT.run_map]
  rfl

end

end SemanticSidecar
