import SemanticSidecar.Engine.Encode
import SemanticSidecar.Engine.Isolation

/-!
# The resource envelope of an encode

llama.cpp asserts on a context that is too small for its batch and fails to allocate one that is
too large, so what a request costs has to be bounded before it gets there.  The bounds are made by
`groupByCellBudget`, which counts the cells of a context: the longest member times the number of
members.  `groupByCellBudget_law` says what a group is.  The products are natural numbers here; in
the source they are of `usize`, and `groupLoopUsize_eq` says that this makes no difference before
the inputs need 2^64 cells.

A group is not what llama.cpp sees, though: bisection hands it parts of groups.  A part of a group
needs no more than the group, and `embed_envelope` takes the bounds to every call that a request
makes.

The bounds are about the two things a call of `encodeGroup` asks llama.cpp to allocate:
* the context, `runtime.newContext` with the parameters that `contextFor` gives for the group, and
* the batch, `runtime.newBatch` with the token total and the number of sequences.
It asks for nothing where `contextFor` gives nothing, but a group of several members does get its
context as soon as one of them has a token (`InEnvelope.allocates`).
-/

set_option autoImplicit false

namespace SemanticSidecar

section

variable {α : Type}

/-! ## The grouping law -/

/-- The length of the longest member. -/
def longest (group : List (List α)) : ℕ := (group.map List.length).foldl max 0

/-- The group keeps to the limits.  A group of one is within any budget. -/
structure FitsGroup (budget maxSequences : ℕ) (group : List (List α)) : Prop where
  /-- There is something to encode. -/
  nonempty : group ≠ []
  /-- There are no more members than sequences. -/
  members : group.length ≤ maxSequences
  /-- The context of several members is within the budget. -/
  cells : group.length = 1 ∨ longest group * group.length ≤ budget

/-- One more member would break one of the limits. -/
def IsFull (budget maxSequences : ℕ) (group : List (List α)) (tokens : List α) : Prop :=
  maxSequences < (group ++ [tokens]).length ∨
    budget < longest (group ++ [tokens]) * (group ++ [tokens]).length

theorem longest_append (group : List (List α)) (tokens : List α) :
    longest (group ++ [tokens]) = max (longest group) tokens.length := by
  simp [longest]

theorem foldl_max_le_iff {lengths : List ℕ} {start bound : ℕ} :
    lengths.foldl max start ≤ bound ↔ start ≤ bound ∧ ∀ n ∈ lengths, n ≤ bound := by
  induction lengths generalizing start with
  | nil => simp
  | cons n rest ih => simp [ih, and_assoc]

theorem longest_le_iff {group : List (List α)} {bound : ℕ} :
    longest group ≤ bound ↔ ∀ tokens ∈ group, tokens.length ≤ bound := by
  simp [longest, foldl_max_le_iff]

theorem length_le_longest {group : List (List α)} {tokens : List α} (h : tokens ∈ group) :
    tokens.length ≤ longest group :=
  longest_le_iff.mp le_rfl tokens h

theorem sum_length_le (group : List (List α)) :
    (group.map List.length).sum ≤ longest group * group.length := by
  have hbound : ∀ bound, (∀ tokens ∈ group, tokens.length ≤ bound) →
      (group.map List.length).sum ≤ bound * group.length := by
    intro bound hall
    induction group with
    | nil => simp
    | cons tokens rest ih =>
      have hhead := hall tokens List.mem_cons_self
      have htail := ih fun t ht => hall t (List.mem_cons_of_mem _ ht)
      rw [List.map_cons, List.sum_cons, List.length_cons, Nat.mul_succ]
      omega
  exact hbound _ fun tokens h => length_le_longest h

variable {budget maxSequences : ℕ}

/-- The loop hands out the open group, which may have grown, and then groups of the rest. -/
theorem groupLoop_eq_cons (inputs current : List (List α)) (hne : current ≠ []) (currentMax : ℕ) :
    ∃ more rest, groupLoop budget maxSequences inputs current currentMax =
      (current ++ more) :: rest := by
  induction inputs generalizing current currentMax with
  | nil => exact ⟨[], [], by simp [groupLoop, hne]⟩
  | cons tokens inputs ih =>
    rw [groupLoop]
    split
    · exact ⟨[], _, by rw [List.append_nil]⟩
    · obtain ⟨more, rest, heq⟩ := ih (current ++ [tokens]) (by simp) (max currentMax tokens.length)
      exact ⟨tokens :: more, rest, by rw [heq, List.append_assoc, List.singleton_append]⟩

/-- A group of one member. -/
theorem fitsGroup_singleton (hpos : 1 ≤ maxSequences) (tokens : List α) :
    FitsGroup budget maxSequences [tokens] :=
  ⟨by simp, by simpa using hpos, Or.inl rfl⟩

/-- The step of the loop: the open group is full for the next input, or stays within the limits
with it. -/
theorem isFull_or_fitsGroup {current : List (List α)} (hne : current ≠ []) (tokens : List α) :
    (!current.isEmpty && (maxSequences ≤ current.length ||
        budget < max (longest current) tokens.length * (current.length + 1))) = true ∧
      IsFull budget maxSequences current tokens ∨
    (!current.isEmpty && (maxSequences ≤ current.length ||
        budget < max (longest current) tokens.length * (current.length + 1))) = false ∧
      FitsGroup budget maxSequences (current ++ [tokens]) := by
  have hlength : (current ++ [tokens]).length = current.length + 1 := by simp
  by_cases hfull : IsFull budget maxSequences current tokens
  · refine Or.inl ⟨?_, hfull⟩
    rw [IsFull, hlength, longest_append] at hfull
    simpa [hne, Nat.lt_succ_iff] using hfull
  · have hfits := hfull
    rw [IsFull, hlength, longest_append, not_or] at hfits
    refine Or.inr ⟨?_, by simp, by omega, Or.inr ?_⟩
    · simpa [hne, Nat.lt_succ_iff] using hfits
    · rw [hlength, longest_append]
      omega

/-- What holds of the groups of the loop, with a group open. -/
theorem groupLoop_law (hpos : 1 ≤ maxSequences) (inputs current : List (List α))
    (hcurrent : FitsGroup budget maxSequences current) :
    (∀ group ∈ groupLoop budget maxSequences inputs current (longest current),
        FitsGroup budget maxSequences group) ∧
      (groupLoop budget maxSequences inputs current (longest current)).IsChain fun group next =>
        ∀ tokens ∈ next.head?, IsFull budget maxSequences group tokens := by
  induction inputs generalizing current with
  | nil =>
    have hempty : current.isEmpty = false := by simpa using hcurrent.nonempty
    rw [groupLoop, hempty]
    simpa using hcurrent
  | cons tokens inputs ih =>
    rw [groupLoop]
    rcases isFull_or_fitsGroup hcurrent.nonempty tokens with ⟨hcond, hfull⟩ | ⟨hcond, hfits⟩
    · have hone : longest [tokens] = max 0 tokens.length := by simp [longest]
      obtain ⟨hall, hchain⟩ := ih [tokens] (fitsGroup_singleton hpos tokens)
      obtain ⟨more, rest, heq⟩ :=
        @groupLoop_eq_cons α budget maxSequences inputs [tokens] (by simp) (longest [tokens])
      rw [if_pos hcond, ← hone]
      refine ⟨?_, ?_⟩
      · rintro group (_ | ⟨_, hgroup⟩)
        · exact hcurrent
        · exact hall group hgroup
      · rw [heq] at hchain ⊢
        refine List.isChain_cons_cons.mpr ⟨?_, hchain⟩
        simpa using hfull
    · rw [hcond, if_neg Bool.false_ne_true, ← longest_append]
      exact ih (current ++ [tokens]) hfits

/-- **The grouping law.**  The groups are the inputs in order, each within the limits, and no group
could have taken the first member of the next. -/
theorem groupByCellBudget_law (inputs : List (List α)) (budget maxSequences : ℕ) :
    let groups := groupByCellBudget inputs budget maxSequences
    groups.flatten = inputs ∧
      (∀ group ∈ groups, group ≠ [] ∧ group.length ≤ max 1 maxSequences ∧
        (group.length = 1 ∨ longest group * group.length ≤ budget)) ∧
      groups.IsChain fun group next => ∀ tokens ∈ next.head?,
        max 1 maxSequences < (group ++ [tokens]).length ∨
          budget < longest (group ++ [tokens]) * (group ++ [tokens]).length := by
  intro groups
  refine ⟨flatten_groupByCellBudget inputs budget maxSequences, ?_⟩
  cases inputs with
  | nil => simp [groups, groupByCellBudget, groupLoop]
  | cons tokens inputs =>
    have hpos : 1 ≤ max 1 maxSequences := le_max_left 1 maxSequences
    have heq : groups =
        groupLoop budget (max 1 maxSequences) inputs [tokens] (longest [tokens]) := by
      simp [groups, groupByCellBudget, groupLoop, longest, max_comm]
    obtain ⟨hall, hchain⟩ := groupLoop_law hpos inputs [tokens]
      (@fitsGroup_singleton α budget (max 1 maxSequences) hpos tokens)
    rw [heq]
    refine ⟨fun group hgroup => ?_, hchain⟩
    obtain ⟨hne, hmembers, hcells⟩ := hall group hgroup
    exact ⟨hne, hmembers, hcells⟩

/-- The loop with the products of the machine. -/
def groupLoopUsize (budget maxSequences : ℕ) :
    List (List α) → List (List α) → ℕ → List (List (List α))
  | [], current, _ => if current.isEmpty then [] else [current]
  | tokens :: rest, current, currentMax =>
    let nextMax := max currentMax tokens.length
    if !current.isEmpty && (maxSequences ≤ current.length ||
        budget < nextMax * (current.length + 1) % 2 ^ 64) then
      current :: groupLoopUsize budget maxSequences rest [tokens] (max 0 tokens.length)
    else groupLoopUsize budget maxSequences rest (current ++ [tokens]) nextMax

/-- No product overflows where the longest input times their number does not. -/
theorem groupLoopUsize_eq (inputs current : List (List α)) (currentMax bound : ℕ)
    (hinputs : ∀ tokens ∈ inputs, tokens.length ≤ bound) (hmax : currentMax ≤ bound)
    (hbound : bound * (current.length + inputs.length) < 2 ^ 64) :
    groupLoopUsize budget maxSequences inputs current currentMax =
      groupLoop budget maxSequences inputs current currentMax := by
  induction inputs generalizing current currentMax with
  | nil => rfl
  | cons tokens inputs ih =>
    have hnext : max currentMax tokens.length ≤ bound :=
      max_le hmax (hinputs tokens List.mem_cons_self)
    have hrest : ∀ t ∈ inputs, t.length ≤ bound := fun t ht => hinputs t (List.mem_cons_of_mem _ ht)
    have hproduct : max currentMax tokens.length * (current.length + 1) < 2 ^ 64 := by
      refine (Nat.mul_le_mul hnext ?_).trans_lt hbound
      rw [List.length_cons]
      omega
    rw [groupLoopUsize, groupLoop]
    simp only [Nat.mod_eq_of_lt hproduct]
    split
    · refine congrArg _ (ih [tokens] _ hrest ?_ ((Nat.mul_le_mul_left bound ?_).trans_lt hbound))
      · exact max_le (Nat.zero_le _) (hinputs tokens List.mem_cons_self)
      · simp only [List.length_cons, List.length_nil]
        omega
    · refine ih _ _ hrest hnext ((Nat.mul_le_mul_left bound ?_).trans_lt hbound)
      simp only [List.length_append, List.length_cons, List.length_nil]
      omega

/-! ## Parts of a group -/

theorem longest_part_le {part group : List (List α)} (h : part <:+: group) :
    longest part ≤ longest group :=
  longest_le_iff.mpr fun _ htokens => length_le_longest (h.subset htokens)

/-- A part of a group keeps to the limits that the group keeps to. -/
theorem FitsGroup.of_part {part group : List (List α)} (h : FitsGroup budget maxSequences group)
    (hpart : part <:+: group) (hne : part ≠ []) : FitsGroup budget maxSequences part := by
  have hlength := hpart.length_le
  have hpos := List.length_pos_iff.mpr hne
  refine ⟨hne, hlength.trans h.members, ?_⟩
  rcases h.cells with hone | hcells
  · exact Or.inl (by omega)
  · exact Or.inr ((Nat.mul_le_mul (longest_part_le hpart) hlength).trans hcells)

end

/-! ## The context of a group -/

theorem tryFromU32_eq_some {n m : ℕ} : tryFromU32 n = some m ↔ n < 2 ^ 32 ∧ n = m := by
  rw [tryFromU32]
  split
  · simp only [Option.some.injEq]
    omega
  · simp only [reduceCtorEq, false_iff, not_and]
    omega

theorem tryFromI32_eq_some {n m : ℕ} : tryFromI32 n = some m ↔ n < 2 ^ 31 ∧ n = m := by
  rw [tryFromI32]
  split
  · simp only [Option.some.injEq]
    omega
  · simp only [reduceCtorEq, false_iff, not_and]
    omega

/-- The parameters that `runtime.newContext` is called with fit the group. -/
structure FitsContext (pooling : Pooling) (group : List (List LlamaToken))
    (params : ContextParams) : Prop where
  /-- The context is the longest member times their number. -/
  nCtx : params.nCtx = some (longest group * group.length)
  /-- The share of each sequence holds every member. -/
  share : ∀ tokens ∈ group, tokens.length ≤ longest group * group.length / params.nSeqMax
  /-- The batch is the token total. -/
  nBatch : params.nBatch = (group.map List.length).sum
  /-- The micro-batch is part of the batch. -/
  ubatch_le : params.nUbatch ≤ params.nBatch
  /-- The batch is part of the context. -/
  batch_le : params.nBatch ≤ longest group * group.length
  /-- CLS pooling needs every token in one micro-batch. -/
  ubatch_cls : pooling = .cls → params.nUbatch = (group.map List.length).sum
  /-- Last-token pooling does not, and keeps to a limit. -/
  ubatch_last : pooling = .last → params.nUbatch ≤ maxDecodeUbatchTokens

/-- What `runtime.newBatch` is called with: the token total and the number of sequences.  The size
of the context goes with them into the messages. -/
structure FitsShape (group : List (List LlamaToken)) (shape : EncodeShape) : Prop where
  /-- The first argument is the token total. -/
  totalTokens : shape.totalTokens = (group.map List.length).sum
  /-- The second argument is the number of members. -/
  nSeq : shape.nSeq = group.length
  /-- The size of the context is the one that `newContext` is called with. -/
  nCtx : shape.nCtx = longest group * group.length

/-- Every context that is set up fits its group, and so does the batch. -/
theorem fitsContext_of_contextFor {pooling : Pooling} {group : List (List LlamaToken)}
    {params : ContextParams} {shape : EncodeShape}
    (h : contextFor pooling group = some (params, shape)) :
    FitsContext pooling group params ∧ FitsShape group shape := by
  have hsum := sum_length_le group
  simp only [contextFor, Option.bind_eq_bind, Option.bind_eq_some_iff, tryFromU32_eq_some,
    tryFromI32_eq_some] at h
  obtain ⟨nTokens, ⟨-, rfl⟩, nSeq, ⟨-, rfl⟩, nSeqMax, ⟨-, rfl⟩, nCtx, ⟨-, rfl⟩, h⟩ := h
  split at h
  · cases h
  obtain ⟨nUbatch, hubatch, h⟩ := Option.bind_eq_some_iff.mp h
  obtain ⟨rfl, rfl⟩ := Prod.mk.inj (Option.some.inj h)
  have hcells : longest group * group.length ≠ 0 := by omega
  have hlength : 0 < group.length := Nat.pos_of_ne_zero (Nat.ne_zero_of_mul_ne_zero_right hcells)
  refine ⟨⟨if_neg hcells, fun tokens htokens => ?_, rfl, ?_, hsum, ?_, ?_⟩, rfl, rfl, rfl⟩
  · rw [Nat.mul_div_cancel _ hlength]
    exact length_le_longest htokens
  · cases pooling with
    | cls => exact (Option.some.inj hubatch).ge
    | last =>
      obtain ⟨-, rfl⟩ := tryFromU32_eq_some.mp hubatch
      exact min_le_left _ _
  · rintro rfl
    exact (Option.some.inj hubatch).symm
  · rintro rfl
    obtain ⟨-, rfl⟩ := tryFromU32_eq_some.mp hubatch
    exact min_le_right _ _

/-- None of the conversions of a group fails. -/
structure Converts (group : List (List LlamaToken)) : Prop where
  /-- The token total. -/
  nTokens : tryFromU32 (group.map List.length).sum = some (group.map List.length).sum
  /-- The number of sequences of the batch. -/
  nSeq : tryFromI32 group.length = some group.length
  /-- The number of sequences of the context. -/
  nSeqMax : tryFromU32 group.length = some group.length
  /-- The size of the context. -/
  nCtx : tryFromU32 (longest group * group.length) = some (longest group * group.length)
  /-- The micro-batch of last-token pooling. -/
  nUbatch : tryFromU32 (min (group.map List.length).sum maxDecodeUbatchTokens) =
    some (min (group.map List.length).sum maxDecodeUbatchTokens)
  /-- The number of each sequence. -/
  seqId : ∀ seqId < group.length, tryFromI32 seqId = some seqId

theorem converts_of_small {group : List (List LlamaToken)} (hlength : group.length < 2 ^ 31)
    (hcells : longest group * group.length < 2 ^ 32) : Converts group := by
  have hsum := sum_length_le group
  refine ⟨?_, ?_, ?_, ?_, ?_, fun seqId hseqId => ?_⟩
  · exact tryFromU32_eq_some.mpr ⟨by omega, rfl⟩
  · exact tryFromI32_eq_some.mpr ⟨hlength, rfl⟩
  · exact tryFromU32_eq_some.mpr ⟨by omega, rfl⟩
  · exact tryFromU32_eq_some.mpr ⟨hcells, rfl⟩
  · exact tryFromU32_eq_some.mpr ⟨by omega, rfl⟩
  · exact tryFromI32_eq_some.mpr ⟨by omega, rfl⟩

/-- A group with a token in it, none of whose conversions fails, gets a context. -/
theorem Converts.isSome_contextFor {group : List (List LlamaToken)} (h : Converts group)
    (pooling : Pooling) (htokens : (group.map List.length).sum ≠ 0) :
    (contextFor pooling group).isSome = true := by
  have hcells : (group.map List.length).foldl max 0 * group.length = longest group * group.length :=
    rfl
  simp only [contextFor, hcells, h.nTokens, h.nSeq, h.nSeqMax, h.nCtx, Option.bind_eq_bind,
    Option.bind_some, if_neg htokens]
  cases pooling with
  | cls => rfl
  | last =>
    rw [ubatch, h.nUbatch]
    rfl

/-! ## The envelope -/

/-- What a call of `encode_group` costs at most. -/
structure InEnvelope (pooling : Pooling) (group : List (List LlamaToken)) : Prop where
  /-- There is something to encode. -/
  nonempty : group ≠ []
  /-- With CLS pooling there are no more members than a batch has items. -/
  members_cls : pooling = .cls → group.length ≤ maxBatchItems
  /-- With last-token pooling there are no more members than a decode has sequences. -/
  members_last : pooling = .last → group.length ≤ maxDecodeSequences
  /-- The context of several members is within the budget of the pooling mode. -/
  cells : group.length = 1 ∨ longest group * group.length ≤ (groupLimits pooling).1
  /-- The arguments of `runtime.newContext` and `runtime.newBatch`, where they are called, fit the
  group. -/
  context : ∀ params shape, contextFor pooling group = some (params, shape) →
    FitsContext pooling group params ∧ FitsShape group shape
  /-- None of the conversions fails for several members. -/
  converts : 1 < group.length → Converts group
  /-- Several members with a token among them get a context. -/
  allocates : 1 < group.length → (group.map List.length).sum ≠ 0 →
    (contextFor pooling group).isSome = true

theorem inEnvelope_of_fitsGroup {pooling : Pooling} {group : List (List LlamaToken)}
    (h : FitsGroup (groupLimits pooling).1 (groupLimits pooling).2 group) :
    InEnvelope pooling group := by
  obtain ⟨hne, hmembers, hcells⟩ := h
  have hconverts : 1 < group.length → Converts group := by
    intro hmany
    have hbudget : (groupLimits pooling).1 ≤ maxTokensPerEncode ∧
        (groupLimits pooling).2 ≤ maxBatchItems := by
      cases pooling with
      | cls => exact ⟨by decide, by decide⟩
      | last => exact ⟨by decide, by decide⟩
    simp only [maxTokensPerEncode, maxBatchItems] at hbudget
    exact converts_of_small (by omega) (by omega)
  refine ⟨hne, ?_, ?_, hcells, fun _ _ => fitsContext_of_contextFor, hconverts,
    fun hmany => (hconverts hmany).isSome_contextFor pooling⟩
  · rintro rfl
    exact hmembers
  · rintro rfl
    exact hmembers

section

variable {σ : Type} (engine : LlamaEngine) (texts : List String) (role : Role)
  {encode : List (List LlamaToken) → StateM σ (Except EncodeFailure (List (List Float32)))}

/-- A request calls the encoder on parts of groups that keep to the limits of the pooling mode, and
is not disturbed when the calls are noted. -/
theorem embedWith_noting (s : σ) :
    let run := (engine.embedWith (noting encode) texts role).run (s, [])
    (engine.embedWith encode texts role).run s = (run.1, run.2.1) ∧
      ∀ group ∈ run.2.2, InEnvelope engine.pin.pooling group := by
  intro run
  obtain hrun : run = (engine.embedWith (noting encode) texts role).run (s, []) := rfl
  rw [LlamaEngine.embedWith] at hrun ⊢
  by_cases hempty : texts.isEmpty = true
  · simp only [if_pos hempty] at hrun ⊢
    rw [hrun]
    exact ⟨rfl, fun group hgroup => absurd hgroup List.not_mem_nil⟩
  simp only [if_neg hempty] at hrun ⊢
  rcases hinputs : engine.buildInputs role texts with err | inputs
  · rw [hinputs] at hrun
    rw [hrun]
    exact ⟨rfl, fun group hgroup => absurd hgroup List.not_mem_nil⟩
  rw [hinputs] at hrun
  obtain ⟨-, hgroups, -⟩ := groupByCellBudget_law inputs (groupLimits engine.pin.pooling).1
    (groupLimits engine.pin.pooling).2
  obtain ⟨hplain, more, hmore, hparts⟩ := @isolateGroups_noting σ _ encode engine.pin.serveDims
    (groupByCellBudget inputs (groupLimits engine.pin.pooling).1
      (groupLimits engine.pin.pooling).2) (s, [])
  have hpos : max 1 (groupLimits engine.pin.pooling).2 = (groupLimits engine.pin.pooling).2 := by
    cases engine.pin.pooling with
    | cls => decide
    | last => decide
  have hcalls : ∀ slice ∈ more, InEnvelope engine.pin.pooling slice := by
    intro slice hslice
    obtain ⟨group, hgroup, hne, hpart⟩ := hparts slice hslice
    obtain ⟨hnonempty, hmembers, hcells⟩ := hgroups group hgroup
    rw [hpos] at hmembers
    exact inEnvelope_of_fitsGroup (FitsGroup.of_part ⟨hnonempty, hmembers, hcells⟩ hpart hne)
  simp only [run_bind_state] at hrun ⊢
  simp only [hplain]
  generalize (isolateGroups engine.pin.serveDims (noting encode) _).run (s, []) = groups at *
  obtain ⟨err | vectors, s₁⟩ := groups
  · rw [hrun]
    exact ⟨rfl, by simpa using hmore ▸ hcalls⟩
  · by_cases hcount : vectors.length = texts.length
    · simp only [if_neg (not_not.mpr hcount)] at hrun ⊢
      generalize vectors.find? (fun v => decide (v.length ≠ engine.pin.serveDims)) = found at *
      cases found with
      | none =>
        rw [hrun]
        exact ⟨rfl, by simpa using hmore ▸ hcalls⟩
      | some bad =>
        rw [hrun]
        exact ⟨rfl, by simpa using hmore ▸ hcalls⟩
    · simp only [if_pos hcount] at hrun ⊢
      rw [hrun]
      exact ⟨rfl, by simpa using hmore ▸ hcalls⟩

/-- **The resource envelope.**  Every call of `encode_group` that a request makes, on a group or on
any part of it that bisection comes to, is within the envelope: what it calls `runtime.newContext`
and `runtime.newBatch` with is bounded, and for several members with a token among them it does ask
for a context. -/
theorem embed_envelope (runtime : LlamaRuntime σ) (s : σ) :
    let run := (engine.embedWith (noting fun group => (encodeGroup engine runtime group).run)
      texts role).run (s, [])
    (engine.embed runtime texts role).run s = (run.1, run.2.1) ∧
      ∀ group ∈ run.2.2, InEnvelope engine.pin.pooling group :=
  embedWith_noting engine texts role s

end

end SemanticSidecar
