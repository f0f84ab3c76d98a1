import SemanticSidecar.Engine.Input
import SemanticSidecar.Health

/-!
# Batches: grouping, encoding, and isolating bad inputs

A batch is embedded in three layers.  `groupByCellBudget` cuts the token lists into runs that fit
a context; `isolate` encodes one run, and on an item-shaped failure halves it until the input at
fault stands alone and gets a zero vector; `embedWith` strings these together and checks the
outcome.

The encoder is llama.cpp behind a context that is set up anew for every call.  Here it is a
function with an effect of its own, and everything is stated over the monad of that effect.

`embedWith_transparent` says what all of this is for: under an encoder that treats the members of
a group one by one, the vector of a text does not depend on the rest of the batch.

* `flatten_groupByCellBudget`: the groups put together are the batch, so nothing is lost or
  reordered by grouping.
* `isolate_rule`: the induction that everything about `isolate` is proved by, with one case for each
  way a slice can end.
* `isolate_itemWise`: under an encoder that goes item by item, isolation gives every item the vector
  it would have had on its own.

An encoder may keep a state, and what it does to one item may depend on the state; `ItemWise` says
then that the outcome for an item does not depend on what else is in the slice.  A failure that is
not one of an item ends the request, and this is no matter of the rest of the batch either.
-/

set_option autoImplicit false

namespace SemanticSidecar

/-- Ceiling on context cells encoded in one multi-input context. -/
def maxTokensPerEncode : ℕ := 4096

/-- Ceiling on concurrent sequences in one causal decode. -/
def maxDecodeSequences : ℕ := 64

/-- Ceiling on tokens grouped into one `cls`-pooled encode. -/
def maxClsGroupTokens : ℕ := 2048

/-! ## Grouping -/

section

variable {α : Type}

/-- The loop of `group_by_cell_budget`: `current` is the open group and `currentMax` the length of
its longest member. -/
def groupLoop (budget maxSequences : ℕ) :
    List (List α) → List (List α) → ℕ → List (List (List α))
  | [], current, _ => if current.isEmpty then [] else [current]
  | tokens :: rest, current, currentMax =>
    let nextMax := max currentMax tokens.length
    if !current.isEmpty &&
        (maxSequences ≤ current.length || budget < nextMax * (current.length + 1)) then
      current :: groupLoop budget maxSequences rest [tokens] (max 0 tokens.length)
    else groupLoop budget maxSequences rest (current ++ [tokens]) nextMax

/-- Groups inputs into runs whose context cells and sequence count stay under their limits. -/
def groupByCellBudget (inputs : List (List α)) (budget maxSequences : ℕ) : List (List (List α)) :=
  groupLoop budget (max maxSequences 1) inputs [] 0

theorem flatten_groupLoop (budget maxSequences : ℕ) (inputs current : List (List α))
    (currentMax : ℕ) :
    (groupLoop budget maxSequences inputs current currentMax).flatten = current ++ inputs := by
  induction inputs generalizing current currentMax with
  | nil =>
    rw [groupLoop, List.append_nil]
    cases current with
    | nil => rfl
    | cons first rest => exact List.append_nil _
  | cons tokens rest ih =>
    rw [groupLoop]
    split
    · rw [List.flatten_cons, ih, List.singleton_append]
    · rw [ih, List.append_assoc, List.singleton_append]

/-- **Grouping only cuts.**  The groups put together are the inputs, in order. -/
theorem flatten_groupByCellBudget (inputs : List (List α)) (budget maxSequences : ℕ) :
    (groupByCellBudget inputs budget maxSequences).flatten = inputs := by
  rw [groupByCellBudget, flatten_groupLoop, List.nil_append]

end

/-! ## Isolation -/

/-- Why an encode attempt failed, and therefore whether bisecting it means anything. -/
inductive EncodeFailure where
  /-- A single input in the group can explain the failure. -/
  | item
  /-- The backend itself failed; the request errors instead. -/
  | systemic (err : EngineError)

/-- The vector an input that cannot be encoded is given. -/
def zeroVector (dims : ℕ) : List Float32 := List.replicate dims 0.0

/-- What an encode attempt settles about a slice of `count` items; `none` means that it is to be
split further. -/
def settled (count : ℕ) :
    Except EncodeFailure (List (List Float32)) → Option (Except EngineError (List (List Float32)))
  | .ok vectors => if vectors.length = count then some (.ok vectors) else none
  | .error .item => none
  | .error (.systemic err) => some (.error err)

section

variable {m : Type → Type} [Monad m] {α : Type}

/-- Binary-search failure isolation over an encode operation. -/
def isolate (dims : ℕ) (encode : List α → m (Except EncodeFailure (List (List Float32))))
    (items : List α) : m (Except EngineError (List (List Float32))) :=
  if _hempty : items.isEmpty then pure (.ok [])
  else do
    match settled items.length (← encode items) with
    | some result => pure result
    | none =>
      if _hone : items.length = 1 then pure (.ok [zeroVector dims])
      else
        let mid := items.length / 2
        match ← isolate dims encode (items.take mid) with
        | .error err => pure (.error err)
        | .ok front =>
          match ← isolate dims encode (items.drop mid) with
          | .error err => pure (.error err)
          | .ok back => pure (.ok (front ++ back))
termination_by items.length
decreasing_by
  all_goals
    have hpos := List.length_pos_iff.mpr fun hnil => _hempty (List.isEmpty_iff.mpr hnil)
    simp only [List.length_take, List.length_drop]
    omega

end

section

variable {σ α : Type}

/-- A step of a stateful computation and the rest of it. -/
theorem run_bind_state {β γ : Type} (x : StateM σ β) (k : β → StateM σ γ) (s : σ) :
    (x >>= k).run s = (k (x.run s).1).run (x.run s).2 := rfl

section

variable {encode : List α → StateM σ (Except EncodeFailure (List (List Float32)))} {dims : ℕ}
  {items : List α} {s s₁ : σ}

theorem isolate_nil : (isolate dims encode []).run s = (.ok [], s) := by
  rw [isolate, dif_pos List.isEmpty_nil]
  rfl

theorem isolate_settles (hne : items ≠ []) {result : Except EngineError (List (List Float32))}
    (h : settled items.length ((encode items).run s).1 = some result) :
    (isolate dims encode items).run s = (result, ((encode items).run s).2) := by
  rw [isolate, dif_neg fun hempty => hne (List.isEmpty_iff.mp hempty), run_bind_state, h]
  rfl

theorem isolate_givesUp (hone : items.length = 1)
    (h : settled items.length ((encode items).run s).1 = none) :
    (isolate dims encode items).run s = (.ok [zeroVector dims], ((encode items).run s).2) := by
  have hne : ¬ items.isEmpty = true := by
    rw [List.isEmpty_iff_length_eq_zero]
    omega
  rw [isolate, dif_neg hne, run_bind_state, h]
  simp only [dif_pos hone]
  rfl

/-- The halves of a slice that is cut. -/
theorem isolate_halves (hmany : 1 < items.length)
    (h : settled items.length ((encode items).run s).1 = none) :
    (isolate dims encode items).run s =
      match (isolate dims encode (items.take (items.length / 2))).run ((encode items).run s).2 with
      | (.error err, s') => (.error err, s')
      | (.ok vectors, s₁) =>
        match (isolate dims encode (items.drop (items.length / 2))).run s₁ with
        | (.error err, s') => (.error err, s')
        | (.ok more, s') => (.ok (vectors ++ more), s') := by
  have hne : ¬ items.isEmpty = true := by
    rw [List.isEmpty_iff_length_eq_zero]
    omega
  rw [isolate, dif_neg hne, run_bind_state, h]
  simp only [dif_neg (show ¬ items.length = 1 by omega), run_bind_state]
  generalize (isolate dims encode (items.take (items.length / 2))).run _ = run
  obtain ⟨err | vectors, s₁⟩ := run
  · rfl
  · simp only [run_bind_state]
    generalize (isolate dims encode (items.drop (items.length / 2))).run s₁ = run
    obtain ⟨err | more, s'⟩ := run
    · rfl
    · rfl

end

/-- **The rule of isolation.**  What holds of the two ways in which one attempt ends a slice, and
carries over from the halves of a slice to the whole of it, holds of every slice. -/
theorem isolate_rule {encode : List α → StateM σ (Except EncodeFailure (List (List Float32)))}
    {dims : ℕ} (holds : List α → σ → Except EngineError (List (List Float32)) × σ → Prop)
    (empty : ∀ s, holds [] s (.ok [], s))
    (settles : ∀ items s result, items ≠ [] →
      settled items.length ((encode items).run s).1 = some result →
      holds items s (result, ((encode items).run s).2))
    (givesUp : ∀ items s, items.length = 1 →
      settled items.length ((encode items).run s).1 = none →
      holds items s (.ok [zeroVector dims], ((encode items).run s).2))
    (front : ∀ items s err s', 1 < items.length →
      settled items.length ((encode items).run s).1 = none →
      holds (items.take (items.length / 2)) ((encode items).run s).2 (.error err, s') →
      holds items s (.error err, s'))
    (back : ∀ items s vectors s₁ err s', 1 < items.length →
      settled items.length ((encode items).run s).1 = none →
      holds (items.take (items.length / 2)) ((encode items).run s).2 (.ok vectors, s₁) →
      holds (items.drop (items.length / 2)) s₁ (.error err, s') →
      holds items s (.error err, s'))
    (both : ∀ items s vectors s₁ more s', 1 < items.length →
      settled items.length ((encode items).run s).1 = none →
      holds (items.take (items.length / 2)) ((encode items).run s).2 (.ok vectors, s₁) →
      holds (items.drop (items.length / 2)) s₁ (.ok more, s') →
      holds items s (.ok (vectors ++ more), s'))
    (items : List α) (s : σ) : holds items s ((isolate dims encode items).run s) := by
  induction hn : items.length using Nat.strong_induction_on generalizing items s with
  | _ n ih =>
    rcases eq_or_ne items [] with rfl | hne
    · rw [isolate_nil]
      exact empty s
    have hpos := List.length_pos_iff.mpr hne
    rcases hsettled : settled items.length ((encode items).run s).1 with _ | result
    · rcases Nat.lt_or_ge 1 items.length with hmany | hone
      · rw [isolate_halves hmany hsettled]
        have hfront := ih _ (by rw [List.length_take]; omega) (items.take (items.length / 2))
          ((encode items).run s).2 rfl
        have hback := fun s => ih _ (by rw [List.length_drop]; omega)
          (items.drop (items.length / 2)) s rfl
        generalize (isolate dims encode (items.take (items.length / 2))).run _ = run at hfront ⊢
        obtain ⟨err | vectors, s₁⟩ := run
        · exact front items s err s₁ hmany hsettled hfront
        · have hback' := hback s₁
          dsimp only
          generalize (isolate dims encode (items.drop (items.length / 2))).run s₁ = run
            at hback' ⊢
          obtain ⟨err | more, s'⟩ := run
          · exact back items s vectors s₁ err s' hmany hsettled hfront hback'
          · exact both items s vectors s₁ more s' hmany hsettled hfront hback'
      · have hone : items.length = 1 := by omega
        rw [isolate_givesUp hone hsettled]
        exact givesUp items s hone hsettled
    · rw [isolate_settles hne hsettled]
      exact settles items s result hne hsettled

end

section

variable {m : Type → Type} [Monad m] {α : Type}

/-- Every group in turn, the vectors one after the other. -/
def isolateGroups (dims : ℕ) (encode : List α → m (Except EncodeFailure (List (List Float32)))) :
    List (List α) → m (Except EngineError (List (List Float32)))
  | [] => pure (.ok [])
  | group :: rest => do
    match ← isolate dims encode group with
    | .error err => pure (.error err)
    | .ok vectors =>
      match ← isolateGroups dims encode rest with
      | .error err => pure (.error err)
      | .ok more => pure (.ok (vectors ++ more))

/-! ## The engine's `embed` -/

/-- The group budget and the sequence limit of a pooling mode. -/
def groupLimits : Pooling → ℕ × ℕ
  | .cls => (maxClsGroupTokens, maxBatchItems)
  | .last => (maxTokensPerEncode, maxDecodeSequences)

/-- `build_input` of every text; the first failure is the result. -/
def LlamaEngine.buildInputs (engine : LlamaEngine) (role : Role) :
    List String → Except EngineError (List (List LlamaToken))
  | [] => .ok []
  | text :: rest =>
    match engine.buildInput text role with
    | .error err => .error err
    | .ok input =>
      match buildInputs engine role rest with
      | .error err => .error err
      | .ok inputs => .ok (input :: inputs)

/-- `embed` of the llama.cpp engine, with the encoder of a group as an argument. -/
def LlamaEngine.embedWith (engine : LlamaEngine)
    (encodeGroup : List (List LlamaToken) → m (Except EncodeFailure (List (List Float32))))
    (texts : List String) (role : Role) : m (Except EngineError EmbedOutput) :=
  let dims := engine.pin.serveDims
  if texts.isEmpty then pure (.ok ⟨dims, []⟩)
  else
    match engine.buildInputs role texts with
    | .error err => pure (.error err)
    | .ok inputs => do
      let limits := groupLimits engine.pin.pooling
      match ← isolateGroups dims encodeGroup (groupByCellBudget inputs limits.1 limits.2) with
      | .error err => pure (.error err)
      | .ok vectors =>
        if vectors.length ≠ texts.length then
          pure (.error (.new "CountMismatch" ("produced " ++ toString vectors.length ++
            " vectors for " ++ toString texts.length ++ " texts")))
        else
          match vectors.find? fun v => v.length ≠ dims with
          | some bad =>
            pure (.error (.new "DimsMismatch" ("produced a " ++ toString bad.length ++
              "-dim vector, declared " ++ toString dims)))
          | none => pure (.ok ⟨dims, vectors⟩)

end

/-! ## An encoder that treats items one by one -/

section

variable {σ α : Type}

/-- Whatever state it is called in, the encoder gives the members of a group without poison their
own vectors, or asks for the group to be split where that is possible; and it rejects a group that
has poison in it. -/
structure ItemWise (encode : List α → StateM σ (Except EncodeFailure (List (List Float32))))
    (poison : α → Prop) (f : α → List Float32) (dims : ℕ) : Prop where
  /-- Without poison the members get their vectors, or the group is to be split. -/
  clean : ∀ group, group ≠ [] → (∀ x ∈ group, ¬ poison x) → ∀ s,
    ((encode group).run s).1 = .ok (group.map f) ∨
      1 < group.length ∧ ((encode group).run s).1 = .error .item
  /-- With poison in it the group is rejected. -/
  poisoned : ∀ group, (∃ x ∈ group, poison x) → ∀ s, ((encode group).run s).1 = .error .item
  /-- The vectors have the declared width. -/
  dims : ∀ x, (f x).length = dims

open Classical in
/-- The vector of an item: its own, or the zero vector for poison. -/
noncomputable def itemVector (poison : α → Prop) (f : α → List Float32) (dims : ℕ) (x : α) :
    List Float32 :=
  if poison x then zeroVector dims else f x

variable {encode : List α → StateM σ (Except EncodeFailure (List (List Float32)))}
  {poison : α → Prop} {f : α → List Float32} {dims : ℕ}

theorem length_itemVector (h : ItemWise encode poison f dims) (x : α) :
    (itemVector poison f dims x).length = dims := by
  rw [itemVector]
  split
  · exact List.length_replicate
  · exact h.dims x

theorem itemVector_of_clean {group : List α} (hclean : ∀ x ∈ group, ¬ poison x) :
    group.map (itemVector poison f dims) = group.map f :=
  List.map_congr_left fun x hx => by rw [itemVector, if_neg (hclean x hx)]

/-- An attempt on a slice either settles it with the vectors of its items, or calls for a split;
and a slice of one item is only split when that item is poison. -/
theorem settled_itemWise (h : ItemWise encode poison f dims) {items : List α} (hne : items ≠ [])
    (s : σ) :
    settled items.length ((encode items).run s).1 =
        some (.ok (items.map (itemVector poison f dims))) ∨
      settled items.length ((encode items).run s).1 = none ∧
        (items.length = 1 → items.map (itemVector poison f dims) = [zeroVector dims]) := by
  by_cases hpoison : ∃ x ∈ items, poison x
  · refine Or.inr ⟨by rw [h.poisoned items hpoison s, settled], fun hlen => ?_⟩
    obtain ⟨x, hx, hbad⟩ := hpoison
    obtain ⟨y, rfl⟩ := List.length_eq_one_iff.mp hlen
    rw [List.mem_singleton.mp hx] at hbad
    rw [List.map_singleton, itemVector, if_pos hbad]
  · have hclean : ∀ x ∈ items, ¬ poison x := fun x hx hbad => hpoison ⟨x, hx, hbad⟩
    rw [itemVector_of_clean hclean]
    rcases h.clean items hne hclean s with hok | ⟨hlen, hitem⟩
    · refine Or.inl ?_
      rw [hok, settled, if_pos (List.length_map f)]
    · refine Or.inr ⟨by rw [hitem, settled], fun hone => ?_⟩
      omega

/-- **Isolation gives every item its own vector.** -/
theorem isolate_itemWise (h : ItemWise encode poison f dims) (items : List α) (s : σ) :
    ((isolate dims encode items).run s).1 = .ok (items.map (itemVector poison f dims)) := by
  refine isolate_rule (fun items _ run =>
    run.1 = .ok (items.map (itemVector poison f dims))) ?_ ?_ ?_ ?_ ?_ ?_ items s
  · exact fun _ => rfl
  · intro items s result hne hsettled
    rcases settled_itemWise h hne s with hsome | ⟨hnone, -⟩
    · rw [hsome] at hsettled
      exact (Option.some.inj hsettled).symm
    · rw [hnone] at hsettled
      cases hsettled
  · intro items s hone hsettled
    have hne : items ≠ [] := by
      rintro rfl
      cases hone
    rcases settled_itemWise h hne s with hsome | ⟨-, hzero⟩
    · rw [hsome] at hsettled
      cases hsettled
    · rw [hzero hone]
  · intro items s err s' _ _ hfront
    cases hfront
  · intro items s vectors s₁ err s' _ _ _ hback
    cases hback
  · -- The vectors of both halves put together are those of the whole.
    intro items s vectors s₁ more s' _ _ hfront hback
    rw [Except.ok.inj hfront, Except.ok.inj hback, ← List.map_append, List.take_append_drop]

theorem isolateGroups_itemWise (h : ItemWise encode poison f dims) (groups : List (List α))
    (s : σ) :
    ((isolateGroups dims encode groups).run s).1 =
      .ok (groups.flatten.map (itemVector poison f dims)) := by
  induction groups generalizing s with
  | nil => rfl
  | cons group rest ih =>
    simp only [isolateGroups, run_bind_state, isolate_itemWise h, ih]
    rw [List.flatten_cons, List.map_append]
    rfl

end

/-! ## Batch transparency -/

namespace LlamaEngine

variable {engine : LlamaEngine} {role : Role}

theorem buildInputs_ok {texts : List String}
    (h : ∀ text ∈ texts, ∃ input, engine.buildInput text role = .ok input) :
    ∃ inputs, engine.buildInputs role texts = .ok inputs ∧
      List.Forall₂ (fun text input => engine.buildInput text role = .ok input) texts inputs := by
  induction texts with
  | nil => exact ⟨[], rfl, .nil⟩
  | cons text rest ih =>
    obtain ⟨input, hinput⟩ := h text (List.mem_cons_self)
    obtain ⟨inputs, hinputs, hall⟩ := ih fun t ht => h t (List.mem_cons_of_mem _ ht)
    refine ⟨input :: inputs, ?_, .cons hinput hall⟩
    simp only [buildInputs, hinput, hinputs]

variable {σ : Type}
  {encodeGroup : List (List LlamaToken) → StateM σ (Except EncodeFailure (List (List Float32)))}
  {poison : List LlamaToken → Prop} {f : List LlamaToken → List Float32}

/-- The batch is answered with the vector of every input, and neither of the final checks
fails. -/
theorem embedWith_itemWise (h : ItemWise encodeGroup poison f engine.pin.serveDims)
    {texts : List String} {inputs : List (List LlamaToken)}
    (hinputs : engine.buildInputs role texts = .ok inputs)
    (hlength : inputs.length = texts.length) (s : σ) :
    ((engine.embedWith encodeGroup texts role).run s).1 =
      .ok ⟨engine.pin.serveDims, inputs.map (itemVector poison f engine.pin.serveDims)⟩ := by
  rw [embedWith]
  by_cases hempty : texts.isEmpty = true
  · rw [if_pos hempty]
    rw [List.isEmpty_iff.mp hempty, List.length_nil, List.length_eq_zero_iff] at hlength
    rw [hlength]
    rfl
  · have hcount : ¬ (inputs.map (itemVector poison f engine.pin.serveDims)).length ≠
        texts.length := by
      rw [List.length_map, hlength]
      exact not_not.mpr rfl
    have hdims : ((inputs.map (itemVector poison f engine.pin.serveDims)).find? fun v =>
        v.length ≠ engine.pin.serveDims) = none := by
      refine List.find?_eq_none.mpr fun v hv => ?_
      obtain ⟨input, -, rfl⟩ := List.mem_map.mp hv
      simp [length_itemVector h]
    simp only [if_neg hempty, hinputs, run_bind_state, isolateGroups_itemWise h,
      flatten_groupByCellBudget, if_neg hcount, hdims]
    rfl

/-- **Batch transparency.**  The batch succeeds, and the vector of a text in it is the one the
text gets on its own: that of its input, or the zero vector for poison. -/
theorem embedWith_transparent (h : ItemWise encodeGroup poison f engine.pin.serveDims)
    {texts : List String} (hbuild : ∀ text ∈ texts, ∃ input, engine.buildInput text role = .ok input)
    (s : σ) :
    ∃ vectors, ((engine.embedWith encodeGroup texts role).run s).1 =
        .ok ⟨engine.pin.serveDims, vectors⟩ ∧
      vectors.length = texts.length ∧
      ∀ (i : ℕ) (text : String), texts[i]? = some text → ∃ input vector,
        engine.buildInput text role = .ok input ∧ vectors[i]? = some vector ∧
        (poison input → vector = zeroVector engine.pin.serveDims) ∧
        (¬ poison input → vector = f input) ∧
        ∀ t, ((engine.embedWith encodeGroup [text] role).run t).1 =
          .ok ⟨engine.pin.serveDims, [vector]⟩ := by
  obtain ⟨inputs, hinputs, hall⟩ := buildInputs_ok hbuild
  refine ⟨_, embedWith_itemWise h hinputs hall.length_eq.symm s, ?_, fun i text htext => ?_⟩
  · rw [List.length_map, hall.length_eq]
  · obtain ⟨hi, rfl⟩ := List.getElem?_eq_some_iff.mp htext
    have hi' : i < inputs.length := hall.length_eq ▸ hi
    have hinput : engine.buildInput texts[i] role = .ok inputs[i] :=
      (List.forall₂_iff_get.mp hall).2 i hi hi'
    have hsingle : engine.buildInputs role [texts[i]] = .ok [inputs[i]] := by
      simp only [buildInputs, hinput]
    refine ⟨inputs[i], itemVector poison f engine.pin.serveDims inputs[i], hinput, ?_, ?_, ?_, ?_⟩
    · rw [List.getElem?_map, List.getElem?_eq_getElem hi', Option.map_some]
    · exact fun hbad => if_pos hbad
    · exact fun hgood => if_neg hgood
    · exact fun t => embedWith_itemWise h hsingle rfl t

/-- A vector that tells the length of an input. -/
def lengthVector (input : List LlamaToken) : List Float32 :=
  List.replicate 512 (Float32.ofNat input.length)

/-- The input begins with the first byte of 'é'. -/
def startsInLead (input : List LlamaToken) : Bool := input.head? == some (byteToken 0xC3)

/-- An encoder that measures its inputs, and rejects a group with one that begins with an 'é'. -/
def lengthEncoder (group : List (List LlamaToken)) :
    StateM Unit (Except EncodeFailure (List (List Float32))) :=
  pure (if group.any startsInLead then .error .item else .ok (group.map lengthVector))

theorem lengthEncoder_itemWise :
    ItemWise lengthEncoder (fun input => startsInLead input = true) lengthVector 512 where
  clean group _ hclean s := by
    have hnone : ¬ group.any startsInLead = true := by
      rw [List.any_eq_true]
      rintro ⟨input, hinput, hlead⟩
      exact hclean input hinput hlead
    refine Or.inl ?_
    rw [lengthEncoder, if_neg hnone]
    rfl
  poisoned group hbad s := by
    rw [lengthEncoder, if_pos (List.any_eq_true.mpr hbad)]
    rfl
  dims _ := List.length_replicate

/-- Batch transparency on three texts under the byte-level model, the second of which is poison: it
gets the zero vector, and the others get their own, as they do one by one. -/
theorem embedWith_transparent_byteEngine :
    ∃ vectors, ((byteEngine.embedWith lengthEncoder [cutText 1, cutText 0, cutText 2]
        .document).run ()).1 = .ok ⟨512, vectors⟩ ∧ vectors.length = 3 ∧
      vectors[0]? = some (List.replicate 512 (Float32.ofNat 16)) ∧
      vectors[1]? = some (zeroVector 512) ∧
      vectors[2]? = some (List.replicate 512 (Float32.ofNat 17)) ∧
      ∀ t, ((byteEngine.embedWith lengthEncoder [cutText 0] .document).run t).1 =
        .ok ⟨512, [zeroVector 512]⟩ := by
  have hbuild : ∀ text ∈ [cutText 1, cutText 0, cutText 2],
      ∃ input, byteEngine.buildInput text .document = .ok input := by
    intro text htext
    simp only [List.mem_cons, List.not_mem_nil, or_false] at htext
    rcases htext with rfl | rfl | rfl
    · exact buildInput_cutText_of_le (by decide)
    · exact buildInput_cutText_of_le (by decide)
    · exact buildInput_cutText_of_le (by decide)
  obtain ⟨vectors, hok, hlength, hall⟩ :=
    @embedWith_transparent byteEngine .document Unit _ _ _ lengthEncoder_itemWise _ hbuild ()
  obtain ⟨_, first, hfirst, hfirstAt, -, hfirstIs, -⟩ := hall 0 (cutText 1) rfl
  obtain ⟨_, second, hsecond, hsecondAt, hsecondIs, -, halone⟩ := hall 1 (cutText 0) rfl
  obtain ⟨_, third, hthird, hthirdAt, -, hthirdIs, -⟩ := hall 2 (cutText 2) rfl
  rw [buildInput_cutText_eq (by decide)] at hfirst hsecond hthird
  obtain rfl := Except.ok.inj hfirst
  obtain rfl := Except.ok.inj hsecond
  obtain rfl := Except.ok.inj hthird
  obtain rfl := hfirstIs (by decide)
  obtain rfl := hsecondIs (by decide)
  obtain rfl := hthirdIs (by decide)
  exact ⟨vectors, hok, hlength, hfirstAt, hsecondAt, hthirdAt, halone⟩

end LlamaEngine

end SemanticSidecar
