import SemanticSidecar.Engine.Encode

/-!
# An encoder that encodes nothing

`isolate` is meant for a group with a bad input in it.  This file is about a model for which every
group is bad: one whose rows are shorter than the served lane.  No attempt on such a model
succeeds, so `isolate` goes all the way down to single inputs, along `halvings`, and what it makes
of the request is decided by the failures alone.

`isolate_failing` is the case distinction.  Either some attempt fails systemically, and so does the
request; or all of them are blamed on the inputs, and every input gets the zero vector.  A row
that is too short is blamed on the input, so `embed_isError_iff` holds: a model with the wrong
width makes `embed` fail only when llama.cpp itself breaks down on one of the attempts.

What comes before the rows may fail as well: the context may not be made, and a batch may not be
decoded.  `attempts` are the slices that a request tries then, and an encode that fails only in ways
that are put down to the inputs has `EncodeM.Blames`.  `narrowRuntime` is a model of the wrong width
on which nothing else fails, so that a whole request comes back as zero vectors without an error.
-/

set_option autoImplicit false

namespace SemanticSidecar

section

variable {σ α : Type}

/-- What `isolate` tries on items of which it can encode none, in this order. -/
def halvings (items : List α) : List (List α) :=
  if _hempty : items.isEmpty then []
  else if _hone : items.length = 1 then [items]
  else items :: (halvings (items.take (items.length / 2)) ++
    halvings (items.drop (items.length / 2)))
termination_by items.length
decreasing_by
  all_goals
    have hpos := List.length_pos_iff.mpr fun hnil => _hempty (List.isEmpty_iff.mpr hnil)
    simp only [List.length_take, List.length_drop]
    omega

variable (encode : List α → StateM σ (Except EncodeFailure (List (List Float32))))

/-- The backend breaks on one of the attempts, made one after the other. -/
def BreaksOn : List (List α) → σ → Prop
  | [], _ => False
  | items :: rest, s => (∃ err, ((encode items).run s).1 = .error (.systemic err)) ∨
      BreaksOn rest ((encode items).run s).2

/-- The state the attempts leave. -/
def stateAfter : List (List α) → σ → σ
  | [], s => s
  | items :: rest, s => stateAfter rest ((encode items).run s).2

/-- No attempt succeeds. -/
def EncodesNothing : Prop :=
  ∀ items, items ≠ [] → ∀ s, ∃ failure, ((encode items).run s).1 = .error failure

variable {encode}

theorem breaksOn_append (front back : List (List α)) (s : σ) :
    BreaksOn encode (front ++ back) s ↔
      BreaksOn encode front s ∨ BreaksOn encode back (stateAfter encode front s) := by
  induction front generalizing s with
  | nil => simp [BreaksOn, stateAfter]
  | cons items rest ih => rw [List.cons_append, BreaksOn, BreaksOn, ih, stateAfter, or_assoc]

theorem stateAfter_append (front back : List (List α)) (s : σ) :
    stateAfter encode (front ++ back) s = stateAfter encode back (stateAfter encode front s) := by
  induction front generalizing s with
  | nil => rfl
  | cons items rest ih => exact ih _

theorem halvings_nil : halvings ([] : List α) = [] := by
  rw [halvings, dif_pos List.isEmpty_nil]

theorem halvings_single {items : List α} (h : items.length = 1) : halvings items = [items] := by
  obtain ⟨item, rfl⟩ := List.length_eq_one_iff.mp h
  rw [halvings, dif_neg (by simp), dif_pos h]

theorem halvings_split {items : List α} (h : 1 < items.length) :
    halvings items = items :: (halvings (items.take (items.length / 2)) ++
      halvings (items.drop (items.length / 2))) := by
  rw [halvings, dif_neg, dif_neg (by omega)]
  rw [List.isEmpty_iff_length_eq_zero]
  omega

/-- The first attempt is on the items themselves. -/
theorem halvings_cons {items : List α} (h : items ≠ []) : ∃ rest, halvings items = items :: rest := by
  have hpos := List.length_pos_iff.mpr h
  rcases Nat.lt_or_ge 1 items.length with hmany | hone
  · exact ⟨_, halvings_split hmany⟩
  · exact ⟨[], halvings_single (by omega)⟩

theorem not_breaks_of_settled {count : ℕ} {outcome : Except EncodeFailure (List (List Float32))}
    (h : settled count outcome = none) : ¬ ∃ err, outcome = .error (.systemic err) := by
  rintro ⟨err, rfl⟩
  cases h

/-- How a request on `count` items ends, once the attempts on them are made. -/
def Ends (dims : ℕ) (attempts : List (List α)) (count : ℕ) (s : σ)
    (result : Except EngineError (List (List Float32)) × σ) : Prop :=
  (BreaksOn encode attempts s ∧ ∃ err, result.1 = .error err) ∨
    (¬ BreaksOn encode attempts s ∧
      result = (.ok (List.replicate count (zeroVector dims)), stateAfter encode attempts s))

/-- **What isolation makes of an encoder that encodes nothing.** -/
theorem isolate_failing (h : EncodesNothing encode) (dims : ℕ) (items : List α) (s : σ) :
    @Ends σ α encode dims (halvings items) items.length s
      ((isolate dims encode items).run s) := by
  refine isolate_rule (fun items s run => @Ends σ α encode dims (halvings items) items.length s run)
    ?_ ?_ ?_ ?_ ?_ ?_ items s
  · intro s
    rw [halvings_nil]
    exact Or.inr ⟨id, rfl⟩
  · -- An attempt that settles the slice is one on which the backend broke.
    intro items s result hne hsettled
    obtain ⟨failure, hfailure⟩ := h items hne s
    rcases failure with _ | err
    · rw [hfailure] at hsettled
      cases hsettled
    · rw [hfailure] at hsettled
      obtain ⟨rest, hrest⟩ := halvings_cons hne
      refine Or.inl ⟨?_, err, (Option.some.inj hsettled).symm⟩
      rw [hrest]
      exact Or.inl ⟨err, hfailure⟩
  · intro items s hone hsettled
    rw [halvings_single hone, hone]
    refine Or.inr ⟨?_, rfl⟩
    rintro (hbreaks | hnone)
    · exact not_breaks_of_settled hsettled hbreaks
    · exact hnone
  · intro items s err s' hmany hsettled hfront
    rw [halvings_split hmany]
    rcases hfront with ⟨hbreaks, -⟩ | ⟨-, hok⟩
    · exact Or.inl ⟨Or.inr ((breaksOn_append _ _ _).mpr (Or.inl hbreaks)), err, rfl⟩
    · cases hok
  · intro items s vectors s₁ err s' hmany hsettled hfront hback
    rw [halvings_split hmany]
    rcases hfront with ⟨-, err, herr⟩ | ⟨-, hok⟩
    · cases herr
    · rcases hback with ⟨hbreaks, -⟩ | ⟨-, hok'⟩
      · obtain ⟨-, rfl⟩ := Prod.mk.inj hok
        exact Or.inl ⟨Or.inr ((breaksOn_append _ _ _).mpr (Or.inr hbreaks)), err, rfl⟩
      · cases hok'
  · intro items s vectors s₁ more s' hmany hsettled hfront hback
    rw [halvings_split hmany]
    rcases hfront with ⟨-, err, herr⟩ | ⟨hfront, hok⟩
    · cases herr
    · rcases hback with ⟨-, err, herr⟩ | ⟨hback, hok'⟩
      · cases herr
      · obtain ⟨hvectors, rfl⟩ := Prod.mk.inj hok
        obtain ⟨hmore, rfl⟩ := Prod.mk.inj hok'
        rw [Except.ok.inj hvectors, Except.ok.inj hmore]
        refine Or.inr ⟨?_, ?_⟩
        · rintro (hbreaks | hbreaks)
          · exact not_breaks_of_settled hsettled hbreaks
          · exact ((breaksOn_append _ _ _).mp hbreaks).elim hfront hback
        · have hlength : items.length = (items.take (items.length / 2)).length +
              (items.drop (items.length / 2)).length := by
            rw [List.length_take, List.length_drop]
            omega
          rw [stateAfter, stateAfter_append, List.replicate_append_replicate, ← hlength]

/-- An encoder that fails on everything is called on the halvings of the groups of a batch, to their
end or until a call stops the request. -/
theorem isolateGroups_failing (h : EncodesNothing encode) (dims : ℕ) (groups : List (List α))
    (s : σ) :
    @Ends σ α encode dims (groups.flatMap halvings) groups.flatten.length s
      ((isolateGroups dims encode groups).run s) := by
  induction groups generalizing s with
  | nil => exact Or.inr ⟨id, rfl⟩
  | cons group rest ih =>
    rw [isolateGroups, run_bind_state, List.flatMap_cons, Ends, breaksOn_append, stateAfter_append]
    rcases isolate_failing h dims group s with ⟨hbreaks, err, herr⟩ | ⟨hgroup, hok⟩
    · exact Or.inl ⟨Or.inl hbreaks, err, by rw [herr]; rfl⟩
    · rw [hok]
      simp only [run_bind_state]
      rcases ih (stateAfter encode (halvings group) s) with ⟨hbreaks, err, herr⟩ | ⟨hrest, hok'⟩
      · exact Or.inl ⟨Or.inr hbreaks, err, by rw [herr]; rfl⟩
      · refine Or.inr ⟨fun hor => hor.elim hgroup hrest, ?_⟩
        rw [hok', List.flatten_cons, List.length_append, ← List.replicate_append_replicate]
        rfl

end

/-! ## Rows that are too short -/

section

variable {σ α β : Type}

/-- The computation fails, whatever state it starts in. -/
def EncodeM.Fails (x : EncodeM σ α) : Prop :=
  ∀ s, ∃ failure, (x.run.run s).1 = .error failure

theorem EncodeM.run_call {ε : Type} (x : StateM σ (Except ε α)) (failure : ε → EncodeFailure)
    (s : σ) :
    (EncodeM.call x failure).run.run s = ((x.run s).1.mapError failure, (x.run s).2) := rfl

theorem EncodeM.Fails.bind_left {x : EncodeM σ α} (h : x.Fails) (f : α → EncodeM σ β) :
    EncodeM.Fails (x >>= f) := by
  intro s
  obtain ⟨failure, hfailure⟩ := h s
  exact ⟨failure, by rw [EncodeM.run_bind_error hfailure]⟩

theorem EncodeM.Fails.bind (x : EncodeM σ α) {f : α → EncodeM σ β} (h : ∀ a, (f a).Fails) :
    EncodeM.Fails (x >>= f) := by
  intro s
  rcases hx : (x.run.run s).1 with failure | a
  · exact ⟨failure, by rw [EncodeM.run_bind_error hx]⟩
  · obtain ⟨failure, hfailure⟩ := h a (x.run.run s).2
    exact ⟨failure, by rw [EncodeM.run_bind_ok hx, hfailure]⟩

variable {engine : LlamaEngine} {runtime : LlamaRuntime σ}

/-- Every row the model gives is shorter than the served lane. -/
def ShortRows (engine : LlamaEngine) (runtime : LlamaRuntime σ) : Prop :=
  ∀ seqId s raw, ((runtime.embeddingsSeqIth seqId).run s).1 = .ok raw →
    raw.length < engine.pin.serveDims

/-- The served lane refuses every row the model gives. -/
def RejectsRows (engine : LlamaEngine) (runtime : LlamaRuntime σ) : Prop :=
  ∀ seqId s raw, ((runtime.embeddingsSeqIth seqId).run s).1 = .ok raw →
    engine.serveLane raw = none

theorem ShortRows.rejects (h : ShortRows engine runtime) : RejectsRows engine runtime :=
  fun seqId s raw hraw => if_pos (h seqId s raw hraw)

theorem readRow_fails (h : RejectsRows engine runtime) (seqId : ℕ) :
    (readRow engine runtime seqId).Fails := by
  refine EncodeM.Fails.bind _ fun id s => ?_
  have hcall := EncodeM.run_call (runtime.embeddingsSeqIth id)
    (fun err => EncodeFailure.systemic (.new "Embeddings" err)) s
  rcases hrow : ((runtime.embeddingsSeqIth id).run s).1 with err | raw
  · rw [hrow] at hcall
    exact ⟨_, by rw [EncodeM.run_bind_error (congrArg Prod.fst hcall)]⟩
  · rw [hrow] at hcall
    refine ⟨.item, ?_⟩
    rw [EncodeM.run_bind_ok (congrArg Prod.fst hcall), h id s raw hrow]
    rfl

theorem encodeGroup_fails (h : RejectsRows engine runtime) :
    EncodesNothing fun group => (encodeGroup engine runtime group).run := by
  intro group hne
  refine EncodeM.Fails.bind _ fun ⟨params, shape⟩ => ?_
  refine EncodeM.Fails.bind _ fun _ => ?_
  refine EncodeM.Fails.bind _ fun _ => ?_
  refine EncodeM.Fails.bind _ fun _ => ?_
  refine EncodeM.Fails.bind _ fun _ => ?_
  obtain ⟨count, hcount⟩ := Nat.exists_eq_succ_of_ne_zero (mt List.length_eq_zero_iff.mp hne)
  rw [hcount]
  exact (readRow_fails h 0).bind_left _

/-- What `embed` tries on a batch of which it can encode nothing: the groups, and their halves. -/
def attempts (engine : LlamaEngine) (inputs : List (List LlamaToken)) :
    List (List (List LlamaToken)) :=
  let limits := groupLimits engine.pin.pooling
  (groupByCellBudget inputs limits.1 limits.2).flatMap halvings

/-- The outcome of `embed` on a model whose rows are refused: an error where llama.cpp breaks, and
otherwise a zero vector for every text. -/
theorem embed_rejected (h : RejectsRows engine runtime) {texts : List String} {role : Role}
    {inputs : List (List LlamaToken)} (hne : texts ≠ [])
    (hinputs : engine.buildInputs role texts = .ok inputs) (hlength : inputs.length = texts.length)
    (s : σ) :
    (BreaksOn (fun group => (encodeGroup engine runtime group).run) (attempts engine inputs) s ∧
      ∃ err, ((engine.embed runtime texts role).run s).1 = .error err) ∨
    (¬ BreaksOn (fun group => (encodeGroup engine runtime group).run) (attempts engine inputs) s ∧
      (engine.embed runtime texts role).run s = (.ok ⟨engine.pin.serveDims,
          List.replicate texts.length (zeroVector engine.pin.serveDims)⟩,
        stateAfter (fun group => (encodeGroup engine runtime group).run)
          (attempts engine inputs) s)) := by
  have hends := isolateGroups_failing (encodeGroup_fails h) engine.pin.serveDims
    (groupByCellBudget inputs (groupLimits engine.pin.pooling).1 (groupLimits engine.pin.pooling).2)
    s
  rw [flatten_groupByCellBudget, hlength] at hends
  have hnonempty : ¬ texts.isEmpty = true := fun hempty => hne (List.isEmpty_iff.mp hempty)
  rw [LlamaEngine.embed, LlamaEngine.embedWith]
  simp only [if_neg hnonempty, hinputs, run_bind_state]
  rcases hends with ⟨hbreaks, err, herr⟩ | ⟨hnot, hok⟩
  · exact Or.inl ⟨hbreaks, err, by rw [herr]; rfl⟩
  · refine Or.inr ⟨hnot, ?_⟩
    have hcount : ¬ (List.replicate texts.length (zeroVector engine.pin.serveDims)).length ≠
        texts.length := by
      rw [List.length_replicate]
      exact not_not.mpr rfl
    have hdims : ((List.replicate texts.length (zeroVector engine.pin.serveDims)).find? fun v =>
        v.length ≠ engine.pin.serveDims) = none := by
      refine List.find?_eq_none.mpr fun v hv => ?_
      rw [(List.mem_replicate.mp hv).2, zeroVector, List.length_replicate]
      simp
    rw [hok]
    simp only [if_neg hcount, hdims]
    rfl

/-- **When a width mismatch is an error.**  On a model whose rows are shorter than the served
lane, `embed` of a batch that is built fails exactly when llama.cpp itself breaks on one of the
attempts: the mismatch alone never fails it. -/
theorem embed_isError_iff (h : ShortRows engine runtime) {texts : List String} {role : Role}
    {inputs : List (List LlamaToken)} (hne : texts ≠ [])
    (hbuild : List.Forall₂ (fun text input => engine.buildInput text role = .ok input) texts inputs)
    (s : σ) :
    (∃ err, ((engine.embed runtime texts role).run s).1 = .error err) ↔
      BreaksOn (fun group => (encodeGroup engine runtime group).run) (attempts engine inputs) s := by
  have hinputs : engine.buildInputs role texts = .ok inputs := by
    clear hne
    induction hbuild with
    | nil => rfl
    | cons hinput _ ih => simp only [LlamaEngine.buildInputs, hinput, ih]
  rcases embed_rejected h.rejects hne hinputs hbuild.length_eq.symm s with
    ⟨hbreaks, herr⟩ | ⟨hnot, hok⟩
  · exact ⟨fun _ => hbreaks, fun _ => herr⟩
  · rw [hok]
    refine ⟨?_, fun hbreaks => absurd hbreaks hnot⟩
    rintro ⟨_, herr⟩
    exact absurd herr (by simp)

end

/-! ## A model of the wrong width -/

section

variable {σ α β : Type}

/-- The computation blames the items, if it fails. -/
def EncodeM.Blames (x : EncodeM σ α) : Prop :=
  ∀ s err, (x.run.run s).1 ≠ .error (.systemic err)

theorem EncodeM.Blames.pure (a : α) : EncodeM.Blames (pure a : EncodeM σ α) :=
  fun _ _ h => absurd h (by simp)

theorem EncodeM.Blames.bind {x : EncodeM σ α} {f : α → EncodeM σ β} (hx : x.Blames)
    (hf : ∀ a, (f a).Blames) : EncodeM.Blames (x >>= f) := by
  intro s err
  rcases hrun : (x.run.run s).1 with failure | a
  · rw [EncodeM.run_bind_error hrun]
    intro herr
    have hsystemic : failure = .systemic err := Except.error.inj herr
    exact hx s err (hsystemic ▸ hrun)
  · rw [EncodeM.run_bind_ok hrun]
    exact hf a _ err

theorem EncodeM.Blames.ofOption (o : Option α) : EncodeM.Blames (EncodeM.ofOption o : EncodeM σ α) := by
  rcases o with _ | a
  · rintro s err h
    exact absurd (Except.error.inj h) (nomatch ·)
  · exact .pure a

/-- A model that works, and whose rows have one component. -/
def narrowRuntime : LlamaRuntime Unit where
  newContext _ := pure (.ok ())
  newBatch _ _ := pure ()
  addSequence _ _ := pure (.ok ())
  encode := pure (.ok ())
  decode := pure (.ok ())
  embeddingsSeqIth _ := pure (.ok [1.0])

theorem narrowRuntime_shortRows : ShortRows LlamaEngine.byteEngine narrowRuntime := by
  intro seqId s raw hraw
  obtain rfl := Except.ok.inj hraw
  decide

theorem narrowRuntime_blames (engine : LlamaEngine) (group : List (List LlamaToken)) :
    (encodeGroup engine narrowRuntime group).Blames := by
  have hadd : ∀ seqId, (addSequences narrowRuntime group seqId).Blames := by
    induction group with
    | nil => exact fun _ => .pure ()
    | cons tokens rest ih =>
      exact fun seqId => (EncodeM.Blames.ofOption _).bind fun id =>
        EncodeM.Blames.bind (EncodeM.Blames.pure ()) fun _ => ih (seqId + 1)
  have hrows : ∀ count seqId, (readRows engine narrowRuntime count seqId).Blames := by
    intro count
    induction count with
    | zero => exact fun _ => .pure []
    | succ count ih =>
      exact fun seqId => EncodeM.Blames.bind ((EncodeM.Blames.ofOption _).bind fun id =>
        EncodeM.Blames.bind (EncodeM.Blames.pure [1.0]) fun raw => .ofOption _) fun row =>
        (ih (seqId + 1)).bind fun rows => .pure _
  refine (EncodeM.Blames.ofOption _).bind fun ⟨params, shape⟩ => ?_
  refine EncodeM.Blames.bind (EncodeM.Blames.pure ()) fun _ => ?_
  refine EncodeM.Blames.bind (EncodeM.Blames.pure ()) fun _ => ?_
  refine (hadd 0).bind fun _ => EncodeM.Blames.bind ?_ fun _ => hrows _ 0
  rw [forward.eq_def]
  split
  · exact EncodeM.Blames.pure ()
  · exact EncodeM.Blames.pure ()

theorem not_breaksOn_narrowRuntime (engine : LlamaEngine)
    (groups : List (List (List LlamaToken))) (s : Unit) :
    ¬ BreaksOn (fun group => (encodeGroup engine narrowRuntime group).run) groups s := by
  induction groups with
  | nil => exact id
  | cons group rest ih =>
    rintro (⟨err, herr⟩ | hrest)
    · exact narrowRuntime_blames engine group s err herr
    · exact ih hrest

/-- A text that is built is answered with a zero vector by a model that has no row for it. -/
theorem embed_narrowRuntime :
    ShortRows LlamaEngine.byteEngine narrowRuntime ∧
      (∃ input, LlamaEngine.byteEngine.buildInput (LlamaEngine.cutText 1) .document = .ok input) ∧
      ((LlamaEngine.byteEngine.embed narrowRuntime [LlamaEngine.cutText 1] .document).run ()).1 =
        .ok ⟨512, [zeroVector 512]⟩ := by
  obtain ⟨input, hinput⟩ : ∃ input,
      LlamaEngine.byteEngine.buildInput (LlamaEngine.cutText 1) .document = .ok input :=
    LlamaEngine.buildInput_cutText_of_le (by decide)
  refine ⟨narrowRuntime_shortRows, ⟨input, hinput⟩, ?_⟩
  have hinputs : LlamaEngine.byteEngine.buildInputs .document [LlamaEngine.cutText 1] =
      .ok [input] := by
    simp only [LlamaEngine.buildInputs, hinput]
  rcases embed_rejected narrowRuntime_shortRows.rejects (List.cons_ne_nil _ _) hinputs rfl () with
    ⟨hbreaks, -⟩ | ⟨-, hok⟩
  · exact absurd hbreaks (not_breaksOn_narrowRuntime _ _ _)
  · exact congrArg Prod.fst hok

theorem embed_isError_iff_narrowRuntime :
    ¬ ∃ err, ((LlamaEngine.byteEngine.embed narrowRuntime [LlamaEngine.cutText 1]
      .document).run ()).1 = .error err := by
  obtain ⟨input, hinput⟩ : ∃ input,
      LlamaEngine.byteEngine.buildInput (LlamaEngine.cutText 1) .document = .ok input :=
    LlamaEngine.buildInput_cutText_of_le (by decide)
  have hiff := embed_isError_iff narrowRuntime_shortRows (List.cons_ne_nil _ _)
    (.cons hinput .nil) ()
  exact fun herr => not_breaksOn_narrowRuntime _ _ _ (hiff.mp herr)

end

end SemanticSidecar
