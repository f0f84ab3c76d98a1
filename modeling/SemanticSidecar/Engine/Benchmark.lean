import SemanticSidecar.Engine.Load
import SemanticSidecar.Engine.Answers

/-!
# The probe of a backend

`benchmarkCandidate` loads the model on a candidate's device and times three embeds of fixed
texts.  The embeds go through the engine's own `embed`, so a text that the backend cannot encode
is isolated like any other, and what the probe sees of it is that the embed succeeded.

To say what a probe has produced, `NativeHost.recorded` runs the same code and notes two things
on the way: the lone inputs that were given up, and the vector of every text.  The notes change
nothing about the probe, and `NativeHost.benchmark_run` says that the clock does not either, apart
from the times.

What the notes hold is decided by the answers of the loader, the tokenizer and llama.cpp, which
`NativeHost.askedProbe` collects without looking at any result.  `NativeHost.benchmark_noted` puts
the two side by side:

* the probe fails exactly if one of the answers puts an end to it;
* the inputs that are given up are those that were refused;
* and where none was refused, every text has the vector of a row.

The proof follows the code.  `Noted.append` is one part of a batch after the other, and
`isolate_noted` the halving of a slice; `NotedProbe.andThen` is one embed after the other.
-/

set_option autoImplicit false

namespace SemanticSidecar

/-! ## The fixed probes -/

/-- `BACKEND_PROBE_TEXTS`. -/
def backendProbeTexts : List String := [
  "FullRebuildPromotion",
  "WorkspaceIndexProvider.OpenReadOnly",
  "l2_normalize_vector",
  "IHostedService::StartAsync",
  "public sealed record LeadershipEligibility(bool CanClaim, string? Reason)",
  "pub fn cosine(a: &[f32], b: &[f32]) -> f32",
  "def slice_renormalize(vec, dims): return vec[:dims]",
  "CREATE VIRTUAL TABLE vectors USING vec0(embedding int8[512]);",
  "how does the indexer decide which process holds the write lock",
  "where do we atomically swap the rebuilt database over the live artifact",
  "A force scan extracts into a rebuild database and atomically promotes it.",
  "Semantic retrieval is optional, local-first, and off by default.",
  "## Restore the cache\n\nRun the download and verify stages.",
  "# Tolerance policy\n\n| check | bar |\n|---|---|\n| cosine | >= 0.999 |",
  "```rust\nfn main() \x7b\x7d\n```",
  "该函数以原子方式将重建后的索引数据库替换为线上的工件文件。"]

/-- The batch of one. -/
def probeBatch1 : List String := backendProbeTexts.take 1

/-- The batch of all of them. -/
def probeBatch16 : List String := backendProbeTexts

section

variable {m : Type → Type} [Monad m]

/-- A warm-up, and the two probes that count. -/
def runFixedProbesWith (candidate : BackendCandidate)
    (probe : BackendCandidate → List String → m (Except String ℕ)) :
    m (Except String ProbeTiming) := do
  match ← probe candidate probeBatch1 with
  | .error err => pure (.error err)
  | .ok _ =>
    match ← probe candidate probeBatch1 with
    | .error err => pure (.error err)
    | .ok batch1 =>
      match ← probe candidate probeBatch16 with
      | .error err => pure (.error err)
      | .ok batch16 => pure (.ok ⟨batch1, batch16⟩)

/-- What a probe runs on: the native loads, `embed` of a model that is loaded with a placement,
and the time an embed took, in nanoseconds. -/
structure ProbeHost (m : Type → Type) where
  /-- The loads of weights. -/
  native : NativeLoader m
  /-- `embed` of a model that is loaded with a placement. -/
  embed : ModelPlacement → LlamaEngine → List String → Role → m (Except EngineError EmbedOutput)
  /-- How long the last embed took, in nanoseconds. -/
  elapsed : m ℕ

variable (host : ProbeHost m)

/-- One timed embed. -/
def timedEmbed (placement : ModelPlacement) (engine : LlamaEngine) (texts : List String) :
    m (Except String ℕ) := do
  match ← host.embed placement engine texts .document with
  | .error err => pure (.error err.toString)
  | .ok _ => do
    let elapsed ← host.elapsed
    pure (.ok elapsed)

/-- `benchmark_candidate`: the weights are loaded on the candidate and the fixed probes run. -/
def benchmarkCandidate (pin : ModelPin) (candidate : BackendCandidate) :
    m (Except String ProbeTiming) := do
  let selection := Selection.new candidate.backend candidate.backend none
  match ← loadCandidate host.native pin candidate selection .cpuOnly with
  | .error err => pure (.error err.toString)
  | .ok served =>
    runFixedProbesWith candidate fun _ texts =>
      timedEmbed host (placementForCandidate candidate) served.engine texts

end

/-! ## The engine of a load -/

theorem error_ne_ok {ε α : Type} {err : ε} {a : α} : (Except.error err : Except ε α) ≠ .ok a :=
  nofun

section

variable {σ : Type} (native : NativeLoader (StateM σ)) {pin : ModelPin}

theorem pin_loadWeights {placement : ModelPlacement} {s : σ} {engine : LlamaEngine}
    (h : ((loadWeights native pin placement).run s).1 = .ok engine) : engine.pin = pin := by
  rw [loadWeights, run_bind_state] at h
  rcases hcall : ((native.loadFromFile placement).run s).1 with err | model
  · rw [hcall] at h
    exact (error_ne_ok h).elim
  · rw [hcall] at h
    exact (ofModel_ok h).1

/-- An engine serves the pin it was loaded for. -/
theorem pin_loadCandidate {candidate : BackendCandidate} {selection : Selection}
    {capabilities : BackendCapabilities} {s : σ} {served : ServedEngine}
    (h : ((loadCandidate native pin candidate selection capabilities).run s).1 = .ok served) :
    served.engine.pin = pin := by
  rw [loadCandidate, run_bind_state] at h
  rcases hparams : ((modelParamsForCandidate native candidate).run s).1 with err | placement
  · rw [hparams] at h
    exact (error_ne_ok h).elim
  · rw [hparams] at h
    dsimp only at h
    rw [run_bind_state] at h
    rcases hweights : ((loadWeights native pin placement).run
      ((modelParamsForCandidate native candidate).run s).2).1 with err | engine
    · rw [hweights] at h
      exact (error_ne_ok h).elim
    · rw [hweights] at h
      obtain rfl := Except.ok.inj h
      exact pin_loadWeights native hweights

end

/-! ## Taking notes -/

/-- llama.cpp on a machine: its loads, and the calls on a model by the placement it is loaded
with. -/
structure NativeHost (σ : Type) where
  /-- The loads of weights. -/
  native : NativeLoader (StateM σ)
  /-- The calls on a model that is loaded with a placement. -/
  runtime : ModelPlacement → LlamaRuntime σ

/-- The state of a probe, with the notes that are taken of it. -/
structure ProbeState (σ : Type) where
  /-- The state of llama.cpp. -/
  host : σ
  /-- Lone inputs whose encode was not accepted. -/
  givenUp : List (List LlamaToken)
  /-- The texts that were embedded, with their vectors. -/
  served : List (String × List Float32)

section

variable {σ α β : Type}

/-- What llama.cpp does leaves the notes as they are. -/
def onHost (x : StateM σ α) : StateM (ProbeState σ) α :=
  fun p => ((x.run p.host).1, { p with host := (x.run p.host).2 })

theorem onHost_bind (x : StateM σ α) (f : α → StateM σ β) :
    onHost (x >>= f) = onHost x >>= fun a => onHost (f a) := rfl

/-- An attempt is noted when it is on a lone input and was not accepted. -/
def notingAttempt (encode : List (List LlamaToken) →
    StateM σ (Except EncodeFailure (List (List Float32)))) (group : List (List LlamaToken)) :
    StateM (ProbeState σ) (Except EncodeFailure (List (List Float32))) := do
  let outcome ← onHost (encode group)
  modify fun p =>
    if group.length = 1 ∧ (settled group.length outcome).isNone then
      { p with givenUp := p.givenUp ++ group }
    else p
  pure outcome

/-- The vectors of a request are noted with its texts. -/
def notingVectors (texts : List String)
    (x : StateM (ProbeState σ) (Except EngineError EmbedOutput)) :
    StateM (ProbeState σ) (Except EngineError EmbedOutput) := do
  match ← x with
  | .error err => pure (.error err)
  | .ok output => do
    modify fun p => { p with served := p.served ++ texts.zip output.vectors }
    pure (.ok output)

namespace NativeHost

variable (host : NativeHost σ)

/-- The probes as they are run. -/
def plain (elapsed : σ → ℕ) : ProbeHost (StateM σ) where
  native := host.native
  embed placement engine texts role := engine.embed (host.runtime placement) texts role
  elapsed := fun s => (elapsed s, s)

/-- The probes with notes. -/
def recorded (elapsed : ProbeState σ → ℕ) : ProbeHost (StateM (ProbeState σ)) where
  native :=
    { withDevices := fun indexes => onHost (host.native.withDevices indexes)
      loadFromFile := fun placement => onHost (host.native.loadFromFile placement) }
  embed placement engine texts role := notingVectors texts (engine.embedWith
    (notingAttempt fun group => (encodeGroup engine (host.runtime placement) group).run) texts role)
  elapsed := fun p => (elapsed p, p)

/-- Notes change nothing about a load. -/
theorem loadCandidate_recorded (elapsed : ProbeState σ → ℕ) (pin : ModelPin)
    (candidate : BackendCandidate) (selection : Selection) (capabilities : BackendCapabilities) :
    loadCandidate (host.recorded elapsed).native pin candidate selection capabilities =
      onHost (loadCandidate host.native pin candidate selection capabilities) := by
  have hweights : ∀ placement, loadWeights (host.recorded elapsed).native pin placement =
      onHost (loadWeights host.native pin placement) := by
    intro placement
    rw [loadWeights, loadWeights, onHost_bind]
    refine congrArg _ (funext fun outcome => ?_)
    rcases outcome with err | model
    · rfl
    · rfl
  have hparams : modelParamsForCandidate (host.recorded elapsed).native candidate =
      onHost (modelParamsForCandidate host.native candidate) := by
    simp only [modelParamsForCandidate]
    split
    · rfl
    · rw [onHost_bind]
      refine congrArg _ (funext fun outcome => ?_)
      rcases outcome with err | ⟨⟩
      · rfl
      · rfl
  rw [loadCandidate, loadCandidate, hparams, onHost_bind]
  refine congrArg _ (funext fun params => ?_)
  rcases params with err | placement
  · rfl
  · dsimp only
    rw [hweights, onHost_bind]
    refine congrArg _ (funext fun outcome => ?_)
    rcases outcome with err | engine
    · rfl
    · rfl

end NativeHost

end

/-! ## What the notes mean -/

/-- The vectors of two computations, one after the other. -/
def bothVectors {m : Type → Type} [Monad m]
    (x y : m (Except EngineError (List (List Float32)))) :
    m (Except EngineError (List (List Float32))) := do
  match ← x with
  | .error err => pure (.error err)
  | .ok front =>
    match ← y with
    | .error err => pure (.error err)
    | .ok back => pure (.ok (front ++ back))

/-- The halves of a slice that is cut. -/
theorem isolate_cut {σ : Type}
    {encode : List (List LlamaToken) → StateM σ (Except EncodeFailure (List (List Float32)))}
    {dims : ℕ} {items : List (List LlamaToken)} {s : σ} (hmany : 1 < items.length)
    (h : settled items.length ((encode items).run s).1 = none) :
    (isolate dims encode items).run s =
      (bothVectors (isolate dims encode (items.take (items.length / 2)))
        (isolate dims encode (items.drop (items.length / 2)))).run ((encode items).run s).2 := by
  have hne : ¬ items.isEmpty = true := by
    rw [List.isEmpty_iff_length_eq_zero]
    omega
  rw [isolate, dif_neg hne, run_bind_state, h]
  simp only [dif_neg (show ¬ items.length = 1 by omega)]
  rfl

section

variable {σ : Type} {encode attempt : List (List LlamaToken) →
  StateM σ (Except EncodeFailure (List (List Float32)))} {lane : List Float32 → List Float32}
  {dims : ℕ}

/-- Notes on a part of a batch with `count` items.  `run` is the run with notes, `plain` the run
without them, and `answers` what llama.cpp answers to the attempts. -/
structure Noted (lane : List Float32 → List Float32) (dims count : ℕ) (p : ProbeState σ)
    (run : Except EngineError (List (List Float32)) × ProbeState σ)
    (plain : Except EngineError (List (List Float32)) × σ) (answers : List Answer × σ) :
    Prop where
  /-- Taking notes does not change the result. -/
  result : run.1 = plain.1
  /-- Taking notes does not change the state of llama.cpp. -/
  host : run.2.host = plain.2
  /-- llama.cpp is left as the answers leave it. -/
  state : plain.2 = answers.2
  /-- Vectors are noted for a whole request only. -/
  served : run.2.served = p.served
  /-- What is given up is what was refused. -/
  givenUp : run.2.givenUp = p.givenUp ++ refusals answers.1
  /-- The result is an error if an answer has put an end to it. -/
  stops : run.1.isOk = !stopped answers.1
  /-- Every item has a vector, and where nothing was refused these are of the rows. -/
  vectors : ∀ vectors, run.1 = .ok vectors → vectors.length = count ∧
    (∀ v ∈ vectors, v.length = dims) ∧
    (refusals answers.1 = [] → vectors = (rowsOf answers.1).map lane)

theorem Noted.append {count count' : ℕ} {p : ProbeState σ}
    {x y : StateM (ProbeState σ) (Except EngineError (List (List Float32)))}
    {x' y' : StateM σ (Except EngineError (List (List Float32)))} {a b : StateM σ (List Answer)}
    (hx : Noted lane dims count p (x.run p) (x'.run p.host) (a.run p.host))
    (hy : ∀ p, Noted lane dims count' p (y.run p) (y'.run p.host) (b.run p.host)) :
    Noted lane dims (count + count') p ((bothVectors x y).run p) ((bothVectors x' y').run p.host)
      ((thenAsked a b).run p.host) := by
  obtain ⟨hresult, hhost, hstate, hserved, hgivenUp, hstops, hvectors⟩ := hx
  rw [bothVectors, bothVectors, run_bind_state, run_bind_state, thenAsked_run, ← hresult, ← hhost,
    ← hstate, ← hhost]
  rcases hfront : (x.run p).1 with err | front
  · rw [hfront] at hstops
    have hstopped : stopped (a.run p.host).1 = true := (Bool.not_eq_false' _).mp hstops.symm
    rw [if_pos hstopped]
    exact ⟨rfl, rfl, hhost.trans hstate, hserved, hgivenUp, hstops,
      fun vectors hok => (error_ne_ok hok).elim⟩
  · rw [hfront] at hstops
    have hgoes : stopped (a.run p.host).1 = false := (Bool.not_eq_true' _).mp hstops.symm
    rw [if_neg (Bool.eq_false_iff.mp hgoes)]
    obtain ⟨hresult', hhost', hstate', hserved', hgivenUp', hstops', hvectors'⟩ := hy (x.run p).2
    obtain ⟨hcount, hwidth, hrows⟩ := hvectors front hfront
    dsimp only
    rw [run_bind_state, run_bind_state, ← hresult', ← hhost']
    have hboth : (y.run (x.run p).2).2.givenUp =
        p.givenUp ++ refusals ((a.run p.host).1 ++ (b.run (x.run p).2.host).1) := by
      rw [hgivenUp', hgivenUp, refusals_append, List.append_assoc]
    have hstopped : (y.run (x.run p).2).1.isOk =
        !stopped ((a.run p.host).1 ++ (b.run (x.run p).2.host).1) := by
      rw [stopped_append, hgoes, Bool.false_or, hstops']
    rcases hback : (y.run (x.run p).2).1 with err | back
    · rw [hback] at hstopped
      exact ⟨rfl, rfl, hhost'.trans hstate', hserved'.trans hserved, hboth, hstopped,
        fun vectors hok => (error_ne_ok hok).elim⟩
    · rw [hback] at hstopped
      obtain ⟨hcount', hwidth', hrows'⟩ := hvectors' back hback
      refine ⟨rfl, rfl, hhost'.trans hstate', hserved'.trans hserved, hboth, hstopped,
        fun vectors hok => ?_⟩
      obtain rfl : front ++ back = vectors := Except.ok.inj hok
      refine ⟨by rw [List.length_append, hcount, hcount'], fun v hv => ?_, fun hnil => ?_⟩
      · exact (List.mem_append.mp hv).elim (hwidth v) (hwidth' v)
      · rw [refusals_append] at hnil
        obtain ⟨hnil, hnil'⟩ := List.append_eq_nil_iff.mp hnil
        rw [rowsOf_append, List.map_append, ← hrows hnil, ← hrows' hnil']

theorem notingAttempt_run (group : List (List LlamaToken)) (p : ProbeState σ) :
    (notingAttempt encode group).run p = (((encode group).run p.host).1,
      ⟨((encode group).run p.host).2,
        if group.length = 1 ∧ (settled group.length ((encode group).run p.host).1).isNone then
          p.givenUp ++ group
        else p.givenUp, p.served⟩) := by
  have hrun : (notingAttempt encode group).run p = (((encode group).run p.host).1,
      if group.length = 1 ∧ (settled group.length ((encode group).run p.host).1).isNone then
        ⟨((encode group).run p.host).2, p.givenUp ++ group, p.served⟩
      else ⟨((encode group).run p.host).2, p.givenUp, p.served⟩) := rfl
  rw [hrun]
  split
  · rfl
  · rfl

/-- What an attempt settles, told by its rows. -/
theorem settled_map (lane : List Float32 → List Float32) (count : ℕ)
    (outcome : Except EncodeFailure (List (List Float32))) :
    settled count (outcome.map (List.map lane)) =
      (settled count outcome).map (Except.map (List.map lane)) := by
  rcases outcome with (_ | err) | rows
  · rfl
  · rfl
  · rw [Except.map, settled, settled, List.length_map]
    split
    · rfl
    · rfl

theorem ok_of_settled {count : ℕ} {outcome : Except EncodeFailure (List (List Float32))}
    {vectors : List (List Float32)} (h : settled count outcome = some (.ok vectors)) :
    outcome = .ok vectors ∧ vectors.length = count := by
  rw [settled.eq_def] at h
  split at h
  · split at h
    · rename_i hcount
      obtain rfl := Except.ok.inj (Option.some.inj h)
      exact ⟨rfl, hcount⟩
    · exact absurd h (by simp)
  · exact absurd h (by simp)
  · exact absurd h (by simp)

/-- Notes on the isolation of a slice, by induction on its length. -/
theorem isolate_noted (h : ServesRows encode attempt lane dims) (items : List (List LlamaToken))
    (p : ProbeState σ) :
    Noted lane dims items.length p ((isolate dims (notingAttempt encode) items).run p)
      ((isolate dims encode items).run p.host) ((asked attempt items).run p.host) := by
  induction hn : items.length using Nat.strong_induction_on generalizing items p with
  | _ n ih =>
    subst hn
    rcases eq_or_ne items [] with rfl | hne
    · rw [isolate_nil, isolate_nil, asked_nil]
      refine ⟨rfl, rfl, rfl, rfl, (List.append_nil _).symm, rfl, fun vectors hok => ?_⟩
      obtain rfl : [] = vectors := Except.ok.inj hok
      exact ⟨rfl, fun v hv => absurd hv (by simp), fun _ => rfl⟩
    have hpos := List.length_pos_iff.mpr hne
    have hencode := h.encode items p.host
    have hsame : settled items.length ((encode items).run p.host).1 =
        (settled items.length ((attempt items).run p.host).1).map (Except.map (List.map lane)) := by
      rw [hencode, settled_map]
    have hnoted := @notingAttempt_run σ encode items p
    rcases hsettled : settled items.length ((attempt items).run p.host).1 with _ | result
    · have hplain : settled items.length ((encode items).run p.host).1 = none := by
        rw [hsame, hsettled]
        rfl
      have hrun : settled items.length ((notingAttempt encode items).run p).1 = none := by
        rw [hnoted, hplain]
      rcases Nat.lt_or_ge 1 items.length with hmany | hone
      · -- The slice is cut, and nothing is noted of it.
        rw [isolate_cut hmany hrun, isolate_cut hmany hplain, asked_halves hmany hsettled]
        have hhost : ((notingAttempt encode items).run p).2 =
            ⟨((encode items).run p.host).2, p.givenUp, p.served⟩ := by
          rw [hnoted, if_neg fun hlone => absurd hlone.1 (by omega)]
        have hstate : ((attempt items).run p.host).2 = ((encode items).run p.host).2 := by
          rw [hencode]
        rw [hhost, hstate]
        have hfront := ih _ (by rw [List.length_take]; omega) (items.take (items.length / 2))
          ⟨((encode items).run p.host).2, p.givenUp, p.served⟩ rfl
        have hback := fun p => ih _ (by rw [List.length_drop]; omega)
          (items.drop (items.length / 2)) p rfl
        obtain ⟨hresult, hhost, hstate, hserved, hgivenUp, hstops, hvectors⟩ :=
          hfront.append hback
        obtain ⟨hgoes, hnone, hempty⟩ := Answer.cut hmany hsettled
        refine ⟨hresult, hhost, hstate, hserved, ?_, ?_, fun vectors hok => ?_⟩
        · rw [hgivenUp, refusals_cons, hnone, List.nil_append]
        · rw [hstops, stopped_cons, hgoes, Bool.false_or]
        · obtain ⟨hcount, hwidth, hrows⟩ := hvectors vectors hok
          rw [refusals_cons, rowsOf_cons, hnone, hempty, List.nil_append, List.nil_append]
          refine ⟨hcount.trans ?_, hwidth, hrows⟩
          rw [List.length_take, List.length_drop]
          omega
      · -- A lone item is given up, and noted.
        have hlone : items.length = 1 := by omega
        rw [isolate_givesUp hlone hrun, isolate_givesUp hlone hplain,
          asked_leaf hne (Or.inr hlone), hnoted, if_pos ⟨hlone, by rw [hplain]; rfl⟩, hencode]
        have hrefused : refusals [.encoded items ((attempt items).run p.host).1] = items := by
          rw [refusals_cons, Answer.refused, if_pos ⟨hlone, by rw [hsettled]; rfl⟩]
          exact List.append_nil items
        have hstopped : stopped [.encoded items ((attempt items).run p.host).1] = false := by
          rw [stopped_cons, Answer.stops, hsettled]
          rfl
        refine ⟨rfl, rfl, rfl, rfl, congrArg (p.givenUp ++ ·) hrefused.symm,
          (congrArg (! ·) hstopped).symm, fun vectors hok => ?_⟩
        obtain rfl : [zeroVector dims] = vectors := Except.ok.inj hok
        refine ⟨hlone.symm, fun v hv => ?_, fun hnil => absurd (hrefused.symm.trans hnil) hne⟩
        rw [List.mem_singleton.mp hv]
        exact List.length_replicate
    · -- The attempt settles the slice, with an error or with its rows.
      have hplain : settled items.length ((encode items).run p.host).1 =
          some (result.map (List.map lane)) := by
        rw [hsame, hsettled]
        rfl
      have hrun : settled items.length ((notingAttempt encode items).run p).1 =
          some (result.map (List.map lane)) := by
        rw [hnoted, hplain]
      rw [isolate_settles hne hrun, isolate_settles hne hplain,
        asked_leaf hne (Or.inl (by rw [hsettled]; rfl)), hnoted,
        if_neg fun hlone => absurd hlone.2 (by rw [hplain]; exact Bool.false_ne_true), hencode]
      have hrefused : refusals [.encoded items ((attempt items).run p.host).1] = [] := by
        rw [refusals_cons, Answer.refused,
          if_neg fun hlone => absurd hlone.2 (by rw [hsettled]; exact Bool.false_ne_true)]
        rfl
      refine ⟨rfl, rfl, rfl, rfl, ?_, ?_, fun vectors hok => ?_⟩
      · rw [hrefused, List.append_nil]
      · rw [stopped_cons, Answer.stops, hsettled]
        rcases result with err | rows
        · rfl
        · rfl
      · rcases result with err | rows
        · exact (error_ne_ok hok).elim
        obtain rfl : rows.map lane = vectors := Except.ok.inj hok
        obtain ⟨hrows, hcount⟩ := ok_of_settled hsettled
        refine ⟨(List.length_map lane).trans hcount, fun v hv => ?_, fun _ => ?_⟩
        · obtain ⟨row, hrow, rfl⟩ := List.mem_map.mp hv
          exact h.width items p.host rows hrows row hrow
        · rw [rowsOf_cons, Answer.rows, hsettled]
          exact congrArg (List.map lane) (List.append_nil rows).symm

/-- Notes on the groups of a batch. -/
theorem isolateGroups_noted (h : ServesRows encode attempt lane dims)
    (groups : List (List (List LlamaToken))) (p : ProbeState σ) :
    Noted lane dims groups.flatten.length p
      ((isolateGroups dims (notingAttempt encode) groups).run p)
      ((isolateGroups dims encode groups).run p.host) ((askedGroups attempt groups).run p.host) := by
  induction groups generalizing p with
  | nil =>
    refine ⟨rfl, rfl, rfl, rfl, (List.append_nil _).symm, rfl, fun vectors hok => ?_⟩
    obtain rfl : [] = vectors := Except.ok.inj hok
    exact ⟨rfl, fun v hv => absurd hv (by simp), fun _ => rfl⟩
  | cons group rest ih =>
    rw [List.flatten_cons, List.length_append]
    exact (isolate_noted h group p).append ih

/-- The vectors of `rows` are noted with `texts`, one each. -/
structure NotesRows (lane : List Float32 → List Float32) (dims : ℕ) (texts : List String)
    (before after : List (String × List Float32)) (rows : List (List Float32)) : Prop where
  /-- Every text has a row. -/
  count : rows.length = texts.length
  /-- Every row has a vector of the declared width. -/
  width : ∀ row ∈ rows, (lane row).length = dims
  /-- These vectors are what is noted. -/
  entries : after = before ++ texts.zip (rows.map lane)

theorem NotesRows.append {first second : List String}
    {before middle after : List (String × List Float32)} {rows rows' : List (List Float32)}
    (h : NotesRows lane dims first before middle rows)
    (h' : NotesRows lane dims second middle after rows') :
    NotesRows lane dims (first ++ second) before after (rows ++ rows') := by
  obtain ⟨hcount, hwidth, hentries⟩ := h
  obtain ⟨hcount', hwidth', hentries'⟩ := h'
  refine ⟨by rw [List.length_append, List.length_append, hcount, hcount'],
    fun row hrow => (List.mem_append.mp hrow).elim (hwidth row) (hwidth' row), ?_⟩
  rw [hentries', hentries, List.map_append,
    List.zip_append ((List.length_map lane).trans hcount).symm, List.append_assoc]

/-- Notes on a request for `texts`. -/
structure NotedEmbed (lane : List Float32 → List Float32) (dims : ℕ) (texts : List String)
    (p : ProbeState σ) (run : Except EngineError EmbedOutput × ProbeState σ)
    (plain : Except EngineError EmbedOutput × σ) (answers : List Answer × σ) : Prop where
  /-- Taking notes does not change the output. -/
  result : run.1 = plain.1
  /-- Taking notes does not change the state of llama.cpp. -/
  host : run.2.host = plain.2
  /-- llama.cpp is left as the answers leave it. -/
  state : plain.2 = answers.2
  /-- What is given up is what was refused. -/
  givenUp : run.2.givenUp = p.givenUp ++ refusals answers.1
  /-- The request fails if an answer has put an end to it. -/
  stops : run.1.isOk = !stopped answers.1
  /-- Where nothing was refused, every text is noted with the vector of a row. -/
  served : run.1.isOk = true → refusals answers.1 = [] →
    NotesRows lane dims texts p.served run.2.served (rowsOf answers.1)

/-- **What the notes of a request mean.**  With an encoder that makes the rows it reads into
vectors of the declared width, the checks at the end of `embed` always pass, and what a request
comes to is decided by the answers. -/
theorem embedWith_noted {engine : LlamaEngine}
    (h : ServesRows encode attempt lane engine.pin.serveDims) (texts : List String) (role : Role)
    (p : ProbeState σ) :
    NotedEmbed lane engine.pin.serveDims texts p
      ((notingVectors texts (engine.embedWith (notingAttempt encode) texts role)).run p)
      ((engine.embedWith encode texts role).run p.host)
      ((engine.askedEmbed attempt texts role).run p.host) := by
  rw [notingVectors, LlamaEngine.embedWith, LlamaEngine.embedWith, LlamaEngine.askedEmbed]
  by_cases hempty : texts.isEmpty = true
  · simp only [if_pos hempty]
    obtain rfl := List.isEmpty_iff.mp hempty
    exact ⟨rfl, rfl, rfl, (List.append_nil _).symm, rfl,
      fun _ _ => ⟨rfl, fun row hrow => absurd hrow List.not_mem_nil, rfl⟩⟩
  simp only [if_neg hempty]
  rcases hinputs : engine.buildInputs role texts with err | inputs
  · exact ⟨rfl, rfl, rfl, (List.append_nil _).symm, rfl,
      fun hok => absurd hok Bool.false_ne_true⟩
  dsimp only
  obtain ⟨hresult, hhost, hstate, hserved, hgivenUp, hstops, hvectors⟩ := isolateGroups_noted h
    (groupByCellBudget inputs (groupLimits engine.pin.pooling).1
      (groupLimits engine.pin.pooling).2) p
  rw [flatten_groupByCellBudget, LlamaEngine.length_buildInputs hinputs] at hvectors
  rw [run_bind_state, run_bind_state, run_bind_state, ← hresult]
  generalize (isolateGroups engine.pin.serveDims (notingAttempt encode) _).run p = run at *
  generalize (isolateGroups engine.pin.serveDims encode _).run p.host = plain at *
  obtain ⟨result, p'⟩ := run
  obtain ⟨_, s'⟩ := plain
  obtain rfl : p'.host = s' := hhost
  rcases result with err | vectors
  · exact ⟨rfl, rfl, hstate, hgivenUp, hstops, fun hok => absurd hok Bool.false_ne_true⟩
  dsimp only
  obtain ⟨hcount, hwidth, hrows⟩ := hvectors vectors rfl
  have hcount' : ¬ vectors.length ≠ texts.length := not_not.mpr hcount
  have hfound : (vectors.find? fun v => decide (v.length ≠ engine.pin.serveDims)) = none :=
    List.find?_eq_none.mpr fun v hv => by simp [hwidth v hv]
  simp only [if_neg hcount', hfound]
  refine ⟨rfl, rfl, hstate, hgivenUp, hstops, fun _ hnil => ?_⟩
  obtain rfl := hrows hnil
  exact ⟨(List.length_map lane).symm.trans hcount,
    fun row hrow => hwidth _ (List.mem_map_of_mem hrow), congrArg (· ++ _) hserved⟩

end

/-! ## A whole probe -/

theorem exists_mem_zip {α β : Type} {xs : List α} {ys : List β} {x : α} (hx : x ∈ xs)
    (h : xs.length = ys.length) : ∃ y, (x, y) ∈ xs.zip ys := by
  have hmap : (xs.zip ys).map Prod.fst = xs := List.map_fst_zip h.le
  rw [← hmap] at hx
  obtain ⟨⟨x', y⟩, hmem, rfl⟩ := List.mem_map.mp hx
  exact ⟨y, hmem⟩

section

variable {σ τ : Type}

/-- The fixed probes under two watches: only what the watches show differs. -/
theorem runFixedProbesWith_run {candidate : BackendCandidate}
    {probe probe' : BackendCandidate → List String → StateM τ (Except String ℕ)} {elapsed : τ → ℕ}
    (h : ∀ texts t, (probe candidate texts).run t =
      (((probe' candidate texts).run t).1.map fun _ => elapsed ((probe' candidate texts).run t).2,
        ((probe' candidate texts).run t).2)) (t : τ) :
    ∃ t₁ t₂, (runFixedProbesWith candidate probe).run t =
      (((runFixedProbesWith candidate probe').run t).1.map fun _ => ⟨elapsed t₁, elapsed t₂⟩,
        ((runFixedProbesWith candidate probe').run t).2) := by
  rw [runFixedProbesWith, runFixedProbesWith, run_bind_state, run_bind_state, h]
  rcases (probe' candidate probeBatch1).run t with ⟨err | _, t'⟩
  · exact ⟨t, t, rfl⟩
  dsimp only [Except.map]
  rw [run_bind_state, run_bind_state, h]
  rcases (probe' candidate probeBatch1).run t' with ⟨err | _, t₁⟩
  · exact ⟨t, t, rfl⟩
  dsimp only [Except.map]
  rw [run_bind_state, run_bind_state, h]
  rcases (probe' candidate probeBatch16).run t₁ with ⟨err | _, t₂⟩
  · exact ⟨t, t, rfl⟩
  · exact ⟨t₁, t₂, rfl⟩

/-- Notes on probes of `texts`. -/
structure NotedProbe {α β : Type} (lane : List Float32 → List Float32) (dims : ℕ)
    (texts : List String) (p : ProbeState σ) (run : Except String α × ProbeState σ)
    (plain : Except String β × σ) (answers : List Answer × σ) : Prop where
  /-- Taking notes does not decide whether a probe fails. -/
  result : run.1.isOk = plain.1.isOk
  /-- Taking notes does not change the state of llama.cpp. -/
  host : run.2.host = plain.2
  /-- llama.cpp is left as the answers leave it. -/
  state : plain.2 = answers.2
  /-- What is given up is what was refused. -/
  givenUp : run.2.givenUp = p.givenUp ++ refusals answers.1
  /-- A probe fails if an answer has put an end to it. -/
  stops : run.1.isOk = !stopped answers.1
  /-- Where nothing was refused, every text is noted with the vector of a row. -/
  served : run.1.isOk = true → refusals answers.1 = [] →
    NotesRows lane dims texts p.served run.2.served (rowsOf answers.1)

section

variable {α β α' β' : Type} {lane : List Float32 → List Float32} {dims : ℕ}
  {first second : List String} {p : ProbeState σ} {a b : StateM σ (List Answer)}

/-- A step of a probe, and what comes after it if it succeeds. -/
def thenProbe {m : Type → Type} [Monad m] (x : m (Except String α))
    (k : α → m (Except String β)) : m (Except String β) := do
  match ← x with
  | .error err => pure (.error err)
  | .ok a => k a

theorem runFixedProbesWith_eq {m : Type → Type} [Monad m] (candidate : BackendCandidate)
    (probe : BackendCandidate → List String → m (Except String ℕ)) :
    runFixedProbesWith candidate probe =
      thenProbe (probe candidate probeBatch1) fun _ =>
        thenProbe (probe candidate probeBatch1) fun one =>
          thenProbe (probe candidate probeBatch16) fun all =>
            pure (.ok (ProbeTiming.mk one all)) := by
  rw [runFixedProbesWith, thenProbe]
  refine congrArg _ (funext fun warmUp => ?_)
  rcases warmUp with err | _
  · rfl
  dsimp only
  rw [thenProbe]
  refine congrArg _ (funext fun one => ?_)
  rcases one with err | one
  · rfl
  dsimp only
  rw [thenProbe]
  refine congrArg _ (funext fun all => ?_)
  rcases all with err | all
  · rfl
  · rfl

/-- A step that only hands on what came before it. -/
theorem NotedProbe.last {x : StateM (ProbeState σ) (Except String α)}
    {x' : StateM σ (Except String α')}
    (hx : NotedProbe lane dims first p (x.run p) (x'.run p.host) (a.run p.host)) (f : α → β)
    (f' : α' → β') :
    NotedProbe lane dims first p ((thenProbe x fun a => pure (.ok (f a))).run p)
      ((thenProbe x' fun a => pure (.ok (f' a))).run p.host) (a.run p.host) := by
  obtain ⟨hresult, hhost, hstate, hgivenUp, hstops, hserved⟩ := hx
  rw [thenProbe, thenProbe, run_bind_state, run_bind_state]
  generalize x.run p = run at *
  generalize x'.run p.host = plain at *
  obtain ⟨err | value, p'⟩ := run
  · obtain ⟨err' | value', s'⟩ := plain
    · exact ⟨rfl, hhost, hstate, hgivenUp, hstops, hserved⟩
    · exact absurd hresult Bool.false_ne_true
  · obtain ⟨err' | value', s'⟩ := plain
    · exact absurd hresult.symm Bool.false_ne_true
    · exact ⟨rfl, hhost, hstate, hgivenUp, hstops, hserved⟩

theorem NotedProbe.andThen {x : StateM (ProbeState σ) (Except String α)}
    {k : α → StateM (ProbeState σ) (Except String β)} {x' : StateM σ (Except String α')}
    {k' : α' → StateM σ (Except String β')}
    (hx : NotedProbe lane dims first p (x.run p) (x'.run p.host) (a.run p.host))
    (hk : ∀ v v' p, NotedProbe lane dims second p ((k v).run p) ((k' v').run p.host) (b.run p.host)) :
    NotedProbe lane dims (first ++ second) p ((thenProbe x k).run p)
      ((thenProbe x' k').run p.host) ((thenAsked a b).run p.host) := by
  rw [thenProbe, thenProbe, run_bind_state, run_bind_state, thenAsked_run]
  obtain ⟨hresult, hhost, hstate, hgivenUp, hstops, hserved⟩ := hx
  generalize x.run p = run at *
  generalize x'.run p.host = plain at *
  obtain ⟨result, p₁⟩ := run
  obtain ⟨result', s₁⟩ := plain
  obtain rfl : p₁.host = s₁ := hhost
  rcases result with err | value
  · rcases result' with err' | value'
    · rw [if_pos ((Bool.not_eq_false' _).mp hstops.symm)]
      exact ⟨rfl, rfl, hstate, hgivenUp, hstops, fun hok => absurd hok Bool.false_ne_true⟩
    · exact absurd hresult Bool.false_ne_true
  rcases result' with err' | value'
  · exact absurd hresult.symm Bool.false_ne_true
  have hgoes : stopped (a.run p.host).1 = false := (Bool.not_eq_true' _).mp hstops.symm
  rw [if_neg (Bool.eq_false_iff.mp hgoes), ← show p₁.host = (a.run p.host).2 from hstate]
  obtain ⟨hresult', hhost', hstate', hgivenUp', hstops', hserved'⟩ := hk value value' p₁
  refine ⟨hresult', hhost', hstate', ?_, ?_, fun hok hnil => ?_⟩
  · rw [hgivenUp', show p₁.givenUp = p.givenUp ++ _ from hgivenUp, refusals_append,
      List.append_assoc]
  · rw [hstops', stopped_append, hgoes, Bool.false_or]
  · rw [refusals_append] at hnil
    obtain ⟨hnil, hnil'⟩ := List.append_eq_nil_iff.mp hnil
    rw [rowsOf_append]
    exact (hserved rfl hnil).append (hserved' hok hnil')

end

namespace NativeHost

variable (host : NativeHost σ)

theorem timedEmbed_run (elapsed : ProbeState σ → ℕ) (placement : ModelPlacement)
    (engine : LlamaEngine) (texts : List String) (p : ProbeState σ) :
    (timedEmbed (host.recorded elapsed) placement engine texts).run p =
      (((timedEmbed (host.recorded fun _ => 0) placement engine texts).run p).1.map fun _ =>
          elapsed ((timedEmbed (host.recorded fun _ => 0) placement engine texts).run p).2,
        ((timedEmbed (host.recorded fun _ => 0) placement engine texts).run p).2) := by
  rw [timedEmbed, timedEmbed, run_bind_state, run_bind_state]
  have hembed : (host.recorded elapsed).embed = (host.recorded fun _ => 0).embed := rfl
  rw [hembed]
  rcases ((host.recorded fun _ => 0).embed placement engine texts .document).run p with
    ⟨err | output, p'⟩
  · rfl
  · rfl

/-- **Time is all that a watch changes about a probe.** -/
theorem benchmark_run (elapsed : ProbeState σ → ℕ) (pin : ModelPin)
    (candidate : BackendCandidate) (p : ProbeState σ) :
    ∃ p₁ p₂, (benchmarkCandidate (host.recorded elapsed) pin candidate).run p =
      (((benchmarkCandidate (host.recorded fun _ => 0) pin candidate).run p).1.map
          fun _ => ⟨elapsed p₁, elapsed p₂⟩,
        ((benchmarkCandidate (host.recorded fun _ => 0) pin candidate).run p).2) := by
  simp only [benchmarkCandidate]
  rw [loadCandidate_recorded, loadCandidate_recorded, run_bind_state, run_bind_state]
  rcases (onHost (loadCandidate host.native pin candidate
    (.new candidate.backend candidate.backend none) .cpuOnly)).run p with ⟨err | served, p'⟩
  · exact ⟨p, p, rfl⟩
  · exact runFixedProbesWith_run (fun texts t => host.timedEmbed_run elapsed _ _ texts t) p'

/-- The answers to the fixed probes of a loaded model: to the batch of one, twice, and to the batch
of all. -/
def askedFixed (placement : ModelPlacement) (engine : LlamaEngine) : StateM σ (List Answer) :=
  let asks (texts : List String) := engine.askedEmbed
    (fun group => (rawGroup engine (host.runtime placement) group).run) texts .document
  thenAsked (asks probeBatch1) (thenAsked (asks probeBatch1) (asks probeBatch16))

/-- The answers to the probe of a candidate. -/
def askedProbe (pin : ModelPin) (candidate : BackendCandidate) : StateM σ (List Answer) := do
  match ← loadCandidate host.native pin candidate
      (.new candidate.backend candidate.backend none) .cpuOnly with
  | .error err => pure [.loadFailed err]
  | .ok served => host.askedFixed (placementForCandidate candidate) served.engine

/-- The texts of the fixed probes, in the order in which they are embedded. -/
def fixedTexts : List String := probeBatch1 ++ (probeBatch1 ++ probeBatch16)

/-- Notes on one timed embed. -/
theorem timedEmbed_noted (placement : ModelPlacement) (engine : LlamaEngine)
    (elapsed : ProbeState σ → ℕ) (elapsed' : σ → ℕ) (texts : List String) (p : ProbeState σ) :
    NotedProbe engine.pin.lane engine.pin.serveDims texts p
      ((timedEmbed (host.recorded elapsed) placement engine texts).run p)
      ((timedEmbed (host.plain elapsed') placement engine texts).run p.host)
      ((engine.askedEmbed (fun group => (rawGroup engine (host.runtime placement) group).run) texts
        .document).run p.host) := by
  have hnoted : NotedEmbed engine.pin.lane engine.pin.serveDims texts p
      (((host.recorded elapsed).embed placement engine texts .document).run p)
      (((host.plain elapsed').embed placement engine texts .document).run p.host)
      ((engine.askedEmbed (fun group => (rawGroup engine (host.runtime placement) group).run) texts
        .document).run p.host) :=
    embedWith_noted (encodeGroup_servesRows engine _) texts .document p
  obtain ⟨hresult, hhost, hstate, hgivenUp, hstops, hserved⟩ := hnoted
  rw [timedEmbed, timedEmbed, run_bind_state, run_bind_state]
  generalize ((host.recorded elapsed).embed placement engine texts .document).run p = run at *
  generalize ((host.plain elapsed').embed placement engine texts .document).run p.host = plain at *
  obtain ⟨result, p'⟩ := run
  obtain ⟨_, s'⟩ := plain
  obtain rfl : p'.host = s' := hhost
  obtain rfl := hresult
  rcases result with err | output
  · exact ⟨rfl, rfl, hstate, hgivenUp, hstops, hserved⟩
  · exact ⟨rfl, rfl, hstate, hgivenUp, hstops, hserved⟩

/-- Notes on the fixed probes. -/
theorem runFixedProbesWith_noted (placement : ModelPlacement) (engine : LlamaEngine)
    (elapsed : ProbeState σ → ℕ) (elapsed' : σ → ℕ) (candidate : BackendCandidate)
    (p : ProbeState σ) :
    NotedProbe engine.pin.lane engine.pin.serveDims fixedTexts p
      ((runFixedProbesWith candidate fun _ texts =>
        timedEmbed (host.recorded elapsed) placement engine texts).run p)
      ((runFixedProbesWith candidate fun _ texts =>
        timedEmbed (host.plain elapsed') placement engine texts).run p.host)
      ((host.askedFixed placement engine).run p.host) := by
  have h := host.timedEmbed_noted placement engine elapsed elapsed'
  rw [runFixedProbesWith_eq, runFixedProbesWith_eq, askedFixed, fixedTexts]
  refine (h probeBatch1 p).andThen fun _ _ p₁ => ?_
  refine (h probeBatch1 p₁).andThen fun one one' p₂ => ?_
  exact (h probeBatch16 p₂).last (ProbeTiming.mk one) (ProbeTiming.mk one')

/-- **What the notes of a probe mean.**  They are of the probe as it is run, which fails exactly if
one of the answers puts an end to it; and what they hold is told by the answers. -/
theorem benchmark_noted (pin : ModelPin) (candidate : BackendCandidate)
    (elapsed : ProbeState σ → ℕ) (elapsed' : σ → ℕ) (p : ProbeState σ) :
    NotedProbe pin.lane pin.serveDims fixedTexts p
      ((benchmarkCandidate (host.recorded elapsed) pin candidate).run p)
      ((benchmarkCandidate (host.plain elapsed') pin candidate).run p.host)
      ((host.askedProbe pin candidate).run p.host) := by
  simp only [benchmarkCandidate, askedProbe]
  rw [loadCandidate_recorded, run_bind_state, run_bind_state, run_bind_state]
  have hload : (onHost (loadCandidate host.native pin candidate
      (.new candidate.backend candidate.backend none) .cpuOnly)).run p =
      (((loadCandidate host.native pin candidate
          (.new candidate.backend candidate.backend none) .cpuOnly).run p.host).1,
        { p with host := ((loadCandidate host.native pin candidate
          (.new candidate.backend candidate.backend none) .cpuOnly).run p.host).2 }) := rfl
  rw [hload, show (host.plain elapsed').native = host.native from rfl]
  rcases hplain : (loadCandidate host.native pin candidate
    (.new candidate.backend candidate.backend none) .cpuOnly).run p.host with ⟨err | served, s⟩
  · exact ⟨rfl, rfl, rfl, (List.append_nil _).symm, rfl,
      fun hok => absurd hok Bool.false_ne_true⟩
  · obtain rfl : served.engine.pin = pin :=
      pin_loadCandidate host.native (congrArg Prod.fst hplain)
    obtain ⟨hresult, hhost, hstate, hgivenUp, hstops, hserved⟩ := host.runFixedProbesWith_noted
      (placementForCandidate candidate) served.engine elapsed elapsed' candidate { p with host := s }
    exact ⟨hresult, hhost, hstate, hgivenUp, hstops, hserved⟩

end NativeHost

end

end SemanticSidecar
