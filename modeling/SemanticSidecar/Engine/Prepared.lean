import SemanticSidecar.Engine.Checked

/-!
# From `prepare` to `serve`

`prepare` and `serve` are two processes that share nothing but the cache directory.  What a client
counts on is that a model is there once `prepare` has said so: `prepared_served` follows it from
the acquisition that returns, through whatever other processes do in the meantime, to the check of
a process that loads the model.

The history of the directory is what connects the two.  When it gave up the lock the acquisition
had seen the right file (`seen_keeps`), that moment is one the run went through
(`Reachable.called_in`), and what is right at a final path stays right.

The two halves are made elsewhere.  `Prepare/FinalPath` is about the acquisitions: nobody returns
without having seen the right file under the lock, and no later call takes it away.
`Engine/Checked` is about the process that loads: its check may run beside any number of other
processes, and succeeds on a file that is right all along unless a call of its own fails.  What is
added here is that a return in the log is a moment of the run, so the second half may start from
where the first one ends.

The models are the pinned ones (`pinned`), whose final names are plain and distinct, so no condition
on names is left.
-/

set_option autoImplicit false

namespace SemanticSidecar

open Prog (Ensures)

section

variable {sha256 : List UInt8 → List UInt8} {cacheDir : String} {mix : PrepareRequest → Bool}
  {cache : Files} {c : (cacheMachine sha256 cacheDir mix cache).Config} {q : PrepareRequest}
  {pid : ℕ}

/-- What an acquisition has seen when it gave up the lock was right, and still is. -/
theorem isRight_of_seenAt (hunique : UniqueNames mix) (hplain : PlainNames mix) (hq : mix q = true)
    (h : (cacheMachine sha256 cacheDir mix cache).Reachable c) {bytes : List UInt8}
    (hseen : SeenAt c.log pid q bytes) (hverifies : verifies sha256 q bytes = true) :
    IsRight sha256 q c.shared := by
  obtain ⟨lock, before, r, hmem, -, hcontent⟩ := hseen
  obtain ⟨c₀, hreach, rfl, hrun⟩ := h.called_in hmem
  exact isRight_kept hunique hplain hq hreach hrun ⟨bytes, hcontent, hverifies⟩

/-- **What an acquisition has returned is there.** -/
theorem isRight_of_finished (hunique : UniqueNames mix) (hplain : PlainNames mix)
    (h : (cacheMachine sha256 cacheDir mix cache).Reachable c) {prepared : Prepared}
    (hstarted : .started pid (.acquire q) ∈ c.log)
    (hfinished : .finished pid (.acquired (.ok prepared)) ∈ c.log) :
    mix q = true ∧ IsRight sha256 q c.shared := by
  have hvalid : (informedOutline sha256 cacheDir mix cache).Valid :=
    informedOutline_valid hunique hplain
  obtain ⟨gs, ⟨-, hseen⟩, -⟩ := Machine.Outline.reachable (hvalid.also seen_keeps) h
  obtain ⟨q', bytes, hq, hstarted', -, hseenAt, hverifies⟩ := hseen.returned pid prepared hfinished
  cases h.started_once hstarted hstarted'
  exact ⟨hq, isRight_of_seenAt hunique hplain hq h hseenAt hverifies⟩

end

/-- **A model that has been prepared is served**: whatever happens in the cache directory after
`prepare` has succeeded, a process that loads the model finds the right file, and can go on to load
it, unless one of its own calls fails. -/
theorem prepared_served (sha256 : List UInt8 → List UInt8) (cacheDir : String) (cache : Files)
    (c : (cacheMachine sha256 cacheDir pinned cache).Config)
    (h : (cacheMachine sha256 cacheDir pinned cache).Reachable c) (pid : ℕ) (pin : ModelPin)
    (prepared : Prepared) (hstarted : .started pid (.acquire (.fromPin pin)) ∈ c.log)
    (hfinished : .finished pid (.acquired (.ok prepared)) ∈ c.log)
    (w : Checking sha256 cacheDir pinned cache)
    (hlater : Goes sha256 cacheDir pinned cache c w.others) (server : ℕ) :
    Ensures (beside sha256 cacheDir pinned cache server pin.file)
      (LlamaEngine.checkCached sha256 (join cacheDir pin.file) pin.sha256) w fun result w' =>
        Dependable w'.others (.fromPin pin) ∧ (w'.failed = false → result = .ok ()) := by
  obtain ⟨hunique, hplain⟩ := pinned_names
  obtain ⟨hq, hright⟩ := isRight_of_finished hunique hplain h hstarted hfinished
  have hreach := (run_finalKept hunique hplain h hlater hq).2
  have hstill := isRight_kept hunique hplain hq h hlater hright
  have hself : Goes sha256 cacheDir pinned cache w.others w.others := .refl
  refine ((checkCached_ensures hunique hplain hq hreach).and (Ensures.keeps
    (I := fun w' => Goes sha256 cacheDir pinned cache w.others w'.others) ?_ _ hself)).mono ?_
  · rintro w₁ o r w₂ hgoes ⟨hstep, -, -⟩
    exact hgoes.trans hstep
  · rintro result w' ⟨hchecked, hgoes⟩
    have hreach' := (run_finalKept hunique hplain hreach hgoes hq).2
    refine ⟨dependable_of_isRight hunique hplain hq hreach'
      (isRight_kept hunique hplain hq hreach hgoes hstill), fun hcalls => ?_⟩
    rcases result with err | ⟨⟩
    · obtain ⟨-, hfailed | ⟨moment, hsince, -, hwrong⟩⟩ := hchecked
      · cases hcalls.symm.trans hfailed
      · exact absurd (isRight_kept hunique hplain hq hreach hsince hstill) hwrong
    · rfl

/-- A digest that is the one pinned for the default model, whatever is hashed. -/
def pinnedDigest : List UInt8 → List UInt8 := fun _ =>
  [0xbf, 0x40, 0xc4, 0x2a, 0xd7, 0xd8, 0x93, 0x82, 0xe9, 0xba, 0x73, 0x76,
    0xd5, 0xc4, 0xb7, 0x3f, 0x6b, 0x55, 0x6c, 0xb5, 0x41, 0xfa, 0xb3, 0x7a,
    0xaa, 0x1d, 0xa9, 0xc3, 0x20, 0x14, 0x9b, 0x65]

/-- The default model is in the cache. -/
@[reducible] def cachedModel : Files := Files.empty.create bgeSmall.file

set_option maxRecDepth 8000 in
/-- The model is there when it is prepared, and goes on being there. -/
theorem prepared_served_cached :
    ∃ c : (cacheMachine pinnedDigest "c" pinned cachedModel).Config,
      .finished 0 (.acquired (.ok ⟨"c/bge-small-en-v1.5-f32.gguf", true⟩)) ∈ c.log ∧
        Ensures (beside pinnedDigest "c" pinned cachedModel 1 bgeSmall.file)
          (LlamaEngine.checkCached pinnedDigest (join "c" bgeSmall.file) bgeSmall.sha256)
          ⟨c, none, false⟩ fun result w' => Dependable w'.others (.fromPin bgeSmall) ∧
            (w'.failed = false → result = .ok ()) := by
  have started := Machine.Reachable.step Machine.Reachable.start
    (Machine.Step.start (M := cacheMachine pinnedDigest "c" pinned cachedModel) 0
      (.acquire (.fromPin bgeSmall)) rfl rfl)
  have made := started.step (.call 0 (Except.ok () : Except Files.Error Unit) rfl rfl)
  have opened := made.step (.call 0 (Except.ok 0 : Except Files.Error Handle) rfl rfl)
  have locked := opened.step (.call 0 (Except.ok () : Except Files.Error Unit) rfl rfl)
  have there := locked.step (.call 0 (Except.ok true : Except Files.Error Bool) rfl rfl)
  have reading := there.step (.call 0 (Except.ok 1 : Except Files.Error Handle) rfl rfl)
  have begun := reading.step (.turn 0 rfl)
  have read := begun.step (.call 0 (Except.ok [] : Except Files.Error (List UInt8)) rfl rfl)
  have closed := read.step (.call 0 () rfl rfl)
  have reported := closed.step (.call 0 () rfl rfl)
  have unlocked := reported.step (.call 0 (Except.ok () : Except Files.Error Unit) rfl rfl)
  have left := unlocked.step (.call 0 () rfl rfl)
  have finished := left.step (.finish 0 rfl)
  exact ⟨_, List.mem_cons_self, prepared_served pinnedDigest "c" cachedModel _ finished 0 bgeSmall
    _ (.tail _ (.tail _ (.tail _ (.tail _ (.tail _ (.tail _
      (.tail _ (.tail _ (.tail _ (.tail _ (.tail _ (.head _))))))))))))
    List.mem_cons_self ⟨_, none, false⟩ .refl 1⟩

end SemanticSidecar
