import SemanticSidecar.Prepare.Cache

/-!
# What the log says of acquisitions and cleanups

The results about `prepare` are about histories: what a server sent, which partial files a call
made, which entries a scan listed.  Each of these is read off the log, and agrees with where the
process stands (`recorded`).

A process does not know its whole history.  What it has in mind is what its standing says, such as
the bytes it has received and whether it has made a partial file, and the log has the rest.
`Standing.Recorded` compares the two, and `AllRecorded` does it for all processes; `historyOutline`
is the outline of the cache with this as a further layer, so that it can be used wherever the
machine can lead.

Nothing here is about the contents of files.  The results that are, in `Prepare/FinalPath` and
`Prepare/Cleanup`, take what they need to know of the past from here.
-/

set_option autoImplicit false

namespace SemanticSidecar

open Machine (jobOf running)

section

variable {sha256 : List UInt8 → List UInt8} {cacheDir : String} {mix : PrepareRequest → Bool}
  {cache : Files}

/-- A history of the cache directory, the latest first. -/
abbrev CacheLog (sha256 : List UInt8 → List UInt8) (cacheDir : String)
    (mix : PrepareRequest → Bool) (cache : Files) :=
  List (cacheMachine sha256 cacheDir mix cache).Event

/-- What the server has sent to a process. -/
def receivedBytes (pid : ℕ) : CacheLog sha256 cacheDir mix cache → List UInt8
  | [] => []
  | .called other _ o r :: log =>
    if other = pid then receivedBytes pid log ++ bodyOf o r else receivedBytes pid log
  | .started _ _ :: log => receivedBytes pid log
  | .finished _ _ :: log => receivedBytes pid log
  | .killed _ :: log => receivedBytes pid log

/-- The scan of a process has listed the entry. -/
def Listed (log : CacheLog sha256 cacheDir mix cache) (pid : ℕ) (name : String) : Prop :=
  ∃ before, .called pid before (.file .nextEntry) (.ok (some name)) ∈ log

/-- The process has made the file as a partial file. -/
def MadePartial (log : CacheLog sha256 cacheDir mix cache) (pid inode : ℕ) : Prop :=
  ∃ before start suffix random h after,
    .called pid before (.file (.createTemp start suffix)) (.ok (random, h)) ∈ log ∧
      Files.exec pid before (.createTemp start suffix) (.ok (random, h)) = some after ∧
      after.inodeAt (Files.tempName start random suffix) = some inode

/-- The log tells what a standing says. -/
def Standing.Recorded (log : CacheLog sha256 cacheDir mix cache) (pid : ℕ) : Standing → Prop
  | .acquiring a => jobOf pid log = some (.acquire a.request) ∧
    receivedBytes pid log = a.received ∧ ∀ inode, MadePartial log pid inode → a.created = true
  | .cleaning c => jobOf pid log = some .clean ∧ (∀ name, Listed log pid name → name ∈ c.listed) ∧
    ∀ inode, ¬ MadePartial log pid inode

/-! ## Single events -/

variable {log : CacheLog sha256 cacheDir mix cache}
  {e : (cacheMachine sha256 cacheDir mix cache).Event} {pid : ℕ}

theorem jobOf_other (hactor : e.actor ≠ pid) : jobOf pid (e :: log) = jobOf pid log := by
  rcases e with ⟨other, job⟩ | _ | _ | _
  · exact if_neg hactor
  all_goals rfl

theorem receivedBytes_other (hactor : e.actor ≠ pid) :
    receivedBytes pid (e :: log) = receivedBytes pid log := by
  rcases e with _ | ⟨other, before, o, r⟩ | _ | _
  · rfl
  · exact if_neg hactor
  · rfl
  · rfl

theorem listed_other (hactor : e.actor ≠ pid) {name : String} :
    Listed (e :: log) pid name → Listed log pid name := by
  rintro ⟨before, hmem⟩
  rcases List.mem_cons.mp hmem with rfl | hmem
  · exact absurd rfl hactor
  · exact ⟨before, hmem⟩

theorem madePartial_other (hactor : e.actor ≠ pid) {inode : ℕ} :
    MadePartial (e :: log) pid inode → MadePartial log pid inode := by
  rintro ⟨before, start, suffix, random, h, after, hmem, hexec⟩
  rcases List.mem_cons.mp hmem with rfl | hmem
  · exact absurd rfl hactor
  · exact ⟨before, start, suffix, random, h, after, hmem, hexec⟩

/-- What others do does not change what is recorded of a process. -/
theorem Standing.Recorded.other {g : Standing} (h : g.Recorded log pid)
    (hactor : e.actor ≠ pid) : g.Recorded (e :: log) pid := by
  rcases g with a | c
  · refine ⟨(jobOf_other hactor).trans h.1, (receivedBytes_other hactor).trans h.2.1, ?_⟩
    exact fun inode hmade => h.2.2 inode (madePartial_other hactor hmade)
  · exact ⟨(jobOf_other hactor).trans h.1,
      fun name hlisted => h.2.1 name (listed_other hactor hlisted),
      fun inode hmade => h.2.2 inode (madePartial_other hactor hmade)⟩

/-- A process that leaves leaves its record. -/
theorem Standing.Recorded.leaves {g : Standing} (h : g.Recorded log pid)
    (hleaves : (∃ a, e = .finished pid a) ∨ e = .killed pid) : g.Recorded (e :: log) pid := by
  have hjob : jobOf pid (e :: log) = jobOf pid log := by
    rcases hleaves with ⟨a, rfl⟩ | rfl
    · rfl
    · rfl
  have hreceived : receivedBytes pid (e :: log) = receivedBytes pid log := by
    rcases hleaves with ⟨a, rfl⟩ | rfl
    · rfl
    · rfl
  have hmem : ∀ {before o r}, .called pid before o r ∈ e :: log → .called pid before o r ∈ log := by
    intro before o r hmem
    rcases hleaves with ⟨a, rfl⟩ | rfl
    · rcases List.mem_cons.mp hmem with heq | hmem
      · exact nomatch heq
      · exact hmem
    · rcases List.mem_cons.mp hmem with heq | hmem
      · exact nomatch heq
      · exact hmem
  rcases g with a | c
  · refine ⟨hjob.trans h.1, hreceived.trans h.2.1, ?_⟩
    rintro inode ⟨before, start, suffix, random, h', after, hmade, hexec⟩
    exact h.2.2 inode ⟨before, start, suffix, random, h', after, hmem hmade, hexec⟩
  · refine ⟨hjob.trans h.1, ?_, ?_⟩
    · rintro name ⟨before, hlisted⟩
      exact h.2.1 name ⟨before, hmem hlisted⟩
    · rintro inode ⟨before, start, suffix, random, h', after, hmade, hexec⟩
      exact h.2.2 inode ⟨before, start, suffix, random, h', after, hmem hmade, hexec⟩

/-- A call is recorded. -/
theorem Standing.Recorded.calls {g : Standing} {before : Files} {o : PrepareOp} {r : o.Ret}
    (h : g.Recorded log pid) (hpre : (prepareProtocol sha256).pre g o) :
    ((prepareProtocol sha256).next g o r).Recorded (.called pid before o r :: log) pid := by
  rcases g with a | c
  · refine ⟨?_, ?_, ?_⟩
    · rw [Acquiring.next_request]
      exact h.1
    · rw [Acquiring.next_received, ← h.2.1]
      exact if_pos rfl
    · rintro inode ⟨before', start, suffix, random, h', after, hmem, hexec⟩
      rcases List.mem_cons.mp hmem with heq | hmem
      · cases heq
        rfl
      · exact a.next_created o r (h.2.2 inode ⟨before', start, suffix, random, h', after, hmem, hexec⟩)
  · refine ⟨h.1, ?_, ?_⟩
    · rintro name ⟨before', hmem⟩
      rcases List.mem_cons.mp hmem with heq | hmem
      · cases heq
        exact List.mem_append_right _ (List.mem_singleton_self name)
      · exact c.listed_subset_next o r (h.2.1 name ⟨before', hmem⟩)
    · rintro inode ⟨before', start, suffix, random, h', after, hmem, hexec⟩
      rcases List.mem_cons.mp hmem with heq | hmem
      · cases heq
        exact hpre
      · exact h.2.2 inode ⟨before', start, suffix, random, h', after, hmem, hexec⟩

theorem receivedBytes_of_absent {log : CacheLog sha256 cacheDir mix cache}
    (h : ∀ e ∈ log, e.actor ≠ pid) : receivedBytes pid log = [] := by
  induction log with
  | nil => rfl
  | cons e log ih =>
    rw [receivedBytes_other (h e List.mem_cons_self)]
    exact ih fun e' he' => h e' (List.mem_cons_of_mem _ he')

/-- A process that takes up a job has no history. -/
theorem recorded_start (h : ∀ e ∈ log, e.actor ≠ pid) (job : PrepareJob) :
    (Standing.enter job).Recorded (.started pid job :: log) pid := by
  have hnone : ∀ {before o r}, .called pid before o r ∉ .started pid job :: log := by
    intro before o r hmem
    rcases List.mem_cons.mp hmem with heq | hmem
    · exact nomatch heq
    · exact h _ hmem rfl
  rcases job with request | ⟨⟩
  · have hreceived : receivedBytes pid log = [] := receivedBytes_of_absent h
    refine ⟨if_pos rfl, hreceived, ?_⟩
    rintro inode ⟨_, _, _, _, _, _, hmem, -⟩
    exact absurd hmem hnone
  · refine ⟨if_pos rfl, ?_, ?_⟩
    · rintro name ⟨_, hmem⟩
      exact absurd hmem hnone
    · rintro inode ⟨_, _, _, _, _, _, hmem, -⟩
      exact absurd hmem hnone

/-! ## The outline with its history -/

/-- The log records where every process stands, or stood last. -/
def AllRecorded (log : CacheLog sha256 cacheDir mix cache) (gs : ℕ → Machine.Stage Standing) :
    Prop :=
  ∀ pid g, (gs pid).ghost = some g → g.Recorded log pid

theorem AllRecorded.update {gs : ℕ → Machine.Stage Standing} (h : AllRecorded log gs)
    (hactor : e.actor = pid) {stage : Machine.Stage Standing}
    (hself : ∀ g, stage.ghost = some g → g.Recorded (e :: log) pid) :
    AllRecorded (e :: log) (Function.update gs pid stage) := by
  intro other g hghost
  by_cases hother : other = pid
  · subst hother
    rw [Function.update_self] at hghost
    exact hself g hghost
  · rw [Function.update_of_ne hother] at hghost
    exact (h other g hghost).other (by rw [hactor]; exact Ne.symm hother)

/-- What the cache machine keeps, with the chronicle and the record. -/
def historyOutline (sha256 : List UInt8 → List UInt8) (cacheDir : String)
    (mix : PrepareRequest → Bool) (cache : Files) :
    (cacheMachine sha256 cacheDir mix cache).Outline Standing :=
  ((cacheOutline sha256 cacheDir mix cache).also fun log gs _ =>
    Machine.Outline.Chronicle log gs).also fun log gs _ => AllRecorded log gs

/-- **The history is right, in every interleaving.** -/
theorem historyOutline_valid (hplain : PlainNames mix) :
    (historyOutline sha256 cacheDir mix cache).Valid := by
  refine ((cacheOutline_valid hplain).also (Machine.Outline.chronicle _)).also
    ⟨fun pid g h => (nomatch h), ?_, ?_, ?_, ?_⟩
  · intro log gs s pid job s' hinv hrecorded hunborn _
    refine hrecorded.update rfl fun g hghost => ?_
    cases hghost
    exact recorded_start (hinv.2.unborn pid hunborn) job
  · intro log gs s pid g o r s' _ hrecorded hlive hpre _
    refine hrecorded.update rfl fun g' hghost => ?_
    cases hghost
    exact (hrecorded pid g (by rw [hlive]; rfl)).calls hpre
  · intro log gs s pid g a _ hrecorded hlive _
    refine hrecorded.update rfl fun g' hghost => ?_
    cases hghost
    exact (hrecorded pid g (by rw [hlive]; rfl)).leaves (.inl ⟨a, rfl⟩)
  · intro log gs s pid g s' _ hrecorded hlive _
    refine hrecorded.update rfl fun g' hghost => ?_
    cases hghost
    exact (hrecorded pid g (by rw [hlive]; rfl)).leaves (.inr rfl)

end

end SemanticSidecar
