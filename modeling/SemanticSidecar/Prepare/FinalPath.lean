import SemanticSidecar.Prepare.Integrity
import Mathlib.Logic.Relation

/-!
# A final path over a whole run

What `Prepare/Integrity` says of one call, carried to every interleaving of acquisitions, cleanups
and kills: in two layers over the history, what each acquisition knows of its final path and what
it had seen there when it gave up the cache lock.

`prepare_integrity` puts it together.  A final name that is a cache lock's or looks like that of a
partial file is in the way of both, so `PlainNames` is needed as well as `UniqueNames`.

The two layers are outlines over `Prepare/History`.  `AllInformed` is the first of them.  The second
is `AllSeen`, and is needed since a lock is given up before the process returns: what the process
knows then need not be so any more, but it was so at a moment of the run, and from there on the
final path keeps it (`run_finalKept`).

`Integrity` has the three parts of the result, of which the last one is about runs: from any
configuration on, what is at a final path stays, or is right afterwards, or was wrong and is gone.
-/

set_option autoImplicit false

namespace SemanticSidecar

open Machine (EveryCall)

section

variable {sha256 : List UInt8 → List UInt8} {cacheDir : String} {mix : PrepareRequest → Bool}
  {cache : Files} {log : CacheLog sha256 cacheDir mix cache} {s s' : Files} {pid : ℕ}

/-! ## What the history says of a final path -/

/-- A call does to the final paths what it may, and writes to none of the files there. -/
def KeepsFinals (log : CacheLog sha256 cacheDir mix cache) (pid : ℕ) (before : Files)
    (o : PrepareOp) (r : o.Ret) : Prop :=
  ∀ after, (cacheMachine sha256 cacheDir mix cache).exec pid before o r = some after →
    ∀ q, mix q = true → FinalStep sha256 q (receivedBytes pid log) before after o ∧
      ∀ inode, before.inodeAt q.fileName = some inode → after.data inode = before.data inode

/-- When it gave up the cache lock, the process had these bytes at the final path. -/
def SeenAt (log : CacheLog sha256 cacheDir mix cache) (pid : ℕ) (q : PrepareRequest)
    (bytes : List UInt8) : Prop :=
  ∃ lock before r, .called pid before (.file (.unlock lock)) r ∈ log ∧
    LockedUnder before pid lock (lockName q.modelId) ∧ before.content q.fileName = some bytes

theorem SeenAt.mono {log' : CacheLog sha256 cacheDir mix cache} (hsub : log ⊆ log')
    {q : PrepareRequest} {bytes : List UInt8} (h : SeenAt log pid q bytes) :
    SeenAt log' pid q bytes := by
  obtain ⟨lock, before, r, hmem, hseen⟩ := h
  exact ⟨lock, before, r, hsub hmem, hseen⟩

/-- An acquisition that has returned had the right file at the path while it held the lock. -/
def ReturnsVerified (log : CacheLog sha256 cacheDir mix cache) : Prop :=
  ∀ pid prepared, .finished pid (.acquired (.ok prepared)) ∈ log →
    ∃ q bytes, mix q = true ∧ .started pid (.acquire q) ∈ log ∧
      prepared.path = finalPath cacheDir q ∧ SeenAt log pid q bytes ∧
      verifies sha256 q bytes = true

/-- What may have become of the bytes at a final path. -/
def FinalKept (sha256 : List UInt8 → List UInt8) (q : PrepareRequest)
    (before after : Option (List UInt8)) : Prop :=
  after = before ∨
    (after = none ∧ ∃ bytes, before = some bytes ∧ verifies sha256 q bytes = false) ∨
    ∃ bytes, after = some bytes ∧ verifies sha256 q bytes = true

theorem FinalKept.trans {q : PrepareRequest} {first second third : Option (List UInt8)}
    (h : FinalKept sha256 q first second) (h' : FinalKept sha256 q second third) :
    FinalKept sha256 q first third := by
  rcases h' with rfl | ⟨rfl, bytes, rfl, hwrong⟩ | hright
  · exact h
  · rcases h with rfl | ⟨hnone, -⟩ | ⟨bytes', hbytes, hright⟩
    · exact .inr (.inl ⟨rfl, bytes, rfl, hwrong⟩)
    · cases hnone
    · cases hbytes
      cases hwrong.symm.trans hright
  · exact .inr (.inr hright)

/-- What is right stays right. -/
theorem FinalKept.right {q : PrepareRequest} {before after : Option (List UInt8)}
    (h : FinalKept sha256 q before after)
    (hright : ∃ bytes, before = some bytes ∧ verifies sha256 q bytes = true) :
    ∃ bytes, after = some bytes ∧ verifies sha256 q bytes = true := by
  rcases h with rfl | ⟨-, bytes, rfl, hwrong⟩ | hafter
  · exact hright
  · obtain ⟨_, ⟨⟩, hright⟩ := hright
    cases hwrong.symm.trans hright
  · exact hafter

theorem FinalStep.kept {q : PrepareRequest} {received : List UInt8} {o : PrepareOp}
    (h : FinalStep sha256 q received s s' o) :
    FinalKept sha256 q (s.content q.fileName) (s'.content q.fileName) := by
  cases h with
  | same hsame => exact .inl hsame.content
  | removed hwas hwrong hgone => exact .inr (.inl ⟨hgone, _, hwas, hwrong⟩)
  | renamed _ _ hright hplaced => exact .inr (.inr ⟨received, hplaced, hright⟩)

/-! ## What was seen when the lock was given up -/

namespace Acquiring

variable {a : Acquiring}

/-- How a call moves an acquisition on: it gives up the cache lock, works under it, takes it, or
goes without. -/
inductive Turn (a : Acquiring) (o : PrepareOp) (r : o.Ret) : Prop
  /-- The cache lock is given up, and only that changes. -/
  | gaveUp (lock : Handle) (hop : o = .file (.unlock lock)) (hheld : a.lock = .held lock)
    (hnext : a.next o r = { a with lock := .released lock })
  /-- The lock is held before the call and after it. -/
  | under (hholds : a.Holds) (hop : ∀ lock, o ≠ .file (.unlock lock))
    (hlock : (a.next o r).lock = a.lock)
  /-- The lock that was open is taken, before anything is known. -/
  | took (lock : Handle) (hop : o = .file (.tryLock lock) ∨ o = .file (.lock lock))
    (hopened : a.lock = .opened lock) (hknown : a.known = .nothing)
    (hnext : a.next o r = { a with lock := .held lock })
  /-- The lock is held neither before the call nor after it, and what is known stays. -/
  | without (hholds : ¬ a.Holds) (hnext : ¬ (a.next o r).Holds)
    (hknown : (a.next o r).known = a.known)
    (hreleased : ∀ lock, (a.next o r).lock = .released lock ↔ a.lock = .released lock)

/-- A call that leaves the lock and what is known alone. -/
theorem Turn.of_same {o : PrepareOp} {r : o.Ret} (hop : ∀ lock, o ≠ .file (.unlock lock))
    (hlock : (a.next o r).lock = a.lock) (hknown : (a.next o r).known = a.known) :
    a.Turn o r := by
  by_cases hholds : a.Holds
  · exact .under hholds hop hlock
  · refine .without hholds ?_ hknown fun lock => by rw [hlock]
    rw [Holds, hlock]
    exact hholds

/-- **What a permitted call can do to the lock.** -/
theorem turn_of_pre {o : PrepareOp} (r : o.Ret) (hpre : a.pre sha256 o) : a.Turn o r := by
  cases o with
  | emit | openRequest | awaitResponse | readBody | progressDue =>
    obtain ⟨hlock, -, -, hknown⟩ := a.next_of_not_file r fun _ hop => by cases hop
    exact .of_same (fun _ hop => by cases hop) hlock hknown
  | file fo =>
    cases fo with
    | openReadWrite | readDir | nextEntry => exact hpre.elim
    | createDirAll | flush | availableSpace =>
      rcases r with err | _
      all_goals exact .of_same (fun _ hop => by cases hop) rfl rfl
    | openOrCreate name =>
      rcases r with err | opened
      · exact .of_same (fun _ hop => by cases hop) rfl rfl
      · refine .without ?_ ?_ rfl fun lock => ?_
        · rintro ⟨lock, hlock⟩
          cases hpre.2.symm.trans hlock
        · rintro ⟨lock, hlock⟩
          cases hlock
        · refine ⟨fun h => (by cases h), fun h => ?_⟩
          cases hpre.2.symm.trans h
    | tryLock lock =>
      rcases r with err | ⟨⟩
      · exact .of_same (fun _ hop => by cases hop) rfl rfl
      · exact .took lock (.inl rfl) hpre.1 hpre.2.2.1 rfl
    | lock lock =>
      rcases r with err | ⟨⟩
      · exact .of_same (fun _ hop => by cases hop) rfl rfl
      · exact .took lock (.inr rfl) hpre.1 hpre.2.2.1 rfl
    | unlock lock =>
      rcases r with err | ⟨⟩
      all_goals exact .gaveUp lock rfl hpre.1 rfl
    | close h =>
      by_cases hopened : a.lock = .opened h
      · refine .without ?_ ?_ rfl fun lock => ?_
        · rintro ⟨lock, hlock⟩
          cases hopened.symm.trans hlock
        · rintro ⟨lock, hlock⟩
          cases (if_pos hopened).symm.trans hlock
        · refine ⟨fun h => ?_, fun h => ?_⟩
          · cases (if_pos hopened).symm.trans h
          · cases hopened.symm.trans h
      · exact .of_same (fun _ hop => by cases hop) (if_neg hopened) rfl
    | pathExists name =>
      rcases r with err | (_ | _)
      all_goals exact .under hpre.2.1 (fun _ hop => by cases hop) rfl
    | openRead name =>
      rcases r with err | opened
      all_goals exact .under hpre.2.1 (fun _ hop => by cases hop) rfl
    | read file limit =>
      rcases r with err | chunk
      · exact .under hpre.1 (fun _ hop => by cases hop) rfl
      · refine .under hpre.1 (fun _ hop => by cases hop) ?_
        change (a.hasRead file chunk).lock = a.lock
        unfold hasRead
        split
        · split <;> rfl
        · rfl
    | remove name =>
      rcases r with err | ⟨⟩
      · exact .under hpre.1 (fun _ hop => by cases hop) rfl
      · refine .under hpre.1 (fun _ hop => by cases hop) ?_
        change (if a.temp.isSome then a.attempted else _).lock = a.lock
        split <;> rfl
    | createTemp before after =>
      rcases r with err | ⟨random, opened⟩
      all_goals exact .under hpre.2.2.1 (fun _ hop => by cases hop) rfl
    | write file bytes =>
      rcases r with err | ⟨⟩
      all_goals exact .under hpre.1 (fun _ hop => by cases hop) rfl
    | rename source target =>
      rcases r with err | ⟨⟩
      all_goals exact .under hpre.2.1 (fun _ hop => by cases hop) rfl

/-- What an acquisition that has given up the lock knows it has seen. -/
def Seen (log : CacheLog sha256 cacheDir mix cache) (pid : ℕ) (a : Acquiring) : Prop :=
  ∀ lock bytes, a.lock = .released lock → a.known = .contents bytes →
    SeenAt log pid a.request bytes

/-- Giving up the lock is seeing what is there. -/
theorem Seen.calls {a : Acquiring} {o : PrepareOp} {r : o.Ret} (h : a.Seen log pid)
    (ha : a.Sound s pid) (hinformed : a.Informed s pid) (hpre : a.pre sha256 o) :
    (a.next o r).Seen (.called pid s o r :: log) pid := by
  intro lock bytes hlock hcontents
  rw [a.next_request]
  cases turn_of_pre r hpre with
  | gaveUp lock' hop hheld hnext =>
    subst hop
    rw [hnext] at hcontents
    exact ⟨lock', s, r, List.mem_cons_self, ha.held lock' hheld,
      hinformed.contents ⟨lock', hheld⟩ bytes hcontents⟩
  | under hholds _ hsame =>
    obtain ⟨lock', hheld⟩ := hholds
    cases hheld.symm.trans (hsame.symm.trans hlock)
  | took lock' _ _ _ hnext =>
    rw [hnext] at hlock
    cases hlock
  | without _ _ hknown hreleased =>
    exact (h lock bytes ((hreleased lock).mp hlock) (hknown.symm.trans hcontents)).mono
      (List.subset_cons_self _ _)

end Acquiring

/-! ## The layers -/

/-- What every process believes of its final path is so. -/
def AllInformed (gs : ℕ → Machine.Stage Standing) (s : Files) : Prop :=
  ∀ pid g, gs pid = .live g → g.Informed s pid

theorem AllInformed.update {gs : ℕ → Machine.Stage Standing} {stage : Machine.Stage Standing}
    (h : AllInformed gs s) (hself : ∀ g, stage = .live g → g.Informed s' pid)
    (hothers : ∀ (other : ℕ) (g : Standing), gs other = .live g → other ≠ pid →
      g.Informed s other → g.Informed s' other) :
    AllInformed (Function.update gs pid stage) s' := by
  intro other g hlive
  by_cases hother : other = pid
  · subst hother
    rw [Function.update_self] at hlive
    exact hself g hlive
  · rw [Function.update_of_ne hother] at hlive
    exact hothers other g hlive hother (h other g hlive)

/-- What an acquisition believes is so after its own call. -/
theorem Acquiring.Informed.calls (hplain : PlainNames mix) {a : Acquiring}
    (h : a.Informed s pid) (hmix : mix a.request = true) (ha : a.Sound s pid) {o : PrepareOp}
    {r : o.Ret} (hpre : a.pre sha256 o)
    (hexec : (cacheMachine sha256 cacheDir mix cache).exec pid s o r = some s') :
    (a.next o r).Informed s' pid := by
  by_cases hfile : ∃ fo, o = .file fo
  · obtain ⟨fo, rfl⟩ := hfile
    exact h.own hplain hmix ha hpre hexec
  · have hnot : ∀ fo, o ≠ .file fo := fun fo heq => hfile ⟨fo, heq⟩
    cases cacheExec_of_not_file hexec hnot
    exact h.next_of_not_file hnot

theorem Standing.Informed.exit {g : Standing} {pid' : ℕ} (h : g.Informed s pid)
    (hne : pid ≠ pid') : g.Informed (s.exit pid') pid := by
  rcases g with a | c
  · exact Acquiring.Informed.exit h hne
  · trivial

theorem AllInformed.exit {gs : ℕ → Machine.Stage Standing} {g : Standing} (h : AllInformed gs s) :
    AllInformed (Function.update gs pid (.gone g)) (s.exit pid) :=
  h.update (fun _ hlive => by cases hlive) fun _ _ _ hne hg => hg.exit hne

/-- **What an acquisition believes of its final path is so**, in every interleaving. -/
theorem informed_keeps (hunique : UniqueNames mix) (hplain : PlainNames mix) :
    (historyOutline sha256 cacheDir mix cache).Keeps fun _ gs s => AllInformed gs s where
  init := fun pid g hlive => nomatch hlive
  start := by
    intro log gs s pid job s' _ h hunborn hstart
    obtain ⟨rfl, -⟩ := start_eq_some hstart
    refine h.update (fun g hlive => ?_) fun _ _ _ _ hg => hg
    cases hlive
    rcases job with request | ⟨⟩
    · exact .of_not_holds fun ⟨_, hlock⟩ => nomatch hlock
    · trivial
  call := by
    intro log gs s pid g o r s' hinv h hlive hpre hexec
    have hsound := hinv.1.1
    have hg := hsound pid g hlive
    refine h.update (fun g' hg' => ?_) fun other g' hlive' hne hg' => ?_
    · cases hg'
      rcases g with a | c
      · exact Acquiring.Informed.calls hplain (h pid _ hlive) hg.1 hg.2 hpre hexec
      · trivial
    · by_cases hfile : ∃ fo, o = .file fo
      · obtain ⟨fo, rfl⟩ := hfile
        rcases g' with a' | c'
        · have hsound' := hsound other _ hlive'
          exact hg'.other hunique hplain hsound'.1 hsound'.2 hne hg hpre hexec
        · trivial
      · cases cacheExec_of_not_file hexec fun fo heq => hfile ⟨fo, heq⟩
        exact hg'
  finish := fun _ _ _ _ h _ _ => h.exit
  kill := by
    intro log gs s pid g s' _ h _ hkill
    cases hkill
    exact h.exit

/-- The history, with what every acquisition believes of its final path. -/
def informedOutline (sha256 : List UInt8 → List UInt8) (cacheDir : String)
    (mix : PrepareRequest → Bool) (cache : Files) :
    (cacheMachine sha256 cacheDir mix cache).Outline Standing :=
  (historyOutline sha256 cacheDir mix cache).also fun _ gs s => AllInformed gs s

theorem informedOutline_valid (hunique : UniqueNames mix) (hplain : PlainNames mix) :
    (informedOutline sha256 cacheDir mix cache).Valid :=
  (historyOutline_valid hplain).also (informed_keeps hunique hplain)

/-- What a call does to a final path, where the outline holds. -/
theorem finalStep_of_inv (hunique : UniqueNames mix) (hplain : PlainNames mix)
    {gs : ℕ → Machine.Stage Standing} {g : Standing} {o : PrepareOp} {r : o.Ret}
    (hinv : (informedOutline sha256 cacheDir mix cache).inv log gs s) (hlive : gs pid = .live g)
    (hpre : (prepareProtocol sha256).pre g o)
    (hexec : (cacheMachine sha256 cacheDir mix cache).exec pid s o r = some s')
    {q : PrepareRequest} (hq : mix q = true) :
    FinalStep sha256 q (receivedBytes pid log) s s' o ∧
      ∀ inode, s.inodeAt q.fileName = some inode → s'.data inode = s.data inode := by
  obtain ⟨⟨⟨hsound, -⟩, hrecorded⟩, hinformed⟩ := hinv
  have hg := hsound pid g hlive
  by_cases hfile : ∃ fo, o = .file fo
  · obtain ⟨fo, rfl⟩ := hfile
    refine ⟨finalStep_of_pre hunique hplain hg (hinformed pid g hlive) ?_ hpre hexec hq,
      fun inode => data_of_final hplain hg hpre hexec hq⟩
    rintro a rfl
    have hrecord := hrecorded pid (.acquiring a) (by rw [hlive]; rfl)
    exact hrecord.2.1.symm
  · cases cacheExec_of_not_file hexec fun fo heq => hfile ⟨fo, heq⟩
    exact ⟨.same (.refl s _), fun _ _ => rfl⟩

/-- **The final paths are kept by every call.** -/
theorem keepsFinals_keeps (hunique : UniqueNames mix) (hplain : PlainNames mix) :
    (informedOutline sha256 cacheDir mix cache).Keeps fun log _ _ => EveryCall KeepsFinals log where
  init := trivial
  start := fun _ _ _ _ h _ _ => h
  call := by
    intro log gs s pid g o r s' hinv h hlive hpre hexec
    refine ⟨fun after hafter q hq => ?_, h⟩
    exact finalStep_of_inv hunique hplain hinv hlive hpre hafter hq
  finish := fun _ _ _ _ h _ _ => h
  kill := fun _ _ _ _ h _ _ => h

/-- What acquisitions have seen at their final paths, at work and once they have returned. -/
structure AllSeen (log : CacheLog sha256 cacheDir mix cache) (gs : ℕ → Machine.Stage Standing) :
    Prop where
  /-- An acquisition at work has seen what it knows. -/
  seen : ∀ pid a, gs pid = .live (.acquiring a) → a.Seen log pid
  /-- Those that returned a model had seen it verified. -/
  returned : ReturnsVerified log

/-- An event that is no return of this process keeps what has been seen. -/
theorem AllSeen.update {gs : ℕ → Machine.Stage Standing}
    {e : (cacheMachine sha256 cacheDir mix cache).Event} {stage : Machine.Stage Standing}
    (h : AllSeen log gs) (hself : ∀ a, stage = .live (.acquiring a) → a.Seen (e :: log) pid)
    (hreturned : ReturnsVerified (e :: log)) :
    AllSeen (e :: log) (Function.update gs pid stage) := by
  refine ⟨fun other a hlive => ?_, hreturned⟩
  by_cases hother : other = pid
  · subst hother
    rw [Function.update_self] at hlive
    exact hself a hlive
  · rw [Function.update_of_ne hother] at hlive
    exact fun lock bytes hlock hknown =>
      (h.seen other a hlive lock bytes hlock hknown).mono (List.subset_cons_self _ _)

/-- What holds of the returns so far goes on to hold. -/
theorem ReturnsVerified.cons (h : ReturnsVerified log)
    {e : (cacheMachine sha256 cacheDir mix cache).Event}
    (hself : ∀ pid prepared, e = .finished pid (.acquired (.ok prepared)) →
      ∃ q bytes, mix q = true ∧ .started pid (.acquire q) ∈ log ∧
        prepared.path = finalPath cacheDir q ∧ SeenAt log pid q bytes ∧
        verifies sha256 q bytes = true) : ReturnsVerified (e :: log) := by
  have hsub := List.subset_cons_self e log
  have hall : ∀ pid prepared, .finished pid (.acquired (.ok prepared)) ∈ e :: log →
      ∃ q bytes, mix q = true ∧ .started pid (.acquire q) ∈ log ∧
        prepared.path = finalPath cacheDir q ∧ SeenAt log pid q bytes ∧
        verifies sha256 q bytes = true := by
    intro pid prepared hmem
    rcases List.mem_cons.mp hmem with heq | hmem
    · exact hself pid prepared heq.symm
    · exact h pid prepared hmem
  intro pid prepared hmem
  obtain ⟨q, bytes, hq, hstarted, hpath, hseen, hright⟩ := hall pid prepared hmem
  exact ⟨q, bytes, hq, hsub hstarted, hpath, hseen.mono hsub, hright⟩

theorem started_of_jobOf {job : PrepareJob} (h : Machine.jobOf pid log = some job) :
    .started pid job ∈ log := by
  induction log with
  | nil => cases h
  | cons e log ih =>
    cases e with
    | started other job' =>
      rw [Machine.jobOf] at h
      split at h
      · rename_i hother
        subst hother
        cases h
        exact List.mem_cons_self
      · exact List.mem_cons_of_mem _ (ih h)
    | called | finished | killed => exact List.mem_cons_of_mem _ (ih h)

/-- **Nobody returns without having seen the right file under the lock.** -/
theorem seen_keeps :
    (informedOutline sha256 cacheDir mix cache).Keeps fun log gs _ => AllSeen log gs where
  init := ⟨fun pid a hlive => (nomatch hlive), fun pid prepared hmem => nomatch hmem⟩
  start := by
    intro log gs s pid job s' _ h _ _
    refine h.update (fun a hlive lock bytes hlock => ?_) (h.returned.cons fun _ _ heq => ?_)
    · rcases job with request | ⟨⟩
      · cases hlive
        cases hlock
      · cases hlive
    · cases heq
  call := by
    intro log gs s pid g o r s' hinv h hlive hpre _
    refine h.update (fun a' hlive' => ?_) (h.returned.cons fun _ _ heq => by cases heq)
    rcases g with a | c
    · cases hlive'
      exact (h.seen pid a hlive).calls (hinv.1.1.1 pid _ hlive).2 (hinv.2 pid _ hlive) hpre
    · cases hlive'
  finish := by
    intro log gs s pid g result hinv h hlive hdone
    refine h.update (fun _ hlive' => by cases hlive') (h.returned.cons fun _ prepared heq => ?_)
    cases heq
    rcases g with a | c
    · obtain ⟨hpath, ⟨lock, hlock⟩, ⟨bytes, hknown, hright⟩, -⟩ := hdone
      have hrecord := hinv.1.2 pid (.acquiring a) (by rw [hlive]; rfl)
      exact ⟨a.request, bytes, (hinv.1.1.1 pid _ hlive).1, started_of_jobOf hrecord.1, hpath,
        h.seen pid a hlive lock bytes hlock hknown, hright⟩
    · exact hdone.elim
  kill := by
    intro log gs s pid g s' _ h _ _
    exact h.update (fun _ hlive' => by cases hlive') (h.returned.cons fun _ _ heq => by cases heq)

/-! ## Whole runs -/

/-- A step leaves at a final path what may be there. -/
theorem step_finalKept (hunique : UniqueNames mix) (hplain : PlainNames mix)
    {c c' : (cacheMachine sha256 cacheDir mix cache).Config}
    (h : (cacheMachine sha256 cacheDir mix cache).Reachable c)
    (hstep : (cacheMachine sha256 cacheDir mix cache).Step c c') {q : PrepareRequest}
    (hq : mix q = true) :
    FinalKept sha256 q (c.shared.content q.fileName) (c'.shared.content q.fileName) := by
  cases hstep with
  | start pid job hthread hstart =>
    obtain ⟨rfl, -⟩ := start_eq_some hstart
    exact .inl rfl
  | call pid r hthread hexec =>
    obtain ⟨gs, hinv, hstands⟩ :=
      Machine.Outline.reachable (informedOutline_valid hunique hplain) h
    have hpid := hstands pid
    rw [hthread] at hpid
    obtain ⟨g, hlive, hpre, -⟩ := hpid
    exact (finalStep_of_inv hunique hplain hinv hlive hpre hexec hq).1.kept
  | turn => exact .inl rfl
  | finish => exact .inl rfl
  | kill pid hthread hkill =>
    cases hkill
    exact .inl rfl

/-- **At any moment of a run**, killed processes or not, a final path has what it had before,
nothing if that was wrong, or the right file. -/
theorem run_finalKept (hunique : UniqueNames mix) (hplain : PlainNames mix)
    {c c' : (cacheMachine sha256 cacheDir mix cache).Config}
    (h : (cacheMachine sha256 cacheDir mix cache).Reachable c)
    (hrun : Relation.ReflTransGen (cacheMachine sha256 cacheDir mix cache).Step c c')
    {q : PrepareRequest} (hq : mix q = true) :
    FinalKept sha256 q (c.shared.content q.fileName) (c'.shared.content q.fileName) ∧
      (cacheMachine sha256 cacheDir mix cache).Reachable c' := by
  induction hrun with
  | refl => exact ⟨.inl rfl, h⟩
  | tail _ hstep ih =>
    obtain ⟨hkept, hreach⟩ := ih
    exact ⟨hkept.trans (step_finalKept hunique hplain hreach hstep hq), hreach.step hstep⟩

/-- What `prepare` promises of the final paths: what every call does to them, what a call that
returns has seen, and what a run can leave there. -/
structure Integrity (sha256 : List UInt8 → List UInt8) (cacheDir : String)
    (mix : PrepareRequest → Bool) (cache : Files)
    (c : (cacheMachine sha256 cacheDir mix cache).Config) : Prop where
  /-- No call breaks a final path. -/
  calls : EveryCall KeepsFinals c.log
  /-- An acquisition that returns a model has seen it verified. -/
  returns : ReturnsVerified c.log
  /-- From here on, a final path keeps what is right. -/
  runs : ∀ c', Relation.ReflTransGen (cacheMachine sha256 cacheDir mix cache).Step c c' →
    ∀ q, mix q = true →
      FinalKept sha256 q (c.shared.content q.fileName) (c'.shared.content q.fileName)

/-- **Prepare integrity**, in every interleaving of acquisitions, cleanups and kills. -/
theorem prepare_integrity (hunique : UniqueNames mix) (hplain : PlainNames mix)
    (c : (cacheMachine sha256 cacheDir mix cache).Config)
    (h : (cacheMachine sha256 cacheDir mix cache).Reachable c) :
    Integrity sha256 cacheDir mix cache c := by
  have hvalid : (informedOutline sha256 cacheDir mix cache).Valid :=
    informedOutline_valid hunique hplain
  obtain ⟨gs, ⟨-, hcalls⟩, -⟩ :=
    Machine.Outline.reachable (hvalid.also (keepsFinals_keeps hunique hplain)) h
  obtain ⟨gs', ⟨-, hseen⟩, -⟩ := Machine.Outline.reachable (hvalid.also seen_keeps) h
  exact ⟨hcalls, hseen.returned, fun c' hrun q hq => (run_finalKept hunique hplain h hrun hq).1⟩

end

/-! ## A download after a kill, and two names that are in the way -/

/-- A digest that is computed by hand: the sum of the bytes. -/
def byteSum (bytes : List UInt8) : List UInt8 :=
  [UInt8.ofNat (bytes.foldl (fun n byte => n + byte.toNat) 0)]

/-- A model of one byte, pinned under that digest. -/
def summedModel : PrepareRequest := ⟨"m", "m.gguf", "u", "61", 1⟩

/-- The machine of this one model, on an empty cache. -/
@[reducible] def summedMachine : Machine prepareSig PrepareJob PrepareResult :=
  cacheMachine byteSum "c" (only summedModel) .empty

theorem summedModel_plain : PlainNames (only summedModel) := only_plain (by decide) (by decide)

set_option maxRecDepth 4000 in
/-- A first process is killed when it has made its partial file, and leaves it behind.  A second one
takes the lock that is free again, downloads the model and renames it. -/
theorem summedModel_downloaded :
    ∃ c : summedMachine.Config, summedMachine.Reachable c ∧ .killed 0 ∈ c.log ∧
      .finished 1 (.acquired (.ok ⟨"c/m.gguf", false⟩)) ∈ c.log ∧
      c.shared.content "m.gguf" = some [0x61] := by
  have first := Machine.Reachable.step Machine.Reachable.start
    (Machine.Step.start (M := summedMachine) 0 (.acquire summedModel) rfl rfl)
  have made := first.step (.call 0 (Except.ok () : Except IoError Unit) rfl rfl)
  have opened := made.step (.call 0 (Except.ok 0 : Except IoError Handle) rfl rfl)
  have locked := opened.step (.call 0 (Except.ok () : Except IoError Unit) rfl rfl)
  have missing := locked.step (.call 0 (Except.ok false : Except IoError Bool) rfl rfl)
  have fits := missing.step (.call 0 (Except.ok 1 : Except IoError UInt64) rfl rfl)
  have asked := fits.step (.call 0 () rfl rfl)
  have offered := asked.step (.call 0 (Except.ok none : Except String (Option UInt64)) rfl rfl)
  have filling := offered.step
    (.call 0 (Except.ok ("abcdef", 1) : Except IoError (String × Handle)) rfl rfl)
  have killed := filling.step (.kill 0 rfl rfl)
  have second := killed.step (.start 1 (.acquire summedModel) rfl rfl)
  have made := second.step (.call 1 (Except.ok () : Except IoError Unit) rfl rfl)
  have opened := made.step (.call 1 (Except.ok 2 : Except IoError Handle) rfl rfl)
  have locked := opened.step (.call 1 (Except.ok () : Except IoError Unit) rfl rfl)
  have missing := locked.step (.call 1 (Except.ok false : Except IoError Bool) rfl rfl)
  have fits := missing.step (.call 1 (Except.ok 1 : Except IoError UInt64) rfl rfl)
  have asked := fits.step (.call 1 () rfl rfl)
  have offered := asked.step (.call 1 (Except.ok none : Except String (Option UInt64)) rfl rfl)
  have filling := offered.step
    (.call 1 (Except.ok ("ghijkl", 3) : Except IoError (String × Handle)) rfl rfl)
  have begun := (filling.step (.call 1 () rfl rfl)).step (.turn 1 rfl)
  have read := begun.step (.call 1 (Except.ok [0x61] : Except String (List UInt8)) rfl rfl)
  have written := read.step (.call 1 (Except.ok () : Except WriteError Unit) rfl rfl)
  have copying := (written.step (.call 1 false rfl rfl)).step (.turn 1 rfl)
  have copied := copying.step (.call 1 (Except.ok [] : Except String (List UInt8)) rfl rfl)
  have flushed := copied.step (.call 1 (Except.ok () : Except IoError Unit) rfl rfl)
  have reported := flushed.step (.call 1 () rfl rfl)
  have renamed := reported.step (.call 1 (Except.ok () : Except IoError Unit) rfl rfl)
  have closed := renamed.step (.call 1 () rfl rfl)
  have done := closed.step (.call 1 () rfl rfl)
  have unlocked := done.step (.call 1 (Except.ok () : Except IoError Unit) rfl rfl)
  have left := unlocked.step (.call 1 () rfl rfl)
  have finished := left.step (.finish 1 rfl)
  refine ⟨_, finished, ?_, List.mem_cons_self, rfl⟩
  repeat first | exact List.mem_cons_self | apply List.mem_cons_of_mem

/-- What was promised of the final path has been kept, and will be. -/
theorem prepare_integrity_downloaded :
    ∃ c : summedMachine.Config, .killed 0 ∈ c.log ∧
      .finished 1 (.acquired (.ok ⟨"c/m.gguf", false⟩)) ∈ c.log ∧
      c.shared.content "m.gguf" = some [0x61] ∧
      Integrity byteSum "c" (only summedModel) .empty c := by
  obtain ⟨c, hreach, hkilled, hfinished, hcontent⟩ := summedModel_downloaded
  exact ⟨c, hkilled, hfinished, hcontent,
    prepare_integrity (only_unique _) summedModel_plain c hreach⟩

/-- A model of this file name, with a digest that needs no computing. -/
def modelNamed (fileName : String) : PrepareRequest := ⟨"m", fileName, "u", "", 1⟩

/-- The machine of this one model, on a given cache. -/
@[reducible] def machineNamed (fileName : String) (cache : Files) :
    Machine prepareSig PrepareJob PrepareResult :=
  cacheMachine (fun _ => []) "c" (only (modelNamed fileName)) cache

theorem modelNamed_plain : PlainNames (only (modelNamed "m.gguf")) :=
  only_plain (by decide) (by decide)

set_option maxRecDepth 4000 in
/-- A final name that is the cache lock's appears when the lock is made.  One that looks like a
partial file's is removed by a cleanup, though the file is right. -/
theorem not_integrity_of_names :
    (∀ fileName, UniqueNames (only (modelNamed fileName))) ∧
      (∃ c, (machineNamed "m.lock" .empty).Reachable c ∧ ¬ Integrity _ _ _ _ c) ∧
      ∃ c, (machineNamed (partialName "n" "abcdef")
        (Files.empty.create (partialName "n" "abcdef"))).Reachable c ∧
          ¬ Integrity _ _ _ _ c := by
  refine ⟨fun _ => only_unique _, ?_, ?_⟩
  · have started := Machine.Reachable.step Machine.Reachable.start
      (Machine.Step.start (M := machineNamed "m.lock" .empty) 0 (.acquire (modelNamed "m.lock"))
        rfl rfl)
    have made := started.step (.call 0 (Except.ok () : Except IoError Unit) rfl rfl)
    have opened := made.step (.call 0 (Except.ok 0 : Except IoError Handle) rfl rfl)
    refine ⟨_, opened, fun h => ?_⟩
    cases (h.calls.1 _ rfl (modelNamed "m.lock") rfl).1 with
    | same hsame => exact absurd hsame.inode (by decide)
  · have cleaning := Machine.Reachable.step Machine.Reachable.start
      (Machine.Step.start (M := machineNamed (partialName "n" "abcdef")
        (Files.empty.create (partialName "n" "abcdef"))) 0 .clean rfl rfl)
    have begun := cleaning.step (.call 0 (Except.ok () : Except IoError Unit) rfl rfl)
    have scanning := begun.step (.turn 0 rfl)
    have listed := scanning.step (.call 0
      (Except.ok (some (partialName "n" "abcdef")) : Except IoError (Option String)) rfl rfl)
    have again := listed.step (.turn 0 rfl)
    have ended := again.step (.call 0 (Except.ok none : Except IoError (Option String)) rfl rfl)
    have removed := ended.step (.call 0 (Except.ok () : Except IoError Unit) rfl rfl)
    refine ⟨_, removed, fun h => ?_⟩
    cases (h.calls.1 _ rfl (modelNamed (partialName "n" "abcdef")) rfl).1 with
    | same hsame => exact absurd hsame.inode (by decide)
    | removed _ hwrong _ => cases hwrong

end SemanticSidecar
