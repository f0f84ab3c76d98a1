import SemanticSidecar.Prepare.FinalPath

/-!
# A model is downloaded once

Any number of calls of `acquire` for one request.  The cache lock keeps two downloads apart, and
whoever takes it looks at the final path again before going to the network; so once the file is
there and right, nobody does, as long as the file can be looked at.

The downloads are read off the log: who has sent a request, who is between that and the end of the
download, and whose partial file has got to the final path.  `Tracked` ties that to where the
acquisitions stand, and `Settled` is what holds from the first success on.

There are two parts to the result, and the second one has a condition.  Two downloads of one model
never overlap, in any run.  And once one of them has succeeded there is no other, as long as every
look at a file succeeds (`CanRead`).  A process that cannot tell whether there is a file at the
final path goes to the network again.

A kill may come at any moment.  A download that is killed before its rename has not succeeded, and
the next process starts from the beginning.
-/

set_option autoImplicit false

namespace SemanticSidecar

open Machine (EveryCall)

/-! ## What the log says of downloads -/

/-- The call opens the HTTP request. -/
def PrepareOp.isRequest : PrepareOp → Bool
  | .openRequest _ _ => true
  | _ => false

/-- The call gives a lock up. -/
def PrepareOp.isUnlock : PrepareOp → Bool
  | .file (.unlock _) => true
  | _ => false

/-- The cache lock has been taken. -/
def takes (o : PrepareOp) (r : o.Ret) : Bool :=
  match o, r with
  | .file (.tryLock _), .ok () => true
  | .file (.lock _), .ok () => true
  | _, _ => false

/-- A partial file has been renamed. -/
def places (o : PrepareOp) (r : o.Ret) : Bool :=
  match o, r with
  | .file (.rename _ _), .ok () => true
  | _, _ => false

/-- No look at a file has failed. -/
def canRead (o : PrepareOp) (r : o.Ret) : Bool :=
  match o, r with
  | .file (.pathExists _), .error _ => false
  | .file (.openRead _), .error _ => false
  | .file (.read _ _), .error _ => false
  | _, _ => true

section

variable {sha256 : List UInt8 → List UInt8} {cacheDir : String} {mix : PrepareRequest → Bool}
  {cache : Files} {log : CacheLog sha256 cacheDir mix cache} {s s' : Files} {pid : ℕ}
  {o : PrepareOp} {r : o.Ret}

/-- Who has opened an HTTP request, once for each. -/
def starts : CacheLog sha256 cacheDir mix cache → List ℕ
  | [] => []
  | .called pid _ o _ :: log => if o.isRequest then pid :: starts log else starts log
  | .started _ _ :: log => starts log
  | .finished _ _ :: log => starts log
  | .killed _ :: log => starts log

/-- Who has renamed a partial file, once for each. -/
def placers : CacheLog sha256 cacheDir mix cache → List ℕ
  | [] => []
  | .called pid _ o r :: log => if places o r then pid :: placers log else placers log
  | .started _ _ :: log => placers log
  | .finished _ _ :: log => placers log
  | .killed _ :: log => placers log

/-- The process is between the opening of the HTTP request and the end of the download; the cache
lock is given up right after that. -/
def downloading (pid : ℕ) : CacheLog sha256 cacheDir mix cache → Bool
  | [] => false
  | .called other _ o _ :: log =>
    if other = pid ∧ o.isRequest then true
    else if other = pid ∧ o.isUnlock then false
    else downloading pid log
  | .started _ _ :: log => downloading pid log
  | .finished other _ :: log => other != pid && downloading pid log
  | .killed other :: log => other != pid && downloading pid log

/-- A download is over, and its partial file has not got to the final path: it has failed, or was
killed. -/
def failed (log : CacheLog sha256 cacheDir mix cache) (pid : ℕ) : Bool :=
  !downloading pid log && !(placers log).contains pid

theorem failed_iff : failed log pid = true ↔ downloading pid log = false ∧ pid ∉ placers log := by
  simp [failed]

/-- An acquisition has returned, and has the model. -/
def ReturnedOk (log : CacheLog sha256 cacheDir mix cache) : Prop :=
  ∃ pid prepared, .finished pid (.acquired (.ok prepared)) ∈ log

/-- The process has taken the cache lock after an acquisition had returned and had the model. -/
def TookLate (pid : ℕ) : CacheLog sha256 cacheDir mix cache → Prop
  | [] => False
  | .called other _ o r :: log =>
    (other = pid ∧ takes o r = true ∧ ReturnedOk log) ∨ TookLate pid log
  | .started _ _ :: log => TookLate pid log
  | .finished _ _ :: log => TookLate pid log
  | .killed _ :: log => TookLate pid log

/-- No look at a file has failed. -/
def CanRead (_ : CacheLog sha256 cacheDir mix cache) (_ : ℕ) (_ : Files) (o : PrepareOp)
    (r : o.Ret) : Prop :=
  canRead o r = true

theorem mem_starts_called {p : ℕ} : p ∈ starts (.called pid s o r :: log) ↔
    (p = pid ∧ o.isRequest = true) ∨ p ∈ starts log := by
  change p ∈ (if o.isRequest then pid :: starts log else starts log) ↔ _
  split
  · rename_i hrequest
    rw [List.mem_cons]
    simp [hrequest]
  · rename_i hrequest
    simp [hrequest]

theorem mem_placers_called {p : ℕ} : p ∈ placers (.called pid s o r :: log) ↔
    (p = pid ∧ places o r = true) ∨ p ∈ placers log := by
  change p ∈ (if places o r then pid :: placers log else placers log) ↔ _
  split
  · rename_i hplaces
    rw [List.mem_cons]
    simp [hplaces]
  · rename_i hplaces
    simp [hplaces]

/-- Who has opened a request has done something. -/
theorem actor_of_starts (h : pid ∈ starts log) : ∃ e ∈ log, e.actor = pid := by
  induction log with
  | nil => cases h
  | cons e log ih =>
    have hlater : pid ∈ starts log → ∃ e' ∈ e :: log, e'.actor = pid := fun h => by
      obtain ⟨e', hmem, hactor⟩ := ih h
      exact ⟨e', List.mem_cons_of_mem _ hmem, hactor⟩
    cases e with
    | called other before o r =>
      rcases mem_starts_called.mp h with ⟨rfl, -⟩ | h
      · exact ⟨_, List.mem_cons_self, rfl⟩
      · exact hlater h
    | started | finished | killed => exact hlater h

theorem actor_of_tookLate (h : TookLate pid log) : ∃ e ∈ log, e.actor = pid := by
  induction log with
  | nil => cases h
  | cons e log ih =>
    have hlater : TookLate pid log → ∃ e' ∈ e :: log, e'.actor = pid := fun h => by
      obtain ⟨e', hmem, hactor⟩ := ih h
      exact ⟨e', List.mem_cons_of_mem _ hmem, hactor⟩
    cases e with
    | called other before o r =>
      rcases h with ⟨rfl, -⟩ | h
      · exact ⟨_, List.mem_cons_self, rfl⟩
      · exact hlater h
    | started | finished | killed => exact hlater h

theorem ReturnedOk.cons {e : (cacheMachine sha256 cacheDir mix cache).Event}
    (h : ReturnedOk log) : ReturnedOk (e :: log) := by
  obtain ⟨pid, prepared, hmem⟩ := h
  exact ⟨pid, prepared, List.mem_cons_of_mem _ hmem⟩

theorem TookLate.returned (h : TookLate pid log) : ReturnedOk log := by
  induction log with
  | nil => cases h
  | cons e log ih =>
    cases e with
    | called other before o r =>
      rcases h with ⟨-, -, hreturned⟩ | h
      · exact hreturned.cons
      · exact (ih h).cons
    | started | finished | killed => exact (ih h).cons

/-! ## Downloads and where the acquisitions stand -/

namespace Acquiring

variable {a : Acquiring}

theorem next_requested (o : PrepareOp) (r : o.Ret) :
    (a.next o r).requested = (a.requested || o.isRequest) := by
  cases o with
  | file fo =>
    have hsame : (a.next (.file fo) r).requested = a.requested := by
      unfold next
      split
      case h_6 => split <;> rfl
      case h_10 =>
        unfold hasRead
        split
        · split <;> rfl
        · rfl
      case h_12 => split <;> rfl
      case h_14 => rename_i heq _; cases heq
      all_goals rfl
    rw [hsame]
    exact (Bool.or_false _).symm
  | openRequest => exact (Bool.or_true _).symm
  | readBody | awaitResponse =>
    rcases r with err | answer
    all_goals exact (Bool.or_false _).symm
  | emit | progressDue => exact (Bool.or_false _).symm

theorem holds_of_isRequest (hpre : a.pre sha256 o) (hrequest : o.isRequest = true) :
    a.Holds ∧ (a.known = .absent ∨ a.known = .unseen) ∧ a.requested = false := by
  cases o with
  | openRequest => exact hpre
  | file | emit | awaitResponse | readBody | progressDue => cases hrequest

/-- The lock is held until it is given up. -/
theorem holds_next (hpre : a.pre sha256 o) (hholds : a.Holds) (hunlock : o.isUnlock = false) :
    (a.next o r).Holds := by
  cases turn_of_pre r hpre with
  | gaveUp lock hop =>
    subst hop
    cases hunlock
  | under _ _ hlock =>
    rw [Holds, hlock]
    exact hholds
  | took lock _ hopened =>
    obtain ⟨lock', hheld⟩ := hholds
    cases hopened.symm.trans hheld
  | without hnot => exact absurd hholds hnot

/-- Requests are opened under the lock. -/
theorem locked_next (hpre : a.pre sha256 o)
    (h : a.requested = true → a.Holds ∨ ∃ lock, a.lock = .released lock)
    (hrequested : (a.next o r).requested = true) :
    (a.next o r).Holds ∨ ∃ lock, (a.next o r).lock = .released lock := by
  rw [next_requested, Bool.or_eq_true] at hrequested
  cases turn_of_pre r hpre with
  | gaveUp lock _ _ hnext => exact .inr ⟨lock, by rw [hnext]⟩
  | under hholds _ hlock =>
    rw [Holds, hlock]
    exact .inl hholds
  | took lock _ _ _ hnext => exact .inl ⟨lock, by rw [hnext]⟩
  | without hnot _ _ hreleased =>
    rcases hrequested with hrequested | hrequest
    · obtain ⟨lock, hlock⟩ := (h hrequested).resolve_left hnot
      exact .inr ⟨lock, (hreleased lock).mpr hlock⟩
    · exact absurd (holds_of_isRequest hpre hrequest).1 hnot

end Acquiring

/-- A cleanup does not go to the network. -/
theorem Cleaning.not_isRequest {c : Cleaning} (hpre : c.pre o) : o.isRequest = false := by
  cases o with
  | openRequest => exact hpre.elim
  | file | emit | awaitResponse | readBody | progressDue => rfl

theorem Cleaning.not_places {c : Cleaning} (hpre : c.pre o) : places o r = false := by
  unfold places
  split
  · exact hpre.elim
  · rfl

/-- What the log says of downloads agrees with where the acquisitions stand. -/
structure Tracked (log : CacheLog sha256 cacheDir mix cache) (gs : ℕ → Machine.Stage Standing) :
    Prop where
  /-- An acquisition has begun to download if and only if the log says so. -/
  requested : ∀ pid a, gs pid = .live (.acquiring a) → (pid ∈ starts log ↔ a.requested = true)
  /-- It does so under the lock, which it may have given up since. -/
  locked : ∀ pid a, gs pid = .live (.acquiring a) → a.requested = true →
    a.Holds ∨ ∃ lock, a.lock = .released lock
  /-- One that is downloading by the log is at work and holds the lock. -/
  holder : ∀ pid, downloading pid log = true →
    ∃ a, gs pid = .live (.acquiring a) ∧ a.Holds ∧ a.requested = true
  /-- A cleanup never downloads. -/
  cleaner : ∀ pid c, gs pid = .live (.cleaning c) → pid ∉ starts log
  /-- No process begins to download twice. -/
  once : (starts log).Nodup
  /-- A process that has finished is gone. -/
  left : ∀ pid result, .finished pid result ∈ log → ∃ g, gs pid = .gone g

theorem Tracked.called {gs : ℕ → Machine.Stage Standing} {g : Standing} (h : Tracked log gs)
    (hlive : gs pid = .live g) (hpre : (prepareProtocol sha256).pre g o) :
    Tracked (.called pid s o r :: log)
      (Function.update gs pid (.live ((prepareProtocol sha256).next g o r))) where
  requested := by
    intro other a hother
    rw [mem_starts_called]
    by_cases hself : other = pid
    · subst hself
      rw [Function.update_self] at hother
      rcases g with a₀ | c
      · cases hother
        rw [a₀.next_requested, Bool.or_eq_true, ← h.requested other a₀ hlive, or_comm,
          and_iff_right rfl]
      · cases hother
    · rw [Function.update_of_ne hself] at hother
      rw [← h.requested other a hother]
      exact ⟨fun hmem => hmem.resolve_left fun hrequest => hself hrequest.1, .inr⟩
  locked := by
    intro other a hother
    by_cases hself : other = pid
    · subst hself
      rw [Function.update_self] at hother
      rcases g with a₀ | c
      · cases hother
        exact Acquiring.locked_next hpre (h.locked other a₀ hlive)
      · cases hother
    · rw [Function.update_of_ne hself] at hother
      exact h.locked other a hother
  holder := by
    intro other hdown
    change (if pid = other ∧ o.isRequest = true then true
      else if pid = other ∧ o.isUnlock = true then false
      else downloading other log) = true at hdown
    by_cases hself : other = pid
    · subst hself
      rw [Function.update_self]
      by_cases hrequest : o.isRequest = true
      · rcases g with a | c
        · obtain ⟨hholds, -⟩ := Acquiring.holds_of_isRequest hpre hrequest
          have hunlock : o.isUnlock = false := by
            cases o with
            | openRequest => rfl
            | file | emit | awaitResponse | readBody | progressDue => cases hrequest
          refine ⟨_, rfl, Acquiring.holds_next hpre hholds hunlock, ?_⟩
          rw [a.next_requested, hrequest, Bool.or_true]
        · cases hrequest.symm.trans (Cleaning.not_isRequest hpre)
      · rw [if_neg fun hnot => hrequest hnot.2] at hdown
        split at hdown
        · cases hdown
        · rename_i hunlock
          rw [not_and, Bool.not_eq_true] at hunlock
          obtain ⟨a, hacquiring, hholds, hrequested⟩ := h.holder other hdown
          cases hlive.symm.trans hacquiring
          refine ⟨_, rfl, Acquiring.holds_next hpre hholds (hunlock rfl), ?_⟩
          rw [a.next_requested, hrequested, Bool.true_or]
    · rw [if_neg fun heq => hself heq.1.symm, if_neg fun heq => hself heq.1.symm] at hdown
      rw [Function.update_of_ne hself]
      exact h.holder other hdown
  cleaner := by
    intro other c hother hstarts
    rcases mem_starts_called.mp hstarts with ⟨rfl, hrequest⟩ | hmem
    · rw [Function.update_self] at hother
      rcases g with a | c₀
      · cases hother
      · cases hrequest.symm.trans (Cleaning.not_isRequest hpre)
    · by_cases hself : other = pid
      · subst hself
        rw [Function.update_self] at hother
        rcases g with a | c₀
        · cases hother
        · exact h.cleaner other c₀ hlive hmem
      · rw [Function.update_of_ne hself] at hother
        exact h.cleaner other c hother hmem
  once := by
    change (if o.isRequest then pid :: starts log else starts log).Nodup
    split
    · rename_i hrequest
      refine List.nodup_cons.mpr ⟨fun hmem => ?_, h.once⟩
      rcases g with a | c
      · obtain ⟨-, -, hnot⟩ := Acquiring.holds_of_isRequest hpre hrequest
        rw [(h.requested pid a hlive).mp hmem] at hnot
        cases hnot
      · cases hrequest.symm.trans (Cleaning.not_isRequest hpre)
    · exact h.once
  left := by
    intro other result hmem
    rcases List.mem_cons.mp hmem with heq | hmem
    · cases heq
    · obtain ⟨g', hgone⟩ := h.left other result hmem
      have hself : other ≠ pid := by
        rintro rfl
        cases hlive.symm.trans hgone
      exact ⟨g', by rw [Function.update_of_ne hself, hgone]⟩

/-- A process that goes away is not downloading any more. -/
theorem Tracked.leaves {gs : ℕ → Machine.Stage Standing} {g : Standing} (h : Tracked log gs)
    {e : (cacheMachine sha256 cacheDir mix cache).Event}
    (he : (∃ result, e = .finished pid result) ∨ e = .killed pid) :
    Tracked (e :: log) (Function.update gs pid (.gone g)) := by
  have hstarts : starts (e :: log) = starts log := by
    rcases he with ⟨result, rfl⟩ | rfl
    all_goals rfl
  have hdown : ∀ other, downloading other (e :: log) = (pid != other && downloading other log) := by
    intro other
    rcases he with ⟨result, rfl⟩ | rfl
    all_goals rfl
  have hne : ∀ {other a}, Function.update gs pid (.gone g) other = .live a → other ≠ pid := by
    rintro other a hlive rfl
    rw [Function.update_self] at hlive
    cases hlive
  refine ⟨fun other a hlive => ?_, fun other a hlive => ?_, fun other hdowns => ?_,
    fun other c hlive => ?_, ?_, fun other result hmem => ?_⟩
  · rw [hstarts]
    rw [Function.update_of_ne (hne hlive)] at hlive
    exact h.requested other a hlive
  · rw [Function.update_of_ne (hne hlive)] at hlive
    exact h.locked other a hlive
  · rw [hdown, Bool.and_eq_true, bne_iff_ne] at hdowns
    rw [Function.update_of_ne hdowns.1.symm]
    exact h.holder other hdowns.2
  · rw [hstarts]
    rw [Function.update_of_ne (hne hlive)] at hlive
    exact h.cleaner other c hlive
  · rw [hstarts]
    exact h.once
  · by_cases hself : other = pid
    · rw [hself, Function.update_self]
      exact ⟨g, rfl⟩
    · rw [Function.update_of_ne hself]
      refine h.left other result ?_
      rcases List.mem_cons.mp hmem with heq | hmem
      · rcases he with ⟨result', rfl⟩ | rfl
        · cases heq
          exact absurd rfl hself
        · cases heq
      · exact hmem

/-- **What the log says of downloads is so**, in every interleaving. -/
theorem tracked_keeps :
    (informedOutline sha256 cacheDir mix cache).Keeps fun log gs _ => Tracked log gs where
  init := ⟨fun _ _ h => (nomatch h), fun _ _ h => (nomatch h), fun _ h => (nomatch h),
    fun _ _ h => (nomatch h), List.nodup_nil, fun _ _ h => nomatch h⟩
  start := by
    intro log gs s pid job s' hinv h hunborn _
    have habsent : pid ∉ starts log := fun hmem => by
      obtain ⟨e, he, hactor⟩ := actor_of_starts hmem
      exact hinv.1.1.2.unborn pid hunborn e he hactor
    refine ⟨fun other a hlive => ?_, fun other a hlive => ?_, fun other hdown => ?_,
      fun other c hlive => ?_, h.once, fun other result hmem => ?_⟩
    · by_cases hself : other = pid
      · subst hself
        rw [Function.update_self] at hlive
        rcases job with request | ⟨⟩
        · cases hlive
          exact ⟨fun hmem => absurd hmem habsent, fun hfalse => by cases hfalse⟩
        · cases hlive
      · rw [Function.update_of_ne hself] at hlive
        exact h.requested other a hlive
    · by_cases hself : other = pid
      · subst hself
        rw [Function.update_self] at hlive
        rcases job with request | ⟨⟩
        · cases hlive
          exact fun hfalse => by cases hfalse
        · cases hlive
      · rw [Function.update_of_ne hself] at hlive
        exact h.locked other a hlive
    · obtain ⟨a, hlive, hdownloading⟩ := h.holder other hdown
      have hself : other ≠ pid := by
        rintro rfl
        cases hunborn.symm.trans hlive
      exact ⟨a, by rw [Function.update_of_ne hself, hlive], hdownloading⟩
    · by_cases hself : other = pid
      · subst hself
        exact habsent
      · rw [Function.update_of_ne hself] at hlive
        exact h.cleaner other c hlive
    · rcases List.mem_cons.mp hmem with heq | hmem
      · cases heq
      · obtain ⟨g, hgone⟩ := h.left other result hmem
        have hself : other ≠ pid := by
          rintro rfl
          cases hunborn.symm.trans hgone
        exact ⟨g, by rw [Function.update_of_ne hself, hgone]⟩
  call := fun _ _ _ _ _ _ h hlive hpre _ => h.called hlive hpre
  finish := fun _ _ _ _ h _ _ => h.leaves (.inl ⟨_, rfl⟩)
  kill := fun _ _ _ _ h _ _ => h.leaves (.inr rfl)

/-- The outline with what the log says of downloads. -/
def trackedOutline (sha256 : List UInt8 → List UInt8) (cacheDir : String)
    (mix : PrepareRequest → Bool) (cache : Files) :
    (cacheMachine sha256 cacheDir mix cache).Outline Standing :=
  (informedOutline sha256 cacheDir mix cache).also fun log gs _ => Tracked log gs

/-! ## What an acquisition finds at the final path -/

namespace Acquiring

variable {a : Acquiring}

/-- It has not been kept from looking. -/
def CanSee (a : Acquiring) : Prop := a.known ≠ .unseen ∧ a.known ≠ .unreadable

theorem CanSee.next (h : a.CanSee) (hcan : canRead o r = true) : (a.next o r).CanSee := by
  unfold CanSee Acquiring.next
  split
  case h_6 =>
    split
    · exact h
    · exact ⟨nofun, nofun⟩
  case h_7 | h_9 | h_11 => cases hcan
  case h_10 =>
    unfold hasRead
    split
    · split
      · exact ⟨nofun, nofun⟩
      · exact h
    · exact h
  case h_12 =>
    split
    · exact h
    · exact ⟨nofun, nofun⟩
  case h_19 => exact ⟨nofun, nofun⟩
  all_goals exact h

/-- Nothing is read once it is known that there is no file. -/
theorem reading_next (hpre : a.pre sha256 o) (h : a.known = .absent → a.reading = none) :
    (a.next o r).known = .absent → (a.next o r).reading = none := by
  unfold Acquiring.next
  split
  case h_5 => exact fun habsent => by rw [closed, h habsent, Option.filter_none]
  case h_6 =>
    split
    · exact h
    · exact fun _ => hpre.2.2.2.1
  case h_7 | h_9 | h_11 | h_19 => exact fun habsent => by cases habsent
  case h_8 => exact fun habsent => by cases hpre.2.2.1.symm.trans habsent
  case h_10 =>
    obtain ⟨-, -, bytes, hreading⟩ := hpre
    rw [hasRead, hreading]
    dsimp only
    split
    · exact fun habsent => by cases habsent
    · exact fun habsent => by cases hreading.symm.trans (h habsent)
  case h_12 =>
    split
    · exact h
    · exact fun _ => hpre.2.1
  all_goals exact h

/-- What is known not to be there is not there until a partial file is renamed. -/
theorem absent_next (hpre : a.pre sha256 o) (h : a.known = .absent) (hreading : a.reading = none)
    (hplaces : places o r = false) : (a.next o r).known = .absent := by
  revert hplaces
  unfold Acquiring.next
  split
  case h_6 | h_7 | h_8 | h_9 => exact fun _ => by cases hpre.2.2.1.symm.trans h
  case h_10 | h_11 =>
    obtain ⟨-, -, bytes, hsome⟩ := hpre
    cases hsome.symm.trans hreading
  case h_12 =>
    split
    · exact fun _ => h
    · exact fun _ => rfl
  case h_19 => exact fun hplaces => by cases hplaces
  all_goals exact fun _ => h

theorem of_takes (hpre : a.pre sha256 o) (htakes : takes o r = true) :
    (∃ lock, a.lock = .opened lock) ∧ (a.next o r).Holds ∧ o.isRequest = false := by
  unfold takes at htakes
  split at htakes
  · exact ⟨⟨_, hpre.1⟩, ⟨_, rfl⟩, rfl⟩
  · exact ⟨⟨_, hpre.1⟩, ⟨_, rfl⟩, rfl⟩
  · cases htakes

theorem of_places (hpre : a.pre sha256 o) (hplaces : places o r = true) :
    a.Holds ∧ (a.next o r).Holds ∧ (a.next o r).known = .contents a.received ∧
      verifies sha256 a.request a.received = true ∧ o.isRequest = false := by
  unfold places at hplaces
  split at hplaces
  · obtain ⟨-, hholds, -, w, -, -, -, hright⟩ := hpre
    exact ⟨hholds, hholds, rfl, hright, rfl⟩
  · cases hplaces

end Acquiring

end

/-- The right file is at the final path. -/
def Placed (sha256 : List UInt8 → List UInt8) (q : PrepareRequest) (s : Files) : Prop :=
  ∃ bytes, s.content q.fileName = some bytes ∧ verifies sha256 q bytes = true

section

variable {sha256 : List UInt8 → List UInt8} {s : Files} {pid : ℕ} {a : Acquiring}

/-- Whoever can look finds the right file. -/
theorem Acquiring.Informed.finds (h : a.Informed s pid) (hholds : a.Holds) (hsee : a.CanSee)
    (hplaced : Placed sha256 a.request s) :
    a.known = .nothing ∨ ∃ bytes, a.known = .contents bytes ∧
      verifies sha256 a.request bytes = true := by
  obtain ⟨bytes, hcontent, hright⟩ := hplaced
  cases hknown : a.known with
  | nothing => exact .inl rfl
  | absent =>
    rw [Files.content, h.absent hholds hknown] at hcontent
    cases hcontent
  | unseen => exact absurd hknown hsee.1
  | unreadable => exact absurd hknown hsee.2
  | contents found =>
    have hfound := h.contents hholds found hknown
    cases hfound.symm.trans hcontent
    exact .inr ⟨bytes, rfl, hright⟩

/-- Where the right file is, nobody who can look goes to the network. -/
theorem Acquiring.not_isRequest (h : a.Informed s pid) (hsee : a.CanSee)
    (hplaced : Placed sha256 a.request s) {o : PrepareOp} (hpre : a.pre sha256 o) :
    o.isRequest = false := by
  rw [← Bool.not_eq_true]
  intro hrequest
  obtain ⟨hholds, hknown, -⟩ := holds_of_isRequest hpre hrequest
  rcases h.finds hholds hsee hplaced with hnothing | ⟨bytes, hcontents, -⟩
  · rw [hnothing] at hknown
    rcases hknown with hknown | hknown
    all_goals cases hknown
  · rw [hcontents] at hknown
    rcases hknown with hknown | hknown
    all_goals cases hknown

end

/-! ## From the first success on -/

section

variable {sha256 : List UInt8 → List UInt8} {cacheDir : String} {q : PrepareRequest}
  {cache : Files} {log : CacheLog sha256 cacheDir (only q) cache} {s s' : Files} {pid : ℕ}
  {gs : ℕ → Machine.Stage Standing} {g : Standing} {o : PrepareOp} {r : o.Ret}

/-- The right file has been found, or put there. -/
inductive Found (log : CacheLog sha256 cacheDir (only q) cache)
    (gs : ℕ → Machine.Stage Standing) : Prop
  /-- A partial file with it has been renamed. -/
  | placed {pid : ℕ} (hplacer : pid ∈ placers log)
  /-- An acquisition at work has read it. -/
  | known {pid : ℕ} {a : Acquiring} {bytes : List UInt8} (hlive : gs pid = .live (.acquiring a))
    (hknown : a.known = .contents bytes) (hright : verifies sha256 q bytes = true)
  /-- An acquisition has returned with it. -/
  | returned (hreturned : ReturnedOk log)

/-- A process that took the lock when an acquisition had returned is offline, and will say that the
model was there. -/
structure Late (log : CacheLog sha256 cacheDir (only q) cache)
    (gs : ℕ → Machine.Stage Standing) (pid : ℕ) : Prop where
  /-- It has not begun to download. -/
  offline : pid ∉ starts log
  /-- If it has returned, the model was there. -/
  returned : ∀ result, .finished pid (.acquired result) ∈ log →
    result = .ok ⟨finalPath cacheDir q, true⟩
  /-- It holds the lock, or gave it up having found nothing wrong. -/
  stands : ∀ a, gs pid = .live (.acquiring a) → a.Holds ∨ (∃ lock, a.lock = .released lock) ∧
    (a.known = .nothing ∨ ∃ bytes, a.known = .contents bytes ∧ verifies sha256 q bytes = true)

/-- What holds of one request's downloads if every look at a file succeeds. -/
structure Settled (log : CacheLog sha256 cacheDir (only q) cache)
    (gs : ℕ → Machine.Stage Standing) (s : Files) : Prop where
  /-- No acquisition has failed to see what was there. -/
  seeing : ∀ pid a, gs pid = .live (.acquiring a) → a.CanSee
  /-- One that found no file is not reading one. -/
  absent : ∀ pid a, gs pid = .live (.acquiring a) → a.known = .absent → a.reading = none
  /-- One that downloads had found no file. -/
  fetching : ∀ pid a, gs pid = .live (.acquiring a) → a.requested = true → pid ∉ placers log →
    a.known = .absent
  /-- The right file is there once it has been found or placed. -/
  placed : Found log gs → Placed sha256 q s
  /-- Once there is a placer, nobody else can be downloading under the lock. -/
  placer : (∃ p, p ∈ placers log) → ∀ pid a, gs pid = .live (.acquiring a) → a.Holds →
    a.requested = true → pid ∈ placers log
  /-- Two downloads never place the file both. -/
  unique : ∀ p p', p ∈ starts log → p' ∈ starts log → p ∈ placers log → p' ∈ placers log → p = p'
  /-- A download that placed nothing and came to its end has failed. -/
  failures : ∀ pid, pid ∈ starts log → pid ∉ placers log → ∀ result,
    .finished pid (.acquired result) ∈ log → ∃ err, result = .error err
  /-- Whoever took the lock late is late in every respect. -/
  late : ∀ pid, TookLate pid log → Late log gs pid

/-! ### A call -/

section

variable (hinv : (trackedOutline sha256 cacheDir (only q) cache).inv log gs s)
include hinv

theorem request_eq {a : Acquiring} (hlive : gs pid = .live (.acquiring a)) : a.request = q :=
  of_decide_eq_true (hinv.1.1.1.1 pid _ hlive).1

/-- Two acquisitions do not hold the lock at once. -/
theorem holder_unique {pid' : ℕ} {a a' : Acquiring} (hlive : gs pid = .live (.acquiring a))
    (hlive' : gs pid' = .live (.acquiring a')) (hholds : a.Holds) (hholds' : a'.Holds) :
    pid = pid' := by
  obtain ⟨lock, hlocked⟩ := (hinv.1.1.1.1 pid _ hlive).2.lockedUnder hholds
  obtain ⟨lock', hlocked'⟩ := (hinv.1.1.1.1 pid' _ hlive').2.lockedUnder hholds'
  rw [request_eq hinv hlive] at hlocked
  rw [request_eq hinv hlive'] at hlocked'
  exact hlocked.exclusive hlocked'

/-- The right file stays. -/
theorem placed_kept (hplain : PlainNames (only q)) (hlive : gs pid = .live g)
    (hpre : (prepareProtocol sha256).pre g o)
    (hexec : (cacheMachine sha256 cacheDir (only q) cache).exec pid s o r = some s')
    (hplaced : Placed sha256 q s) : Placed sha256 q s' :=
  (finalStep_of_inv (only_unique q) hplain hinv.1 hlive hpre hexec
    (decide_eq_true rfl)).1.kept.right hplaced

/-- Once the right file is there, nobody goes to the network. -/
theorem offline_of_placed (h : Settled log gs s) {a : Acquiring}
    (hlive : gs pid = .live (.acquiring a)) (hpre : a.pre sha256 o)
    (hplaced : Placed sha256 q s) : o.isRequest = false := by
  rw [← request_eq hinv hlive] at hplaced
  exact Acquiring.not_isRequest (hinv.1.2 pid _ hlive) (h.seeing pid a hlive) hplaced hpre

/-- What a process knows to be right after its call is there. -/
theorem placed_of_known (hplain : PlainNames (only q)) (h : Settled log gs s) {a : Acquiring}
    (hlive : gs pid = .live (.acquiring a)) (hpre : a.pre sha256 o)
    (hexec : (cacheMachine sha256 cacheDir (only q) cache).exec pid s o r = some s')
    {bytes : List UInt8} (hknown : (a.next o r).known = .contents bytes)
    (hright : verifies sha256 q bytes = true) : Placed sha256 q s' := by
  have hbefore : a.known = .contents bytes → Placed sha256 q s' := fun hsame =>
    placed_kept hinv hplain hlive hpre hexec (h.placed (.known hlive hsame hright))
  cases Acquiring.turn_of_pre r hpre with
  | gaveUp _ _ _ hnext =>
    rw [hnext] at hknown
    exact hbefore hknown
  | under hholds _ hlock =>
    obtain ⟨hmix, hsound⟩ := hinv.1.1.1.1 pid _ hlive
    have hinformed := Acquiring.Informed.calls hplain (hinv.1.2 pid _ hlive) hmix hsound hpre hexec
    have hholds' : (a.next o r).Holds := by
      rw [Acquiring.Holds, hlock]
      exact hholds
    have hcontent := hinformed.contents hholds' bytes hknown
    rw [a.next_request, request_eq hinv hlive] at hcontent
    exact ⟨bytes, hcontent, hright⟩
  | took _ _ _ hnothing hnext =>
    rw [hnext] at hknown
    cases hnothing.symm.trans hknown
  | without _ _ hsame => exact hbefore (hsame.symm.trans hknown)

theorem placed_called (hplain : PlainNames (only q)) (h : Settled log gs s)
    (hlive : gs pid = .live g) (hpre : (prepareProtocol sha256).pre g o)
    (hexec : (cacheMachine sha256 cacheDir (only q) cache).exec pid s o r = some s')
    (hfound : Found (.called pid s o r :: log)
      (Function.update gs pid (.live ((prepareProtocol sha256).next g o r)))) :
    Placed sha256 q s' := by
  have hkept : Found log gs → Placed sha256 q s' := fun hbefore =>
    placed_kept hinv hplain hlive hpre hexec (h.placed hbefore)
  cases hfound with
  | placed hplacer =>
    rcases mem_placers_called.mp hplacer with ⟨rfl, hplaces⟩ | hplacer
    · rcases g with a | c
      · obtain ⟨-, -, hknown, hright, -⟩ := Acquiring.of_places hpre hplaces
        rw [request_eq hinv hlive] at hright
        exact placed_of_known hinv hplain h hlive hpre hexec hknown hright
      · cases hplaces.symm.trans (Cleaning.not_places hpre)
    · exact hkept (.placed hplacer)
  | @known other a bytes hother hknown hright =>
    by_cases hself : other = pid
    · subst hself
      rw [Function.update_self] at hother
      rcases g with a₀ | c
      · cases hother
        exact placed_of_known hinv hplain h hlive hpre hexec hknown hright
      · cases hother
    · rw [Function.update_of_ne hself] at hother
      exact hkept (.known hother hknown hright)
  | returned hreturned =>
    obtain ⟨other, prepared, hmem⟩ := hreturned
    rcases List.mem_cons.mp hmem with heq | hmem
    · cases heq
    · exact hkept (.returned ⟨other, prepared, hmem⟩)

theorem placer_called (h : Settled log gs s) (hlive : gs pid = .live g)
    (hpre : (prepareProtocol sha256).pre g o)
    (hplaced : ∃ p, p ∈ placers (.called pid s o r :: log)) (other : ℕ) (a : Acquiring)
    (hother : Function.update gs pid (.live ((prepareProtocol sha256).next g o r)) other =
      .live (.acquiring a)) (hholds : a.Holds) (hrequested : a.requested = true) :
    other ∈ placers (.called pid s o r :: log) := by
  obtain ⟨p, hp⟩ := hplaced
  rw [mem_placers_called] at hp ⊢
  by_cases hself : other = pid
  · subst hself
    rw [Function.update_self] at hother
    by_cases hplaces : places o r = true
    · exact .inl ⟨rfl, hplaces⟩
    · have hbefore : p ∈ placers log := hp.resolve_left fun hnew => hplaces hnew.2
      rcases g with a₀ | c
      · cases hother
        have hoffline := offline_of_placed hinv h hlive hpre (h.placed (.placed hbefore))
        rw [a₀.next_requested, hoffline, Bool.or_false] at hrequested
        have hholds₀ : a₀.Holds := by
          cases Acquiring.turn_of_pre r hpre with
          | gaveUp lock _ _ hnext =>
            obtain ⟨lock', hheld⟩ := hholds
            rw [hnext] at hheld
            cases hheld
          | under hholds₀ => exact hholds₀
          | took lock _ hopened =>
            rcases hinv.2.locked other a₀ hlive hrequested with hholds₀ | ⟨lock', hreleased⟩
            · exact hholds₀
            · cases hopened.symm.trans hreleased
          | without _ hnot => exact absurd hholds hnot
        exact .inr (h.placer ⟨p, hbefore⟩ other a₀ hlive hholds₀ hrequested)
      · cases hother
  · rw [Function.update_of_ne hself] at hother
    rcases hp with ⟨rfl, hplaces⟩ | hp
    · rcases g with a₀ | c
      · obtain ⟨hholds₀, -⟩ := Acquiring.of_places hpre hplaces
        exact absurd (holder_unique hinv hother hlive hholds hholds₀) hself
      · cases hplaces.symm.trans (Cleaning.not_places hpre)
    · exact .inr (h.placer ⟨p, hp⟩ other a hother hholds hrequested)

/-- A process that renames a partial file after another one, having opened a request, has done so
before. -/
theorem placer_of_places (h : Settled log gs s) (hlive : gs pid = .live g)
    (hpre : (prepareProtocol sha256).pre g o) (hplaces : places o r = true)
    (hstarts : pid ∈ starts log) (hplaced : ∃ p, p ∈ placers log) : pid ∈ placers log := by
  rcases g with a | c
  · obtain ⟨hholds, -⟩ := Acquiring.of_places hpre hplaces
    exact h.placer hplaced pid a hlive hholds ((hinv.2.requested pid a hlive).mp hstarts)
  · exact absurd hstarts (hinv.2.cleaner pid c hlive)

theorem unique_called (h : Settled log gs s) (hlive : gs pid = .live g)
    (hpre : (prepareProtocol sha256).pre g o) (p p' : ℕ)
    (hp : p ∈ starts (.called pid s o r :: log)) (hp' : p' ∈ starts (.called pid s o r :: log))
    (hplaced : p ∈ placers (.called pid s o r :: log))
    (hplaced' : p' ∈ placers (.called pid s o r :: log)) : p = p' := by
  -- A request and a renaming are different calls, and a request comes before.
  have hbefore : ∀ x, x ∈ starts (.called pid s o r :: log) →
      x ∈ placers (.called pid s o r :: log) → x ∈ starts log := by
    intro x hstarts hplacers
    rcases mem_starts_called.mp hstarts with ⟨rfl, hrequest⟩ | hstarts
    · rcases g with a | c
      · rcases mem_placers_called.mp hplacers with ⟨-, hplaces⟩ | hplacers
        · obtain ⟨-, -, -, -, hnot⟩ := Acquiring.of_places hpre hplaces
          cases hrequest.symm.trans hnot
        · have hnot := offline_of_placed hinv h hlive hpre (h.placed (.placed hplacers))
          cases hrequest.symm.trans hnot
      · cases hrequest.symm.trans (Cleaning.not_isRequest hpre)
    · exact hstarts
  have hstarts := hbefore p hp hplaced
  have hstarts' := hbefore p' hp' hplaced'
  rcases mem_placers_called.mp hplaced with ⟨rfl, hplaces⟩ | hold
  · rcases mem_placers_called.mp hplaced' with ⟨rfl, -⟩ | hold'
    · rfl
    · exact h.unique _ _ hstarts hstarts'
        (placer_of_places hinv h hlive hpre hplaces hstarts ⟨p', hold'⟩) hold'
  · rcases mem_placers_called.mp hplaced' with ⟨rfl, hplaces⟩ | hold'
    · exact h.unique _ _ hstarts hstarts' hold
        (placer_of_places hinv h hlive hpre hplaces hstarts' ⟨p, hold⟩)
    · exact h.unique _ _ hstarts hstarts' hold hold'

/-- A process that is at work has not returned. -/
theorem not_finished_of_live (hlive : gs pid = .live g) (result : PrepareResult) :
    .finished pid result ∉ log := by
  intro hmem
  obtain ⟨g', hgone⟩ := hinv.2.left pid result hmem
  cases hlive.symm.trans hgone

theorem late_called (h : Settled log gs s) (hlive : gs pid = .live g)
    (hpre : (prepareProtocol sha256).pre g o) (other : ℕ)
    (htook : TookLate other (.called pid s o r :: log)) :
    Late (.called pid s o r :: log)
      (Function.update gs pid (.live ((prepareProtocol sha256).next g o r))) other := by
  have hfinished : ∀ {p : ℕ} {result : PrepareResult},
      .finished p result ∈ .called pid s o r :: log → .finished p result ∈ log := fun hmem =>
    (List.mem_cons.mp hmem).resolve_left fun heq => by cases heq
  by_cases hself : other = pid
  · subst hself
    have hnot : ∀ result, .finished other (.acquired result) ∈ .called other s o r :: log →
        result = .ok ⟨finalPath cacheDir q, true⟩ := fun result hmem =>
      absurd (hfinished hmem) (not_finished_of_live hinv hlive _)
    have hoffline : o.isRequest = false → other ∉ starts log →
        other ∉ starts (.called other s o r :: log) := by
      intro hrequest habsent hmem
      rcases mem_starts_called.mp hmem with ⟨-, hopened⟩ | hmem
      · cases hopened.symm.trans hrequest
      · exact habsent hmem
    rcases g with a | c
    · rcases htook with ⟨-, htakes, -⟩ | htook
      · obtain ⟨⟨lock, hopened⟩, hholds, hrequest⟩ := Acquiring.of_takes hpre htakes
        refine ⟨hoffline hrequest fun hmem => ?_, hnot, fun a' hlive' => ?_⟩
        · obtain ⟨lock', hlock⟩ | ⟨lock', hlock⟩ := hinv.2.locked other a hlive
            ((hinv.2.requested other a hlive).mp hmem)
          · cases hopened.symm.trans hlock
          · cases hopened.symm.trans hlock
        · rw [Function.update_self] at hlive'
          cases hlive'
          exact .inl hholds
      · have hlate := h.late other htook
        have hplaced := h.placed (.returned htook.returned)
        refine ⟨hoffline (offline_of_placed hinv h hlive hpre hplaced) hlate.offline, hnot,
          fun a' hlive' => ?_⟩
        rw [Function.update_self] at hlive'
        cases hlive'
        cases Acquiring.turn_of_pre r hpre with
        | gaveUp lock _ hheld hnext =>
          rw [← request_eq hinv hlive] at hplaced ⊢
          refine .inr ⟨⟨lock, congrArg Acquiring.lock hnext⟩, ?_⟩
          rw [hnext]
          exact (hinv.1.2 other _ hlive).finds ⟨lock, hheld⟩ (h.seeing other a hlive) hplaced
        | under hholds _ hlock =>
          obtain ⟨lock, hheld⟩ := hholds
          exact .inl ⟨lock, hlock.trans hheld⟩
        | took lock _ hopened =>
          rcases hlate.stands a hlive with ⟨lock', hlock⟩ | ⟨⟨lock', hlock⟩, -⟩
          · cases hopened.symm.trans hlock
          · cases hopened.symm.trans hlock
        | without hnot _ hknown hreleased =>
          obtain ⟨⟨lock, hlock⟩, hfound⟩ := (hlate.stands a hlive).resolve_left hnot
          exact .inr ⟨⟨lock, (hreleased lock).mpr hlock⟩, hknown ▸ hfound⟩
    · refine ⟨hoffline (Cleaning.not_isRequest hpre) (hinv.2.cleaner other c hlive), hnot,
        fun a' hlive' => ?_⟩
      rw [Function.update_self] at hlive'
      cases hlive'
  · have hbefore : TookLate other log := htook.resolve_left fun hnew => hself hnew.1.symm
    have hlate := h.late other hbefore
    refine ⟨fun hmem => ?_, fun result hmem => hlate.returned result (hfinished hmem),
      fun a hlive' => ?_⟩
    · rcases mem_starts_called.mp hmem with ⟨heq, -⟩ | hmem
      · exact hself heq
      · exact hlate.offline hmem
    · rw [Function.update_of_ne hself] at hlive'
      exact hlate.stands a hlive'

omit hinv in
theorem fetching_called (h : Settled log gs s) {a : Acquiring}
    (hlive : gs pid = .live (.acquiring a)) (hpre : a.pre sha256 o)
    (hrequested : (a.next o r).requested = true)
    (hplacer : pid ∉ placers (.called pid s o r :: log)) : (a.next o r).known = .absent := by
  rw [mem_placers_called, not_or, not_and, Bool.not_eq_true] at hplacer
  rw [a.next_requested, Bool.or_eq_true] at hrequested
  have habsent : a.known = .absent := by
    rcases hrequested with hrequested | hrequest
    · exact h.fetching pid a hlive hrequested hplacer.2
    · obtain ⟨-, hknown, -⟩ := Acquiring.holds_of_isRequest hpre hrequest
      exact hknown.resolve_right (h.seeing pid a hlive).1
  exact Acquiring.absent_next hpre habsent (h.absent pid a hlive habsent) (hplacer.1 rfl)

/-- **A call keeps what is settled.** -/
theorem Settled.called (hplain : PlainNames (only q)) (h : Settled log gs s)
    (hlive : gs pid = .live g) (hpre : (prepareProtocol sha256).pre g o)
    (hexec : (cacheMachine sha256 cacheDir (only q) cache).exec pid s o r = some s')
    (hcan : canRead o r = true) :
    Settled (.called pid s o r :: log)
      (Function.update gs pid (.live ((prepareProtocol sha256).next g o r))) s' := by
  -- An acquisition afterwards is one before, or that of the call.
  have hstages : ∀ {P : ℕ → Acquiring → Prop},
      (∀ other a, other ≠ pid → gs other = .live (.acquiring a) → P other a) →
      (∀ a, g = .acquiring a → P pid (a.next o r)) → ∀ other a,
        Function.update gs pid (.live ((prepareProtocol sha256).next g o r)) other =
          .live (.acquiring a) → P other a := by
    intro P hothers hself other a hother
    by_cases heq : other = pid
    · subst heq
      rw [Function.update_self] at hother
      rcases g with a₀ | c
      · cases hother
        exact hself a₀ rfl
      · cases hother
    · rw [Function.update_of_ne heq] at hother
      exact hothers other a heq hother
  refine ⟨?_, ?_, ?_, placed_called hinv hplain h hlive hpre hexec,
    placer_called hinv h hlive hpre, unique_called hinv h hlive hpre, ?_,
    late_called hinv h hlive hpre⟩
  · refine hstages (fun other a _ => h.seeing other a) ?_
    rintro a rfl
    exact (h.seeing pid a hlive).next hcan
  · refine hstages (fun other a _ => h.absent other a) ?_
    rintro a rfl
    exact Acquiring.reading_next hpre (h.absent pid a hlive)
  · refine hstages (fun other a hne hother hrequested hplacer => ?_) ?_
    · refine h.fetching other a hother hrequested fun hmem => hplacer ?_
      exact mem_placers_called.mpr (.inr hmem)
    · rintro a rfl hrequested hplacer
      exact fetching_called h hlive hpre hrequested hplacer
  · intro other hstarts hplacers result hmem
    rw [mem_placers_called, not_or] at hplacers
    rcases List.mem_cons.mp hmem with heq | hbefore
    · cases heq
    · rcases mem_starts_called.mp hstarts with ⟨rfl, -⟩ | hstarts
      · exact absurd hbefore (not_finished_of_live hinv hlive _)
      · exact h.failures other hstarts hplacers.2 result hbefore

/-- A process that takes up a job changes nothing of that. -/
theorem Settled.started (h : Settled log gs s) (hunborn : gs pid = .unborn) (job : PrepareJob) :
    Settled (.started pid job :: log) (Function.update gs pid (.live (Standing.enter job))) s := by
  have hnone : ∀ {a : Acquiring}, Standing.enter job = .acquiring a →
      a.known = .nothing ∧ a.requested = false := by
    rintro a henter
    rcases job with request | ⟨⟩
    · cases henter
      exact ⟨rfl, rfl⟩
    · cases henter
  have hstages : ∀ {other a}, Function.update gs pid (.live (Standing.enter job)) other =
      .live (.acquiring a) →
      gs other = .live (.acquiring a) ∨ a.known = .nothing ∧ a.requested = false := by
    intro other a hother
    by_cases heq : other = pid
    · subst heq
      rw [Function.update_self] at hother
      exact .inr (hnone (Machine.Stage.live.inj hother))
    · rw [Function.update_of_ne heq] at hother
      exact .inl hother
  have hmem : ∀ {p result}, .finished p result ∈ .started pid job :: log →
      .finished p result ∈ log := fun hmem =>
    (List.mem_cons.mp hmem).resolve_left fun heq => by cases heq
  refine ⟨fun other a hother => ?_, fun other a hother hknown => ?_,
    fun other a hother hrequested hplacer => ?_, fun hfound => ?_,
    fun hplaced other a hother hholds hrequested => ?_, h.unique,
    fun other hstarts hplacer result hfinished => h.failures other hstarts hplacer result
      (hmem hfinished), fun other htook => ?_⟩
  · rcases hstages hother with hother | ⟨hnothing, -⟩
    · exact h.seeing other a hother
    · rw [Acquiring.CanSee, hnothing]
      exact ⟨nofun, nofun⟩
  · rcases hstages hother with hother | ⟨hnothing, -⟩
    · exact h.absent other a hother hknown
    · cases hnothing.symm.trans hknown
  · rcases hstages hother with hother | ⟨-, hnot⟩
    · exact h.fetching other a hother hrequested hplacer
    · cases hnot.symm.trans hrequested
  · cases hfound with
    | placed hplacer => exact h.placed (.placed hplacer)
    | known hother hknown hright =>
      rcases hstages hother with hother | ⟨hnothing, -⟩
      · exact h.placed (.known hother hknown hright)
      · cases hnothing.symm.trans hknown
    | returned hreturned =>
      obtain ⟨other, prepared, hfinished⟩ := hreturned
      exact h.placed (.returned ⟨other, prepared, hmem hfinished⟩)
  · rcases hstages hother with hother | ⟨-, hnot⟩
    · exact h.placer hplaced other a hother hholds hrequested
    · cases hnot.symm.trans hrequested
  · have hbefore : TookLate other log := htook
    have hlate := h.late other hbefore
    refine ⟨hlate.offline, fun result hfinished => hlate.returned result (hmem hfinished),
      fun a hother => ?_⟩
    by_cases heq : other = pid
    · subst heq
      rw [Function.update_self] at hother
      obtain ⟨e, he, hactor⟩ := actor_of_tookLate hbefore
      exact absurd hactor (hinv.1.1.1.2.unborn other hunborn e he)
    · rw [Function.update_of_ne heq] at hother
      exact hlate.stands a hother

omit hinv in
/-- What an acquisition may return. -/
theorem returns_of_done {result : Except PrepareError Prepared}
    (hdone : prepareDone sha256 cacheDir (.acquired result) g) :
    ∃ a, g = .acquiring a ∧ a.done sha256 cacheDir result := by
  rcases g with a | c
  · exact ⟨a, rfl, hdone⟩
  · exact hdone.elim

theorem late_done (h : Late log gs pid) {a : Acquiring} (hlive : gs pid = .live (.acquiring a))
    {result : Except PrepareError Prepared} (hdone : a.done sha256 cacheDir result) :
    result = .ok ⟨finalPath cacheDir q, true⟩ := by
  have hrequested : ¬ a.requested = true := fun hrequested =>
    h.offline ((hinv.2.requested pid a hlive).mpr hrequested)
  rcases result with err | prepared
  · -- It has the lock, or has seen that the file is right, so it has not failed.
    rcases hdone with hunopened | ⟨⟨lock, hreleased⟩, hnothing, hwrong⟩
    · rcases h.stands a hlive with ⟨lock, hheld⟩ | ⟨⟨lock, hreleased⟩, -⟩
      · cases hunopened.symm.trans hheld
      · cases hunopened.symm.trans hreleased
    · rcases h.stands a hlive with ⟨lock', hheld⟩ | ⟨-, hknown | ⟨bytes, hknown, hright⟩⟩
      · cases hreleased.symm.trans hheld
      · exact absurd hknown hnothing
      · rw [request_eq hinv hlive] at hwrong
        cases hright.symm.trans (hwrong bytes hknown)
  · obtain ⟨hpath, -, -, hcached⟩ := hdone
    rw [request_eq hinv hlive] at hpath
    have hfound := hcached.resolve_right hrequested
    obtain ⟨path, alreadyCached⟩ := prepared
    cases hpath
    cases hfound
    rfl

/-- A process that goes away changes nothing of that. -/
theorem Settled.left (h : Settled log gs s) (hlive : gs pid = .live g)
    {e : (cacheMachine sha256 cacheDir (only q) cache).Event}
    (he : (∃ result, e = .finished pid result ∧ prepareDone sha256 cacheDir result g) ∨
      e = .killed pid) :
    Settled (e :: log) (Function.update gs pid (.gone g)) (s.exit pid) := by
  have hsame : starts (e :: log) = starts log ∧ placers (e :: log) = placers log ∧
      ∀ other, TookLate other (e :: log) = TookLate other log := by
    rcases he with ⟨result, rfl, -⟩ | rfl
    all_goals exact ⟨rfl, rfl, fun _ => rfl⟩
  obtain ⟨hstarts, hplacers, htooks⟩ := hsame
  have hstages : ∀ {other a}, Function.update gs pid (.gone g) other = .live (.acquiring a) →
      gs other = .live (.acquiring a) := by
    intro other a hother
    by_cases heq : other = pid
    · subst heq
      rw [Function.update_self] at hother
      cases hother
    · rwa [Function.update_of_ne heq] at hother
  have hreturns : ∀ {other result}, .finished other (.acquired result) ∈ e :: log →
      .finished other (.acquired result) ∈ log ∨ other = pid ∧
        ∃ a, gs pid = .live (.acquiring a) ∧ a.done sha256 cacheDir result := by
    intro other result hmem
    rcases List.mem_cons.mp hmem with heq | hmem
    · rcases he with ⟨result', rfl, hdone⟩ | rfl
      · cases heq
        obtain ⟨a, rfl, hdone⟩ := returns_of_done hdone
        exact .inr ⟨rfl, a, hlive, hdone⟩
      · cases heq
    · exact .inl hmem
  refine ⟨fun other a hother => h.seeing other a (hstages hother),
    fun other a hother => h.absent other a (hstages hother), fun other a hother => ?_,
    fun hfound => ?_, fun hplaced other a hother => ?_, ?_, fun other hstart hplacer result
      hmem => ?_, fun other htook => ?_⟩
  · rw [hplacers]
    exact h.fetching other a (hstages hother)
  · cases hfound with
    | placed hplacer => exact h.placed (.placed (hplacers ▸ hplacer))
    | known hother hknown hright => exact h.placed (.known (hstages hother) hknown hright)
    | returned hreturned =>
      obtain ⟨other, prepared, hmem⟩ := hreturned
      rcases hreturns hmem with hmem | ⟨-, a, hacquiring, -, -, ⟨bytes, hknown, hright⟩, -⟩
      · exact h.placed (.returned ⟨other, prepared, hmem⟩)
      · rw [request_eq hinv hacquiring] at hright
        exact h.placed (.known hacquiring hknown hright)
  · rw [hplacers] at hplaced ⊢
    exact h.placer hplaced other a (hstages hother)
  · rw [hstarts, hplacers]
    exact h.unique
  · rw [hstarts] at hstart
    rw [hplacers] at hplacer
    rcases hreturns hmem with hmem | ⟨rfl, a, hacquiring, hdone⟩
    · exact h.failures other hstart hplacer result hmem
    · rcases result with err | prepared
      · exact ⟨err, rfl⟩
      · obtain ⟨-, -, ⟨bytes, hknown, -⟩, -⟩ := hdone
        have habsent := h.fetching other a hacquiring
          ((hinv.2.requested other a hacquiring).mp hstart) hplacer
        cases habsent.symm.trans hknown
  · rw [htooks] at htook
    have hlate := h.late other htook
    refine ⟨hstarts ▸ hlate.offline, fun result hmem => ?_,
      fun a hother => hlate.stands a (hstages hother)⟩
    rcases hreturns hmem with hmem | ⟨rfl, a, hacquiring, hdone⟩
    · exact hlate.returned result hmem
    · exact late_done hinv hlate hacquiring hdone

end

/-- **What is settled stays settled**, in every interleaving, while the file can be looked at. -/
theorem settled_keeps (hplain : PlainNames (only q)) :
    (trackedOutline sha256 cacheDir (only q) cache).Keeps fun log gs s =>
      EveryCall CanRead log → Settled log gs s where
  init := by
    intro _
    refine ⟨fun _ _ h => (nomatch h), fun _ _ h => (nomatch h), fun _ _ h => (nomatch h),
      fun hfound => ?_, fun _ _ _ h => (nomatch h), fun _ _ h => (nomatch h),
      fun _ h => (nomatch h), fun _ h => nomatch h⟩
    cases hfound with
    | placed hplacer => cases hplacer
    | known hlive => cases hlive
    | returned hreturned =>
      obtain ⟨_, _, hmem⟩ := hreturned
      cases hmem
  start := by
    intro log gs s pid job s' hinv h hunborn hstart hreads
    obtain ⟨rfl, -⟩ := start_eq_some hstart
    exact (h hreads).started hinv hunborn job
  call := by
    intro log gs s pid g o r s' hinv h hlive hpre hexec hreads
    exact (h hreads.2).called hinv hplain hlive hpre hexec hreads.1
  finish := by
    intro log gs s pid g result hinv h hlive hdone hreads
    exact (h hreads).left hinv hlive (.inl ⟨result, rfl, hdone⟩)
  kill := by
    intro log gs s pid g s' hinv h hlive hkill hreads
    cases hkill
    exact (h hreads).left hinv hlive (.inr rfl)

/-! ## Downloads are made once -/

/-- What is promised of the downloads of one request. -/
structure DownloadsOnce (log : CacheLog sha256 cacheDir (only q) cache) : Prop where
  /-- Two are not under way at the same time. -/
  apart : ∀ pid pid', downloading pid log = true → downloading pid' log = true → pid = pid'
  /-- Whoever takes the lock once an acquisition has returned and has the model finds it there,
  and does not go to the network. -/
  cached : EveryCall CanRead log → ∀ pid, TookLate pid log → pid ∉ starts log ∧
    ∀ result, .finished pid (.acquired result) ∈ log → result = .ok ⟨finalPath cacheDir q, true⟩
  /-- Nobody goes to the network twice. -/
  once : (starts log).Nodup
  /-- All but one of those that went to the network have failed. -/
  count : EveryCall CanRead log →
    (starts log).length ≤ 1 + ((starts log).filter (failed log)).length
  /-- A download that has failed does not return the model. -/
  failures : EveryCall CanRead log → ∀ pid ∈ starts log, failed log pid = true → ∀ result,
    .finished pid (.acquired result) ∈ log → ∃ err, result = .error err

/-- A list without repetitions whose members are all the same has at most one. -/
theorem length_le_one_of_nodup {α : Type} {l : List α} (hnodup : l.Nodup)
    (hsame : ∀ a ∈ l, ∀ b ∈ l, a = b) : l.length ≤ 1 := by
  rcases l with _ | ⟨a, _ | ⟨b, rest⟩⟩
  · exact Nat.zero_le 1
  · exact Nat.le_refl 1
  · have hab := hsame a List.mem_cons_self b (List.mem_cons_of_mem _ List.mem_cons_self)
    subst hab
    exact absurd List.mem_cons_self (List.nodup_cons.mp hnodup).1

/-- **Downloads are made once**, in every interleaving of acquisitions of one model and
cleanups. -/
theorem acquire_downloadsOnce (hplain : PlainNames (only q))
    (c : (cacheMachine sha256 cacheDir (only q) cache).Config)
    (h : (cacheMachine sha256 cacheDir (only q) cache).Reachable c) : DownloadsOnce c.log := by
  have hvalid : (trackedOutline sha256 cacheDir (only q) cache).Valid :=
    (informedOutline_valid (only_unique q) hplain).also tracked_keeps
  obtain ⟨gs, ⟨hinv, hsettled⟩, -⟩ :=
    Machine.Outline.reachable (hvalid.also (settled_keeps hplain)) h
  have hapart : ∀ pid pid', downloading pid c.log = true → downloading pid' c.log = true →
      pid = pid' := by
    intro pid pid' hdown hdown'
    obtain ⟨a, hlive, hholds, -⟩ := hinv.2.holder pid hdown
    obtain ⟨a', hlive', hholds', -⟩ := hinv.2.holder pid' hdown'
    exact holder_unique hinv hlive hlive' hholds hholds'
  have hplacer : ∀ {pid}, (!failed c.log pid) = true →
      downloading pid c.log = true ∨ pid ∈ placers c.log := by
    intro pid hnot
    rw [Bool.not_eq_eq_eq_not, Bool.not_true, ← Bool.not_eq_true, failed_iff, not_and_or,
      Bool.not_eq_false, not_not] at hnot
    exact hnot
  refine ⟨hapart, fun hreads pid htook => ?_, hinv.2.once, fun hreads => ?_,
    fun hreads pid hstarts hfailed result => ?_⟩
  · have hlate := (hsettled hreads).late pid htook
    exact ⟨hlate.offline, hlate.returned⟩
  · -- Whoever is downloading still, or has renamed a partial file, is alone in that.
    have hs := hsettled hreads
    have hplaced : ∀ {pid pid'}, pid' ∈ placers c.log → downloading pid c.log = true →
        pid ∈ placers c.log := by
      intro pid pid' hmem hdown
      obtain ⟨a, hlive, hholds, hrequested⟩ := hinv.2.holder pid hdown
      exact hs.placer ⟨pid', hmem⟩ pid a hlive hholds hrequested
    have hone : ((starts c.log).filter (!failed c.log ·)).length ≤ 1 := by
      refine length_le_one_of_nodup (hinv.2.once.filter _) fun pid hpid pid' hpid' => ?_
      obtain ⟨hstarts, hnot⟩ := List.mem_filter.mp hpid
      obtain ⟨hstarts', hnot'⟩ := List.mem_filter.mp hpid'
      rcases hplacer hnot with hdown | hmem
      · rcases hplacer hnot' with hdown' | hmem'
        · exact hapart pid pid' hdown hdown'
        · exact hs.unique pid pid' hstarts hstarts' (hplaced hmem' hdown) hmem'
      · rcases hplacer hnot' with hdown' | hmem'
        · exact hs.unique pid pid' hstarts hstarts' hmem (hplaced hmem hdown')
        · exact hs.unique pid pid' hstarts hstarts' hmem hmem'
    have hsplit := @List.length_eq_length_filter_add _ (starts c.log) (failed c.log)
    omega
  · exact (hsettled hreads).failures pid hstarts (failed_iff.mp hfailed).2 result

end

/-! ## Two calls, one after the other, and two at once -/

set_option maxRecDepth 4000 in
/-- The first call downloads the model, and the second one finds it. -/
theorem acquire_downloadsOnce_cached :
    ∃ c : (machineNamed "m.gguf" .empty).Config, DownloadsOnce c.log ∧ starts c.log = [0] ∧
      .finished 1 (.acquired (.ok ⟨"c/m.gguf", true⟩)) ∈ c.log := by
  have first := Machine.Reachable.step Machine.Reachable.start
    (Machine.Step.start (M := machineNamed "m.gguf" .empty) 0 (.acquire (modelNamed "m.gguf"))
      rfl rfl)
  have first := first.step (.call 0 (Except.ok () : Except IoError Unit) rfl rfl)
  have first := first.step (.call 0 (Except.ok 0 : Except IoError Handle) rfl rfl)
  have first := first.step (.call 0 (Except.ok () : Except IoError Unit) rfl rfl)
  have missing := first.step (.call 0 (Except.ok false : Except IoError Bool) rfl rfl)
  have fits := missing.step (.call 0 (Except.ok 1 : Except IoError UInt64) rfl rfl)
  have asked := fits.step (.call 0 () rfl rfl)
  have offered := asked.step (.call 0 (Except.ok none : Except String (Option UInt64)) rfl rfl)
  have filling := offered.step
    (.call 0 (Except.ok ("abcdef", 1) : Except IoError (String × Handle)) rfl rfl)
  have begun := filling.step (.call 0 () rfl rfl)
  have copying := begun.step (.turn 0 rfl)
  have copied := copying.step (.call 0 (Except.ok [] : Except String (List UInt8)) rfl rfl)
  have flushed := copied.step (.call 0 (Except.ok () : Except IoError Unit) rfl rfl)
  have reported := flushed.step (.call 0 () rfl rfl)
  have renamed := reported.step (.call 0 (Except.ok () : Except IoError Unit) rfl rfl)
  have closed := renamed.step (.call 0 () rfl rfl)
  have done := closed.step (.call 0 () rfl rfl)
  have unlocked := done.step (.call 0 (Except.ok () : Except IoError Unit) rfl rfl)
  have left := unlocked.step (.call 0 () rfl rfl)
  have finished := left.step (.finish 0 rfl)
  have second := finished.step (.start 1 (.acquire (modelNamed "m.gguf")) rfl rfl)
  have second := second.step (.call 1 (Except.ok () : Except IoError Unit) rfl rfl)
  have second := second.step (.call 1 (Except.ok 2 : Except IoError Handle) rfl rfl)
  have second := second.step (.call 1 (Except.ok () : Except IoError Unit) rfl rfl)
  have there := second.step (.call 1 (Except.ok true : Except IoError Bool) rfl rfl)
  have reading := there.step (.call 1 (Except.ok 3 : Except IoError Handle) rfl rfl)
  have reading := reading.step (.turn 1 rfl)
  have read := reading.step (.call 1 (Except.ok [] : Except IoError (List UInt8)) rfl rfl)
  have closed := read.step (.call 1 () rfl rfl)
  have done := closed.step (.call 1 () rfl rfl)
  have unlocked := done.step (.call 1 (Except.ok () : Except IoError Unit) rfl rfl)
  have left := unlocked.step (.call 1 () rfl rfl)
  have finished := left.step (.finish 1 rfl)
  exact ⟨_, acquire_downloadsOnce modelNamed_plain _ finished, rfl, List.mem_cons_self⟩

/-- A model whose final name is that of its cache lock. -/
def lockNamed : PrepareRequest := ⟨"m", "m.lock", "u", "x", 1⟩

set_option maxRecDepth 4000 in
/-- Where the final name is the cache lock's, the first call removes the lock it holds, since it is
not the model, and two downloads are under way at once. -/
theorem not_downloadsOnce_lockNamed :
    ∃ c, (cacheMachine (fun _ => []) "c" (only lockNamed) .empty).Reachable c ∧
      ¬ DownloadsOnce c.log := by
  have first := Machine.Reachable.step Machine.Reachable.start
    (Machine.Step.start (M := cacheMachine (fun _ => []) "c" (only lockNamed) .empty) 0
      (.acquire lockNamed) rfl rfl)
  have first := first.step (.call 0 (Except.ok () : Except IoError Unit) rfl rfl)
  have first := first.step (.call 0 (Except.ok 0 : Except IoError Handle) rfl rfl)
  have first := first.step (.call 0 (Except.ok () : Except IoError Unit) rfl rfl)
  have there := first.step (.call 0 (Except.ok true : Except IoError Bool) rfl rfl)
  have reading := there.step (.call 0 (Except.ok 1 : Except IoError Handle) rfl rfl)
  have reading := reading.step (.turn 0 rfl)
  have read := reading.step (.call 0 (Except.ok [] : Except IoError (List UInt8)) rfl rfl)
  have closed := read.step (.call 0 () rfl rfl)
  have removed := closed.step (.call 0 (Except.ok () : Except IoError Unit) rfl rfl)
  have fits := removed.step (.call 0 (Except.ok 1 : Except IoError UInt64) rfl rfl)
  have asked := fits.step (.call 0 () rfl rfl)
  have second := asked.step (.start 1 (.acquire lockNamed) rfl rfl)
  have second := second.step (.call 1 (Except.ok () : Except IoError Unit) rfl rfl)
  have second := second.step (.call 1 (Except.ok 1 : Except IoError Handle) rfl rfl)
  have second := second.step (.call 1 (Except.ok () : Except IoError Unit) rfl rfl)
  have there := second.step (.call 1 (Except.ok true : Except IoError Bool) rfl rfl)
  have reading := there.step (.call 1 (Except.ok 2 : Except IoError Handle) rfl rfl)
  have reading := reading.step (.turn 1 rfl)
  have read := reading.step (.call 1 (Except.ok [] : Except IoError (List UInt8)) rfl rfl)
  have closed := read.step (.call 1 () rfl rfl)
  have removed := closed.step (.call 1 (Except.ok () : Except IoError Unit) rfl rfl)
  have fits := removed.step (.call 1 (Except.ok 1 : Except IoError UInt64) rfl rfl)
  have asked := fits.step (.call 1 () rfl rfl)
  exact ⟨_, asked, fun h => absurd (h.apart 0 1 rfl rfl) (by decide)⟩

end SemanticSidecar
