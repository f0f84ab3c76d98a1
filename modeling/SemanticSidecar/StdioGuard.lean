import SemanticSidecar.Lib.Descriptors

/-!
# The stdout guard

A stray byte on stdout desyncs the consumer, and C libraries write to descriptor 1 past every
language-level object.  So a guard saves descriptor 1 with `dup`, points it at descriptor 2 with
`dup2`, and restores it when it is dropped.  Either call may fail, and then the guard is inert.

`run` is a thread that creates guards and drops them, the youngest first.  `guards_balanced` says
that this is harmless however deep the guards are nested and whichever calls fail: descriptor 1 is
silenced while one guard is active, every guard leaves the descriptor table as it found it, and
the descriptors it saved are closed, once.

The flush of Rust's own buffer before each redirect does not touch the table and is left out.

An active guard needs descriptors 1 and 2 to be open when it is created, and calls that do not fail
on their own; then it is active, and descriptor 1 leads where descriptor 2 does.  A restore does not
fail: the descriptor it copies from is the guard's own.  Guards of one thread are dropped in the
reverse order of their creation, as values in nested scopes are, and a sequence that ends with all
of them dropped is `Nested`.

What the table is for, the bytes that are written through it, is in `Console`.
-/

set_option autoImplicit false

namespace SemanticSidecar

namespace StdioGuard

/-- `sys::STDOUT`. -/
def stdout : ℕ := 1

/-- `sys::STDERR`. -/
def stderr : ℕ := 2

/-- What the guards do that has to be undone. -/
inductive Event where
  /-- A descriptor was opened. -/
  | opened (fd : ℕ)
  /-- A descriptor was closed. -/
  | closed (fd : ℕ)

/-- The descriptors of the process, and a log of those that guards opened and closed. -/
structure Process (φ : Type) where
  /-- The descriptors. -/
  table : Descriptors φ
  /-- What was opened and closed, in order. -/
  log : List Event

/-- Which of the calls of a guard's creation fail on their own. -/
structure Faults where
  /-- The copy of descriptor 1 fails. -/
  dup : Bool
  /-- The redirect of descriptor 1 fails. -/
  dup2 : Bool

section

variable {φ : Type}

/-- `sys::dup`: nothing where the call fails. -/
def dup (fails : Bool) (fd : ℕ) (p : Process φ) : Option ℕ × Process φ :=
  match p.table.dup fd with
  | none => (none, p)
  | some (copy, table) =>
    if fails then (none, p) else (some copy, ⟨table, p.log ++ [.opened copy]⟩)

/-- `sys::dup2`: whether the call succeeds. -/
def dup2 (fails : Bool) (source target : ℕ) (p : Process φ) : Bool × Process φ :=
  match p.table.dup2 source target with
  | none => (false, p)
  | some table => if fails then (false, p) else (true, { p with table := table })

/-- `sys::close`. -/
def close (fd : ℕ) (p : Process φ) : Process φ := ⟨p.table.close fd, p.log ++ [.closed fd]⟩

end

/-! ## The guard -/

/-- An fd-1 redirect; an inert one has nothing saved. -/
structure SilencedStdout where
  /-- The copy of descriptor 1 from before the redirect. -/
  saved : Option ℕ

section

variable {φ : Type}

/-- `SilencedStdout::new`. -/
def SilencedStdout.new (faults : Faults) (p : Process φ) : SilencedStdout × Process φ :=
  match dup faults.dup stdout p with
  | (none, p) => (⟨none⟩, p)
  | (some saved, p) =>
    match dup2 faults.dup2 stderr stdout p with
    | (false, p) => (⟨none⟩, close saved p)
    | (true, p) => (⟨some saved⟩, p)

/-- `SilencedStdout::is_active`. -/
def SilencedStdout.isActive (guard : SilencedStdout) : Bool := guard.saved.isSome

/-- `SilencedStdout::drop`; the `dup2` of a restore succeeds. -/
def SilencedStdout.drop (guard : SilencedStdout) (p : Process φ) : Process φ :=
  match guard.saved with
  | none => p
  | some saved => close saved (dup2 false saved stdout p).2

/-- `guarded`. -/
def guarded {α : Type} (faults : Faults) (body : Process φ → α × Process φ) (p : Process φ) :
    α × Process φ :=
  let (guard, p) := SilencedStdout.new faults p
  let (result, p) := body p
  (result, guard.drop p)

/-! ## A thread with guards -/

/-- What the thread does. -/
inductive Action where
  /-- A guard is created. -/
  | create (faults : Faults)
  /-- The youngest guard is dropped. -/
  | drop

/-- The process, and the guards that are alive, the youngest first, each with the table it was
created on. -/
structure Thread (φ : Type) where
  /-- The descriptors and the log. -/
  process : Process φ
  /-- The guards that are alive. -/
  guards : List (SilencedStdout × Descriptors φ)

/-- One action; a drop needs a guard. -/
def step : Action → Thread φ → Option (Thread φ)
  | .create faults, t =>
    let (guard, p) := SilencedStdout.new faults t.process
    some ⟨p, (guard, t.process.table) :: t.guards⟩
  | .drop, t =>
    match t.guards with
    | [] => none
    | (guard, _) :: rest => some ⟨guard.drop t.process, rest⟩

/-- A sequence of actions. -/
def run : List Action → Thread φ → Option (Thread φ)
  | [], t => some t
  | action :: rest, t => (step action t).bind (run rest)

/-- A thread without guards. -/
def start (table : Descriptors φ) : Thread φ := ⟨⟨table, []⟩, []⟩

/-- A properly nested sequence: every guard in it is dropped, after those created under it. -/
inductive Nested : List Action → Prop
  /-- Nothing happens. -/
  | nil : Nested []
  /-- A guard is created, what is inside it happens, it is dropped, and more comes after it. -/
  | guard {faults : Faults} {inside after : List Action} (hinside : Nested inside)
      (hafter : Nested after) : Nested (.create faults :: inside ++ .drop :: after)

/-! ## What a creation and a drop do to the table -/

/-- The table with a guard on it that saved descriptor 1 as `saved`. -/
def silenced (before : Descriptors φ) (saved : ℕ) : Descriptors φ :=
  (before.set saved (before.file stdout)).set stdout
    ((before.set saved (before.file stdout)).file stderr)

/-- What a guard relies on when it is dropped. -/
structure CanSilence (before : Descriptors φ) (saved : ℕ) : Prop where
  /-- Descriptor 1 was open when the guard was created. -/
  isOpen : before.file stdout ≠ none
  /-- The descriptor of the copy was not. -/
  free : before.file saved = none
  /-- There is something that descriptor 1 can be redirected to. -/
  stderr : (before.set saved (before.file stdout)).file StdioGuard.stderr ≠ none

theorem CanSilence.ne {before : Descriptors φ} {saved : ℕ} (h : CanSilence before saved) :
    stdout ≠ saved := by
  rintro rfl
  exact h.isOpen h.free

/-- Descriptor 1 is silenced. -/
theorem file_silenced {before : Descriptors φ} {saved : ℕ} (h : CanSilence before saved) :
    (silenced before saved).file stdout = (silenced before saved).file stderr ∧
      (silenced before saved).file stdout ≠ none := by
  have hne : stderr ≠ stdout := by decide
  rw [silenced, Descriptors.file_set, Descriptors.file_set_of_ne hne]
  exact ⟨rfl, h.stderr⟩

theorem silenced_saved {before : Descriptors φ} {saved : ℕ} (h : CanSilence before saved) :
    (silenced before saved).file saved = before.file stdout := by
  rw [silenced, Descriptors.file_set_of_ne h.ne.symm, Descriptors.file_set]

/-- **A creation**: the guard is inert and the table as it was, or it is active and the table
silenced. -/
theorem new_cases (faults : Faults) (p : Process φ) :
    (∃ log, SilencedStdout.new faults p = (⟨none⟩, ⟨p.table, log⟩) ∧
        (log = p.log ∨ ∃ fd, log = p.log ++ [.opened fd] ++ [.closed fd])) ∨
      ∃ saved, CanSilence p.table saved ∧
        SilencedStdout.new faults p =
          (⟨some saved⟩, ⟨silenced p.table saved, p.log ++ [.opened saved]⟩) := by
  obtain ⟨dupFails, dup2Fails⟩ := faults
  rw [SilencedStdout.new, dup]
  rcases hdup : p.table.dup stdout with _ | ⟨saved, table⟩
  · exact Or.inl ⟨p.log, rfl, Or.inl rfl⟩
  obtain ⟨hopen, rfl, rfl⟩ := Descriptors.dup_eq_some.mp hdup
  have hfree := @Descriptors.file_unused φ p.table
  rcases dupFails with _ | _
  -- From here on the copy is open, and a failure has to close it.
  · have hgiveUp : close p.table.unused ⟨p.table.set p.table.unused (p.table.file stdout),
        p.log ++ [.opened p.table.unused]⟩ =
          ⟨p.table, p.log ++ [.opened p.table.unused] ++ [.closed p.table.unused]⟩ := by
      rw [close, Descriptors.close_set hfree]
    simp only [Bool.false_eq_true, if_false, dup2]
    rcases hdup2 : (p.table.set p.table.unused (p.table.file stdout)).dup2 stderr stdout with
      _ | table
    · exact Or.inl ⟨_, congrArg _ hgiveUp, Or.inr ⟨_, rfl⟩⟩
    obtain ⟨hstderr, rfl⟩ := Descriptors.dup2_eq_some.mp hdup2
    rcases dup2Fails with _ | _
    · exact Or.inr ⟨p.table.unused, ⟨hopen, hfree, hstderr⟩, rfl⟩
    · exact Or.inl ⟨_, congrArg _ hgiveUp, Or.inr ⟨_, rfl⟩⟩
  · exact Or.inl ⟨p.log, rfl, Or.inl rfl⟩

/-- A creation whose calls succeed gives an active guard, if there is something to save and
something to point to. -/
theorem new_isActive {p : Process φ} (hstdout : p.table.file stdout ≠ none)
    (hstderr : p.table.file stderr ≠ none) :
    (SilencedStdout.new ⟨false, false⟩ p).1.isActive = true := by
  have hdup : p.table.dup stdout =
      some (p.table.unused, p.table.set p.table.unused (p.table.file stdout)) :=
    Descriptors.dup_eq_some.mpr ⟨hstdout, rfl, rfl⟩
  -- The copy takes a descriptor that was free, and so not descriptor 2.
  have hopen : (p.table.set p.table.unused (p.table.file stdout)).file stderr ≠ none := by
    rw [Descriptors.file_set_of_ne (Descriptors.ne_unused hstderr)]
    exact hstderr
  have hdup2 := Descriptors.dup2_eq_some.mpr
    (⟨hopen, rfl⟩ : _ ∧ (p.table.set p.table.unused (p.table.file stdout)).set stdout _ = _)
  simp only [SilencedStdout.new, dup, hdup, dup2, hdup2, Bool.false_eq_true, if_false]
  rfl

/-- **A drop** undoes the silencing. -/
theorem drop_silenced {before : Descriptors φ} {saved : ℕ} (h : CanSilence before saved)
    (log : List Event) :
    SilencedStdout.drop ⟨some saved⟩ ⟨silenced before saved, log⟩ =
      ⟨before, log ++ [.closed saved]⟩ := by
  have hdup2 : (silenced before saved).dup2 saved stdout =
      some ((silenced before saved).set stdout (before.file stdout)) := by
    rw [Descriptors.dup2_eq_some, silenced_saved h]
    exact ⟨h.isOpen, rfl⟩
  simp only [SilencedStdout.drop, dup2, hdup2, Bool.false_eq_true, if_false, close]
  rw [silenced, Descriptors.close_set_set_set h.free]

/-! ## What holds of every thread -/

/-- How the guards account for the table: each was created on the table that the older ones
account for. -/
inductive Stacked (initial : Descriptors φ) :
    List (SilencedStdout × Descriptors φ) → Descriptors φ → Prop
  /-- Without guards the table is the initial one. -/
  | none : Stacked initial [] initial
  /-- An inert guard has changed nothing. -/
  | inert {guards : List (SilencedStdout × Descriptors φ)} {table : Descriptors φ}
      (h : Stacked initial guards table) : Stacked initial ((⟨.none⟩, table) :: guards) table
  /-- An active guard has saved descriptor 1 and silenced it. -/
  | active {guards : List (SilencedStdout × Descriptors φ)} {before : Descriptors φ} {saved : ℕ}
      (h : Stacked initial guards before) (hsilence : CanSilence before saved) :
      Stacked initial ((⟨some saved⟩, before) :: guards) (silenced before saved)

/-- The effect of an event on the descriptors that are open; nothing where a descriptor is closed
that is not open. -/
def settleEvent (unclosed : Option (List ℕ)) : Event → Option (List ℕ)
  | .opened fd => unclosed.map fun fds => fd :: fds
  | .closed fd => unclosed.bind fun fds => if fd ∈ fds then some (fds.erase fd) else none

/-- The descriptors that guards opened and did not close, the last one first; nothing where one was
closed twice. -/
def unclosed (log : List Event) : Option (List ℕ) := log.foldl settleEvent (some [])

theorem unclosed_append (log : List Event) (event : Event) :
    unclosed (log ++ [event]) = settleEvent (unclosed log) event := by
  rw [unclosed, List.foldl_append]
  rfl

theorem unclosed_opened {log : List Event} {fds : List ℕ} (h : unclosed log = some fds) (fd : ℕ) :
    unclosed (log ++ [.opened fd]) = some (fd :: fds) := by
  rw [unclosed_append, h]
  rfl

theorem unclosed_closed {log : List Event} {fd : ℕ} {fds : List ℕ}
    (h : unclosed log = some (fd :: fds)) : unclosed (log ++ [.closed fd]) = some fds := by
  rw [unclosed_append, h]
  simp [settleEvent]

/-- The descriptors that the guards have saved. -/
def savedBy (guards : List (SilencedStdout × Descriptors φ)) : List ℕ :=
  guards.filterMap fun entry => entry.1.saved

/-- The invariant of a thread. -/
structure IsBalanced (initial : Descriptors φ) (t : Thread φ) : Prop where
  /-- The guards account for the table. -/
  stacked : Stacked initial t.guards t.process.table
  /-- What guards have opened and not closed is what they have saved. -/
  unclosed : unclosed t.process.log = some (savedBy t.guards)

theorem start_isBalanced (initial : Descriptors φ) : IsBalanced initial (start initial) :=
  ⟨.none, rfl⟩

theorem create_isBalanced {initial : Descriptors φ} {t : Thread φ} (h : IsBalanced initial t)
    (faults : Faults) : ∃ guard, step (.create faults) t =
        some ⟨(SilencedStdout.new faults t.process).2, (guard, t.process.table) :: t.guards⟩ ∧
      IsBalanced initial
        ⟨(SilencedStdout.new faults t.process).2, (guard, t.process.table) :: t.guards⟩ := by
  refine ⟨(SilencedStdout.new faults t.process).1, rfl, ?_⟩
  rcases new_cases faults t.process with ⟨log, hnew, hlog⟩ | ⟨saved, hsilence, hnew⟩
  · rw [hnew]
    refine ⟨.inert h.stacked, ?_⟩
    rcases hlog with rfl | ⟨fd, rfl⟩
    · exact h.unclosed
    · exact unclosed_closed (unclosed_opened h.unclosed fd)
  · rw [hnew]
    exact ⟨.active h.stacked hsilence, unclosed_opened h.unclosed saved⟩

theorem drop_isBalanced {initial : Descriptors φ} {t : Thread φ} (h : IsBalanced initial t)
    {guard : SilencedStdout} {before : Descriptors φ}
    {rest : List (SilencedStdout × Descriptors φ)} (hguards : t.guards = (guard, before) :: rest) :
    (guard.drop t.process).table = before ∧ IsBalanced initial ⟨guard.drop t.process, rest⟩ := by
  obtain ⟨⟨table, log⟩, guards⟩ := t
  obtain ⟨hstacked, hunclosed⟩ := h
  simp only at hguards hstacked hunclosed
  subst hguards
  cases hstacked with
  | inert hrest => exact ⟨rfl, hrest, hunclosed⟩
  | active hrest hsilence =>
    rw [drop_silenced hsilence]
    exact ⟨rfl, hrest, unclosed_closed hunclosed⟩

theorem run_append (front back : List Action) (t : Thread φ) :
    run (front ++ back) t = (run front t).bind (run back) := by
  induction front generalizing t with
  | nil => rfl
  | cons action rest ih =>
    rw [List.cons_append, run, run]
    rcases step action t with _ | next
    · rfl
    · exact ih next

/-- **The invariant holds of every thread.** -/
theorem run_isBalanced {initial : Descriptors φ} {actions : List Action} {t t' : Thread φ}
    (h : IsBalanced initial t) (hrun : run actions t = some t') : IsBalanced initial t' := by
  induction actions generalizing t with
  | nil =>
    obtain rfl := Option.some.inj hrun
    exact h
  | cons action rest ih =>
    obtain ⟨next, hstep, hrun⟩ := Option.bind_eq_some_iff.mp hrun
    refine ih ?_ hrun
    cases action with
    | create faults =>
      obtain ⟨guard, hcreate, hnext⟩ := create_isBalanced h faults
      obtain rfl := Option.some.inj (hcreate.symm.trans hstep)
      exact hnext
    | drop =>
      rcases hguards : t.guards with _ | ⟨⟨guard, before⟩, guards⟩
      · rw [step, hguards] at hstep
        cases hstep
      · rw [step, hguards] at hstep
        obtain rfl := Option.some.inj hstep
        exact (drop_isBalanced h hguards).2

/-- A nested sequence runs to its end, and leaves the guards and the table as they were. -/
theorem run_nested {initial : Descriptors φ} {actions : List Action} (hnested : Nested actions)
    {t : Thread φ} (h : IsBalanced initial t) :
    ∃ t', run actions t = some t' ∧ t'.guards = t.guards ∧
      t'.process.table = t.process.table := by
  induction hnested generalizing t with
  | nil => exact ⟨t, rfl, rfl, rfl⟩
  | @guard faults inside after _ _ ihInside ihAfter =>
    obtain ⟨guard, hcreate, hcreated⟩ := create_isBalanced h faults
    obtain ⟨t₁, hinside, hguards, -⟩ := ihInside hcreated
    have hbalanced := run_isBalanced hcreated hinside
    obtain ⟨htable, hdropped⟩ := drop_isBalanced hbalanced hguards
    obtain ⟨t₂, hafter, hguards', htable'⟩ := ihAfter hdropped
    refine ⟨t₂, ?_, hguards', htable'.trans htable⟩
    have hdrop : step .drop t₁ = some ⟨guard.drop t₁.process, t.guards⟩ := by
      rw [step, hguards]
    rw [List.cons_append, run, hcreate, Option.bind_some, run_append, hinside, Option.bind_some,
      run, hdrop, Option.bind_some, hafter]

/-- `guarded` is a creation, what its body does, and a drop. -/
theorem run_guarded {α : Type} {body : Process φ → α × Process φ} {inside : List Action}
    (hbody : ∀ p guards, run inside ⟨p, guards⟩ = some ⟨(body p).2, guards⟩) (faults : Faults)
    (t : Thread φ) :
    run (.create faults :: inside ++ [.drop]) t =
      some ⟨(guarded faults body t.process).2, t.guards⟩ := by
  rw [List.cons_append, run, step, Option.bind_some, run_append, hbody]
  rfl

/-- Descriptor 1 is silenced under an active guard, however many inert ones are younger. -/
theorem Stacked.silenced {initial : Descriptors φ} {table : Descriptors φ}
    {guards : List (SilencedStdout × Descriptors φ)} (h : Stacked initial guards table)
    (hactive : ∃ entry ∈ guards, entry.1.isActive = true) :
    table.file stdout = table.file stderr ∧ table.file stdout ≠ .none := by
  induction h with
  | none =>
    obtain ⟨entry, hentry, -⟩ := hactive
    cases hentry
  | inert _ ih =>
    obtain ⟨entry, hentry, hisActive⟩ := hactive
    rcases List.mem_cons.mp hentry with rfl | hentry
    · cases hisActive
    · exact ih ⟨entry, hentry, hisActive⟩
  | active _ hsilence => exact file_silenced hsilence

/-- Descriptor 2 is never touched where it is open. -/
theorem Stacked.stderr_eq {initial : Descriptors φ} {table : Descriptors φ}
    {guards : List (SilencedStdout × Descriptors φ)} (h : Stacked initial guards table)
    (hopen : initial.file stderr ≠ .none) : table.file stderr = initial.file stderr := by
  induction h with
  | none => rfl
  | inert _ ih => exact ih
  | @active guards before saved _ hsilence ih =>
    have hne : stderr ≠ saved := by
      rintro rfl
      exact hopen (ih.symm.trans hsilence.free)
    have hstdout : stderr ≠ stdout := by decide
    rw [StdioGuard.silenced, Descriptors.file_set_of_ne hstdout, Descriptors.file_set_of_ne hne, ih]

/-- **Guards balance.**  After any sequence of creations and drops, on any table and with any of
the calls of a creation failing: descriptor 1 is silenced while a guard is active, and a creation
whose calls succeed gives an active guard if descriptors 1 and 2 are open; descriptor 2 is as it
was, if it was open at the start; another guard, with anything nested in it, would leave the table
as it is now; and the descriptors opened and not yet closed are those that the guards alive have
saved, none having been closed twice.

A descriptor 2 that is closed at the start may be the free one that a guard saves descriptor 1 in,
and then it is open until that guard is dropped. -/
theorem guards_balanced (initial : Descriptors φ) (actions : List Action) (t : Thread φ)
    (h : run actions (start initial) = some t) :
    ((∃ entry ∈ t.guards, entry.1.isActive = true) →
        t.process.table.file stdout = t.process.table.file stderr ∧
          t.process.table.file stdout ≠ none) ∧
      (t.process.table.file stdout ≠ none → t.process.table.file stderr ≠ none →
        (SilencedStdout.new ⟨false, false⟩ t.process).1.isActive = true) ∧
      (initial.file stderr ≠ none → t.process.table.file stderr = initial.file stderr) ∧
      (∀ faults inside, Nested inside →
        ∃ t', run (.create faults :: inside ++ [.drop]) t = some t' ∧ t'.guards = t.guards ∧
          t'.process.table = t.process.table) ∧
      unclosed t.process.log = some (savedBy t.guards) := by
  have hbalanced := run_isBalanced (start_isBalanced initial) h
  refine ⟨hbalanced.stacked.silenced, new_isActive, hbalanced.stacked.stderr_eq, ?_,
    hbalanced.unclosed⟩
  exact fun faults inside hinside => run_nested (.guard hinside .nil) hbalanced

end

/-- The files of the three standard descriptors. -/
def standardFiles : List String := ["stdin", "stdout", "stderr"]

theorem standardFiles_finite : ∃ bound, ∀ fd : ℕ, bound ≤ fd → standardFiles[fd]? = none :=
  ⟨3, fun _ h => List.getElem?_eq_none h⟩

/-- A process with these open. -/
def standardTable : Descriptors String := ⟨fun fd => standardFiles[fd]?, standardFiles_finite⟩

/-- An active guard with an inert one in it. -/
def nestedThread : List Action := [.create ⟨false, false⟩, .create ⟨false, true⟩]

theorem run_nestedThread : ∃ t, run nestedThread (start standardTable) = some t :=
  ⟨_, rfl⟩

/-- Descriptor 1 is silenced by the outer guard; and when both are dropped, it is restored and all
that was opened is closed. -/
theorem guards_balanced_nestedThread :
    (∃ t, run nestedThread (start standardTable) = some t ∧
      t.process.table.file stdout = some "stderr" ∧
      t.process.table.file stderr = some "stderr" ∧
      unclosed t.process.log = some (savedBy t.guards)) ∧
    ∃ t, run (nestedThread ++ [.drop, .drop]) (start standardTable) = some t ∧
      t.process.table = standardTable ∧ unclosed t.process.log = some [] := by
  constructor
  · obtain ⟨t, ht⟩ := run_nestedThread
    obtain ⟨hsilenced, -, hstderr, -, hunclosed⟩ := guards_balanced standardTable nestedThread t ht
    have hactive : ∃ entry ∈ t.guards, entry.1.isActive = true := by
      obtain rfl := Option.some.inj ht
      exact ⟨_, List.mem_cons_of_mem _ List.mem_cons_self,
        new_isActive (p := ⟨standardTable, []⟩) (by decide) (by decide)⟩
    have hopen : t.process.table.file stderr = some "stderr" := hstderr (by decide)
    exact ⟨t, ht, (hsilenced hactive).1.trans hopen, hopen, hunclosed⟩
  · obtain ⟨-, -, -, hnested, -⟩ := guards_balanced standardTable [] (start standardTable) rfl
    obtain ⟨t, ht, hguards, htable⟩ := hnested ⟨false, false⟩ _
      (@Nested.guard ⟨false, true⟩ [] [] .nil .nil)
    obtain ⟨-, -, -, -, hunclosed⟩ := guards_balanced standardTable _ t ht
    rw [hguards] at hunclosed
    exact ⟨t, ht, htable, hunclosed⟩

end StdioGuard

end SemanticSidecar
