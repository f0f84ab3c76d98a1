import Mathlib.Logic.Function.Basic
import SemanticSidecar.StdioGuard

/-!
# What arrives on stdout

`StdioGuard` is about the descriptor table.  Here is what the table is for: the bytes.  A thread
prints through the buffer of Rust's stdout, native code writes to descriptor 1 past that buffer,
and guards come and go.  A guard flushes before it redirects and before it restores, so that what
was printed before a redirect does not end on stderr, nor what was printed under it on stdout.
Any write of the buffer may stop short: the result of a flush is thrown away.

`stdout_pure` says that this keeps the protocol's stream clean as long as native code writes under
an active guard only.  Stdout then gets nothing but what Rust printed; and where the flushes of
the guards go through, it gets exactly what was printed outside them.

* `perform_cases` is one deed: a turn of the guards (`Turned`), a print, a flush, or a write by
  native code.
* `Clean` is the invariant for flushes that may stop short: what stdout has and may get is some of
  what was printed, in order.
* `Exact` is the invariant for flushes that go through.

Native code may write under no active guard, too, and what it writes then is counted as
`Console.stray`; the law is about the runs in which there is none.  Stdout and stderr are open on
different files at the start (`Standard`), since nothing could be kept apart otherwise.
-/

set_option autoImplicit false

namespace SemanticSidecar

namespace StdioGuard

/-- What the thread does.  `left` is how many bytes stay in the buffer when it is written out. -/
inductive Deed where
  /-- A guard is created, which flushes all but so many bytes of the buffer. -/
  | create (left : ℕ) (faults : Faults)
  /-- The youngest guard is dropped, at the end of its scope or in a panic. -/
  | drop (left : ℕ)
  /-- Rust code prints. -/
  | print (bytes : List UInt8)
  /-- The buffer is written out because it is full, a line ends or someone flushes it. -/
  | spill (left : ℕ)
  /-- Native code writes to descriptor 1. -/
  | native (bytes : List UInt8)

/-- The flush a guard makes goes through. -/
def Deed.Flushes : Deed → Prop
  | .create left _ => left = 0
  | .drop left => left = 0
  | _ => True

/-- The thread, the buffer of its stdout, and what each file got.  The last three fields are for
the account only: what Rust printed, what it printed while no guard was active, and what native
code wrote while no guard was active. -/
structure Console (φ : Type) where
  /-- The descriptors and the guards of the thread. -/
  thread : Thread φ
  /-- What Rust has printed and not flushed. -/
  buffer : List UInt8
  /-- What each file has got. -/
  output : φ → List UInt8
  /-- What Rust has printed. -/
  printed : List UInt8
  /-- What Rust has printed while no guard was active. -/
  loud : List UInt8
  /-- What native code has written while no guard was active. -/
  stray : List UInt8

section

variable {φ : Type} [DecidableEq φ]

/-- Some guard is active. -/
def Thread.isSilenced (t : Thread φ) : Bool := t.guards.any fun entry => entry.1.isActive

/-- A write to descriptor 1; where nothing is open there it is lost. -/
def Console.deliver (bytes : List UInt8) (c : Console φ) : Console φ :=
  match c.thread.process.table.file stdout with
  | none => c
  | some file => { c with output := Function.update c.output file (c.output file ++ bytes) }

/-- `Stdout::flush`, with some bytes left behind. -/
def Console.flush (left : ℕ) (c : Console φ) : Console φ :=
  { c.deliver (c.buffer.take (c.buffer.length - left)) with
    buffer := c.buffer.drop (c.buffer.length - left) }

/-- The action of the guards on the descriptors. -/
def Console.act (action : Action) (c : Console φ) : Option (Console φ) :=
  (step action c.thread).map fun t => { c with thread := t }

/-- One deed; a drop needs a guard, and flushes where the guard is active. -/
def Console.perform : Deed → Console φ → Option (Console φ)
  | .create left faults, c => (c.flush left).act (.create faults)
  | .drop left, c =>
    match c.thread.guards with
    | [] => none
    | (guard, _) :: _ => (if guard.isActive then c.flush left else c).act .drop
  | .print bytes, c =>
    some { c with
      buffer := c.buffer ++ bytes
      printed := c.printed ++ bytes
      loud := if c.thread.isSilenced then c.loud else c.loud ++ bytes }
  | .spill left, c => some (c.flush left)
  | .native bytes, c =>
    some { c.deliver bytes with
      stray := if c.thread.isSilenced then c.stray else c.stray ++ bytes }

/-- A sequence of deeds. -/
def Console.performAll : List Deed → Console φ → Option (Console φ)
  | [], c => some c
  | deed :: rest, c => (c.perform deed).bind (performAll rest)

/-- A thread that has printed nothing. -/
def Console.opening (initial : Descriptors φ) (output : φ → List UInt8) : Console φ :=
  ⟨start initial, [], output, [], [], []⟩

/-! ## Where descriptor 1 leads -/

omit [DecidableEq φ] in
theorem step_isBalanced {initial : Descriptors φ} {action : Action} {t t' : Thread φ}
    (h : IsBalanced initial t) (hstep : step action t = some t') : IsBalanced initial t' := by
  have hrun : run [action] t = some t' := by
    rw [run, hstep]
    rfl
  exact run_isBalanced h hrun

omit [DecidableEq φ] in
/-- Inert guards leave the table as it was. -/
theorem Stacked.eq_initial {initial table : Descriptors φ}
    {guards : List (SilencedStdout × Descriptors φ)} (h : Stacked initial guards table)
    (hinert : (guards.any fun entry => entry.1.isActive) = false) : table = initial := by
  induction h with
  | none => rfl
  | inert _ ih =>
    rw [List.any_cons, Bool.or_eq_false_iff] at hinert
    exact ih hinert.2
  | active _ _ =>
    rw [List.any_cons, Bool.or_eq_false_iff] at hinert
    cases hinert.1

/-- Stdout and stderr are open, on different files. -/
structure Standard (initial : Descriptors φ) (out err : φ) : Prop where
  /-- Descriptor 1 is open. -/
  stdout : initial.file StdioGuard.stdout = some out
  /-- Descriptor 2 is open. -/
  stderr : initial.file StdioGuard.stderr = some err
  /-- A write to the one is not seen in the other. -/
  ne : out ≠ err

variable {initial : Descriptors φ} {out err : φ}

omit [DecidableEq φ] in
theorem IsBalanced.file_of_silenced (hstandard : Standard initial out err) {t : Thread φ}
    (h : IsBalanced initial t) (hsilenced : t.isSilenced = true) :
    t.process.table.file stdout = some err := by
  have hsome : initial.file stderr ≠ none := by
    rw [hstandard.stderr]
    exact Option.some_ne_none err
  rw [(h.stacked.silenced (List.any_eq_true.mp hsilenced)).1, h.stacked.stderr_eq hsome,
    hstandard.stderr]

omit [DecidableEq φ] in
theorem IsBalanced.file_of_loud (hstandard : Standard initial out err) {t : Thread φ}
    (h : IsBalanced initial t) (hloud : t.isSilenced = false) :
    t.process.table.file stdout = some out := by
  rw [h.stacked.eq_initial hloud, hstandard.stdout]

/-! ## What a write does -/

@[simp] theorem Console.thread_deliver (bytes : List UInt8) (c : Console φ) :
    (c.deliver bytes).thread = c.thread := by
  rw [Console.deliver]
  rcases c.thread.process.table.file StdioGuard.stdout with _ | file
  · rfl
  · rfl

@[simp] theorem Console.thread_flush (left : ℕ) (c : Console φ) :
    (c.flush left).thread = c.thread := c.thread_deliver _

theorem Console.deliver_account (bytes : List UInt8) (c : Console φ) :
    (c.deliver bytes).buffer = c.buffer ∧ (c.deliver bytes).printed = c.printed ∧
      (c.deliver bytes).loud = c.loud ∧ (c.deliver bytes).stray = c.stray := by
  rw [Console.deliver]
  rcases c.thread.process.table.file StdioGuard.stdout with _ | file
  · exact ⟨rfl, rfl, rfl, rfl⟩
  · exact ⟨rfl, rfl, rfl, rfl⟩

@[simp] theorem Console.printed_flush (left : ℕ) (c : Console φ) :
    (c.flush left).printed = c.printed := (c.deliver_account _).2.1

@[simp] theorem Console.loud_flush (left : ℕ) (c : Console φ) :
    (c.flush left).loud = c.loud := (c.deliver_account _).2.2.1

@[simp] theorem Console.stray_flush (left : ℕ) (c : Console φ) :
    (c.flush left).stray = c.stray := (c.deliver_account _).2.2.2

theorem Console.output_deliver_of_silenced (hstandard : Standard initial out err)
    {c : Console φ} (h : IsBalanced initial c.thread) (hsilenced : c.thread.isSilenced = true)
    (bytes : List UInt8) : (c.deliver bytes).output out = c.output out := by
  simp only [Console.deliver, h.file_of_silenced hstandard hsilenced]
  exact Function.update_of_ne hstandard.ne _ _

theorem Console.output_deliver_of_loud (hstandard : Standard initial out err)
    {c : Console φ} (h : IsBalanced initial c.thread) (hloud : c.thread.isSilenced = false)
    (bytes : List UInt8) : (c.deliver bytes).output out = c.output out ++ bytes := by
  simp only [Console.deliver, h.file_of_loud hstandard hloud]
  exact Function.update_self _ _ _

/-- Under a guard a flush moves nothing to stdout. -/
theorem Console.output_flush_of_silenced (hstandard : Standard initial out err)
    {c : Console φ} (h : IsBalanced initial c.thread) (hsilenced : c.thread.isSilenced = true)
    (left : ℕ) : (c.flush left).output out = c.output out :=
  Console.output_deliver_of_silenced hstandard h hsilenced _

/-- Elsewhere it keeps what stdout and the buffer hold together. -/
theorem Console.output_flush_of_loud (hstandard : Standard initial out err)
    {c : Console φ} (h : IsBalanced initial c.thread) (hloud : c.thread.isSilenced = false)
    (left : ℕ) :
    (c.flush left).output out ++ (c.flush left).buffer = c.output out ++ c.buffer := by
  have houtput : (c.flush left).output out =
      c.output out ++ c.buffer.take (c.buffer.length - left) :=
    Console.output_deliver_of_loud hstandard h hloud _
  have hbuffer : (c.flush left).buffer = c.buffer.drop (c.buffer.length - left) := rfl
  rw [houtput, hbuffer, List.append_assoc, List.take_append_drop]

theorem Console.buffer_flush_zero (c : Console φ) : (c.flush 0).buffer = [] := by
  have hbuffer : (c.flush 0).buffer = c.buffer.drop (c.buffer.length - 0) := rfl
  rw [hbuffer, Nat.sub_zero, List.drop_length]

/-! ## What a deed does -/

/-- The console after a turn of the guards: they may have written the buffer out before it. -/
structure Turned (c c' : Console φ) (flushes : Prop) : Prop where
  /-- The guards take a turn, and the buffer may be flushed before it; where flushes go through, it
  is, or nothing is silenced that was not. -/
  turn : ∃ d action t, (d = c ∨ ∃ left, d = c.flush left) ∧ step action c.thread = some t ∧
    c' = { d with thread := t } ∧
    (flushes → d = c.flush 0 ∨ d = c ∧ t.isSilenced = c.thread.isSilenced)

omit [DecidableEq φ] in
theorem act_eq_some {action : Action} {c c' : Console φ} (h : c.act action = some c') :
    ∃ t, step action c.thread = some t ∧ c' = { c with thread := t } := by
  obtain ⟨t, hstep, hc'⟩ := Option.map_eq_some_iff.mp h
  exact ⟨t, hstep, hc'.symm⟩

/-- **A deed** is a turn of the guards, or a write by Rust or by native code. -/
theorem perform_cases {deed : Deed} {c c' : Console φ} (h : c.perform deed = some c') :
    Turned c c' deed.Flushes ∨
      (∃ bytes, c' = { c with
        buffer := c.buffer ++ bytes
        printed := c.printed ++ bytes
        loud := if c.thread.isSilenced then c.loud else c.loud ++ bytes }) ∨
      (∃ left, c' = c.flush left) ∨
      ∃ bytes, c' = { c.deliver bytes with
        stray := if c.thread.isSilenced then c.stray else c.stray ++ bytes } := by
  cases deed with
  | create left faults =>
    refine Or.inl ⟨?_⟩
    obtain ⟨t, hstep, rfl⟩ := act_eq_some (c := c.flush left) h
    rw [c.thread_flush] at hstep
    refine ⟨c.flush left, .create faults, t, Or.inr ⟨left, rfl⟩, hstep, rfl, fun hleft => ?_⟩
    exact Or.inl (congrArg c.flush hleft)
  | drop left =>
    refine Or.inl ⟨?_⟩
    rw [Console.perform] at h
    rcases hguards : c.thread.guards with _ | ⟨⟨guard, before⟩, rest⟩
    · rw [hguards] at h
      cases h
    rw [hguards] at h
    rcases hactive : guard.isActive with _ | _
    -- An inert guard does not flush; but then it did not silence anything either.
    · simp only [hactive, Bool.false_eq_true, if_false] at h
      obtain ⟨t, hstep, rfl⟩ := act_eq_some h
      refine ⟨c, .drop, t, Or.inl rfl, hstep, rfl, fun _ => Or.inr ⟨rfl, ?_⟩⟩
      rw [step, hguards] at hstep
      obtain rfl := Option.some.inj hstep
      rw [Thread.isSilenced, Thread.isSilenced, hguards, List.any_cons, hactive, Bool.false_or]
    · simp only [hactive, if_true] at h
      obtain ⟨t, hstep, rfl⟩ := act_eq_some h
      rw [c.thread_flush] at hstep
      refine ⟨c.flush left, .drop, t, Or.inr ⟨left, rfl⟩, hstep, rfl, fun hleft => ?_⟩
      exact Or.inl (congrArg c.flush hleft)
  | print bytes => exact Or.inr (Or.inl ⟨bytes, (Option.some.inj h).symm⟩)
  | spill left => exact Or.inr (Or.inr (Or.inl ⟨left, (Option.some.inj h).symm⟩))
  | native bytes => exact Or.inr (Or.inr (Or.inr ⟨bytes, (Option.some.inj h).symm⟩))

/-! ## The two invariants -/

/-- What stdout has and the buffer may still add was printed by Rust, in this order. -/
structure Clean (initial : Descriptors φ) (out : φ) (earlier : List UInt8) (c : Console φ) :
    Prop where
  /-- The descriptors are as the guards have to leave them. -/
  balanced : IsBalanced initial c.thread
  /-- What stdout has and may get is some of what was printed, in order. -/
  sublist : List.Sublist (c.output out ++ c.buffer) (earlier ++ c.printed)

/-- Stdout has what was printed outside the guards, but for what is still in the buffer. -/
def Exact (out : φ) (earlier : List UInt8) (c : Console φ) : Prop :=
  c.output out ++ (if c.thread.isSilenced then [] else c.buffer) = earlier ++ c.loud

variable {earlier : List UInt8}

/-- What native code wrote outside the guards is not forgotten. -/
theorem stray_of_perform {deed : Deed} {c c' : Console φ} (h : c.perform deed = some c')
    (hstray : c'.stray = []) : c.stray = [] := by
  rcases perform_cases h with ⟨d, action, t, hd, -, rfl, -⟩ | ⟨bytes, rfl⟩ | ⟨left, rfl⟩ |
    ⟨bytes, rfl⟩
  · rcases hd with rfl | ⟨left, rfl⟩
    · exact hstray
    · exact (c.stray_flush left).symm.trans hstray
  · exact hstray
  · exact (c.stray_flush left).symm.trans hstray
  · change (if c.thread.isSilenced then c.stray else c.stray ++ bytes) = [] at hstray
    split at hstray
    · exact hstray
    · exact (List.append_eq_nil_iff.mp hstray).1

/-- A native write does not reach stdout, or is not a guarded one. -/
theorem output_native (hstandard : Standard initial out err) {c : Console φ}
    (h : IsBalanced initial c.thread) {bytes : List UInt8}
    (hstray : (if c.thread.isSilenced then c.stray else c.stray ++ bytes) = []) :
    (c.deliver bytes).output out = c.output out := by
  rcases hsilenced : c.thread.isSilenced with _ | _
  · rw [hsilenced, if_neg Bool.false_ne_true] at hstray
    rw [Console.output_deliver_of_loud hstandard h hsilenced,
      (List.append_eq_nil_iff.mp hstray).2, List.append_nil]
  · exact Console.output_deliver_of_silenced hstandard h hsilenced bytes

theorem Clean.flush (hstandard : Standard initial out err) {c : Console φ}
    (h : Clean initial out earlier c) (left : ℕ) : Clean initial out earlier (c.flush left) := by
  refine ⟨?_, ?_⟩
  · rw [c.thread_flush]
    exact h.balanced
  rw [c.printed_flush]
  rcases hsilenced : c.thread.isSilenced with _ | _
  · rw [Console.output_flush_of_loud hstandard h.balanced hsilenced]
    exact h.sublist
  · rw [Console.output_flush_of_silenced hstandard h.balanced hsilenced]
    have hbuffer : List.Sublist (c.flush left).buffer c.buffer := List.drop_sublist _ _
    exact (hbuffer.append_left _).trans h.sublist

/-- Every deed keeps stdout clean, as long as native code writes under a guard. -/
theorem Clean.perform (hstandard : Standard initial out err) {deed : Deed} {c c' : Console φ}
    (h : Clean initial out earlier c) (hperform : c.perform deed = some c')
    (hstray : c'.stray = []) : Clean initial out earlier c' := by
  rcases perform_cases hperform with ⟨d, action, t, hd, hstep, rfl, -⟩ | ⟨bytes, rfl⟩ |
    ⟨left, rfl⟩ | ⟨bytes, rfl⟩
  · have hclean : Clean initial out earlier d := by
      rcases hd with rfl | ⟨left, rfl⟩
      · exact h
      · exact h.flush hstandard left
    exact ⟨step_isBalanced h.balanced hstep, hclean.sublist⟩
  · refine ⟨h.balanced, ?_⟩
    have hsublist := h.sublist.append_right bytes
    rw [List.append_assoc, List.append_assoc] at hsublist
    exact hsublist
  · exact h.flush hstandard left
  · obtain ⟨hbuffer, hprinted, -⟩ := c.deliver_account bytes
    refine ⟨?_, ?_⟩
    · change IsBalanced initial (c.deliver bytes).thread
      rw [c.thread_deliver]
      exact h.balanced
    · change List.Sublist ((c.deliver bytes).output out ++ (c.deliver bytes).buffer)
        (earlier ++ (c.deliver bytes).printed)
      rw [output_native hstandard h.balanced hstray, hbuffer, hprinted]
      exact h.sublist

theorem Exact.flush (hstandard : Standard initial out err) {c : Console φ}
    (hbalanced : IsBalanced initial c.thread) (h : Exact out earlier c) (left : ℕ) :
    Exact out earlier (c.flush left) := by
  rw [Exact, c.thread_flush, c.loud_flush]
  rw [Exact] at h
  rcases hsilenced : c.thread.isSilenced with _ | _
  · rw [hsilenced, if_neg Bool.false_ne_true] at h
    rw [if_neg Bool.false_ne_true, Console.output_flush_of_loud hstandard hbalanced hsilenced]
    exact h
  · rw [hsilenced, if_pos rfl] at h
    rw [if_pos rfl, Console.output_flush_of_silenced hstandard hbalanced hsilenced]
    exact h

omit [DecidableEq φ] in
/-- With an empty buffer it makes no difference whether a guard is active. -/
theorem Exact.output_eq {c : Console φ} (h : Exact out earlier c) (hbuffer : c.buffer = []) :
    c.output out = earlier ++ c.loud := by
  rw [Exact, hbuffer, ite_self, List.append_nil] at h
  exact h

/-- Every deed whose flush goes through keeps the account of stdout exact. -/
theorem Exact.perform (hstandard : Standard initial out err) {deed : Deed} {c c' : Console φ}
    (hbalanced : IsBalanced initial c.thread) (h : Exact out earlier c)
    (hperform : c.perform deed = some c') (hstray : c'.stray = []) (hflushes : deed.Flushes) :
    Exact out earlier c' := by
  rcases perform_cases hperform with ⟨d, action, t, -, hstep, rfl, hturn⟩ | ⟨bytes, rfl⟩ |
    ⟨left, rfl⟩ | ⟨bytes, rfl⟩
  · rcases hturn hflushes with rfl | ⟨rfl, hsilenced⟩
    · have houtput := (h.flush hstandard hbalanced 0).output_eq c.buffer_flush_zero
      change (c.flush 0).output out ++ (if t.isSilenced then [] else (c.flush 0).buffer) =
        earlier ++ (c.flush 0).loud
      rw [c.buffer_flush_zero, ite_self, List.append_nil, houtput]
    · rw [Exact] at h ⊢
      rw [hsilenced]
      exact h
  · change c.output out ++ (if c.thread.isSilenced then [] else c.buffer ++ bytes) =
      earlier ++ (if c.thread.isSilenced then c.loud else c.loud ++ bytes)
    rw [Exact] at h
    rcases hsilenced : c.thread.isSilenced with _ | _
    · rw [hsilenced, if_neg Bool.false_ne_true] at h
      rw [if_neg Bool.false_ne_true, if_neg Bool.false_ne_true, ← List.append_assoc, h,
        List.append_assoc]
    · rw [hsilenced, if_pos rfl] at h
      rw [if_pos rfl, if_pos rfl, h]
  · exact h.flush hstandard hbalanced left
  · obtain ⟨hbuffer, -, hloud, -⟩ := c.deliver_account bytes
    change (c.deliver bytes).output out ++
        (if (c.deliver bytes).thread.isSilenced then [] else (c.deliver bytes).buffer) =
      earlier ++ (c.deliver bytes).loud
    rw [output_native hstandard hbalanced hstray, c.thread_deliver, hbuffer, hloud]
    exact h

/-! ## Whole runs -/

theorem stray_of_performAll {deeds : List Deed} {c c' : Console φ}
    (h : Console.performAll deeds c = some c') (hstray : c'.stray = []) : c.stray = [] := by
  induction deeds generalizing c with
  | nil =>
    obtain rfl := Option.some.inj h
    exact hstray
  | cons deed rest ih =>
    obtain ⟨next, hnext, hrest⟩ := Option.bind_eq_some_iff.mp h
    exact stray_of_perform hnext (ih hrest)

theorem performAll_keeps (hstandard : Standard initial out err) {deeds : List Deed}
    {c c' : Console φ} (hclean : Clean initial out earlier c)
    (h : Console.performAll deeds c = some c') (hstray : c'.stray = []) :
    Clean initial out earlier c' ∧
      (Exact out earlier c → (∀ deed ∈ deeds, deed.Flushes) → Exact out earlier c') := by
  induction deeds generalizing c with
  | nil =>
    obtain rfl := Option.some.inj h
    exact ⟨hclean, fun hexact _ => hexact⟩
  | cons deed rest ih =>
    obtain ⟨next, hnext, hrest⟩ := Option.bind_eq_some_iff.mp h
    have hstrayNext := stray_of_performAll hrest hstray
    obtain ⟨hclean', hexact'⟩ := ih (hclean.perform hstandard hnext hstrayNext) hrest
    refine ⟨hclean', fun hexact hflushes => hexact' ?_ fun deed hdeed => ?_⟩
    · exact hexact.perform hstandard hclean.balanced hnext hstrayNext
        (hflushes deed List.mem_cons_self)
    · exact hflushes deed (List.mem_cons_of_mem _ hdeed)

/-- **Stdout stays clean.**  Let stdout and stderr be open at the start, on two different files.
Take any sequence of prints, flushes, native writes, creations and drops of guards in which native
code writes under active guards only; any of the calls of a creation, and any write of the buffer,
may fail.  What stdout gets was printed by Rust, in this order.  If moreover the flushes of the
guards go through, then it is what was printed while no guard was active, all of it but for what the
buffer still holds. -/
theorem stdout_pure (initial : Descriptors φ) (out err : φ) (output : φ → List UInt8)
    (deeds : List Deed) (c : Console φ) (hstandard : Standard initial out err)
    (h : Console.performAll deeds (Console.opening initial output) = some c)
    (hstray : c.stray = []) :
    List.Sublist (c.output out) (output out ++ c.printed) ∧
      ((∀ deed ∈ deeds, deed.Flushes) →
        c.output out ++ (if c.thread.isSilenced then [] else c.buffer) =
          output out ++ c.loud) := by
  have hopening : Clean initial out (output out) (Console.opening initial output) :=
    ⟨start_isBalanced initial, List.Sublist.refl _⟩
  obtain ⟨hclean, hexact⟩ := performAll_keeps hstandard hopening h hstray
  exact ⟨(List.sublist_append_left _ _).trans hclean.sublist, hexact rfl⟩

/-- Where stderr is closed a guard may be active and silence nothing: the copy of descriptor 1
takes the place of stderr. -/
theorem not_silenced_of_closed (initial : Descriptors φ) (output : φ → List UInt8)
    (hstdin : initial.file 0 ≠ none) (hstdout : initial.file stdout = some out)
    (hstderr : initial.file stderr = none) (bytes : List UInt8) :
    ∃ c, Console.performAll [.create 0 ⟨false, false⟩, .native bytes]
        (Console.opening initial output) = some c ∧
      c.thread.isSilenced = true ∧ c.output out = output out ++ bytes := by
  have hunused : initial.unused = stderr := by
    refine (Nat.find_eq_iff _).mpr ⟨hstderr, fun fd hfd => ?_⟩
    have hcases : fd = 0 ∨ fd = stdout := by
      have hlt : fd < 2 := hfd
      have hone : stdout = 1 := rfl
      omega
    rcases hcases with rfl | rfl
    · exact hstdin
    · rw [hstdout]
      exact Option.some_ne_none out
  have hnew : SilencedStdout.new ⟨false, false⟩ ⟨initial, []⟩ =
      (⟨some stderr⟩, ⟨silenced initial stderr, [.opened stderr]⟩) := by
    have hdup : initial.dup stdout = some (stderr, initial.set stderr (some out)) := by
      rw [Descriptors.dup_eq_some, hstdout]
      exact ⟨Option.some_ne_none out, hunused.symm, rfl⟩
    have hdup2 : (initial.set stderr (some out)).dup2 stderr stdout =
        some ((initial.set stderr (some out)).set stdout (some out)) := by
      rw [Descriptors.dup2_eq_some, Descriptors.file_set]
      exact ⟨Option.some_ne_none out, rfl⟩
    simp only [SilencedStdout.new, dup, hdup, dup2, hdup2, Bool.false_eq_true, if_false, silenced,
      hstdout, Descriptors.file_set, List.nil_append]
  have hflush : (Console.opening initial output).flush 0 = Console.opening initial output := by
    have hself : Function.update output out (output out) = output := Function.update_eq_self _ _
    simp only [Console.flush, Console.deliver, Console.opening, start, hstdout, List.length_nil,
      List.take_nil, List.drop_nil, List.append_nil, hself]
  have hcreate : (Console.opening initial output).perform (.create 0 ⟨false, false⟩) =
      some ⟨⟨⟨silenced initial stderr, [.opened stderr]⟩, [(⟨some stderr⟩, initial)]⟩, [], output,
        [], [], []⟩ := by
    rw [Console.perform, hflush, Console.act, step, Console.opening, start, hnew]
    rfl
  have hfile : (silenced initial stderr).file stdout = some out := by
    rw [silenced, Descriptors.file_set, Descriptors.file_set, hstdout]
  refine ⟨_, by rw [Console.performAll, hcreate]; rfl, ?_, ?_⟩
  · simp only [Console.deliver, hfile]
    rfl
  · simp only [Console.deliver, hfile]
    exact Function.update_self _ _ _

end

theorem standardTable_standard : Standard standardTable "stdout" "stderr" :=
  ⟨rfl, rfl, by decide⟩

/-- Native code chatters under a guard, between two lines of the program. -/
def chatter : List Deed :=
  [.print [65], .create 0 ⟨false, false⟩, .native [66], .drop 0, .print [67], .spill 0]

theorem chatter_stray : (Console.performAll chatter
    (Console.opening standardTable fun _ => [])).map Console.stray = some [] := by
  decide +kernel

theorem stdout_pure_chatter : ∃ c,
    Console.performAll chatter (Console.opening standardTable fun _ => []) = some c ∧
      List.Sublist (c.output "stdout") c.printed ∧
        c.output "stdout" ++ (if c.thread.isSilenced then [] else c.buffer) = c.loud := by
  obtain ⟨c, hc, hstray⟩ := Option.map_eq_some_iff.mp chatter_stray
  have hpure := stdout_pure standardTable "stdout" "stderr" (fun _ => []) chatter c
    standardTable_standard hc hstray
  exact ⟨c, hc, hpure.1, hpure.2 (by simp [chatter, Deed.Flushes])⟩

end StdioGuard

end SemanticSidecar
