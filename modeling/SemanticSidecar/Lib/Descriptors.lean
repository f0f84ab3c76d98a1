import Mathlib.Data.Nat.Find

/-!
# The descriptor table of a process

A table takes file descriptors to open files, and only finitely many of them to any.  `dup` takes
the lowest descriptor that is not in use, `dup2` the one it is told to, whatever was open there,
and `close` gives one up.  The calls are functions on the table, with no result where the
descriptor they start from is not open; that a call may fail for another reason is for its caller
to say.

`dup_eq_some` and `dup2_eq_some` say what a call that succeeds leaves behind.  The last two lemmas
are the ones a redirect is undone by: whoever copies a descriptor, redirects it, puts the copy back
and closes the copy has the table it began with, provided the copy was not in use before.

Open files are of any type.  Two descriptors lead to the same file exactly if the table gives them
the same value, and what a file does is none of the table's business.  The lowest free descriptor
exists as only finitely many are in use (`exists_unused`).
-/

set_option autoImplicit false

/-- The open files of a process, by descriptor. -/
@[ext] structure Descriptors (φ : Type) where
  /-- The open file of each descriptor. -/
  file : ℕ → Option φ
  /-- All descriptors from some number on are free. -/
  finite : ∃ bound, ∀ fd, bound ≤ fd → file fd = none

namespace Descriptors

variable {φ : Type} (table : Descriptors φ)

/-- The table with one entry changed. -/
def set (fd : ℕ) (entry : Option φ) : Descriptors φ where
  file other := if other = fd then entry else table.file other
  finite := by
    obtain ⟨bound, hbound⟩ := table.finite
    refine ⟨max bound (fd + 1), fun other hother => ?_⟩
    have hle := Nat.max_le.mp hother
    rw [if_neg (by omega)]
    exact hbound other hle.1

theorem exists_unused : ∃ fd, table.file fd = none := by
  obtain ⟨bound, hbound⟩ := table.finite
  exact ⟨bound, hbound bound (Nat.le_refl bound)⟩

/-- The lowest descriptor that is not in use. -/
def unused : ℕ := Nat.find table.exists_unused

/-- `dup`, with the new descriptor. -/
def dup (fd : ℕ) : Option (ℕ × Descriptors φ) :=
  (table.file fd).map fun entry => (table.unused, table.set table.unused (some entry))

/-- `dup2`. -/
def dup2 (source target : ℕ) : Option (Descriptors φ) :=
  (table.file source).map fun entry => table.set target (some entry)

/-- `close`. -/
def close (fd : ℕ) : Descriptors φ := table.set fd none

variable {table}

@[simp] theorem file_set (fd : ℕ) (entry : Option φ) : (table.set fd entry).file fd = entry :=
  if_pos rfl

theorem file_set_of_ne {fd other : ℕ} (h : other ≠ fd) (entry : Option φ) :
    (table.set fd entry).file other = table.file other := if_neg h

theorem file_unused : table.file table.unused = none := Nat.find_spec table.exists_unused

/-- A descriptor in use is not the one `dup` takes. -/
theorem ne_unused {fd : ℕ} (h : table.file fd ≠ none) : fd ≠ table.unused := by
  rintro rfl
  exact h file_unused

theorem dup_eq_some {fd copy : ℕ} {next : Descriptors φ} :
    table.dup fd = some (copy, next) ↔
      table.file fd ≠ none ∧ copy = table.unused ∧ next = table.set copy (table.file fd) := by
  rw [dup]
  rcases table.file fd with _ | entry
  · simp
  · simp only [Option.map_some, Option.some.injEq, Prod.mk.injEq, ne_eq, reduceCtorEq,
      not_false_eq_true, true_and]
    constructor
    · rintro ⟨rfl, rfl⟩
      exact ⟨rfl, rfl⟩
    · rintro ⟨rfl, rfl⟩
      exact ⟨rfl, rfl⟩

theorem dup2_eq_some {source target : ℕ} {next : Descriptors φ} :
    table.dup2 source target = some next ↔
      table.file source ≠ none ∧ next = table.set target (table.file source) := by
  rw [dup2]
  rcases table.file source with _ | entry
  · simp
  · simp [eq_comm]

/-- A descriptor that was taken and is given up again. -/
theorem close_set {fd : ℕ} (hfree : table.file fd = none) (entry : Option φ) :
    (table.set fd entry).close fd = table := by
  ext1
  funext other
  by_cases hother : other = fd
  · rw [hother, close, file_set, hfree]
  · rw [close, file_set_of_ne hother, file_set_of_ne hother]

/-- What was put in two places and taken out of both again. -/
theorem close_set_set_set {fd copy : ℕ} (hfree : table.file copy = none)
    (moved : Option φ) :
    (((table.set copy (table.file fd)).set fd moved).set fd (table.file fd)).close copy = table := by
  ext1
  funext other
  by_cases hcopy : other = copy
  · rw [hcopy, close, file_set, hfree]
  · rw [close, file_set_of_ne hcopy]
    by_cases hfd : other = fd
    · rw [hfd, file_set]
    · rw [file_set_of_ne hfd, file_set_of_ne hfd, file_set_of_ne hcopy]

end Descriptors
