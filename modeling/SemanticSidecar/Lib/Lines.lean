import Mathlib.Data.List.Basic

/-!
# Cutting a stream into lines

`Lines.cut nl s` splits a whole stream `s` at the separator `nl`.  It gives back the lines that a
separator ends and, apart, the unterminated rest, because what a reader may do with the rest
depends on why the stream ended.

The two lemmas `Lines.cut_append_separator` and `Lines.cut_of_notMem` are the only ways anything
below looks inside: a stream either starts with a complete line or has no separator at all.

Both lemmas are rewrite rules, with the condition on the side of the text that is looked at.  So a
proof by recursion on the stream has two cases, and a third one never comes up: a stream whose first
line is not known to end.

Elements are of any type with decidable equality.  Whether the last line of a stream without a
separator behind it counts as a line is for the reader to decide.
-/

set_option autoImplicit false

namespace Lines

variable {α : Type} [DecidableEq α]

/-- The lines of a stream that a separator ends, and what follows the last separator. -/
def cut (nl : α) : List α → List (List α) × List α
  | [] => ([], [])
  | b :: rest =>
    if b = nl then ([] :: (cut nl rest).1, (cut nl rest).2)
    else
      match cut nl rest with
      | ([], tail) => ([], b :: tail)
      | (line :: lines, tail) => ((b :: line) :: lines, tail)

theorem cut_append_separator {nl : α} {line : List α} (h : nl ∉ line) (rest : List α) :
    cut nl (line ++ nl :: rest) = (line :: (cut nl rest).1, (cut nl rest).2) := by
  induction line with
  | nil => simp [cut]
  | cons b line ih =>
    rw [List.mem_cons, not_or] at h
    rw [List.cons_append, cut, if_neg (Ne.symm h.1), ih h.2]

theorem cut_of_notMem {nl : α} {tail : List α} (h : nl ∉ tail) : cut nl tail = ([], tail) := by
  induction tail with
  | nil => rfl
  | cons b tail ih =>
    rw [List.mem_cons, not_or] at h
    rw [cut, if_neg (Ne.symm h.1), ih h.2]

end Lines
