import Mathlib.Data.List.Basic

/-!
# Loops that call out

A loop over a list that asks its surroundings about every item, one after the other, and collects
the answers in an accumulator.  The surroundings have a state: an answer may depend on everything
that was asked before.

`Callouts.outcomes` is the list of the answers with what was asked, and `Callouts.run_loop` says
that such a loop comes to a fold over it.  So what remains to be said about a loop is a statement
about a fold over arbitrary outcomes, in which the surroundings do not occur any more.

The loop is given as a function with its two equations, for the empty list and for one more item, so
it need not be written in any particular way.  `log_after` is for surroundings that keep a log: what
a loop adds to it is the answers in order, and the log before it stays.

An asked question cannot be taken back and there is no early exit.  A loop that stops at an answer
is two loops here, the one that asks and what is done after it.
-/

set_option autoImplicit false

namespace Callouts

variable {σ α β γ ε : Type} (answer : σ → α → β) (note : σ → α → β → σ)

/-- One question. -/
def call (a : α) : StateM σ β := fun s => (answer s a, note s a (answer s a))

/-- The answers to a list of questions. -/
def outcomes : List α → σ → List (α × β)
  | [], _ => []
  | a :: rest, s => (a, answer s a) :: outcomes rest (note s a (answer s a))

/-- The surroundings after some questions and answers. -/
def after (s : σ) (answered : List (α × β)) : σ :=
  answered.foldl (fun s outcome => note s outcome.1 outcome.2) s

theorem outcomes_fst (questions : List α) (s : σ) :
    (outcomes answer note questions s).map Prod.fst = questions := by
  induction questions generalizing s with
  | nil => rfl
  | cons a rest ih => rw [outcomes, List.map_cons, ih]

/-- **A loop that calls out is a fold over the outcomes.** -/
theorem run_loop (loop : List α → γ → StateM σ γ) {collect : γ → α → β → γ}
    (hnil : ∀ acc, loop [] acc = pure acc)
    (hcons : ∀ a rest acc, loop (a :: rest) acc =
      call answer note a >>= fun b => loop rest (collect acc a b))
    (questions : List α) (acc : γ) (s : σ) :
    (loop questions acc).run s =
      ((outcomes answer note questions s).foldl
          (fun acc outcome => collect acc outcome.1 outcome.2) acc,
        after note s (outcomes answer note questions s)) := by
  induction questions generalizing acc s with
  | nil =>
    rw [hnil]
    rfl
  | cons a rest ih =>
    rw [hcons]
    exact ih _ _

/-- A log that every question is noted in. -/
theorem log_after (log : σ → List ε) (event : α → β → ε)
    (hlog : ∀ s a b, log (note s a b) = log s ++ [event a b]) (s : σ)
    (answered : List (α × β)) :
    log (after note s answered) = log s ++ answered.map fun outcome => event outcome.1 outcome.2 := by
  induction answered generalizing s with
  | nil => exact (List.append_nil _).symm
  | cons outcome rest ih =>
    refine (ih _).trans ?_
    rw [hlog, List.append_assoc, List.singleton_append, List.map_cons]

end Callouts
