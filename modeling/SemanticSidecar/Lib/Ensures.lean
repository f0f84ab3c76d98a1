import SemanticSidecar.Lib.Prog

/-!
# What a program ensures in an environment with a state

`Lib/Prog` leaves open what a call does.  Here the environment has a state, and an `Env` says
which answers a call can get in a state and what becomes of the state with them; it may leave room
for more than one answer and, where others are about, for more than one state.

`Ensures E p s Q` says that however the environment answers, `p` started in `s` can only end in
`Q`.  It is a weakest precondition, with the usual rules: `Ensures.mono`, `Ensures.bind`,
`Ensures.andThen`, `Ensures.iterate`.  `Ensures.sound` is what it says about a run, and
`Steps.simulates` carries a run from one environment to another.

The rules are the ones a proof about a program goes by, from its last statement to its first, or
from a loop to its turns with an invariant.  `Ensures.keeps` is for a property that every answer
preserves, whatever the program does, and `Ensures.and` puts two results together.

As a program may loop for as long as it is answered, nothing is said about whether it ends.  A
result holds at the end of every run that has one.
-/

set_option autoImplicit false

namespace Prog

variable {S : Sig} {α β γ ρ : Type} {σ τ : Type*}

/-- What a call can be answered with in a state, and the states it can leave. -/
abbrev Env (S : Sig) (σ : Type*) := σ → (o : S.Op) → S.Ret o → σ → Prop

/-- The calls with their answers lead from one state to the other. -/
inductive Steps (E : Env S σ) : σ → List (Called S) → σ → Prop where
  /-- No calls. -/
  | nil (s : σ) : Steps E s [] s
  /-- A call that the environment answers, and the calls after it. -/
  | cons {s s' s'' : σ} {o : S.Op} {r : S.Ret o} {t : List (Called S)} (h : E s o r s')
      (rest : Steps E s' t s'') : Steps E s (⟨o, r⟩ :: t) s''

/-- Started in this state, the program can only end in `Q`. -/
def Ensures (E : Env S σ) {α : Type} : Prog S α → σ → (α → σ → Prop) → Prop
  | .ret a, s, Q => Q a s
  | .call o k, s, Q => ∀ r s', E s o r s' → Ensures E (k r) s' Q
  | @Prog.loop _ _ ρ _ body init k, s, Q =>
    ∃ I : ρ → σ → Prop, I init s ∧ ∀ x s, I x s → Ensures E (body x) s fun turn s =>
      match turn with
      | .inl next => I next s
      | .inr b => Ensures E (k b) s Q

namespace Ensures

variable {E : Env S σ}

theorem mono {p : Prog S α} {s : σ} {Q R : α → σ → Prop} (h : Ensures E p s Q)
    (hQR : ∀ a s, Q a s → R a s) : Ensures E p s R := by
  induction p generalizing s with
  | ret a => exact hQR a s h
  | call o k ih => exact fun r s' hstep => ih r (h r s' hstep) hQR
  | loop body init k ihbody ihk =>
    obtain ⟨I, hinit, hturn⟩ := h
    refine ⟨I, hinit, fun x s hI => ihbody x (hturn x s hI) ?_⟩
    rintro (next | b) s' hpost
    · exact hpost
    · exact ihk b hpost hQR

/-- **Sequencing.** -/
theorem bind {p : Prog S α} {f : α → Prog S β} {s : σ} {Q : β → σ → Prop}
    (h : Ensures E p s fun a s => Ensures E (f a) s Q) : Ensures E (p.bind f) s Q := by
  induction p generalizing s with
  | ret a => exact h
  | call o k ih => exact fun r s' hstep => ih r (h r s' hstep)
  | loop body init k ihbody ihk =>
    obtain ⟨I, hinit, hturn⟩ := h
    refine ⟨I, hinit, fun x s hI => (hturn x s hI).mono ?_⟩
    rintro (next | b) s' hpost
    · exact hpost
    · exact ihk b hpost

/-- A program, and what is known of its end, before the rest. -/
theorem andThen {p : Prog S α} {f : α → Prog S β} {s : σ} {R : α → σ → Prop} {Q : β → σ → Prop}
    (h : Ensures E p s R) (hrest : ∀ a s, R a s → Ensures E (f a) s Q) :
    Ensures E (p.bind f) s Q :=
  bind (h.mono hrest)

/-- **One turn of a loop** ends where the loop may go on. -/
theorem unroll {body : ρ → Prog S (ρ ⊕ β)} {init : ρ} {k : β → Prog S α} {s : σ}
    {Q : α → σ → Prop} (h : Ensures E (.loop body init k) s Q) :
    Ensures E (Prog.unroll body init k) s Q := by
  obtain ⟨I, hinit, hturn⟩ := h
  refine bind ((hturn init s hinit).mono ?_)
  rintro (next | b) s' hpost
  · exact ⟨I, hpost, hturn⟩
  · exact hpost

/-- **Loops.**  An invariant of the turns carries the loop. -/
theorem iterate {body : ρ → Prog S (ρ ⊕ β)} {init : ρ} {s : σ} {Q : β → σ → Prop}
    (I : ρ → σ → Prop) (hinit : I init s)
    (hturn : ∀ x s, I x s → Ensures E (body x) s fun turn s =>
      match turn with
      | .inl next => I next s
      | .inr b => Q b s) : Ensures E (Prog.iterate body init) s Q := by
  refine ⟨I, hinit, fun x s hI => (hturn x s hI).mono ?_⟩
  rintro (next | b) s' hpost
  · exact hpost
  · exact hpost

/-- What every call keeps, every program keeps. -/
theorem keeps {I : σ → Prop} (hstep : ∀ s o r s', I s → E s o r s' → I s') (p : Prog S α) {s : σ}
    (hs : I s) : Ensures E p s fun _ s' => I s' := by
  induction p generalizing s with
  | ret a => exact hs
  | call o k ih => exact fun r s' h => ih r (hstep s o r s' hs h)
  | loop body init k ihbody ihk =>
    refine ⟨fun _ s => I s, hs, fun x s hI => (ihbody x hI).mono ?_⟩
    rintro (next | b) s' hpost
    · exact hpost
    · exact ihk b hpost

/-- Two things a program ensures. -/
theorem and {p : Prog S α} {s : σ} {Q R : α → σ → Prop} (hQ : Ensures E p s Q)
    (hR : Ensures E p s R) : Ensures E p s fun a s' => Q a s' ∧ R a s' := by
  induction p generalizing s with
  | ret a => exact ⟨hQ, hR⟩
  | call o k ih => exact fun r s' h => ih r (hQ r s' h) (hR r s' h)
  | loop body init k ihbody ihk =>
    obtain ⟨I, hI, hturn⟩ := hQ
    obtain ⟨J, hJ, hturn'⟩ := hR
    refine ⟨fun x s => I x s ∧ J x s, ⟨hI, hJ⟩, fun x s h => ?_⟩
    refine (ihbody x (hturn x s h.1) (hturn' x s h.2)).mono ?_
    rintro (next | b) s' ⟨hpost, hpost'⟩
    · exact ⟨hpost, hpost'⟩
    · exact ihk b hpost hpost'

/-- **What is ensured holds at the end of every run.** -/
theorem sound {p : Prog S α} {s s' : σ} {Q : α → σ → Prop} (h : Ensures E p s Q)
    {t : List (Called S)} {a : α} (hrun : Run p t a) (hsteps : Steps E s t s') : Q a s' := by
  induction hrun generalizing s with
  | ret a =>
    cases hsteps
    exact h
  | call hrun ih =>
    rcases hsteps with _ | ⟨hstep, hrest⟩
    exact ih (h _ _ hstep) hrest
  | loop hrun ih => exact ih h.unroll hsteps

end Ensures

/-- A run in one environment is a run in another that can do what it does, seen through the
calls made so far.  The calls may be known to come about only in some places. -/
theorem Steps.simulates {E : Env S σ} {F : Env S τ} {P : List (Called S) → Called S → Prop}
    (seen : List (Called S) → σ → τ)
    (hstep : ∀ before s o r s', P before ⟨o, r⟩ → E s o r s' →
      F (seen before s) o r (seen (before ++ [⟨o, r⟩]) s'))
    {s s' : σ} {t : List (Called S)} (h : Steps E s t s') (before : List (Called S))
    (hP : ∀ front call back, t = front ++ call :: back → P (before ++ front) call) :
    Steps F (seen before s) t (seen (before ++ t) s') := by
  induction h generalizing before with
  | nil s =>
    rw [List.append_nil]
    exact .nil _
  | @cons s s' s'' o r t h rest ih =>
    have hfirst := hP [] ⟨o, r⟩ t rfl
    rw [List.append_nil] at hfirst
    have hrest := ih (before ++ [⟨o, r⟩]) fun front call back heq => by
      have hcall := hP (⟨o, r⟩ :: front) call back (by rw [heq, List.cons_append])
      rwa [List.append_assoc, List.singleton_append]
    rw [List.append_assoc, List.singleton_append] at hrest
    exact .cons (hstep before s o r s' hfirst h) hrest

end Prog
