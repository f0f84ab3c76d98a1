import Mathlib.Logic.Function.Basic

/-!
# Programs that call on an environment

A program here is a tree of calls: it asks for an operation, continues with whatever answer comes
back, and ends with a result.  What the operations do is not part of it.  `Prog` is such trees,
with a constructor for loops, so that a program that runs for as long as its environment keeps it
going is still a finite object.

Two readings of a program are developed.

* `Prog.Run p t a` says that `p` can end with `a` after the calls and answers `t`, whatever the
  answers mean.  It is the reading for a single program whose environment may do anything.
* `Prog.Follows P p g Q` says that `p` keeps to the protocol `P` from the ghost state `g`: it only
  makes calls that `P` permits, and ends in `Q`.  It is the reading for a program among others,
  and `Lib/Pool` turns it into statements about all of them together.  The rules for it are
  `Follows.mono`, `Follows.bind`, `Follows.attempt`, `Follows.unroll`, and the definitional
  unfoldings.
-/

set_option autoImplicit false

/-- The operations of an environment, and the type of answer each of them gets. -/
structure Sig where
  /-- The calls. -/
  Op : Type
  /-- What a call is answered with. -/
  Ret : Op → Type

/-- A program over the operations of `S` with a result in the index type. -/
inductive Prog (S : Sig) : Type → Type 1 where
  /-- The end, with a result. -/
  | ret {α : Type} (a : α) : Prog S α
  /-- A call, and what follows its answer. -/
  | call {α : Type} (o : S.Op) (k : S.Ret o → Prog S α) : Prog S α
  /-- Turns of `body` from a loop state, until one ends with a value for the rest. -/
  | loop {α σ β : Type} (body : σ → Prog S (σ ⊕ β)) (init : σ) (k : β → Prog S α) : Prog S α

namespace Prog

variable {S : Sig} {α β γ σ : Type}

/-- One program after the other. -/
def bind {α β : Type} : Prog S α → (α → Prog S β) → Prog S β
  | .ret a, f => f a
  | .call o k, f => .call o fun r => bind (k r) f
  | .loop body init k, f => .loop body init fun b => bind (k b) f

instance : Monad (Prog S) where
  pure := ret
  bind := bind

/-- A single call. -/
@[simp] def perform (o : S.Op) : Prog S (S.Ret o) := .call o ret

/-- A loop with nothing after it. -/
def iterate (body : σ → Prog S (σ ⊕ β)) (init : σ) : Prog S β := .loop body init ret

/-- A program that can fail, and what comes after it when it does not. -/
def attempt {ε : Type} (p : Prog S (Except ε α)) (k : α → Prog S (Except ε β)) :
    Prog S (Except ε β) :=
  p.bind fun answer => match answer with
    | .error err => .ret (.error err)
    | .ok a => k a

/-- What a loop does next: one turn, and then the rest or the loop again. -/
def unroll (body : σ → Prog S (σ ⊕ β)) (init : σ) (k : β → Prog S α) : Prog S α :=
  bind (body init) fun turn => match turn with
    | .inl next => .loop body next k
    | .inr b => k b

@[simp] theorem pure_eq (a : α) : (pure a : Prog S α) = .ret a := rfl

@[simp] theorem bind_eq (p : Prog S α) (f : α → Prog S β) : p >>= f = bind p f := rfl

@[simp] theorem ret_bind (a : α) (f : α → Prog S β) : bind (.ret a) f = f a := rfl

@[simp] theorem call_bind (o : S.Op) (k : S.Ret o → Prog S α) (f : α → Prog S β) :
    bind (.call o k) f = .call o fun r => bind (k r) f := rfl

@[simp] theorem loop_bind (body : σ → Prog S (σ ⊕ γ)) (init : σ) (k : γ → Prog S α)
    (f : α → Prog S β) : bind (.loop body init k) f = .loop body init fun b => bind (k b) f := rfl

/-! ## Runs -/

/-- A call and its answer. -/
structure Called (S : Sig) where
  /-- The call. -/
  op : S.Op
  /-- The answer. -/
  ret : S.Ret op

/-- The program can end with the result after exactly these calls and answers. -/
inductive Run : {α : Type} → Prog S α → List (Called S) → α → Prop where
  /-- The end. -/
  | ret {α : Type} (a : α) : Run (.ret a) [] a
  /-- A call with some answer, and a run from there. -/
  | call {α : Type} {o : S.Op} {k : S.Ret o → Prog S α} {r : S.Ret o} {t : List (Called S)}
      {a : α} (h : Run (k r) t a) : Run (.call o k) (⟨o, r⟩ :: t) a
  /-- A turn of the loop, and a run from there. -/
  | loop {α σ β : Type} {body : σ → Prog S (σ ⊕ β)} {init : σ} {k : β → Prog S α}
      {t : List (Called S)} {a : α} (h : Run (unroll body init k) t a) :
      Run (.loop body init k) t a

theorem run_ret {a b : α} {t : List (Called S)} : Run (.ret a) t b ↔ t = [] ∧ b = a := by
  constructor
  · rintro ⟨⟩
    exact ⟨rfl, rfl⟩
  · rintro ⟨rfl, rfl⟩
    exact .ret b

theorem run_call {o : S.Op} {k : S.Ret o → Prog S α} {t : List (Called S)} {a : α} :
    Run (.call o k) t a ↔ ∃ r rest, t = ⟨o, r⟩ :: rest ∧ Run (k r) rest a := by
  constructor
  · rintro (_ | ⟨h⟩)
    exact ⟨_, _, rfl, h⟩
  · rintro ⟨r, rest, rfl, h⟩
    exact .call h

/-! ## Protocols -/

/-- How one participant may use the environment.  Its ghost state says where it stands; `pre` is
which calls it may make there, `allowed` which answers it can then get, and `next` where an answer
leaves it. -/
structure Protocol (S : Sig) (G : Type) where
  /-- The calls that may be made. -/
  pre : G → S.Op → Prop
  /-- The answers that can be got. -/
  allowed : G → (o : S.Op) → S.Ret o → Prop
  /-- Where an answer leaves the participant. -/
  next : G → (o : S.Op) → S.Ret o → G

variable {G : Type} (P : Protocol S G)

/-- The program keeps to the protocol from `g` on, and ends in `Q`. -/
def Follows {α : Type} : Prog S α → G → (α → G → Prop) → Prop
  | .ret a, g, Q => Q a g
  | .call o k, g, Q => P.pre g o ∧ ∀ r, P.allowed g o r → Follows (k r) (P.next g o r) Q
  | @Prog.loop _ _ σ _ body init k, g, Q =>
    ∃ I : σ → G → Prop, I init g ∧ ∀ s g, I s g → Follows (body s) g fun turn g =>
      match turn with
      | .inl next => I next g
      | .inr b => Follows (k b) g Q

namespace Follows

variable {P}

@[simp] theorem ret {a : α} {g : G} {Q : α → G → Prop} : Follows P (.ret a) g Q ↔ Q a g := Iff.rfl

@[simp] theorem call {o : S.Op} {k : S.Ret o → Prog S α} {g : G} {Q : α → G → Prop} :
    Follows P (.call o k) g Q ↔
      P.pre g o ∧ ∀ r, P.allowed g o r → Follows P (k r) (P.next g o r) Q := Iff.rfl

theorem mono {p : Prog S α} {g : G} {Q R : α → G → Prop} (h : Follows P p g Q)
    (hQR : ∀ a g, Q a g → R a g) : Follows P p g R := by
  induction p generalizing g with
  | ret a => exact hQR a g h
  | call o k ih => exact ⟨h.1, fun r hr => ih r (h.2 r hr) hQR⟩
  | loop body init k ihbody ihk =>
    obtain ⟨I, hinit, hturn⟩ := h
    refine ⟨I, hinit, fun s g hI => ihbody s (hturn s g hI) ?_⟩
    rintro (next | b) g' hpost
    · exact hpost
    · exact ihk b hpost hQR

/-- **Sequencing.** -/
theorem bind {p : Prog S α} {f : α → Prog S β} {g : G} {Q : β → G → Prop}
    (h : Follows P p g fun a g => Follows P (f a) g Q) : Follows P (p.bind f) g Q := by
  induction p generalizing g with
  | ret a => exact h
  | call o k ih => exact ⟨h.1, fun r hr => ih r (h.2 r hr)⟩
  | loop body init k ihbody ihk =>
    obtain ⟨I, hinit, hturn⟩ := h
    refine ⟨I, hinit, fun s g hI => (hturn s g hI).mono ?_⟩
    rintro (next | b) g' hpost
    · exact hpost
    · exact ihk b hpost

/-- **Early return.**  A failure ends the program where it is. -/
theorem attempt {ε : Type} {p : Prog S (Except ε α)} {k : α → Prog S (Except ε β)} {g : G}
    {Q : Except ε β → G → Prop}
    (h : Follows P p g fun answer g => match answer with
      | .error err => Q (.error err) g
      | .ok a => Follows P (k a) g Q) : Follows P (p.attempt k) g Q := by
  refine bind (h.mono ?_)
  rintro (err | a) g' hpost
  · exact hpost
  · exact hpost

/-- **One turn of a loop** keeps to the protocol when the loop does. -/
theorem unroll {body : σ → Prog S (σ ⊕ β)} {init : σ} {k : β → Prog S α} {g : G}
    {Q : α → G → Prop} (h : Follows P (.loop body init k) g Q) :
    Follows P (Prog.unroll body init k) g Q := by
  obtain ⟨I, hinit, hturn⟩ := h
  refine bind ((hturn init g hinit).mono ?_)
  rintro (next | b) g' hpost
  · exact ⟨I, hpost, hturn⟩
  · exact hpost

/-- **Loops.**  An invariant of the turns carries the loop. -/
theorem iterate {body : σ → Prog S (σ ⊕ β)} {init : σ} {g : G} {Q : β → G → Prop}
    (I : σ → G → Prop) (hinit : I init g)
    (hturn : ∀ s g, I s g → Follows P (body s) g fun turn g =>
      match turn with
      | .inl next => I next g
      | .inr b => Q b g) : Follows P (Prog.iterate body init) g Q :=
  ⟨I, hinit, fun s g hI => (hturn s g hI).mono fun turn _ hpost => by
    cases turn with
    | inl next => exact hpost
    | inr b => exact hpost⟩

end Follows

end Prog
