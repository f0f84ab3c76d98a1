import SemanticSidecar.Lib.Prog

/-!
# Programs whose calls are recorded

A program in the monad `Recorded S ε` calls the operations of `S` and may give up with an `ε`.  Its
host answers by what has been called before, which is any way of answering there is, and every call
goes into a record with its answer.

`Yields P x log Q` says that `x`, started with this record, does not give up, calls nothing outside
`P`, and ends in `Q`.  The rules are `Yields.pure`, `Yields.ask`, `Yields.bind` and `Yields.mono`.

`Recorded` differs from the programs of `Lib/Prog` in that it runs: it is a state monad with errors
over the record, so that a function that is written over any monad can be used in it as it is.  A
host is a function of the record and the question, which makes a run deterministic and still leaves
open every behaviour there is.

`Yields.askAny` is for a question whose answer does not matter, and `run_bind` takes a run apart at
a bind, for the case that the record has to be known call by call.
-/

set_option autoImplicit false

/-- Programs over the operations of `S` that may give up. -/
abbrev Recorded (S : Sig) (ε : Type) : Type → Type := ExceptT ε (StateM (List (Prog.Called S)))

namespace Recorded

variable {S : Sig} {ε α β : Type}

/-- A host, which answers by what has been called. -/
abbrev Host (S : Sig) : Type := List (Prog.Called S) → (o : S.Op) → S.Ret o

/-- One call. -/
def ask (host : Host S) (o : S.Op) : Recorded S ε (S.Ret o) :=
  ExceptT.mk fun log => (.ok (host log o), log ++ [⟨o, host log o⟩])

/-- A program that goes on after one that has ended. -/
theorem run_bind {x : Recorded S ε α} {f : α → Recorded S ε β} {log log' : List (Prog.Called S)}
    {a : α} (h : x.run log = (.ok a, log')) : (x >>= f).run log = (f a).run log' := by
  rw [ExceptT.run_bind]
  change StateT.bind _ _ log = _
  rw [StateT.bind, h]
  rfl

/-- From this record the program ends in `Q` and calls nothing outside `P`. -/
def Yields (P : S.Op → Prop) (x : Recorded S ε α) (log : List (Prog.Called S)) (Q : α → Prop) :
    Prop :=
  ∃ (a : α) (calls : List (Prog.Called S)), x.run log = (.ok a, log ++ calls) ∧
    (∀ call ∈ calls, P call.op) ∧ Q a

variable {P : S.Op → Prop} {log : List (Prog.Called S)} {Q : β → Prop}

namespace Yields

theorem pure {b : β} (h : Q b) : Yields P (Pure.pure b : Recorded S ε β) log Q := by
  refine ⟨b, [], ?_, fun _ hmem => absurd hmem List.not_mem_nil, h⟩
  rw [List.append_nil]
  rfl

theorem mono {R : β → Prop} {x : Recorded S ε β} (h : Yields P x log R) (hRQ : ∀ b, R b → Q b) :
    Yields P x log Q := by
  obtain ⟨b, calls, hrun, hcalls, hb⟩ := h
  exact ⟨b, calls, hrun, hcalls, hRQ b hb⟩

/-- **A call**, of a permitted operation. -/
theorem ask {host : Host S} {o : S.Op} {R : S.Ret o → Prop} (ho : P o) (h : R (host log o)) :
    Yields P (Recorded.ask (ε := ε) host o) log R := by
  refine ⟨host log o, [⟨o, host log o⟩], rfl, fun call hmem => ?_, h⟩
  rw [List.mem_singleton.mp hmem]
  exact ho

/-- **Sequencing.** -/
theorem bind {x : Recorded S ε α} {f : α → Recorded S ε β} {R : α → Prop} (h : Yields P x log R)
    (hrest : ∀ a log', R a → Yields P (f a) log' Q) : Yields P (x >>= f) log Q := by
  obtain ⟨a, calls, hrun, hcalls, ha⟩ := h
  obtain ⟨b, calls', hrun', hcalls', hb⟩ := hrest a (log ++ calls) ha
  refine ⟨b, calls ++ calls', ?_, fun call hmem => ?_, hb⟩
  · rw [run_bind hrun, hrun', List.append_assoc]
  · exact (List.mem_append.mp hmem).elim (hcalls call) (hcalls' call)

/-- A call, and what comes after it whatever the answer is. -/
theorem askAny {host : Host S} {o : S.Op} {f : S.Ret o → Recorded S ε β} (ho : P o)
    (hrest : ∀ r log', Yields P (f r) log' Q) : Yields P (Recorded.ask host o >>= f) log Q :=
  bind (R := fun _ => True) (ask ho True.intro) fun r log' _ => hrest r log'

end Yields

end Recorded
