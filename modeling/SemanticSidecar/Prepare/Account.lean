import SemanticSidecar.Lib.Ensures
import SemanticSidecar.Prepare.Acquire

/-!
# The account of a call

One call of `acquire`, and everything that there is to say about the calls it has made of its
surroundings: `CallAccount` has the events with what they should show, the bytes the server has
sent, the bytes the disk has taken, and the partial files.  `accountOf` reads it off a run.

`anything` is surroundings that answer as they like: any chunks, any clock, and a failure of any
call.  A read of the body gets no more than it asks for, and that is all they promise.

The account is a fold over the calls, one after the other, and what is proved about a run is proved
as an invariant of this fold: at any moment the call has some account, and goes on from there with
whatever it is answered, as long as the answer `Fits`.  The disk has taken what it says it has
taken.  A write that fails may have written a part, and this part counts.

A count of bytes is noted with every event, namely the bytes that the server had sent by then.  This
is not in the event itself, and is what the count in the event is compared with.
-/

set_option autoImplicit false

namespace SemanticSidecar

open Prog (Called)

/-- The result of the call, as the caller of `acquire_locked` sees it. -/
def Prepared.ofCall (result : Except PrepareError Prepared) : Except String Prepared :=
  result.mapError PrepareError.message

/-- What one call has come to. -/
structure CallAccount where
  /-- The events, each with the number of bytes the server had sent by then. -/
  events : List (PrepareEvent × ℕ)
  /-- What the server has sent. -/
  body : List UInt8
  /-- How many bytes the disk has taken. -/
  written : ℕ
  /-- The partial files that have been made. -/
  partials : List String

/-- How much of what is written the disk has taken. -/
def diskBytes (o : PrepareOp) (r : o.Ret) : ℕ :=
  match o, r with
  | .file (.write _ bytes), .ok () => bytes.length
  | .file (.write _ bytes), .error err => (bytes.take err.written).length
  | _, _ => 0

namespace CallAccount

variable (acc : CallAccount)

/-- With one more event. -/
def emitted (event : PrepareEvent) : CallAccount :=
  { acc with events := acc.events ++ [(event, acc.body.length)] }

/-- With one more chunk from the server. -/
def sent (chunk : List UInt8) : CallAccount := { acc with body := acc.body ++ chunk }

/-- With one more write. -/
def wrote (count : ℕ) : CallAccount := { acc with written := acc.written + count }

/-- With one more partial file. -/
def created (name : String) : CallAccount := { acc with partials := acc.partials ++ [name] }

/-- With one more call. -/
def next (o : PrepareOp) (r : o.Ret) : CallAccount :=
  match o, r with
  | .emit event, () => acc.emitted event
  | .readBody _, .ok chunk => acc.sent chunk
  | .file (.write h bytes), r => acc.wrote (diskBytes (.file (.write h bytes)) r)
  | .file (.createTemp before after), .ok (random, _) =>
    acc.created (Files.tempName before random after)
  | _, _ => acc

end CallAccount

/-- Nothing yet. -/
def CallAccount.start : CallAccount := ⟨[], [], 0, []⟩

/-- What the calls come to. -/
def accountOf (t : List (Called prepareSig)) : CallAccount :=
  t.foldl (fun acc call => acc.next call.op call.ret) .start

theorem accountOf_concat (t : List (Called prepareSig)) (o : PrepareOp) (r : o.Ret) :
    accountOf (t ++ [⟨o, r⟩]) = (accountOf t).next o r := by
  rw [accountOf, List.foldl_append]
  rfl

/-- A read of the body gets no more than it asks for. -/
def Fits (o : PrepareOp) (r : o.Ret) : Prop :=
  match o, r with
  | .readBody limit, .ok chunk => chunk.length ≤ limit
  | _, _ => True

/-- Surroundings that answer as they like. -/
def anything : Prog.Env prepareSig CallAccount := fun acc o r acc' => Fits o r ∧ acc' = acc.next o r

theorem steps_anything {t : List (Called prepareSig)} (hfits : ∀ call ∈ t, Fits call.op call.ret)
    (before : List (Called prepareSig)) :
    Prog.Steps anything (accountOf before) t (accountOf (before ++ t)) := by
  induction t generalizing before with
  | nil =>
    rw [List.append_nil]
    exact .nil _
  | cons call rest ih =>
    have hrest := ih (fun other hother => hfits other (List.mem_cons_of_mem _ hother))
      (before ++ [call])
    rw [List.append_assoc, List.singleton_append] at hrest
    exact .cons ⟨hfits call List.mem_cons_self, accountOf_concat before call.op call.ret⟩ hrest

end SemanticSidecar
