import SemanticSidecar.Prepare.Names

/-!
# What the processes of `prepare` keep to

The protocol of the programs of `Prepare/Acquire`, one process at a time.

An `acquire` has a *standing*: how far it is with the cache lock, what it knows about the file at
the final path, and the partial file it is filling.  It only looks at the final path, removes
what is there, creates a partial and renames it while it holds the lock; it removes only what it
has read and found wrong, goes to the network only when it has found nothing, and renames only
what it has received and found right.

A cleanup has a standing too: what the scan has listed, and how its attempts at the listed locks
went.  It removes only listed partials, after trying every listed lock, and none whose model has a
lock it could not take.
-/

set_option autoImplicit false

namespace SemanticSidecar

open Prog (perform Follows)

/-- How far an `acquire` is with the cache lock. -/
inductive LockStage where
  /-- Its file has not been opened. -/
  | unopened
  /-- Its file is open. -/
  | opened (lock : Handle)
  /-- The lock is taken. -/
  | held (lock : Handle)
  /-- The lock was taken and has been given up. -/
  | released (lock : Handle)
  deriving DecidableEq

/-- What an `acquire` has found out about the file at the final path. -/
inductive Known where
  /-- It has not looked. -/
  | nothing
  /-- There is none. -/
  | absent
  /-- It could not be told whether there is one. -/
  | unseen
  /-- It could not be read. -/
  | unreadable
  /-- It has these bytes. -/
  | contents (bytes : List UInt8)

/-- A partial file, and what has been written to it. -/
structure Writing where
  /-- The partial file. -/
  temp : TempFile
  /-- What has been written. -/
  bytes : List UInt8
  /-- Its removal has been attempted. -/
  dropped : Bool

/-- Where an `acquire` stands. -/
structure Acquiring where
  /-- What it is to make present. -/
  request : PrepareRequest
  /-- How far it is with the lock. -/
  lock : LockStage
  /-- The file at the final path as it is being read, and what has been read of it. -/
  reading : Option (Handle × List UInt8)
  /-- What it knows of the final path. -/
  known : Known
  /-- The HTTP request has gone out. -/
  requested : Bool
  /-- A partial file has been made. -/
  created : Bool
  /-- Its partial file, while it has one. -/
  temp : Option Writing
  /-- What the server has sent. -/
  received : List UInt8

/-- Where a cleanup stands. -/
structure Cleaning where
  /-- The names that the scan has come across. -/
  listed : List String
  /-- The scan has come to its end. -/
  ended : Bool
  /-- The lock that has been opened and not been tried yet. -/
  pending : Option (String × Handle)
  /-- The locks tried so far, with the handle of those that could be taken. -/
  tried : List (String × Option Handle)
  /-- The locks are being given up. -/
  releasing : Bool

/-- Where a process stands. -/
inductive Standing where
  /-- In an `acquire`. -/
  | acquiring (a : Acquiring)
  /-- In a cleanup. -/
  | cleaning (c : Cleaning)

/-- Where a process starts. -/
def Standing.enter : PrepareJob → Standing
  | .acquire request =>
    .acquiring ⟨request, .unopened, none, .nothing, false, false, none, []⟩
  | .clean => .cleaning ⟨[], false, none, [], false⟩

section

variable (sha256 : List UInt8 → List UInt8) (cacheDir : String)

/-- The bytes are what the request pins. -/
def verifies (request : PrepareRequest) (bytes : List UInt8) : Bool :=
  eqIgnoreAsciiCase (hex (sha256 bytes)) request.sha256

/-- What of the body an answer brings. -/
def bodyOf (o : PrepareOp) (r : o.Ret) : List UInt8 :=
  match o, r with
  | .readBody _, .ok bytes => bytes
  | _, _ => []

/-! ## Acquisition -/

namespace Acquiring

variable (a : Acquiring)

/-- It holds the cache lock. -/
def Holds : Prop := ∃ lock, a.lock = .held lock

/-- It has closed a file. -/
def closed (h : Handle) : Acquiring :=
  { a with
    lock := if a.lock = .opened h then .unopened else a.lock
    reading := a.reading.filter (·.1 != h)
    temp := a.temp.filter (·.temp.file != h) }

/-- It has read some more of the file at the final path; no bytes mean that this was all. -/
def hasRead (h : Handle) (chunk : List UInt8) : Acquiring :=
  match a.reading with
  | some (_, bytes) =>
    if chunk.isEmpty then { a with known := .contents bytes }
    else { a with reading := some (h, bytes ++ chunk) }
  | none => a

/-- It has attempted to remove its partial file. -/
def attempted : Acquiring := { a with temp := a.temp.map ({ · with dropped := true }) }

/-- It has written to its partial file. -/
def wrote (bytes : List UInt8) : Acquiring :=
  { a with temp := a.temp.map fun w => { w with bytes := w.bytes ++ bytes } }

/-- The calls it may make. -/
def pre (o : PrepareOp) : Prop :=
  match o with
  | .file (.openOrCreate name) => name = lockName a.request.modelId ∧ a.lock = .unopened
  | .file (.tryLock h) | .file (.lock h) =>
    a.lock = .opened h ∧ a.reading = none ∧ a.known = .nothing ∧ a.temp = none
  | .file (.unlock h) => a.lock = .held h ∧ a.temp = none
  | .file (.close h) =>
    a.lock ≠ .held h ∧ ∀ w, a.temp = some w → w.temp.file = h → w.dropped = true
  | .file (.pathExists name) =>
    name = a.request.fileName ∧ a.Holds ∧ a.known = .nothing ∧ a.reading = none ∧ a.temp = none
  | .file (.openRead name) =>
    name = a.request.fileName ∧ a.Holds ∧ a.known = .nothing ∧ a.reading = none ∧ a.temp = none
  | .file (.read h _) => a.Holds ∧ a.temp = none ∧ ∃ bytes, a.reading = some (h, bytes)
  | .file (.remove name) =>
    a.Holds ∧ a.reading = none ∧
      match a.temp with
      | some w => name = w.temp.name
      | none => name = a.request.fileName ∧
          ∃ bytes, a.known = .contents bytes ∧ verifies sha256 a.request bytes = false
  | .openRequest _ _ => a.Holds ∧ (a.known = .absent ∨ a.known = .unseen) ∧ a.requested = false
  | .file (.createTemp before after) =>
    before = partialPrefix a.request.modelId ∧ after = partialSuffix ∧ a.Holds ∧
      a.reading = none ∧ a.created = false ∧ a.temp = none
  | .file (.write h _) => a.Holds ∧ a.reading = none ∧ ∃ w, a.temp = some w ∧ w.temp.file = h
  | .file (.rename source target) =>
    target = a.request.fileName ∧ a.Holds ∧ a.reading = none ∧
      ∃ w, a.temp = some w ∧ source = w.temp.name ∧ w.bytes = a.received ∧
        verifies sha256 a.request a.received = true
  | .file .createDirAll | .file (.flush _) | .file .availableSpace => True
  | .file _ => False
  | .emit _ | .awaitResponse | .readBody _ | .progressDue => True

/-- A handle that comes back is not the lock's. -/
def allowed (o : PrepareOp) (r : o.Ret) : Prop :=
  match o, r with
  | .file (.openRead _), .ok h => a.lock ≠ .held h
  | .file (.createTemp _ _), .ok (_, h) => a.lock ≠ .held h
  | _, _ => True

/-- Where a call leaves it. -/
def next (o : PrepareOp) (r : o.Ret) : Acquiring :=
  match o, r with
  | .file (.openOrCreate _), .ok h => { a with lock := .opened h }
  | .file (.tryLock h), .ok () => { a with lock := .held h }
  | .file (.lock h), .ok () => { a with lock := .held h }
  | .file (.unlock h), _ => { a with lock := .released h }
  | .file (.close h), () => a.closed h
  | .file (.pathExists _), .ok there => if there then a else { a with known := .absent }
  | .file (.pathExists _), .error _ => { a with known := .unseen }
  | .file (.openRead _), .ok h => { a with reading := some (h, []) }
  | .file (.openRead _), .error _ => { a with known := .unreadable }
  | .file (.read h _), .ok chunk => a.hasRead h chunk
  | .file (.read _ _), .error _ => { a with known := .unreadable }
  | .file (.remove _), .ok () =>
    if a.temp.isSome then a.attempted else { a with known := .absent }
  | .file (.remove _), .error _ => a.attempted
  | .openRequest _ _, () => { a with requested := true }
  | .readBody _, .ok chunk => { a with received := a.received ++ chunk }
  | .file (.createTemp before after), .ok (random, h) =>
    { a with
      created := true
      temp := some ⟨⟨Files.tempName before random after, h⟩, [], false⟩ }
  | .file (.write _ bytes), .ok () => a.wrote bytes
  | .file (.write _ bytes), .error err => a.wrote (bytes.take err.written)
  | .file (.rename _ _), .ok () => { a with known := .contents a.received, temp := none }
  | _, _ => a

/-- A call does not change what is asked for. -/
theorem next_request (o : PrepareOp) (r : o.Ret) : (a.next o r).request = a.request := by
  unfold next
  split
  case h_6 => split <;> rfl
  case h_10 =>
    unfold hasRead
    split
    · split <;> rfl
    · rfl
  case h_12 => split <;> rfl
  all_goals rfl

/-- What is not about files changes neither the lock nor what is known of the files. -/
theorem next_of_not_file {o : PrepareOp} (r : o.Ret) (hfile : ∀ fo, o ≠ .file fo) :
    (a.next o r).lock = a.lock ∧ (a.next o r).temp = a.temp ∧ (a.next o r).reading = a.reading ∧
      (a.next o r).known = a.known := by
  cases o with
  | file fo => exact absurd rfl (hfile fo)
  | readBody | awaitResponse =>
    rcases r with err | answer
    all_goals exact ⟨rfl, rfl, rfl, rfl⟩
  | emit | openRequest | progressDue => exact ⟨rfl, rfl, rfl, rfl⟩

theorem hasRead_received (h : Handle) (chunk : List UInt8) :
    (a.hasRead h chunk).received = a.received := by
  unfold hasRead
  split
  · split <;> rfl
  · rfl

/-- What it has received is what the answers brought. -/
theorem next_received (o : PrepareOp) (r : o.Ret) :
    (a.next o r).received = a.received ++ bodyOf o r := by
  cases o with
  | readBody limit =>
    rcases r with err | bytes
    · exact (List.append_nil _).symm
    · rfl
  | file fo =>
    show _ = a.received ++ []
    rw [List.append_nil]
    unfold next
    split
    case h_6 => split <;> rfl
    case h_10 => exact a.hasRead_received ..
    case h_11 => rfl
    case h_12 => split <;> rfl
    all_goals first | rfl | contradiction
  | awaitResponse => rcases r with err | offered <;> exact (List.append_nil _).symm
  | emit | openRequest | progressDue => exact (List.append_nil _).symm

/-- A partial file that has been made stays made. -/
theorem next_created (o : PrepareOp) (r : o.Ret) (h : a.created = true) :
    (a.next o r).created = true := by
  unfold next
  split
  case h_6 => split <;> exact h
  case h_10 =>
    unfold hasRead
    split
    · split <;> exact h
    · exact h
  case h_12 => split <;> exact h
  case h_16 => rfl
  all_goals exact h

/-- It knows that the right file is not there, or could not find out. -/
def Failing : Prop :=
  a.known ≠ .nothing ∧
    ∀ bytes, a.known = .contents bytes → verifies sha256 a.request bytes = false

/-- It may end with this. -/
def done : Except PrepareError Prepared → Prop
  | .ok prepared =>
    prepared.path = finalPath cacheDir a.request ∧ (∃ lock, a.lock = .released lock) ∧
      (∃ bytes, a.known = .contents bytes ∧ verifies sha256 a.request bytes = true) ∧
      (prepared.alreadyCached = true ∨ a.requested = true)
  | .error _ => a.lock = .unopened ∨ (∃ lock, a.lock = .released lock) ∧ a.Failing sha256

end Acquiring

/-! ## Cleanup -/

namespace Cleaning

variable (c : Cleaning)

/-- Every listed lock has been tried. -/
def TriedAll : Prop := ∀ name ∈ c.listed, isLockName name = true → ∃ r, (name, r) ∈ c.tried

/-- No lock that could not be taken stands against the removal of a partial. -/
def Condemns (name : String) : Prop :=
  ∀ path, (path, none) ∈ c.tried → ∃ modelId, modelOfPartial name = some modelId ∧
    modelId ≠ fileStem path

/-- The calls it may make. -/
def pre (o : PrepareOp) : Prop :=
  match o with
  | .file .readDir => c.listed = [] ∧ c.ended = false ∧ c.tried = []
  | .file .nextEntry => c.ended = false ∧ c.tried = []
  | .file (.openReadWrite name) => c.ended = true ∧ c.releasing = false ∧ isLockName name = true
  | .file (.tryLock h) => c.releasing = false ∧ ∃ name, c.pending = some (name, h)
  | .file (.remove name) =>
    c.ended = true ∧ c.releasing = false ∧ name ∈ c.listed ∧ isPartialName name = true ∧
      c.TriedAll ∧ c.Condemns name
  | .file (.unlock _) | .file (.close _) => True
  | _ => False

/-- A lock that is opened is opened through a handle that is not in use. -/
def allowed (o : PrepareOp) (r : o.Ret) : Prop :=
  match o, r with
  | .file (.openReadWrite _), .ok h => ∀ name, (name, some h) ∉ c.tried
  | _, _ => True

/-- Where a call leaves it. -/
def next (o : PrepareOp) (r : o.Ret) : Cleaning :=
  match o, r with
  | .file .nextEntry, .ok (some name) => { c with listed := c.listed ++ [name] }
  | .file .nextEntry, .ok none => { c with ended := true }
  | .file (.openReadWrite name), .ok h => { c with pending := some (name, h) }
  | .file (.openReadWrite name), .error _ => { c with tried := c.tried ++ [(name, none)] }
  | .file (.tryLock h), .ok () =>
    { c with tried := c.tried ++ (c.pending.map fun p => (p.1, some h)).toList, pending := none }
  | .file (.tryLock _), .error _ =>
    { c with tried := c.tried ++ (c.pending.map fun p => (p.1, none)).toList, pending := none }
  | .file (.unlock _), _ => { c with releasing := true }
  | .file (.close h), () =>
    { c with
      pending := c.pending.filter (·.2 != h)
      releasing := c.releasing || c.tried.any fun entry => entry.2 == some h }
  | _, _ => c

/-- What has been listed stays listed. -/
theorem listed_subset_next (o : PrepareOp) (r : o.Ret) : c.listed ⊆ (c.next o r).listed := by
  unfold next
  split
  case h_1 => exact List.subset_append_left _ _
  all_goals exact fun _ h => h

end Cleaning

/-- How a process of `prepare` uses its surroundings. -/
def prepareProtocol : Prog.Protocol prepareSig Standing where
  pre g o :=
    match g with
    | .acquiring a => a.pre sha256 o
    | .cleaning c => c.pre o
  allowed g o r :=
    match g with
    | .acquiring a => a.allowed o r
    | .cleaning c => c.allowed o r
  next g o r :=
    match g with
    | .acquiring a => .acquiring (a.next o r)
    | .cleaning c => .cleaning (c.next o r)

/-- Where a process may end, and with what. -/
def prepareDone : PrepareResult → Standing → Prop
  | .acquired result, .acquiring a => a.done sha256 cacheDir result
  | .cleaned _, .cleaning _ => True
  | _, _ => False

end

/-! ## The programs keep to it: acquisition -/

section

variable {sha256 : List UInt8 → List UInt8} {cacheDir : String}

namespace Acquiring

/-- Holding the lock, and knowing nothing yet. -/
def holding (request : PrepareRequest) (lock : Handle) : Acquiring :=
  ⟨request, .held lock, none, .nothing, false, false, none, []⟩

/-- Filling a partial file. -/
def filling (request : PrepareRequest) (lock : Handle) (known : Known) (temp : TempFile)
    (bytes received : List UInt8) : Acquiring :=
  ⟨request, .held lock, none, known, true, true, some ⟨temp, bytes, false⟩, received⟩

/-- Done with the partial file. -/
def filled (request : PrepareRequest) (lock : Handle) (known : Known) (received : List UInt8) :
    Acquiring :=
  ⟨request, .held lock, none, known, true, true, none, received⟩

theorem holds_filling (request : PrepareRequest) (lock : Handle) (known : Known) (temp : TempFile)
    (bytes received : List UInt8) : (filling request lock known temp bytes received).Holds :=
  ⟨lock, rfl⟩

end Acquiring

open Acquiring

/-- A partial file is dropped. -/
theorem tempDrop_follows {request : PrepareRequest} {lock : Handle} {known : Known}
    {temp : TempFile} (hlock : temp.file ≠ lock) (bytes received : List UInt8) :
    Follows (prepareProtocol sha256) temp.drop
      (.acquiring (filling request lock known temp bytes received))
      fun _ g => g = .acquiring (filled request lock known received) := by
  have hclose : ∀ a : Acquiring,
      a = { filling request lock known temp bytes received with
        temp := some ⟨temp, bytes, true⟩ } →
      a.pre sha256 (.file (.close temp.file)) ∧
        a.closed temp.file = filled request lock known received := by
    rintro a rfl
    refine ⟨⟨fun h => hlock (LockStage.held.inj h).symm, fun w hw _ => ?_⟩, ?_⟩
    · rw [← Option.some.inj hw]
    · simp [closed, filling, filled]
  refine ⟨⟨holds_filling .., rfl, rfl⟩, fun removed _ => ?_⟩
  rcases removed with err | ⟨⟩
  · exact ⟨(hclose _ rfl).1, fun _ _ => congrArg _ (hclose _ rfl).2⟩
  · exact ⟨(hclose _ rfl).1, fun _ _ => congrArg _ (hclose _ rfl).2⟩

/-- A turn of the copy loop writes what it receives. -/
theorem copyTurn_follows {request : PrepareRequest} {lock : Handle} {known : Known}
    {temp : TempFile} (bytes : List UInt8) (received : UInt64) :
    Follows (prepareProtocol sha256) (copyTurn request temp bytes received)
      (.acquiring (filling request lock known temp bytes bytes)) fun turn g =>
        match turn with
        | .inl (bytes, _) => g = .acquiring (filling request lock known temp bytes bytes)
        | .inr (.ok (bytes, _)) => g = .acquiring (filling request lock known temp bytes bytes)
        | .inr (.error _) =>
          ∃ bytes' received', g = .acquiring (filling request lock known temp bytes' received') := by
  simp only [copyTurn, Prog.bind_eq, Prog.perform, Prog.call_bind, Prog.ret_bind, Follows.call]
  refine ⟨trivial, fun answer _ => ?_⟩
  rcases answer with err | chunk
  · exact ⟨bytes, bytes, rfl⟩
  · show Follows (prepareProtocol sha256) _
      (.acquiring (filling request lock known temp bytes (bytes ++ chunk))) _
    dsimp only
    split
    · rename_i hempty
      rw [List.isEmpty_iff.mp hempty, List.append_nil]
      exact rfl
    · split
      · exact ⟨bytes, bytes ++ chunk, rfl⟩
      · refine ⟨⟨holds_filling .., rfl, _, rfl, rfl⟩, fun written _ => ?_⟩
        rcases written with err | ⟨⟩
        · exact ⟨_, _, rfl⟩
        · refine ⟨trivial, fun due _ => ?_⟩
          rcases due with _ | _
          · exact rfl
          · exact ⟨trivial, fun _ _ => rfl⟩

/-- A complete partial file is placed if it is the right one, and dropped otherwise. -/
theorem placeVerified_follows {request : PrepareRequest} {lock : Handle} {known : Known}
    {temp : TempFile} (hlock : temp.file ≠ lock) (bytes : List UInt8) :
    Follows (prepareProtocol sha256) (placeVerified sha256 cacheDir request temp bytes)
      (.acquiring (filling request lock known temp bytes bytes)) fun result g =>
        match result with
        | .ok () => verifies sha256 request bytes = true ∧
          g = .acquiring (filled request lock (.contents bytes) bytes)
        | .error _ => g = .acquiring (filled request lock known bytes) := by
  simp only [placeVerified, Prog.bind_eq, Prog.perform, Prog.call_bind, Prog.ret_bind]
  split
  · refine Follows.bind ((tempDrop_follows hlock bytes bytes).mono ?_)
    rintro _ g rfl
    exact rfl
  · rename_i hdigest
    have hverifies : verifies sha256 request bytes = true := by
      simpa [verifies] using hdigest
    refine ⟨⟨rfl, holds_filling .., rfl, _, rfl, rfl, rfl, hverifies⟩, fun placed _ => ?_⟩
    rcases placed with err | ⟨⟩
    · refine Follows.bind ((tempDrop_follows hlock bytes bytes).mono ?_)
      rintro _ g rfl
      exact rfl
    · refine ⟨⟨fun h => hlock (LockStage.held.inj h).symm, fun w hw => nomatch hw⟩, fun _ _ => ?_⟩
      exact ⟨hverifies, rfl⟩

theorem copyBody_follows {request : PrepareRequest} {lock : Handle} {known : Known}
    {temp : TempFile} (hlock : temp.file ≠ lock) :
    Follows (prepareProtocol sha256) (copyBody sha256 cacheDir request temp)
      (.acquiring (filling request lock known temp [] [])) fun result g =>
        match result with
        | .ok () => ∃ received, verifies sha256 request received = true ∧
          g = .acquiring (filled request lock (.contents received) received)
        | .error _ => ∃ received, g = .acquiring (filled request lock known received) := by
  refine ⟨trivial, fun _ _ => Follows.bind ?_⟩
  have hloop : Follows (prepareProtocol sha256)
      (Prog.iterate (fun state => copyTurn request temp state.1 state.2) ([], 0))
      (.acquiring (filling request lock known temp [] []))
      (fun result g => match result with
        | .ok (bytes, _) => g = .acquiring (filling request lock known temp bytes bytes)
        | .error _ =>
          ∃ bytes received, g = .acquiring (filling request lock known temp bytes received)) := by
    refine Follows.iterate
      (fun state g => g = .acquiring (filling request lock known temp state.1 state.1)) rfl ?_
    rintro ⟨bytes, received⟩ g rfl
    refine (copyTurn_follows bytes received).mono ?_
    rintro (⟨bytes', received'⟩ | (message | ⟨bytes', received'⟩)) g hg
    · exact hg
    · exact hg
    · exact hg
  refine hloop.mono ?_
  rintro (message | ⟨bytes, received⟩) g hg
  · obtain ⟨bytes, received, rfl⟩ := hg
    simp only [Prog.ret_bind]
    refine Follows.bind ((tempDrop_follows hlock bytes received).mono ?_)
    rintro _ g rfl
    exact ⟨received, rfl⟩
  · subst hg
    refine ⟨trivial, fun flushed _ => ?_⟩
    rcases flushed with err | ⟨⟩
    · simp only [Prog.ret_bind]
      refine Follows.bind ((tempDrop_follows hlock bytes bytes).mono ?_)
      rintro _ g rfl
      exact ⟨bytes, rfl⟩
    · refine ⟨trivial, fun _ _ => ?_⟩
      refine (placeVerified_follows hlock bytes).mono ?_
      rintro (message | ⟨⟩) g hg
      · exact ⟨bytes, hg⟩
      · exact ⟨bytes, hg⟩

theorem downloadVerified_follows {request : PrepareRequest} {lock : Handle} {known : Known}
    (hknown : known = .absent ∨ known = .unseen) (timeouts : DownloadTimeouts) :
    Follows (prepareProtocol sha256) (downloadVerified sha256 cacheDir request timeouts)
      (.acquiring { holding request lock with known := known }) fun result g =>
        match result with
        | .ok () => ∃ received, verifies sha256 request received = true ∧
          g = .acquiring (filled request lock (.contents received) received)
        | .error _ => ∃ created received,
          g = .acquiring { filled request lock known received with created := created } := by
  refine ⟨⟨⟨lock, rfl⟩, hknown, rfl⟩, fun _ _ => ⟨trivial, fun response _ => ?_⟩⟩
  rcases response with err | offered
  · exact ⟨false, [], rfl⟩
  · simp only [Prog.ret_bind]
    split
    · exact ⟨false, [], rfl⟩
    · refine ⟨⟨rfl, rfl, ⟨lock, rfl⟩, rfl, rfl, rfl⟩, fun made hmade => ?_⟩
      rcases made with err | ⟨random, file⟩
      · exact ⟨false, [], rfl⟩
      · have hfile : file ≠ lock := fun h => hmade (congrArg LockStage.held h.symm)
        refine (copyBody_follows hfile).mono ?_
        rintro (message | ⟨⟩) g hg
        · obtain ⟨received, rfl⟩ := hg
          exact ⟨true, received, rfl⟩
        · exact hg

theorem acquireMissing_follows {request : PrepareRequest} {lock : Handle} {known : Known}
    (hknown : known = .absent ∨ known = .unseen) (timeouts : DownloadTimeouts) :
    Follows (prepareProtocol sha256) (acquireMissing sha256 cacheDir request timeouts)
      (.acquiring { holding request lock with known := known }) fun result g =>
        match result with
        | .ok prepared => prepared = ⟨finalPath cacheDir request, false⟩ ∧
          ∃ received, verifies sha256 request received = true ∧
            g = .acquiring (filled request lock (.contents received) received)
        | .error _ => ∃ requested created received,
          g = .acquiring ⟨request, .held lock, none, known, requested, created, none, received⟩ := by
  refine ⟨trivial, fun space _ => ?_⟩
  rcases space with err | available
  · exact ⟨false, false, [], rfl⟩
  · simp only [Prog.ret_bind]
    split
    · exact ⟨false, false, [], rfl⟩
    · simp only [Prog.pure_eq, Prog.bind_eq, Prog.ret_bind]
      refine Follows.bind ((downloadVerified_follows hknown timeouts).mono ?_)
      rintro (message | ⟨⟩) g hg
      · obtain ⟨created, received, rfl⟩ := hg
        exact ⟨true, created, received, rfl⟩
      · obtain ⟨received, hverifies, rfl⟩ := hg
        exact ⟨trivial, fun _ _ => ⟨rfl, received, hverifies, rfl⟩⟩

theorem digestTurn_follows {request : PrepareRequest} {lock file : Handle} (bytes : List UInt8) :
    Follows (prepareProtocol sha256) (digestTurn sha256 file bytes)
      (.acquiring { holding request lock with reading := some (file, bytes) }) fun turn g =>
        match turn with
        | .inl bytes => g = .acquiring { holding request lock with reading := some (file, bytes) }
        | .inr (.ok digest) => ∃ bytes, digest = hex (sha256 bytes) ∧
          g = .acquiring { holding request lock with
            reading := some (file, bytes), known := .contents bytes }
        | .inr (.error _) => ∃ bytes, g = .acquiring { holding request lock with
            reading := some (file, bytes), known := .unreadable } := by
  refine ⟨⟨⟨lock, rfl⟩, rfl, bytes, rfl⟩, fun answer _ => ?_⟩
  rcases answer with err | chunk
  · exact ⟨bytes, rfl⟩
  · show Follows (prepareProtocol sha256) (if chunk.isEmpty then _ else _)
      (.acquiring (hasRead { holding request lock with reading := some (file, bytes) } file
        chunk)) _
    split
    · rename_i hempty
      refine ⟨bytes, rfl, ?_⟩
      simp [hasRead, hempty]
    · rename_i hmore
      show _ = _
      simp [hasRead, hmore]

/-- The file at the final path is read, and then known. -/
theorem fileDigest_follows {request : PrepareRequest} {lock : Handle} :
    Follows (prepareProtocol sha256) (fileDigest sha256 request.fileName)
      (.acquiring (holding request lock)) fun result g =>
        match result with
        | .ok digest => ∃ bytes, digest = hex (sha256 bytes) ∧
          g = .acquiring { holding request lock with known := .contents bytes }
        | .error _ => g = .acquiring { holding request lock with known := .unreadable } := by
  refine ⟨⟨rfl, ⟨lock, rfl⟩, rfl, rfl, rfl⟩, fun opened hopened => ?_⟩
  rcases opened with err | file
  · exact rfl
  · have hlock : LockStage.held lock ≠ .held file := hopened
    have hclosed : ∀ (bytes : List UInt8) (known : Known),
        closed { holding request lock with reading := some (file, bytes), known := known } file =
          { holding request lock with known := known } := by
      intro bytes known
      simp [closed, holding]
    simp only [Prog.ret_bind]
    refine Follows.bind ((Follows.iterate (P := prepareProtocol sha256)
      (Q := fun (result : Except IoError String) g => match result with
        | .ok digest => ∃ bytes, digest = hex (sha256 bytes) ∧
          g = .acquiring { holding request lock with
            reading := some (file, bytes), known := .contents bytes }
        | .error _ => ∃ bytes, g = .acquiring { holding request lock with
            reading := some (file, bytes), known := .unreadable })
      (fun bytes g => g = .acquiring { holding request lock with reading := some (file, bytes) })
      rfl ?_).mono ?_)
    · rintro bytes g rfl
      refine (digestTurn_follows bytes).mono ?_
      rintro (bytes' | (err | digest)) g hg
      · exact hg
      · exact hg
      · exact hg
    · rintro (err | digest) g hg
      · obtain ⟨bytes, rfl⟩ := hg
        exact ⟨⟨hlock, fun w hw => nomatch hw⟩, fun _ _ => congrArg _ (hclosed bytes _)⟩
      · obtain ⟨bytes, hdigest, rfl⟩ := hg
        exact ⟨⟨hlock, fun w hw => nomatch hw⟩,
          fun _ _ => ⟨bytes, hdigest, congrArg _ (hclosed bytes _)⟩⟩

/-- Where an `acquire` is when it is about to let go of the lock. -/
def Concluded (sha256 : List UInt8 → List UInt8) (cacheDir : String) (request : PrepareRequest)
    (lock : Handle) (result : Except String Prepared) (g : Standing) : Prop :=
  ∃ a, g = .acquiring a ∧ a.request = request ∧ a.lock = .held lock ∧ a.temp = none ∧
    match result with
    | .ok prepared => prepared.path = finalPath cacheDir request ∧
      (∃ bytes, a.known = .contents bytes ∧ verifies sha256 request bytes = true) ∧
        (prepared.alreadyCached = true ∨ a.requested = true)
    | .error _ => a.known ≠ .nothing ∧
      ∀ bytes, a.known = .contents bytes → verifies sha256 request bytes = false

theorem acquireMissing_concludes {request : PrepareRequest} {lock : Handle} {known : Known}
    (hknown : known = .absent ∨ known = .unseen) (timeouts : DownloadTimeouts) :
    Follows (prepareProtocol sha256) (acquireMissing sha256 cacheDir request timeouts)
      (.acquiring { holding request lock with known := known })
      (Concluded sha256 cacheDir request lock) := by
  refine (acquireMissing_follows hknown timeouts).mono ?_
  rintro (message | prepared) g hg
  · obtain ⟨requested, created, received, rfl⟩ := hg
    refine ⟨_, rfl, rfl, rfl, rfl, ?_⟩
    rcases hknown with rfl | rfl
    · exact ⟨fun h => (nomatch h), fun _ h => nomatch h⟩
    · exact ⟨fun h => (nomatch h), fun _ h => nomatch h⟩
  · obtain ⟨rfl, received, hverifies, rfl⟩ := hg
    exact ⟨_, rfl, rfl, rfl, rfl, rfl, ⟨received, rfl, hverifies⟩, .inr rfl⟩

/-- **What is done under the lock.** -/
theorem acquireLocked_follows {request : PrepareRequest} {lock : Handle}
    (timeouts : DownloadTimeouts) :
    Follows (prepareProtocol sha256) (acquireLocked sha256 cacheDir request timeouts)
      (.acquiring (holding request lock)) (Concluded sha256 cacheDir request lock) := by
  refine ⟨⟨rfl, ⟨lock, rfl⟩, rfl, rfl, rfl⟩, fun there _ => ?_⟩
  rcases there with err | (_ | _)
  · exact acquireMissing_concludes (.inr rfl) timeouts
  · exact acquireMissing_concludes (.inl rfl) timeouts
  · simp only [Prog.ret_bind, Prog.pure_eq, if_true]
    refine Follows.bind (fileDigest_follows.mono ?_)
    rintro (err | digest) g hg
    · subst hg
      exact ⟨_, rfl, rfl, rfl, rfl, fun h => (nomatch h), fun _ h => nomatch h⟩
    · obtain ⟨bytes, rfl, rfl⟩ := hg
      simp only [Prog.bind_eq, Prog.perform, Prog.call_bind, Prog.ret_bind]
      split
      · rename_i hverifies
        exact ⟨trivial, fun _ _ => ⟨_, rfl, rfl, rfl, rfl, rfl, ⟨bytes, rfl, hverifies⟩, .inl rfl⟩⟩
      · rename_i hverifies
        have hwrong : verifies sha256 request bytes = false := Bool.eq_false_iff.mpr hverifies
        refine ⟨⟨⟨lock, rfl⟩, rfl, rfl, bytes, rfl, hwrong⟩, fun removed _ => ?_⟩
        rcases removed with err | ⟨⟩
        · refine ⟨_, rfl, rfl, rfl, rfl, fun h => (nomatch h), fun bytes' h => ?_⟩
          cases h
          exact hwrong
        · exact acquireMissing_concludes (.inl rfl) timeouts

theorem holdCacheLock_follows (request : PrepareRequest) :
    Follows (prepareProtocol sha256) (holdCacheLock cacheDir request)
      (Standing.enter (.acquire request)) fun result g =>
        match result with
        | .ok lock => g = .acquiring (holding request lock)
        | .error _ => g = Standing.enter (.acquire request) := by
  refine ⟨⟨rfl, rfl⟩, fun opened _ => ?_⟩
  rcases opened with err | lock
  · exact rfl
  · refine ⟨⟨rfl, rfl, rfl, rfl⟩, fun tried _ => ?_⟩
    rcases tried with err | ⟨⟩
    · refine ⟨trivial, fun _ _ => ⟨⟨rfl, rfl, rfl, rfl⟩, fun taken _ => ?_⟩⟩
      rcases taken with err | ⟨⟩
      · refine ⟨⟨fun h => (nomatch h), fun w hw => nomatch hw⟩, fun _ _ => ?_⟩
        show Standing.acquiring _ = Standing.acquiring _
        simp [next, closed]
      · exact rfl
    · exact rfl

/-- **`acquire` keeps to the protocol.** -/
theorem acquire_follows (request : PrepareRequest) :
    Follows (prepareProtocol sha256) (acquire sha256 cacheDir request)
      (Standing.enter (.acquire request)) fun result g =>
        ∃ a, g = .acquiring a ∧ a.done sha256 cacheDir result := by
  refine ⟨trivial, fun made _ => ?_⟩
  rcases made with err | ⟨⟩
  · exact ⟨trivial, fun _ _ => ⟨_, rfl, .inl rfl⟩⟩
  · simp only [Prog.ret_bind]
    refine Follows.bind ((holdCacheLock_follows request).mono ?_)
    rintro (message | lock) g rfl
    · exact ⟨trivial, fun _ _ => ⟨_, rfl, .inl rfl⟩⟩
    · refine Follows.bind ((acquireLocked_follows _).mono ?_)
      rintro result g ⟨a, rfl, hrequest, hlock, htemp, hresult⟩
      refine ⟨⟨hlock, htemp⟩, fun unlocked _ => ?_⟩
      have hclosed : (if LockStage.released lock = .opened lock then .unopened
          else LockStage.released lock) = .released lock :=
        if_neg fun h => nomatch h
      rcases result with message | prepared
      · refine ⟨trivial, fun _ _ => ⟨⟨fun h => (nomatch h), fun w hw => ?_⟩, fun _ _ => ?_⟩⟩
        · exact nomatch htemp.symm.trans hw
        · refine ⟨_, rfl, .inr ⟨⟨lock, ?_⟩, ?_⟩⟩
          · exact hclosed
          · show _ ∧ ∀ bytes, a.known = _ → verifies sha256 a.request bytes = false
            rw [hrequest]
            exact hresult
      · refine ⟨⟨fun h => (nomatch h), fun w hw => ?_⟩, fun _ _ => ?_⟩
        · exact nomatch htemp.symm.trans hw
        · refine ⟨_, rfl, ?_, ⟨lock, hclosed⟩, ?_, hresult.2.2⟩
          · show prepared.path = finalPath cacheDir a.request
            rw [hrequest]
            exact hresult.1
          · show ∃ bytes, a.known = _ ∧ verifies sha256 a.request bytes = true
            rw [hrequest]
            exact hresult.2.1

/-! ## The programs keep to it: cleanup -/

/-- The listing says what was listed. -/
structure Listing.Describes (listing : Listing) (listed : List String) : Prop where
  /-- It has every lock that was listed. -/
  locks : ∀ name ∈ listed, isLockName name = true → name ∈ listing.lockPaths
  /-- What it has as locks are locks. -/
  lockNames : ∀ name ∈ listing.lockPaths, isLockName name = true
  /-- What it has as a model's partial file was listed, and is one. -/
  attributed : ∀ entry ∈ listing.attributed,
    entry.2 ∈ listed ∧ isPartialName entry.2 = true ∧ modelOfPartial entry.2 = some entry.1
  /-- What it has as a partial file of no model was listed, and is a partial file. -/
  unattributed : ∀ name ∈ listing.unattributed, name ∈ listed ∧ isPartialName name = true

theorem Listing.Describes.add {listing : Listing} {listed : List String}
    (h : listing.Describes listed) (name : String) :
    (listing.add name).Describes (listed ++ [name]) := by
  have hkeep : ∀ other ∈ listed, other ∈ listed ++ [name] :=
    fun other hother => List.mem_append_left _ hother
  have hattributed : ∀ entry ∈ listing.attributed, entry.2 ∈ listed ++ [name] ∧
      isPartialName entry.2 = true ∧ modelOfPartial entry.2 = some entry.1 := fun entry hentry =>
    ⟨hkeep _ (h.attributed entry hentry).1, (h.attributed entry hentry).2⟩
  have hunattributed : ∀ other ∈ listing.unattributed,
      other ∈ listed ++ [name] ∧ isPartialName other = true := fun other hother =>
    ⟨hkeep _ (h.unattributed other hother).1, (h.unattributed other hother).2⟩
  have hname : name ∈ listed ++ [name] := List.mem_append_right _ (List.mem_singleton_self _)
  rw [Listing.add]
  split
  · rename_i hlock
    refine ⟨fun other hother hisLock => ?_, fun other hother => ?_, hattributed, hunattributed⟩
    · rcases List.mem_append.mp hother with hother | hother
      · exact List.mem_append_left _ (h.locks other hother hisLock)
      · exact List.mem_append_right _ hother
    · rcases List.mem_append.mp hother with hother | hother
      · exact h.lockNames other hother
      · rw [List.mem_singleton.mp hother]
        exact hlock
  · rename_i hnotLock
    have hlocks : ∀ other ∈ listed ++ [name], isLockName other = true →
        other ∈ listing.lockPaths := by
      intro other hother hisLock
      rcases List.mem_append.mp hother with hother | hother
      · exact h.locks other hother hisLock
      · rw [List.mem_singleton.mp hother] at hisLock
        exact absurd hisLock hnotLock
    split
    · rename_i hpart
      split
      · rename_i modelId hmodel
        refine ⟨hlocks, h.lockNames, fun entry hentry => ?_, hunattributed⟩
        rcases List.mem_append.mp hentry with hentry | hentry
        · exact hattributed entry hentry
        · rw [List.mem_singleton.mp hentry]
          exact ⟨hname, hpart, hmodel⟩
      · refine ⟨hlocks, h.lockNames, hattributed, fun other hother => ?_⟩
        rcases List.mem_append.mp hother with hother | hother
        · exact hunattributed other hother
        · rw [List.mem_singleton.mp hother]
          exact ⟨hname, hpart⟩
    · exact ⟨hlocks, h.lockNames, hattributed, hunattributed⟩

/-- The probe says how the attempts went. -/
structure Probe.Matches (probe : Probe) (tried : List (String × Option Handle)) : Prop where
  /-- A lock that could not be taken counts as its model's. -/
  heldModels : ∀ path, (path, none) ∈ tried → fileStem path ∈ probe.heldModels
  /-- One such lock is enough. -/
  anyLockHeld : ∀ path, (path, none) ∈ tried → probe.anyLockHeld = true

theorem listTurn_follows {listing : Listing} {listed : List String}
    (h : listing.Describes listed) :
    Follows (prepareProtocol sha256) (listTurn listing)
      (.cleaning ⟨listed, false, none, [], false⟩) fun turn g =>
        match turn with
        | .inl listing => ∃ listed, listing.Describes listed ∧
          g = .cleaning ⟨listed, false, none, [], false⟩
        | .inr (.ok listing) => ∃ listed, listing.Describes listed ∧
          g = .cleaning ⟨listed, true, none, [], false⟩
        | .inr (.error _) => ∃ c, g = .cleaning c := by
  refine ⟨⟨rfl, rfl⟩, fun entry _ => ?_⟩
  rcases entry with err | (_ | name)
  · exact ⟨_, rfl⟩
  · exact ⟨listed, h, rfl⟩
  · exact ⟨listed ++ [name], h.add name, rfl⟩

/-- A lock is tried, and the outcome noted. -/
theorem tryHold_follows {listed : List String} {tried : List (String × Option Handle)}
    {name : String} (hname : isLockName name = true) :
    Follows (prepareProtocol sha256) (tryHold name)
      (.cleaning ⟨listed, true, none, tried, false⟩) fun result g =>
        g = .cleaning ⟨listed, true, none, tried ++ [(name, result)], false⟩ := by
  refine ⟨⟨rfl, rfl, hname⟩, fun opened hopened => ?_⟩
  rcases opened with err | file
  · exact rfl
  · refine ⟨⟨rfl, name, rfl⟩, fun taken _ => ?_⟩
    rcases taken with err | ⟨⟩
    · refine ⟨trivial, fun _ _ => ?_⟩
      have hfresh : ∀ other, (other, some file) ∉ tried := hopened
      show Standing.cleaning ⟨listed, true, none, tried ++ [(name, none)],
        false || (tried ++ [(name, none)]).any fun entry => entry.2 == some file⟩ = _
      rw [Bool.false_or, List.any_append]
      have hnone : tried.any (fun entry => entry.2 == some file) = false := by
        rw [List.any_eq_false]
        rintro ⟨other, r⟩ hmem heq
        have hr : r = some file := beq_iff_eq.mp heq
        rw [hr] at hmem
        exact hfresh other hmem
      rw [hnone]
      rfl
    · exact rfl

theorem probeLocks_follows {listed : List String} :
    ∀ (paths : List String) (probe : Probe) (tried : List (String × Option Handle)),
      (∀ name ∈ paths, isLockName name = true) → probe.Matches tried →
      Follows (prepareProtocol sha256) (probeLocks paths probe)
        (.cleaning ⟨listed, true, none, tried, false⟩) fun probe g =>
          ∃ tried', probe.Matches tried' ∧ tried ⊆ tried' ∧
            (∀ name ∈ paths, ∃ r, (name, r) ∈ tried') ∧
            g = .cleaning ⟨listed, true, none, tried', false⟩
  | [], probe, tried, _, hprobe =>
    ⟨tried, hprobe, List.Subset.refl _, fun _ h => (nomatch h), rfl⟩
  | path :: rest, probe, tried, hpaths, hprobe => by
    refine Follows.bind ((tryHold_follows (hpaths path List.mem_cons_self)).mono ?_)
    rintro result g rfl
    have hrest : ∀ name ∈ rest, isLockName name = true :=
      fun name hname => hpaths name (List.mem_cons_of_mem _ hname)
    -- The rest of the paths, from the attempt just made.
    have hstep : ∀ probe', Probe.Matches probe' (tried ++ [(path, result)]) →
        Follows (prepareProtocol sha256) (probeLocks rest probe')
          (.cleaning ⟨listed, true, none, tried ++ [(path, result)], false⟩) fun probe g =>
            ∃ tried', probe.Matches tried' ∧ tried ⊆ tried' ∧
              (∀ name ∈ path :: rest, ∃ r, (name, r) ∈ tried') ∧
              g = .cleaning ⟨listed, true, none, tried', false⟩ := by
      intro probe' hprobe'
      refine (probeLocks_follows rest probe' _ hrest hprobe').mono ?_
      rintro probe'' g ⟨tried', hmatches, hsub, hall, rfl⟩
      refine ⟨tried', hmatches, fun _ hmem => hsub (List.mem_append_left _ hmem),
        fun name hname => ?_, rfl⟩
      rcases List.mem_cons.mp hname with rfl | hname
      · exact ⟨result, hsub (List.mem_append_right _ (List.mem_singleton_self _))⟩
      · exact hall name hname
    rcases result with _ | file
    · refine hstep _ ⟨fun name hname => ?_, fun _ _ => rfl⟩
      rcases List.mem_append.mp hname with hname | hname
      · exact List.mem_append_left _ (hprobe.heldModels name hname)
      · rw [(Prod.mk.inj (List.mem_singleton.mp hname)).1]
        exact List.mem_append_right _ (List.mem_singleton_self _)
    · have hold : ∀ {name}, (name, none) ∈ tried ++ [(path, some file)] →
          (name, none) ∈ tried := by
        intro name hname
        rcases List.mem_append.mp hname with hname | hname
        · exact hname
        · exact nomatch (Prod.mk.inj (List.mem_singleton.mp hname)).2
      exact hstep _ ⟨fun name hname => hprobe.heldModels name (hold hname),
        fun name hname => hprobe.anyLockHeld name (hold hname)⟩

theorem removePartials_follows {c : Cleaning} :
    ∀ (names removed : List String),
      (∀ name ∈ names, c.pre (.file (.remove name))) →
      Follows (prepareProtocol sha256) (removePartials names removed) (.cleaning c)
        fun _ g => g = .cleaning c
  | [], _, _ => rfl
  | name :: rest, removed, hnames => by
    have hrest : ∀ removed', Follows (prepareProtocol sha256) (removePartials rest removed')
        (.cleaning c) fun _ g => g = .cleaning c := fun removed' =>
      removePartials_follows rest removed'
        fun other hother => hnames other (List.mem_cons_of_mem _ hother)
    refine ⟨hnames name List.mem_cons_self, fun answer _ => ?_⟩
    rcases answer with err | ⟨⟩
    · simp only [Prog.ret_bind]
      split
      · exact hrest _
      · exact rfl
    · exact hrest _

theorem closeAll_follows :
    ∀ (held : List Handle) (c : Cleaning),
      Follows (prepareProtocol sha256) (closeAll held) (.cleaning c) fun _ g => ∃ c, g = .cleaning c
  | [], c => ⟨c, rfl⟩
  | _ :: rest, _ => ⟨trivial, fun _ _ => closeAll_follows rest _⟩

theorem unlockAll_follows :
    ∀ (held : List Handle) (c : Cleaning),
      Follows (prepareProtocol sha256) (unlockAll held) (.cleaning c)
        fun _ g => ∃ c, g = .cleaning c
  | [], c => ⟨c, rfl⟩
  | _ :: rest, _ => ⟨trivial, fun _ _ => ⟨trivial, fun _ _ => unlockAll_follows rest _⟩⟩

/-- What is condemned may be removed. -/
theorem condemned_pre {listing : Listing} {listed : List String} {probe : Probe}
    {tried : List (String × Option Handle)} (hlisting : listing.Describes listed)
    (hprobe : probe.Matches tried) (htried : ∀ name ∈ listing.lockPaths, ∃ r, (name, r) ∈ tried)
    {name : String} (hname : name ∈ condemned listing probe) :
    Cleaning.pre ⟨listed, true, none, tried, false⟩ (.file (.remove name)) := by
  have htriedAll : Cleaning.TriedAll ⟨listed, true, none, tried, false⟩ :=
    fun path hpath hlock => htried path (hlisting.locks path hpath hlock)
  rcases List.mem_append.mp hname with hname | hname
  · obtain ⟨entry, hentry, rfl⟩ := List.mem_map.mp hname
    obtain ⟨hentry, hfree⟩ := List.mem_filter.mp hentry
    obtain ⟨hlisted, hpart, hmodel⟩ := hlisting.attributed entry hentry
    refine ⟨rfl, rfl, hlisted, hpart, htriedAll, fun path hpath => ⟨entry.1, hmodel, ?_⟩⟩
    rintro heq
    have hheld := hprobe.heldModels path hpath
    rw [← heq] at hheld
    simp [hheld] at hfree
  · split at hname
    · exact nomatch hname
    · rename_i hnone
      obtain ⟨hlisted, hpart⟩ := hlisting.unattributed name hname
      exact ⟨rfl, rfl, hlisted, hpart, htriedAll,
        fun path hpath => absurd (hprobe.anyLockHeld path hpath) hnone⟩

/-- **The cleanup keeps to the protocol.** -/
theorem cleanStalePartials_follows :
    Follows (prepareProtocol sha256) (cleanStalePartials cacheDir) (Standing.enter .clean)
      fun _ g => ∃ c, g = .cleaning c := by
  refine ⟨⟨rfl, rfl, rfl⟩, fun begun _ => ?_⟩
  rcases begun with err | ⟨⟩
  · simp only [Prog.ret_bind]
    split
    · exact ⟨_, rfl⟩
    · exact ⟨_, rfl⟩
  · simp only [Prog.ret_bind]
    refine Follows.bind ((Follows.iterate (P := prepareProtocol sha256)
      (Q := fun (result : Except IoError Listing) g => match result with
        | .ok listing => ∃ listed, listing.Describes listed ∧
          g = .cleaning ⟨listed, true, none, [], false⟩
        | .error _ => ∃ c, g = .cleaning c)
      (fun listing g => ∃ listed, listing.Describes listed ∧
        g = .cleaning ⟨listed, false, none, [], false⟩) ?_ ?_).mono ?_)
    · refine ⟨[], ⟨fun _ h => (nomatch h), fun _ h => (nomatch h), fun _ h => (nomatch h),
        fun _ h => (nomatch h)⟩, rfl⟩
    · rintro listing g ⟨listed, hlisting, rfl⟩
      refine (listTurn_follows hlisting).mono ?_
      rintro (listing' | (err | listing')) g hg
      · exact hg
      · exact hg
      · exact hg
    · rintro (err | listing) g hg
      · exact hg
      · obtain ⟨listed, hlisting, rfl⟩ := hg
        refine Follows.bind ((probeLocks_follows listing.lockPaths ⟨[], [], false⟩ []
          hlisting.lockNames ⟨fun _ h => (nomatch h), fun _ h => nomatch h⟩).mono ?_)
        rintro probe g ⟨tried, hprobe, -, htried, rfl⟩
        refine Follows.bind ((removePartials_follows _ []
          fun name hname => condemned_pre hlisting hprobe htried hname).mono ?_)
        rintro (err | removed) g rfl
        · exact Follows.bind ((closeAll_follows probe.freeLocks _).mono fun _ _ h => h)
        · exact Follows.bind ((unlockAll_follows probe.freeLocks _).mono fun _ _ h => h)

/-- **Every job keeps to the protocol.** -/
theorem program_follows (job : PrepareJob) :
    Follows (prepareProtocol sha256) (job.program sha256 cacheDir) (Standing.enter job)
      (prepareDone sha256 cacheDir) := by
  rcases job with request | ⟨⟩
  · refine Follows.bind ((acquire_follows request).mono ?_)
    rintro result g ⟨a, rfl, hdone⟩
    exact hdone
  · refine Follows.bind (cleanStalePartials_follows.mono ?_)
    rintro result g ⟨c, rfl⟩
    trivial

end

end SemanticSidecar
