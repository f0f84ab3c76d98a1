import SemanticSidecar.Lib.Files
import SemanticSidecar.Lib.Pool

/-!
# A file that many processes update

A store is kept in a file, the *target*.  To update it, a process locks another file, reads the
target, writes the updated store to a new file and renames that to the target; whoever only wants
to look reads the target without the lock.  Any number of processes do so at the same time, and
each of them may be killed at any moment.

`Keeps` is the protocol of one process, stage by stage, and any program that keeps to it may take
part (`machine`).  The history says which updates have been *completed*, that is, renamed to the
target, and in which order.  `linearized` is what comes of it: the target always holds the result
of the completed updates one after the other, whoever has looked has seen the result of some first
ones of them, and no update of a process is passed over but the last one it has asked for.

There are no I/O errors here, other than that the target need not exist.
-/

set_option autoImplicit false

/-- What is in the target, and the names of the files. -/
structure LockedFile (σ U : Type) where
  /-- The name of the file. -/
  target : String
  /-- The name of the lock file. -/
  lockName : String
  /-- What the name of a new file begins with. -/
  tempBefore : String
  /-- What the name of a new file ends with. -/
  tempAfter : String
  /-- What a file with these bytes says, or a missing one. -/
  load : Option (List UInt8) → σ
  /-- The bytes of a store. -/
  encode : σ → List UInt8
  /-- What an update makes of the store. -/
  apply : U → σ → σ
  /-- A store is read back. -/
  load_encode : ∀ store, load (some (encode store)) = store
  /-- The lock file is another file. -/
  target_ne_lock : target ≠ lockName
  /-- A new file is neither of the two. -/
  temp_ne : ∀ random, Files.tempName tempBefore random tempAfter ≠ target ∧
    Files.tempName tempBefore random tempAfter ≠ lockName

namespace LockedFile

/-! ## Calls -/

/-- The calls of the file system, and notes for the history. -/
inductive Op (σ U : Type) where
  /-- A call on the files. -/
  | file (o : FileOp)
  /-- An update is asked for. -/
  | asked (u : U)
  /-- This is the store, as it was read without the lock. -/
  | saw (store : σ)

/-- What a call is answered with. -/
@[reducible] def Op.Ret {σ U : Type} : Op σ U → Type
  | .file o => o.Ret
  | .asked _ => Unit
  | .saw _ => Unit

/-- The calls of a process and their answers. -/
@[reducible] def sig (σ U : Type) : Sig := ⟨Op σ U, Op.Ret⟩

/-- No I/O error.  That there is no file to be read is none. -/
def Faultless (s : Files) (o : FileOp) (r : o.Ret) : Bool :=
  match o, r with
  | .openRead name, .error err => err.notFound && (s.inodeAt name).isNone
  | .createDirAll, .error _ => false
  | .openReadWrite _, .error _ => false
  | .openOrCreate _, .error _ => false
  | .createTemp _ _, .error _ => false
  | .lock _, .error _ => false
  | .unlock _, .error _ => false
  | .pathExists _, .error _ => false
  | .read _ _, .error _ => false
  | .write _ _, .error _ => false
  | .flush _, .error _ => false
  | .remove _, .error _ => false
  | .rename _ _, .error _ => false
  | .availableSpace, .error _ => false
  | .readDir, .error _ => false
  | .nextEntry, .error _ => false
  | _, _ => true

variable {σ U Job Res : Type}

/-- Processes with programs of their own on one directory. -/
def machine (main : Job → Prog (sig σ U) Res) (initial : Files) : Machine (sig σ U) Job Res where
  State := Files
  init := initial.atRest
  main := main
  start _ _ s := some s
  exec pid s o r :=
    match o, r with
    | .file o, r => if Faultless s o r then s.exec pid o r else none
    | .asked _, _ => some s
    | .saw _, _ => some s
  leave pid s := s.exit pid
  kill pid s := some (s.exit pid)

variable (L : LockedFile σ U) {main : Job → Prog (sig σ U) Res} {initial : Files}

/-! ## The history -/

/-- A history, the latest first. -/
abbrev Log (main : Job → Prog (sig σ U) Res) (initial : Files) := List (machine main initial).Event

/-- The update that a process has asked for last. -/
def current (pid : ℕ) : Log main initial → Option U
  | [] => none
  | .called other _ (.asked u) _ :: log => if other = pid then some u else current pid log
  | _ :: log => current pid log

/-- All the updates it has asked for. -/
def askedBy (pid : ℕ) : Log main initial → List U
  | [] => []
  | .called other _ (.asked u) _ :: log =>
    if other = pid then askedBy pid log ++ [u] else askedBy pid log
  | _ :: log => askedBy pid log

/-- The target has been replaced. -/
def Replaces (o : Op σ U) (r : o.Ret) : Bool :=
  match o, r with
  | .file (.rename _ target), .ok () => target = L.target
  | _, _ => false

/-- The updates that have been completed, with the processes that asked for them. -/
def completed : Log main initial → List (ℕ × U)
  | [] => []
  | .called pid _ o r :: log =>
    if L.Replaces o r then completed log ++ (current pid log).toList.map (Prod.mk pid)
    else completed log
  | _ :: log => completed log

/-- The updates that a process has completed. -/
def completedBy (pid : ℕ) (log : Log main initial) : List U :=
  ((L.completed log).filter fun entry => entry.1 = pid).map Prod.snd

/-- What the store is once some updates have been made. -/
def storeAfter (initial : Files) (updates : List (ℕ × U)) : σ :=
  updates.foldl (fun store entry => L.apply entry.2 store) (L.load (initial.content L.target))

/-- What the store was at some time. -/
def Stored (log : Log main initial) (store : σ) : Prop :=
  ∃ updates, updates <+: L.completed log ∧ store = L.storeAfter initial updates

/-! ## Stages -/

/-- Where a process is.  `held` is the update it is making and its lock. -/
inductive Stage (σ U : Type) where
  /-- It is between calls, with an update and its lock or without. -/
  | free (held : Option (U × Handle))
  /-- It has been asked for an update. -/
  | asked (u : U)
  /-- It has opened the lock file. -/
  | opened (u : U) (lock : Handle)
  /-- It has the target open and has read so much, or all, of it. -/
  | reading (held : Option (U × Handle)) (h : Handle) (bytes : List UInt8) (ended : Bool)
  /-- It knows the store. -/
  | known (held : Option (U × Handle)) (store : σ)
  /-- It has made a new file, which has the new store in it or is empty. -/
  | filling (u : U) (lock : Handle) (store : σ) (name : String) (temp : Handle) (full : Bool)
  /-- It has completed its update, and is closing what it has open. -/
  | leaving (lock : Handle) (temp : Option Handle) (locked : Bool)

namespace Stage

/-- The update that it has not completed yet. -/
def update : Stage σ U → Option U
  | .free held => held.map Prod.fst
  | .asked u => some u
  | .opened u _ => some u
  | .reading held _ _ _ => held.map Prod.fst
  | .known held _ => held.map Prod.fst
  | .filling u _ _ _ _ _ => some u
  | .leaving _ _ _ => none

/-- The lock file as it has it open, and whether it has it locked. -/
def lock : Stage σ U → Option (Handle × Bool)
  | .free held => held.map fun entry => (entry.2, true)
  | .asked _ => none
  | .opened _ lock => some (lock, false)
  | .reading held _ _ _ => held.map fun entry => (entry.2, true)
  | .known held _ => held.map fun entry => (entry.2, true)
  | .filling _ lock _ _ _ _ => some (lock, true)
  | .leaving lock _ locked => some (lock, locked)

/-- It has the lock. -/
def Holds (g : Stage σ U) : Prop := ∃ lock, g.lock = some (lock, true)

/-- The file that it has open beside the lock file. -/
def beside : Stage σ U → Option Handle
  | .reading _ h _ _ => some h
  | .filling _ _ _ _ temp _ => some temp
  | .leaving _ temp _ => temp
  | _ => none

/-- The target as it has it open, what it has read, and whether that is all. -/
def reads : Stage σ U → Option (Handle × List UInt8 × Bool)
  | .reading _ h bytes ended => some (h, bytes, ended)
  | _ => none

/-- The store as it has read it. -/
def knows : Stage σ U → Option σ
  | .known _ store => some store
  | .filling _ _ store _ _ _ => some store
  | _ => none

end Stage

/-- Its new file, and what is in it. -/
def temp : Stage σ U → Option (String × Handle × List UInt8)
  | .filling u _ store name temp full =>
    some (name, temp, if full then L.encode (L.apply u store) else [])
  | _ => none

/-- The calls it may make. -/
inductive Keeps : Stage σ U → Op σ U → Prop where
  /-- An update is asked for. -/
  | ask (u : U) : Keeps (.free none) (.asked u)
  /-- The target is opened. -/
  | look (held : Option (U × Handle)) : Keeps (.free held) (.file (.openRead L.target))
  /-- The directory is made. -/
  | makeDir (u : U) : Keeps (.asked u) (.file .createDirAll)
  /-- The lock file is opened. -/
  | openLock (u : U) : Keeps (.asked u) (.file (.openOrCreate L.lockName))
  /-- The lock is waited for. -/
  | takeLock (u : U) (lock : Handle) : Keeps (.opened u lock) (.file (.lock lock))
  /-- The target is read. -/
  | read (held : Option (U × Handle)) (h : Handle) (bytes : List UInt8) (limit : ℕ) :
    Keeps (.reading held h bytes false) (.file (.read h limit))
  /-- The target is closed. -/
  | closeTarget (held : Option (U × Handle)) (h : Handle) (bytes : List UInt8) :
    Keeps (.reading held h bytes true) (.file (.close h))
  /-- The store is looked at without the lock. -/
  | see (store : σ) : Keeps (.known none store) (.saw store)
  /-- A new file is made. -/
  | makeTemp (u : U) (lock : Handle) (store : σ) :
    Keeps (.known (some (u, lock)) store) (.file (.createTemp L.tempBefore L.tempAfter))
  /-- The new store is written. -/
  | fill (u : U) (lock : Handle) (store : σ) (name : String) (temp : Handle) :
    Keeps (.filling u lock store name temp false)
      (.file (.write temp (L.encode (L.apply u store))))
  /-- The new file is flushed. -/
  | sync (u : U) (lock : Handle) (store : σ) (name : String) (temp : Handle) :
    Keeps (.filling u lock store name temp true) (.file (.flush temp))
  /-- The new file takes the place of the target. -/
  | replace (u : U) (lock : Handle) (store : σ) (name : String) (temp : Handle) :
    Keeps (.filling u lock store name temp true) (.file (.rename name L.target))
  /-- The new file is closed. -/
  | closeTemp (lock temp : Handle) (locked : Bool) :
    Keeps (.leaving lock (some temp) locked) (.file (.close temp))
  /-- The lock is given back. -/
  | unlock (lock : Handle) : Keeps (.leaving lock none true) (.file (.unlock lock))
  /-- The lock file is closed. -/
  | closeLock (lock : Handle) (locked : Bool) :
    Keeps (.leaving lock none locked) (.file (.close lock))

/-- Where an answer leaves it. -/
def next (g : Stage σ U) (o : Op σ U) (r : o.Ret) : Stage σ U :=
  match g, o, r with
  | .free _, .asked u, _ => .asked u
  | .free held, .file (.openRead _), .ok h => .reading held h [] false
  | .free held, .file (.openRead _), .error _ => .known held (L.load none)
  | .asked u, .file (.openOrCreate _), .ok lock => .opened u lock
  | .opened u lock, .file (.lock _), .ok () => .free (some (u, lock))
  | .reading held h bytes _, .file (.read _ _), .ok chunk =>
    .reading held h (bytes ++ chunk) chunk.isEmpty
  | .reading held _ bytes _, .file (.close _), _ => .known held (L.load (some bytes))
  | .known _ _, .saw _, _ => .free none
  | .known (some (u, lock)) store, .file (.createTemp before after), .ok (random, temp) =>
    .filling u lock store (Files.tempName before random after) temp false
  | .filling u lock store name temp _, .file (.write _ _), .ok () =>
    .filling u lock store name temp true
  | .filling _ lock _ _ temp _, .file (.rename _ _), .ok () => .leaving lock (some temp) true
  | .leaving lock (some _) locked, .file (.close _), _ => .leaving lock none locked
  | .leaving lock none _, .file (.unlock _), .ok () => .leaving lock none false
  | .leaving _ none _, .file (.close _), _ => .free none
  | g, _, _ => g

/-- What a process keeps to. -/
def protocol : Prog.Protocol (sig σ U) (Stage σ U) where
  pre := L.Keeps
  allowed _ o r :=
    match o, r with
    | .file o, r => ∃ s, Faultless s o r = true
    | .asked _, _ => True
    | .saw _, _ => True
  next := L.next

/-! ## Reading a file -/

/-- A call of the file system. -/
@[reducible] def call (o : FileOp) : Prog (sig σ U) o.Ret := Prog.perform (S := sig σ U) (.file o)

/-- One turn of reading a file, at most `limit` bytes at a time. -/
def readTurn (limit : ℕ) (file : Handle) (bytes : List UInt8) :
    Prog (sig σ U) (List UInt8 ⊕ Except IoError (List UInt8)) := do
  match ← call (.read file limit) with
  | .error err => return .inr (.error err)
  | .ok chunk =>
    if chunk.isEmpty then return .inr (.ok bytes)
    else return .inl (bytes ++ chunk)

/-- All the bytes of a file. -/
def readFile (limit : ℕ) (name : String) : Prog (sig σ U) (Except IoError (List UInt8)) := do
  match ← call (.openRead name) with
  | .error err => return .error err
  | .ok file =>
    let raw ← Prog.iterate (readTurn limit file) []
    call (.close file)
    return raw

theorem readTurn_follows (limit : ℕ) (held : Option (U × Handle)) (file : Handle)
    (bytes : List UInt8) :
    Prog.Follows L.protocol (readTurn limit file bytes) (.reading held file bytes false)
      fun turn g =>
        match turn with
        | .inl bytes => g = .reading held file bytes false
        | .inr (.ok raw) => g = .reading held file raw true
        | .inr (.error _) => False := by
  refine ⟨.read held file bytes limit, fun answer hallowed => ?_⟩
  rcases answer with err | chunk
  · obtain ⟨s, hok⟩ := hallowed
    exact nomatch hok
  · show Prog.Follows L.protocol (if chunk.isEmpty then _ else _)
      (Stage.reading held file (bytes ++ chunk) chunk.isEmpty) _
    split
    · rename_i hempty
      rw [hempty, List.isEmpty_iff.mp hempty, List.append_nil]
      exact rfl
    · rename_i hmore
      rw [Bool.not_eq_true] at hmore
      rw [hmore]
      exact rfl

/-- **Reading the target keeps to the protocol**, with the lock and without it. -/
theorem readFile_follows (limit : ℕ) (held : Option (U × Handle)) :
    Prog.Follows L.protocol (readFile limit L.target) (.free held) fun raw g =>
      match raw with
      | .ok raw => g = .known held (L.load (some raw))
      | .error _ => g = .known held (L.load none) := by
  refine ⟨.look held, fun opened _ => ?_⟩
  rcases opened with err | file
  · exact rfl
  · simp only [Prog.ret_bind]
    refine Prog.Follows.bind ((Prog.Follows.iterate (P := L.protocol)
      (Q := fun (raw : Except IoError (List UInt8)) g => match raw with
        | .ok raw => g = .reading held file raw true
        | .error _ => False)
      (fun bytes g => g = .reading held file bytes false) rfl ?_).mono ?_)
    · rintro bytes g rfl
      refine (L.readTurn_follows limit held file bytes).mono ?_
      rintro (bytes' | (err | raw)) g hg
      · exact hg
      · exact hg
      · exact hg
    · rintro (err | raw) g hg
      · exact hg.elim
      · subst hg
        exact ⟨.closeTarget held file raw, fun _ _ => rfl⟩

/-! ## What holds of a process -/

/-- The process has the file open. -/
def Opened (s : Files) (pid : ℕ) (h : Handle) (inode : ℕ) : Prop :=
  ∃ position, s.handles h = some ⟨pid, inode, position⟩

/-- The process has the lock file open under its name, and locked if it has it locked. -/
def LockedAt (s : Files) (pid : ℕ) (lock : Handle) (locked : Bool) : Prop :=
  ∃ inode, Opened s pid lock inode ∧ s.inodeAt L.lockName = some inode ∧
    (locked = true → s.locks inode = some lock)

/-- The process has read a store of some time, as far as it has read. -/
def ReadAt (log : Log main initial) (s : Files) (pid : ℕ) (holds : Prop) (h : Handle)
    (bytes : List UInt8) (ended : Bool) : Prop :=
  ∃ inode, s.handles h = some ⟨pid, inode, bytes.length⟩ ∧ bytes <+: s.data inode ∧
    (ended = true → bytes = s.data inode) ∧ L.Stored log (L.load (some (s.data inode))) ∧
    (holds → s.inodeAt L.target = some inode)

/-- The file is the new one of the process, and nobody else gets at it. -/
def TempAt (s : Files) (pid : ℕ) (name : String) (temp : Handle) (bytes : List UInt8) : Prop :=
  ∃ inode, Opened s pid temp inode ∧ s.inodeAt name = some inode ∧ s.data inode = bytes ∧
    (∀ other, s.inodeAt other = some inode → other = name) ∧
    (∀ h file, s.handles h = some file → file.inode = inode → h = temp) ∧
    ∃ random, name = Files.tempName L.tempBefore random L.tempAfter

/-- What a stage says of the files is so. -/
structure Sound (log : Log main initial) (s : Files) (pid : ℕ) (g : Stage σ U) : Prop where
  /-- The update is the one that was asked for. -/
  update : ∀ u, g.update = some u → current pid log = some u
  /-- The lock file is open, and locked where the stage says so. -/
  lock : ∀ lock locked, g.lock = some (lock, locked) → L.LockedAt s pid lock locked
  /-- The file beside the lock file is open, under a handle of its own. -/
  beside : ∀ h, g.beside = some h → (∃ inode, Opened s pid h inode) ∧
    ∀ lock locked, g.lock = some (lock, locked) → lock ≠ h
  /-- What has been read is the beginning of a store. -/
  reads : ∀ h bytes ended, g.reads = some (h, bytes, ended) →
    L.ReadAt log s pid g.Holds h bytes ended
  /-- The store is one that there was; under the lock it is the present one. -/
  knows : ∀ store, g.knows = some store → L.Stored log store ∧
    (g.Holds → store = L.storeAfter initial (L.completed log))
  /-- The new file is the process's own, and has in it what the stage says. -/
  temp : ∀ name temp bytes, L.temp g = some (name, temp, bytes) → L.TempAt s pid name temp bytes

/-- The update that a process has not completed yet, or left when it was killed. -/
def pending (stage : Machine.Stage (Stage σ U)) : Option U := stage.ghost.bind Stage.update

/-- What holds of the whole. -/
structure Inv (log : Log main initial) (gs : ℕ → Machine.Stage (Stage σ U)) (s : Files) :
    Prop where
  /-- The target has the result of the completed updates. -/
  store : L.load (s.content L.target) = L.storeAfter initial (L.completed log)
  /-- Every process is where its stage says. -/
  sound : ∀ pid g, gs pid = .live g → L.Sound log s pid g
  /-- Every update that was asked for is completed or pending. -/
  account : ∀ pid, askedBy pid log = L.completedBy pid log ++ (pending (gs pid)).toList
  /-- Whoever has looked has seen a store that there was. -/
  saw : ∀ pid before store r, .called pid before (.saw store) r ∈ log → L.Stored log store
  /-- A process that has finished has nothing open. -/
  ended : ∀ pid a, .finished pid a ∈ log → gs pid = .gone (.free none)

variable {L}

/-- **Only one process has the lock.** -/
theorem Inv.exclusive {log : Log main initial} {gs : ℕ → Machine.Stage (Stage σ U)} {s : Files}
    (hinv : L.Inv log gs s) {pid other : ℕ} {g g' : Stage σ U} (hlive : gs pid = .live g)
    (hlive' : gs other = .live g') (hholds : g.Holds) (hholds' : g'.Holds) : pid = other := by
  obtain ⟨lock, hlock⟩ := hholds
  obtain ⟨lock', hlock'⟩ := hholds'
  obtain ⟨inode, ⟨position, hopen⟩, hname, hlocked⟩ := (hinv.sound pid g hlive).lock lock true hlock
  obtain ⟨inode', ⟨position', hopen'⟩, hname', hlocked'⟩ :=
    (hinv.sound other g' hlive').lock lock' true hlock'
  have hinode : inode = inode' := Option.some.inj (hname.symm.trans hname')
  subst hinode
  have hsame : lock = lock' := Option.some.inj ((hlocked rfl).symm.trans (hlocked' rfl))
  subst hsame
  exact congrArg OpenFile.owner (Option.some.inj (hopen.symm.trans hopen'))

/-! ## What the permitted calls leave alone -/

theorem exec_file {pid : ℕ} {s s' : Files} {o : FileOp} {r : o.Ret}
    (hexec : (machine main initial).exec pid s (.file o) r = some s') :
    Faultless s o r = true ∧ s.exec pid o r = some s' := by
  change (if Faultless s o r then s.exec pid o r else none) = some s' at hexec
  split at hexec
  · rename_i hok
    exact ⟨hok, hexec⟩
  · exact nomatch hexec

section

variable {g : Stage σ U} {o : FileOp} (hpre : L.Keeps g (.file o))
include hpre

theorem Keeps.not_remove (name : String) : o ≠ .remove name := by
  rintro rfl
  cases hpre

theorem Keeps.rename {source target : String} (hop : o = .rename source target) :
    target = L.target ∧ g.Holds ∧ ∃ temp bytes, L.temp g = some (source, temp, bytes) := by
  subst hop
  cases hpre with
  | replace u lock store name temp => exact ⟨rfl, ⟨lock, rfl⟩, temp, _, rfl⟩

theorem Keeps.write {h : Handle} {bytes : List UInt8} (hop : o = .write h bytes) :
    g.Holds ∧ ∃ name, L.temp g = some (name, h, []) := by
  subst hop
  cases hpre with
  | fill u lock store name temp => exact ⟨⟨lock, rfl⟩, name, rfl⟩

theorem Keeps.names {name : String} (hnames : Files.Names o name) :
    name = L.lockName ∨
      g.Holds ∧ ∃ random, name = Files.tempName L.tempBefore random L.tempAfter := by
  rcases hnames with rfl | ⟨before, after, random, rfl, hname, -⟩
  · cases hpre
    exact .inl rfl
  · cases hpre with
    | makeTemp u lock store => exact .inr ⟨⟨lock, rfl⟩, random, hname⟩

theorem Keeps.opens {name : String} (hopens : Files.Opens o name) :
    name = L.target ∨ name = L.lockName := by
  rcases hopens with rfl | rfl | rfl
  · cases hpre
    exact .inl rfl
  · cases hpre
  · cases hpre
    exact .inr rfl

variable {s s' : Files} {pid : ℕ} {r : o.Ret} (hexec : s.exec pid o r = some s')
include hexec

/-- An entry stays, unless it is the new file of the process or is replaced. -/
theorem Keeps.exec_entry {name : String} {inode : ℕ} (hname : s.inodeAt name = some inode)
    (hsource : ∀ target, o ≠ .rename name target) (htarget : ∀ source, o ≠ .rename source name) :
    s'.inodeAt name = some inode := by
  have hnew : s.inodeAt name = none → ¬ Files.Names o name := by
    intro hnone
    rw [hname] at hnone
    exact nomatch hnone
  rw [Files.exec_inodeAt hexec hnew (hpre.not_remove name) hsource htarget]
  exact hname

/-- **The lock file keeps its name.** -/
theorem Keeps.exec_lockName (hsound : ∀ name temp bytes, L.temp g = some (name, temp, bytes) →
    L.TempAt s pid name temp bytes) {inode : ℕ} (hname : s.inodeAt L.lockName = some inode) :
    s'.inodeAt L.lockName = some inode := by
  refine hpre.exec_entry hexec hname (fun target hop => ?_) fun source hop => ?_
  · obtain ⟨-, -, temp, bytes, htemp⟩ := hpre.rename hop
    obtain ⟨-, -, -, -, -, -, random, heq⟩ := hsound _ _ _ htemp
    exact (L.temp_ne random).2 heq.symm
  · exact L.target_ne_lock (hpre.rename hop).1.symm

/-- What is under the target stays there until it is replaced. -/
theorem Keeps.exec_target (hsound : ∀ name temp bytes, L.temp g = some (name, temp, bytes) →
    L.TempAt s pid name temp bytes) (hkeep : ∀ source, o ≠ .rename source L.target) :
    s'.inodeAt L.target = s.inodeAt L.target := by
  refine Files.exec_inodeAt hexec (fun _ hnames => ?_) (hpre.not_remove L.target)
    (fun target hop => ?_) hkeep
  · rcases hpre.names hnames with heq | ⟨-, random, heq⟩
    · exact L.target_ne_lock heq
    · exact (L.temp_ne random).1 heq.symm
  · obtain ⟨-, -, temp, bytes, htemp⟩ := hpre.rename hop
    obtain ⟨-, -, -, -, -, -, random, heq⟩ := hsound _ _ _ htemp
    exact (L.temp_ne random).1 heq.symm

/-- A process writes to nothing but its own new file. -/
theorem Keeps.exec_data {inode : ℕ} (hlt : inode < s.inodes)
    (hother : ∀ name temp bytes, L.temp g = some (name, temp, bytes) → ¬ Opened s pid temp inode) :
    s'.data inode = s.data inode := by
  refine Files.exec_data hexec hlt fun h bytes file hop hfile howner heq => ?_
  obtain ⟨-, name, htemp⟩ := hpre.write hop
  subst heq howner
  exact hother name h [] htemp ⟨file.position, hfile⟩

end

/-! ## What a process does to the others -/

/-- What a process relies on is as it was. -/
structure Undisturbed (L : LockedFile σ U) (s s' : Files) (pid : ℕ) (g : Stage σ U) : Prop where
  /-- Its files are open. -/
  handles : ∀ {h file}, s.handles h = some file → file.owner = pid → s'.handles h = some file
  /-- What is in its files is the same. -/
  data : ∀ {h file}, s.handles h = some file → file.owner = pid →
    s'.data file.inode = s.data file.inode
  /-- The lock file is the same file. -/
  lockName : ∀ {inode}, s.inodeAt L.lockName = some inode → s'.inodeAt L.lockName = some inode
  /-- Its locks are held. -/
  locks : ∀ {h file inode}, s.handles h = some file → file.owner = pid →
    s.locks inode = some h → s'.locks inode = some h
  /-- Under the lock no entry goes. -/
  entry : g.Holds → ∀ {name inode}, s.inodeAt name = some inode → s'.inodeAt name = some inode
  /-- Under the lock no file gets another name. -/
  named : g.Holds → ∀ {name inode}, inode < s.inodes → s'.inodeAt name = some inode →
    s.inodeAt name = some inode
  /-- Under the lock nobody opens anything but the target and the lock file. -/
  opened : g.Holds → ∀ {h file}, file.inode < s.inodes → s'.handles h = some file →
    (∃ file', s.handles h = some file' ∧ file'.inode = file.inode) ∨
      s.inodeAt L.target = some file.inode ∨ s.inodeAt L.lockName = some file.inode

theorem holds_of_temp {g : Stage σ U} {name : String} {temp : Handle} {bytes : List UInt8}
    (htemp : L.temp g = some (name, temp, bytes)) : g.Holds := by
  cases g with
  | filling u lock store name temp full => exact ⟨lock, rfl⟩
  | _ => exact nomatch htemp

/-- What was a store of some time still is. -/
theorem Stored.mono {log log' : Log main initial} {store : σ} (h : L.Stored log store)
    (hgrows : L.completed log <+: L.completed log') : L.Stored log' store := by
  obtain ⟨updates, hupdates, heq⟩ := h
  exact ⟨updates, hupdates.trans hgrows, heq⟩

/-- **Whoever is left undisturbed is where it was.** -/
theorem Sound.undisturbed {log log' : Log main initial} {s s' : Files} {pid : ℕ} {g : Stage σ U}
    (h : L.Sound log s pid g) (hfiles : Undisturbed L s s' pid g)
    (hcurrent : current pid log' = current pid log)
    (hgrows : L.completed log <+: L.completed log')
    (hheld : g.Holds → L.completed log' = L.completed log) : L.Sound log' s' pid g := by
  have hopened : ∀ {h inode}, Opened s pid h inode → Opened s' pid h inode := by
    rintro h inode ⟨position, hopen⟩
    exact ⟨position, hfiles.handles hopen rfl⟩
  refine ⟨fun u hu => ?_, fun lock locked hlock => ?_, fun h' hbeside => ?_,
    fun h' bytes ended hreads => ?_, fun store hknows => ?_, fun name temp bytes htemp => ?_⟩
  · rw [hcurrent]
    exact h.update u hu
  · obtain ⟨inode, ⟨position, hopen⟩, hname, hlocked⟩ := h.lock lock locked hlock
    exact ⟨inode, hopened ⟨position, hopen⟩, hfiles.lockName hname,
      fun hl => hfiles.locks hopen rfl (hlocked hl)⟩
  · obtain ⟨⟨inode, hopen⟩, hne⟩ := h.beside h' hbeside
    exact ⟨⟨inode, hopened hopen⟩, hne⟩
  · obtain ⟨inode, hopen, hbytes, hended, hstored, htarget⟩ := h.reads h' bytes ended hreads
    have hdata : s'.data inode = s.data inode := hfiles.data hopen rfl
    refine ⟨inode, hfiles.handles hopen rfl, ?_, ?_, ?_, fun hholds =>
      hfiles.entry hholds (htarget hholds)⟩
    · rw [hdata]
      exact hbytes
    · rw [hdata]
      exact hended
    · rw [hdata]
      exact hstored.mono hgrows
  · obtain ⟨hstored, hlast⟩ := h.knows store hknows
    refine ⟨hstored.mono hgrows, fun hholds => ?_⟩
    rw [hheld hholds]
    exact hlast hholds
  · have hholds : g.Holds := holds_of_temp htemp
    obtain ⟨inode, ⟨position, hopen⟩, hname, hdata, honly, hsole, hrandom⟩ :=
      h.temp name temp bytes htemp
    have hlt : inode < s.inodes := s.handles_lt hopen
    refine ⟨inode, hopened ⟨position, hopen⟩, hfiles.entry hholds hname, ?_,
      fun other hother => honly other (hfiles.named hholds hlt hother),
      fun h' file hfile hinode => ?_, hrandom⟩
    · rw [← hdata]
      exact hfiles.data hopen rfl
    · subst hinode
      obtain ⟨random, heq⟩ := hrandom
      rcases hfiles.opened hholds hlt hfile with ⟨file', hfile', hinode⟩ | htarget | hlock
      · exact hsole h' file' hfile' hinode
      · exact absurd (heq.symm.trans (honly _ htarget).symm) (L.temp_ne random).1
      · exact absurd (heq.symm.trans (honly _ hlock).symm) (L.temp_ne random).2

/-- **A call of one process leaves the others undisturbed.** -/
theorem Inv.call_undisturbed {log : Log main initial} {gs : ℕ → Machine.Stage (Stage σ U)}
    {s s' : Files} (hinv : L.Inv log gs s) {pid other : ℕ} (hne : other ≠ pid) {g g' : Stage σ U}
    (hlive : gs pid = .live g) (hlive' : gs other = .live g') {o : FileOp} {r : o.Ret}
    (hpre : L.Keeps g (.file o)) (hexec : s.exec pid o r = some s') :
    Undisturbed L s s' other g' := by
  have hsound := (hinv.sound pid g hlive).temp
  have hquiet : g'.Holds → ¬ g.Holds := fun hholds' hholds =>
    hne (hinv.exclusive hlive' hlive hholds' hholds)
  have hstays : g'.Holds → ∀ source target, o ≠ .rename source target :=
    fun hholds' source target hop => hquiet hholds' (hpre.rename hop).2.1
  refine
    { handles := fun hfile howner => Files.exec_handles hexec hfile (howner.trans_ne hne)
      data := fun {h file} hfile howner => ?_
      lockName := hpre.exec_lockName hexec hsound
      locks := fun hfile howner hlock => Files.exec_locks hexec hfile (howner.trans_ne hne) hlock
      entry := fun hholds' name inode hname => hpre.exec_entry hexec hname
        (fun target => hstays hholds' name target) fun source => hstays hholds' source name
      named := fun hholds' name inode hlt hname => ?_
      opened := fun hholds' h file hlt hfile => ?_ }
  · refine hpre.exec_data hexec (s.handles_lt hfile) ?_
    rintro name temp bytes htemp ⟨position, hopen⟩
    obtain ⟨inode, ⟨position', hopen'⟩, -, -, -, hsole, -⟩ := hsound name temp bytes htemp
    have hinode : inode = file.inode :=
      congrArg OpenFile.inode (Option.some.inj (hopen'.symm.trans hopen))
    have hsame : h = temp := hsole h file hfile hinode.symm
    subst hsame
    have howner' : file.owner = pid :=
      congrArg OpenFile.owner (Option.some.inj (hfile.symm.trans hopen'))
    exact hne (howner.symm.trans howner')
  · rcases Files.exec_named hexec hlt hname with hname | ⟨source, hop, -⟩
    · exact hname
    · exact absurd hop (hstays hholds' source name)
  · rcases Files.exec_opened hexec hlt hfile with hfile | ⟨name, hopens, hname⟩
    · exact .inl hfile
    · rcases hpre.opens hopens with rfl | rfl
      · exact .inr (.inl hname)
      · exact .inr (.inr hname)

/-- **So does its end**, whether it has finished or been killed. -/
theorem exit_undisturbed {s : Files} {pid other : ℕ} (hne : other ≠ pid) (g : Stage σ U) :
    Undisturbed L s (s.exit pid) other g where
  handles hfile howner := Files.exit_handles hfile (howner.trans_ne hne)
  data _ _ := rfl
  lockName hname := hname
  locks hfile howner hlock := Files.exit_locks hfile (howner.trans_ne hne) hlock
  entry _ _ _ hname := hname
  named _ _ _ _ hname := hname
  opened _ _ file _ hfile := .inl ⟨file, Files.exit_opened hfile, rfl⟩

/-- Nothing has happened to the files. -/
theorem Undisturbed.refl (s : Files) (pid : ℕ) (g : Stage σ U) : Undisturbed L s s pid g where
  handles hfile _ := hfile
  data _ _ := rfl
  lockName hname := hname
  locks _ _ hlock := hlock
  entry _ _ _ hname := hname
  named _ _ _ _ hname := hname
  opened _ _ file _ hfile := .inl ⟨file, hfile, rfl⟩

/-! ## What a process does itself -/

theorem stored_now (log : Log main initial) :
    L.Stored log (L.storeAfter initial (L.completed log)) :=
  ⟨_, List.prefix_refl _, rfl⟩

/-- It stays with the lock file, unless it gives that up. -/
theorem Sound.exec_lock {log : Log main initial} {s s' : Files} {pid : ℕ} {g : Stage σ U}
    (h : L.Sound log s pid g) {o : FileOp} {r : o.Ret} (hpre : L.Keeps g (.file o))
    (hexec : s.exec pid o r = some s') {lock : Handle} {locked : Bool}
    (hlock : g.lock = some (lock, locked)) (hclose : o ≠ .close lock) (hunlock : o ≠ .unlock lock) :
    L.LockedAt s' pid lock locked := by
  obtain ⟨inode, ⟨position, hopen⟩, hname, hlocked⟩ := h.lock lock locked hlock
  obtain ⟨⟨owner, inode', position'⟩, hopen', howner, hinode⟩ := Files.exec_open hexec hopen hclose
  subst howner hinode
  exact ⟨inode', ⟨position', hopen'⟩, hpre.exec_lockName hexec h.temp hname,
    fun hl => Files.exec_locked hexec hopen (hlocked hl) hunlock hclose⟩

/-- With only the lock file open there is nothing else to it. -/
theorem Sound.of_lock {log : Log main initial} {s : Files} {pid : ℕ} {g : Stage σ U}
    (hupdate : ∀ u, g.update = some u → current pid log = some u)
    (hlock : ∀ lock locked, g.lock = some (lock, locked) → L.LockedAt s pid lock locked)
    (hbeside : g.beside = none) (hreads : g.reads = none) (hknows : g.knows = none)
    (htemp : L.temp g = none) : L.Sound log s pid g where
  update := hupdate
  lock := hlock
  beside _ hsome := nomatch hbeside.symm.trans hsome
  reads _ _ _ hsome := nomatch hreads.symm.trans hsome
  knows _ hsome := nomatch hknows.symm.trans hsome
  temp _ _ _ hsome := nomatch htemp.symm.trans hsome

/-- A file that is opened is not the lock file. -/
theorem LockedAt.ne_of_free {s : Files} {pid : ℕ} {lock h : Handle} {locked : Bool}
    (hlock : L.LockedAt s pid lock locked) (hfree : s.handles h = none) : lock ≠ h := by
  obtain ⟨inode, ⟨position, hopen⟩, -, -⟩ := hlock
  exact Files.ne_of_free hopen hfree

section

variable {log log' : Log main initial} {s s' : Files} {pid : ℕ}
  (hstore : L.load (s.content L.target) = L.storeAfter initial (L.completed log))
  (hcurrent : current pid log' = current pid log)
  (hcompleted : L.completed log' = L.completed log)

include hcurrent in
theorem Sound.update_of {g : Stage σ U} (h : L.Sound log s pid g) (u : U) (hu : g.update = some u) :
    current pid log' = some u :=
  hcurrent.trans (h.update u hu)

include hstore hcurrent hcompleted in
theorem Sound.look {held : Option (U × Handle)} (h : L.Sound log s pid (.free held))
    {r : FileOp.Ret (.openRead L.target)} (hok : Faultless s (.openRead L.target) r = true)
    (hexec : s.exec pid (.openRead L.target) r = some s') :
    L.Sound log' s' pid (L.next (.free held) (.file (.openRead L.target)) r) := by
  have hlock : ∀ lock locked, (held.map fun entry => (entry.2, true)) = some (lock, locked) →
      L.LockedAt s' pid lock locked := fun lock locked hlock =>
    h.exec_lock (.look held) hexec hlock (fun hop => (by cases hop)) fun hop => by cases hop
  rcases r with err | file
  · -- There is no file to be read.
    have hnone : s.inodeAt L.target = none := by
      have hboth := Bool.and_eq_true_iff.mp hok
      exact Option.isNone_iff_eq_none.mp hboth.2
    have hempty : L.load none = L.storeAfter initial (L.completed log') := by
      rw [hcompleted, ← hstore, Files.content, hnone]
      rfl
    refine ⟨h.update_of hcurrent, hlock, fun _ hsome => (by cases hsome),
      fun _ _ _ hsome => (by cases hsome), fun store hknows => ?_, fun _ _ _ hsome => by cases hsome⟩
    obtain rfl : L.load none = store := Option.some.inj hknows
    refine ⟨?_, fun _ => hempty⟩
    rw [hempty]
    exact stored_now log'
  · obtain ⟨inode, hlt, hname, hfree, rfl⟩ := Files.openAt_eq_some hexec
    have hnow : L.load (some (s.data inode)) = L.storeAfter initial (L.completed log') := by
      rw [hcompleted, ← hstore, Files.content, hname]
      rfl
    refine ⟨h.update_of hcurrent, hlock, fun h' hbeside => ?_, fun h' bytes ended hreads => ?_,
      fun _ hsome => (by cases hsome), fun _ _ _ hsome => by cases hsome⟩
    · obtain rfl : file = h' := Option.some.inj hbeside
      exact ⟨⟨inode, 0, Files.handles_setHandle_self⟩,
        fun lock locked hlock => (h.lock lock locked hlock).ne_of_free hfree⟩
    · cases hreads
      refine ⟨inode, Files.handles_setHandle_self, List.nil_prefix, fun hend => (by cases hend), ?_,
        fun _ => hname⟩
      change L.Stored log' (L.load (some (s.data inode)))
      rw [hnow]
      exact stored_now log'

include hcurrent in
theorem Sound.openLock {u : U} (h : L.Sound log s pid (.asked u))
    {r : FileOp.Ret (.openOrCreate L.lockName)}
    (hexec : s.exec pid (.openOrCreate L.lockName) r = some s') :
    L.Sound log' s' pid (L.next (.asked u) (.file (.openOrCreate L.lockName)) r) := by
  rcases r with err | file
  · exact .of_lock (h.update_of hcurrent) (fun _ _ hsome => nomatch hsome) rfl rfl rfl rfl
  · obtain ⟨inode, hlt, hname, -, rfl⟩ := Files.openAt_eq_some hexec
    refine .of_lock (h.update_of hcurrent) (fun lock locked hlock => ?_) rfl rfl rfl rfl
    cases hlock
    exact ⟨inode, ⟨0, Files.handles_setHandle_self⟩, hname, fun hl => nomatch hl⟩

include hcurrent in
theorem Sound.takeLock {u : U} {lock : Handle} (h : L.Sound log s pid (.opened u lock))
    {r : FileOp.Ret (.lock lock)} (hok : Faultless s (.lock lock) r = true)
    (hexec : s.exec pid (.lock lock) r = some s') :
    L.Sound log' s' pid (L.next (.opened u lock) (.file (.lock lock)) r) := by
  rcases r with err | ⟨⟩
  · exact nomatch hok
  · obtain ⟨file, hmine, -, rfl⟩ := Files.take_eq_some hexec
    refine .of_lock (h.update_of hcurrent) (fun lock' locked hlock => ?_) rfl rfl rfl rfl
    cases hlock
    obtain ⟨inode, ⟨position, hopen⟩, hname, -⟩ := h.lock lock false rfl
    obtain rfl : _ = file := Option.some.inj (hopen.symm.trans (Files.mine_eq_some.mp hmine).1)
    exact ⟨inode, ⟨position, hopen⟩, hname, fun _ => Function.update_self inode _ s.locks⟩

include hcurrent hcompleted in
theorem Sound.read {held : Option (U × Handle)} {file : Handle} {bytes : List UInt8} {limit : ℕ}
    (h : L.Sound log s pid (.reading held file bytes false)) {r : FileOp.Ret (.read file limit)}
    (hok : Faultless s (.read file limit) r = true)
    (hexec : s.exec pid (.read file limit) r = some s') :
    L.Sound log' s' pid (L.next (.reading held file bytes false) (.file (.read file limit)) r) := by
  have hlock : ∀ lock locked, (held.map fun entry => (entry.2, true)) = some (lock, locked) →
      L.LockedAt s' pid lock locked := fun lock locked hlock =>
    h.exec_lock (.read held file bytes limit) hexec hlock (fun hop => (nomatch hop))
      fun hop => nomatch hop
  rcases r with err | chunk
  · exact nomatch hok
  obtain ⟨inode, hopen, ⟨rest, hdata⟩, -, hstored, htarget⟩ := h.reads file bytes false rfl
  obtain ⟨-, hne⟩ := h.beside file rfl
  obtain ⟨opened, hlt, hfile, howner, hread, rfl⟩ := Files.readFrom_eq_some hexec
  obtain rfl : _ = opened := Option.some.inj (hopen.symm.trans hfile)
  -- What is left to be read is `rest`.
  have hrest : (s.data inode).drop bytes.length = rest := by
    rw [← hdata, List.drop_left]
  simp only [Files.Reads, hrest, Bool.and_eq_true, List.isPrefixOf_iff_prefix] at hread
  obtain ⟨⟨⟨more, hchunk⟩, -⟩, hprogress⟩ := hread
  refine ⟨h.update_of hcurrent, hlock, fun h' hbeside => ?_, fun h' bytes' ended hreads => ?_,
    fun _ hsome => (nomatch hsome), fun _ _ _ hsome => nomatch hsome⟩
  · obtain rfl : file = h' := Option.some.inj hbeside
    exact ⟨⟨inode, _, Files.handles_setHandle_self⟩, hne⟩
  · cases hreads
    refine ⟨inode, ?_, ⟨more, ?_⟩, fun hend => ?_, ?_, htarget⟩
    · rw [List.length_append]
      exact Files.handles_setHandle_self
    · rw [List.append_assoc, hchunk]
      exact hdata
    · have hchunk : chunk = [] := List.isEmpty_iff.mp hend
      subst hchunk
      have hnil : rest = [] := by simpa using hprogress
      rw [List.append_nil]
      rw [hnil, List.append_nil] at hdata
      exact hdata
    · exact hstored.mono (hcompleted ▸ List.prefix_refl _)

include hstore hcurrent hcompleted in
theorem Sound.closeTarget {held : Option (U × Handle)} {file : Handle} {bytes : List UInt8}
    (h : L.Sound log s pid (.reading held file bytes true)) {r : FileOp.Ret (.close file)}
    (hexec : s.exec pid (.close file) r = some s') :
    L.Sound log' s' pid (L.next (.reading held file bytes true) (.file (.close file)) r) := by
  obtain ⟨inode, hopen, -, hended, hstored, htarget⟩ := h.reads file bytes true rfl
  obtain ⟨-, hne⟩ := h.beside file rfl
  refine ⟨h.update_of hcurrent, fun lock locked hlock => ?_, fun _ hsome => (nomatch hsome),
    fun _ _ _ hsome => (nomatch hsome), fun store hknows => ?_, fun _ _ _ hsome => nomatch hsome⟩
  · refine h.exec_lock (.closeTarget held file bytes) hexec hlock ?_ fun hop => nomatch hop
    rintro hop
    exact hne lock locked hlock (FileOp.close.inj hop).symm
  · obtain rfl : L.load (some bytes) = store := Option.some.inj hknows
    rw [hended rfl]
    refine ⟨hstored.mono (hcompleted ▸ List.prefix_refl _), fun hholds => ?_⟩
    rw [hcompleted, ← hstore, Files.content, htarget hholds]
    rfl

include hcurrent hcompleted in
theorem Sound.makeTemp {u : U} {lock : Handle} {store : σ}
    (h : L.Sound log s pid (.known (some (u, lock)) store))
    {r : FileOp.Ret (.createTemp L.tempBefore L.tempAfter)}
    (hok : Faultless s (.createTemp L.tempBefore L.tempAfter) r = true)
    (hexec : s.exec pid (.createTemp L.tempBefore L.tempAfter) r = some s') :
    L.Sound log' s' pid (L.next (.known (some (u, lock)) store)
      (.file (.createTemp L.tempBefore L.tempAfter)) r) := by
  have hlock : L.LockedAt s' pid lock true :=
    h.exec_lock (.makeTemp u lock store) hexec rfl (fun hop => (nomatch hop)) fun hop => nomatch hop
  rcases r with err | ⟨random, file⟩
  · exact nomatch hok
  obtain ⟨-, -, hnew, hopen⟩ := Files.makeTemp_eq_some hexec
  obtain ⟨inode, hlt, hname, hfree, rfl⟩ := Files.openAt_eq_some hopen
  have hinode : s.inodes = inode := by
    rw [Files.inodeAt_create, if_pos rfl] at hname
    exact Option.some.inj hname
  subst hinode
  obtain ⟨hstored, hlast⟩ := h.knows store rfl
  refine ⟨h.update_of hcurrent, fun lock' locked hsome => ?_, fun h' hbeside => ?_,
    fun _ _ _ hsome => (nomatch hsome), fun store' hknows => ?_, fun name temp bytes htemp => ?_⟩
  · cases hsome
    exact hlock
  · obtain rfl : file = h' := Option.some.inj hbeside
    refine ⟨⟨s.inodes, 0, Files.handles_setHandle_self⟩, fun lock' locked hsome => ?_⟩
    cases hsome
    exact (h.lock lock true rfl).ne_of_free hfree
  · obtain rfl : store = store' := Option.some.inj hknows
    refine ⟨hstored.mono (hcompleted ▸ List.prefix_refl _), fun _ => ?_⟩
    rw [hcompleted]
    exact hlast ⟨lock, rfl⟩
  · cases htemp
    refine ⟨s.inodes, ⟨0, Files.handles_setHandle_self⟩, hname,
      Function.update_self s.inodes _ s.data, fun other hother => ?_, fun h' file' hfile' heq => ?_,
      random, rfl⟩
    · rw [Files.inodeAt_setHandle, Files.inodeAt_create] at hother
      split at hother
      · assumption
      · exact absurd (Files.inodeAt_lt hother) (lt_irrefl _)
    · by_contra hne
      rw [Files.handles_setHandle_of_ne hne] at hfile'
      exact absurd (s.handles_lt hfile') (heq ▸ lt_irrefl _)

include hcurrent hcompleted in
theorem Sound.fill {u : U} {lock : Handle} {store : σ} {name : String} {temp : Handle}
    (h : L.Sound log s pid (.filling u lock store name temp false))
    {r : FileOp.Ret (.write temp (L.encode (L.apply u store)))}
    (hok : Faultless s (.write temp (L.encode (L.apply u store))) r = true)
    (hexec : s.exec pid (.write temp (L.encode (L.apply u store))) r = some s') :
    L.Sound log' s' pid (L.next (.filling u lock store name temp false)
      (.file (.write temp (L.encode (L.apply u store)))) r) := by
  have hlock : L.LockedAt s' pid lock true :=
    h.exec_lock (.fill u lock store name temp) hexec rfl (fun hop => (nomatch hop))
      fun hop => nomatch hop
  rcases r with err | ⟨⟩
  · exact nomatch hok
  obtain ⟨inode, ⟨position, hopen⟩, hname, hdata, honly, hsole, hrandom⟩ := h.temp name temp [] rfl
  obtain ⟨-, hne⟩ := h.beside temp rfl
  obtain ⟨hstored, hlast⟩ := h.knows store rfl
  obtain ⟨file, hmine, rfl⟩ := Option.map_eq_some_iff.mp hexec
  obtain rfl : _ = file := Option.some.inj (hopen.symm.trans (Files.mine_eq_some.mp hmine).1)
  refine ⟨h.update_of hcurrent, fun lock' locked hsome => ?_, fun h' hbeside => ?_,
    fun _ _ _ hsome => (nomatch hsome), fun store' hknows => ?_, fun name' temp' bytes htemp => ?_⟩
  · cases hsome
    exact hlock
  · obtain rfl : temp = h' := Option.some.inj hbeside
    exact ⟨⟨inode, position, hopen⟩, hne⟩
  · obtain rfl : store = store' := Option.some.inj hknows
    refine ⟨hstored.mono (hcompleted ▸ List.prefix_refl _), fun _ => ?_⟩
    rw [hcompleted]
    exact hlast ⟨lock, rfl⟩
  · cases htemp
    refine ⟨inode, ⟨position, hopen⟩, hname, ?_, honly, hsole, hrandom⟩
    show Function.update s.data inode (s.data inode ++ L.encode (L.apply u store)) inode = _
    rw [Function.update_self, hdata]
    rfl

theorem Sound.replace {u : U} {lock : Handle} {store : σ} {name : String} {temp : Handle}
    (h : L.Sound log s pid (.filling u lock store name temp true))
    {r : FileOp.Ret (.rename name L.target)} (hok : Faultless s (.rename name L.target) r = true)
    (hexec : s.exec pid (.rename name L.target) r = some s') :
    L.Sound log' s' pid
      (L.next (.filling u lock store name temp true) (.file (.rename name L.target)) r) := by
  have hlock : L.LockedAt s' pid lock true :=
    h.exec_lock (.replace u lock store name temp) hexec rfl (fun hop => (nomatch hop))
      fun hop => nomatch hop
  rcases r with err | ⟨⟩
  · exact nomatch hok
  obtain ⟨⟨inode, hopen⟩, hne⟩ := h.beside temp rfl
  obtain ⟨inode', hlt, -, rfl⟩ := Files.move_eq_some hexec
  refine ⟨fun _ hsome => (nomatch hsome), fun lock' locked hsome => ?_, fun h' hbeside => ?_,
    fun _ _ _ hsome => (nomatch hsome), fun _ hsome => (nomatch hsome),
    fun _ _ _ hsome => nomatch hsome⟩
  · cases hsome
    exact hlock
  · obtain rfl : temp = h' := Option.some.inj hbeside
    exact ⟨⟨inode, hopen⟩, hne⟩

theorem Sound.closeTemp {lock temp : Handle} {locked : Bool}
    (h : L.Sound log s pid (.leaving lock (some temp) locked)) {r : FileOp.Ret (.close temp)}
    (hexec : s.exec pid (.close temp) r = some s') :
    L.Sound log' s' pid (L.next (.leaving lock (some temp) locked) (.file (.close temp)) r) := by
  have hne : lock ≠ temp := (h.beside temp rfl).2 lock locked rfl
  have hlock : L.LockedAt s' pid lock locked :=
    h.exec_lock (.closeTemp lock temp locked) hexec rfl (fun hop => hne (FileOp.close.inj hop).symm)
      fun hop => nomatch hop
  refine .of_lock (fun _ hsome => nomatch hsome) (fun lock' locked' hsome => ?_) rfl rfl rfl rfl
  cases hsome
  exact hlock

theorem Sound.unlock {lock : Handle} (h : L.Sound log s pid (.leaving lock none true))
    {r : FileOp.Ret (.unlock lock)} (hok : Faultless s (.unlock lock) r = true)
    (hexec : s.exec pid (.unlock lock) r = some s') :
    L.Sound log' s' pid (L.next (.leaving lock none true) (.file (.unlock lock)) r) := by
  rcases r with err | ⟨⟩
  · exact nomatch hok
  obtain ⟨inode, hopen, hname, -⟩ := h.lock lock true rfl
  obtain ⟨-, -, rfl⟩ := Option.map_eq_some_iff.mp hexec
  refine .of_lock (fun _ hsome => nomatch hsome) (fun lock' locked hsome => ?_) rfl rfl rfl rfl
  cases hsome
  exact ⟨inode, hopen, hname, fun hl => nomatch hl⟩

end

/-- **A call leaves a process where its stage says.** -/
theorem Inv.call_sound {log log' : Log main initial} {gs : ℕ → Machine.Stage (Stage σ U)}
    {s s' : Files} (hinv : L.Inv log gs s) {pid : ℕ} {g : Stage σ U} (hlive : gs pid = .live g)
    {o : FileOp} {r : o.Ret} (hpre : L.Keeps g (.file o)) (hok : Faultless s o r = true)
    (hexec : s.exec pid o r = some s') (hcurrent : current pid log' = current pid log)
    (hcompleted : (∀ source, o ≠ .rename source L.target) → L.completed log' = L.completed log) :
    L.Sound log' s' pid (L.next g (.file o) r) := by
  have h := hinv.sound pid g hlive
  have hstays : (∀ source, o ≠ .rename source L.target) → s = s' →
      L.Sound log' s' pid g := by
    rintro hkeep rfl
    exact h.undisturbed (.refl s pid g) hcurrent (hcompleted hkeep ▸ List.prefix_refl _)
      fun _ => hcompleted hkeep
  cases hpre with
  | look held =>
    exact h.look hinv.store hcurrent (hcompleted fun source hop => nomatch hop) hok hexec
  | makeDir u =>
    rcases r with err | ⟨⟩
    · exact nomatch hok
    · exact hstays (fun source hop => nomatch hop) (Option.some.inj hexec)
  | openLock u => exact h.openLock hcurrent hexec
  | takeLock u lock => exact h.takeLock hcurrent hok hexec
  | read held file bytes limit =>
    exact h.read hcurrent (hcompleted fun source hop => nomatch hop) hok hexec
  | closeTarget held file bytes =>
    exact h.closeTarget hinv.store hcurrent (hcompleted fun source hop => nomatch hop) hexec
  | makeTemp u lock store =>
    exact h.makeTemp hcurrent (hcompleted fun source hop => nomatch hop) hok hexec
  | fill u lock store name temp =>
    exact h.fill hcurrent (hcompleted fun source hop => nomatch hop) hok hexec
  | sync u lock store name temp =>
    rcases r with err | ⟨⟩
    · exact nomatch hok
    · exact hstays (fun source hop => nomatch hop) (Option.some.inj hexec)
  | replace u lock store name temp => exact h.replace hok hexec
  | closeTemp lock temp locked => exact h.closeTemp hexec
  | unlock lock => exact h.unlock hok hexec
  | closeLock lock locked =>
    exact .of_lock (fun _ hsome => nomatch hsome) (fun _ _ hsome => nomatch hsome) rfl rfl rfl rfl

/-! ## The store -/

/-- **Nothing but its replacement changes the target.** -/
theorem Inv.call_content {log : Log main initial} {gs : ℕ → Machine.Stage (Stage σ U)}
    {s s' : Files} (hinv : L.Inv log gs s) {pid : ℕ} {g : Stage σ U} (hlive : gs pid = .live g)
    {o : FileOp} {r : o.Ret} (hpre : L.Keeps g (.file o)) (hexec : s.exec pid o r = some s')
    (hkeep : ∀ source, o ≠ .rename source L.target) : s'.content L.target = s.content L.target := by
  have htemp := (hinv.sound pid g hlive).temp
  rw [Files.content, Files.content, hpre.exec_target hexec htemp hkeep]
  refine Option.map_congr fun inode hname => ?_
  refine hpre.exec_data hexec (Files.inodeAt_lt hname) ?_
  rintro name temp bytes hsome ⟨position, hopen⟩
  obtain ⟨inode', ⟨position', hopen'⟩, -, -, honly, -, random, heq⟩ := htemp name temp bytes hsome
  obtain rfl : inode = inode' :=
    congrArg OpenFile.inode (Option.some.inj (hopen.symm.trans hopen'))
  exact (L.temp_ne random).1 ((honly L.target hname).trans heq).symm

/-- **The replacement carries out the update.** -/
theorem Sound.replace_content {log : Log main initial} {s s' : Files} {pid : ℕ} {u : U}
    {lock : Handle} {store : σ} {name : String} {temp : Handle}
    (h : L.Sound log s pid (.filling u lock store name temp true))
    (hexec : s.exec pid (.rename name L.target) (.ok ()) = some s') :
    L.load (s'.content L.target) =
      L.storeAfter initial (L.completed log ++ [(pid, u)]) := by
  obtain ⟨inode, -, hname, hdata, -, -, -⟩ := h.temp name temp _ rfl
  obtain ⟨inode', hlt, hname', rfl⟩ := Files.move_eq_some hexec
  obtain rfl : inode = inode' := Option.some.inj (hname.symm.trans hname')
  have hcontent : ((s.remove name).link L.target inode hlt).content L.target =
      some (L.encode (L.apply u store)) := by
    rw [Files.content, Files.inodeAt_link, if_pos rfl]
    exact congrArg some hdata
  rw [hcontent, L.load_encode, storeAfter, List.foldl_append, List.foldl_cons, List.foldl_nil]
  exact congrArg (L.apply u) ((h.knows store rfl).2 ⟨lock, rfl⟩)

/-! ## The history says who has asked for what -/

section

variable {log : Log main initial} {e : (machine main initial).Event} {pid : ℕ}
  (hactor : e.actor ≠ pid)

include hactor

theorem current_cons : current pid (e :: log) = current pid log := by
  cases e with
  | called other before o r =>
    cases o with
    | asked u => exact if_neg hactor
    | file o => rfl
    | saw store => rfl
  | _ => rfl

theorem askedBy_cons : askedBy pid (e :: log) = askedBy pid log := by
  cases e with
  | called other before o r =>
    cases o with
    | asked u => exact if_neg hactor
    | file o => rfl
    | saw store => rfl
  | _ => rfl

theorem completedBy_cons : L.completedBy pid (e :: log) = L.completedBy pid log := by
  cases e with
  | called other before o r =>
    have hother : other ≠ pid := hactor
    unfold completedBy
    rw [completed]
    split
    · rw [List.filter_append, List.map_append]
      cases current other log with
      | none => simp
      | some u => simp [hother]
    · rfl
  | _ => rfl

end

theorem completed_prefix (log : Log main initial) (e : (machine main initial).Event) :
    L.completed log <+: L.completed (e :: log) := by
  cases e with
  | called pid before o r =>
    rw [completed]
    split
    · exact List.prefix_append _ _
    · exact List.prefix_refl _
  | _ => exact List.prefix_refl _

theorem completed_of_not_replaces {log : Log main initial} {pid : ℕ} {before : Files}
    {o : Op σ U} {r : o.Ret} (h : L.Replaces o r = false) :
    L.completed (.called pid before o r :: log : Log main initial) = L.completed log := by
  show (if L.Replaces o r then _ else L.completed log) = _
  rw [h]
  rfl

theorem not_replaces {o : FileOp} (r : o.Ret) (hkeep : ∀ source, o ≠ .rename source L.target) :
    L.Replaces (.file o) r = false := by
  cases o with
  | rename source target =>
    rcases r with err | ⟨⟩
    · rfl
    · exact decide_eq_false fun htarget => hkeep source (congrArg _ htarget)
  | _ => rfl

/-- **The history after a replacement.** -/
theorem completed_replace {log : Log main initial} {pid : ℕ} {before : Files} {source : String}
    {u : U} (hcurrent : current pid log = some u) :
    L.completed (.called pid before (.file (.rename source L.target)) (.ok ()) :: log :
      Log main initial) = L.completed log ++ [(pid, u)] := by
  have hreplaces : L.Replaces (.file (.rename source L.target)) (.ok ()) = true :=
    decide_eq_true rfl
  show (if L.Replaces (.file (.rename source L.target)) (.ok ()) then _ else _) = _
  rw [hreplaces, hcurrent]
  rfl

/-- A call leaves the update of a process pending, unless it carries it out. -/
theorem Keeps.next_update {g : Stage σ U} {o : FileOp} {r : o.Ret} (hpre : L.Keeps g (.file o))
    (hkeep : ∀ source, o ≠ .rename source L.target) :
    (L.next g (.file o) r).update = g.update := by
  cases hpre with
  | replace u lock store name temp => exact absurd rfl (hkeep name)
  | closeTarget | closeTemp | closeLock => rfl
  | makeTemp => rcases r with err | ⟨random, temp⟩ <;> rfl
  | look | makeDir | openLock | takeLock | read | fill | sync | unlock =>
    rcases r with err | answer
    all_goals rfl

/-! ## Every interleaving -/

/-- What a step of one process has to be shown for. -/
theorem Inv.step {log : Log main initial} {gs : ℕ → Machine.Stage (Stage σ U)} {s s' : Files}
    (hinv : L.Inv log gs s) {pid : ℕ} {stage : Machine.Stage (Stage σ U)}
    {e : (machine main initial).Event} (hactor : e.actor = pid) (hgone : ∀ g, gs pid ≠ .gone g)
    (hstore : L.load (s'.content L.target) = L.storeAfter initial (L.completed (e :: log)))
    (hself : ∀ g, stage = .live g → L.Sound (e :: log) s' pid g)
    (hothers : ∀ other g, other ≠ pid → gs other = .live g → Undisturbed L s s' other g ∧
      (g.Holds → L.completed (e :: log) = L.completed log))
    (haccount : askedBy pid (e :: log) = L.completedBy pid (e :: log) ++ (pending stage).toList)
    (hsaw : ∀ before store r, e = .called pid before (.saw store) r → L.Stored log store)
    (hended : ∀ a, e = .finished pid a → stage = .gone (.free none)) :
    L.Inv (e :: log) (Function.update gs pid stage) s' := by
  have hgrows := L.completed_prefix log e
  refine ⟨hstore, fun other g hlive => ?_, fun other => ?_, fun other before store r hmem => ?_,
    fun other a hmem => ?_⟩
  · by_cases hother : other = pid
    · subst hother
      rw [Function.update_self] at hlive
      exact hself g hlive
    · rw [Function.update_of_ne hother] at hlive
      obtain ⟨hfiles, hheld⟩ := hothers other g hother hlive
      exact (hinv.sound other g hlive).undisturbed hfiles
        (current_cons (hactor ▸ Ne.symm hother)) hgrows hheld
  · by_cases hother : other = pid
    · subst hother
      rw [Function.update_self]
      exact haccount
    · have hne : e.actor ≠ other := hactor ▸ Ne.symm hother
      rw [Function.update_of_ne hother, askedBy_cons hne, completedBy_cons hne]
      exact hinv.account other
  · rcases List.mem_cons.mp hmem with heq | hmem
    · subst heq
      obtain rfl : other = pid := hactor
      exact (hsaw before store r rfl).mono hgrows
    · exact (hinv.saw other before store r hmem).mono hgrows
  · rcases List.mem_cons.mp hmem with heq | hmem
    · subst heq
      obtain rfl : other = pid := hactor
      rw [Function.update_self]
      exact hended a rfl
    · have hother : other ≠ pid := by
        rintro rfl
        exact hgone _ (hinv.ended other a hmem)
      rw [Function.update_of_ne hother]
      exact hinv.ended other a hmem

theorem Inv.live_not_gone {gs : ℕ → Machine.Stage (Stage σ U)} {pid : ℕ} {g : Stage σ U}
    (hlive : gs pid = .live g) (g' : Stage σ U) : gs pid ≠ .gone g' := by
  rw [hlive]
  exact fun heq => nomatch heq

/-- A call on the files keeps the invariant. -/
theorem Inv.file_call {log : Log main initial} {gs : ℕ → Machine.Stage (Stage σ U)}
    {s s' : Files} (hinv : L.Inv log gs s) {pid : ℕ} {g : Stage σ U} (hlive : gs pid = .live g)
    {o : FileOp} {r : o.Ret} (hpre : L.Keeps g (.file o))
    (hexec : (machine main initial).exec pid s (.file o) r = some s') :
    L.Inv (.called pid s (.file o) r :: log)
      (Function.update gs pid (.live (L.next g (.file o) r))) s' := by
  obtain ⟨hok, hexec⟩ := exec_file hexec
  have haccount := hinv.account pid
  rw [hlive] at haccount
  by_cases hreplaces : ∃ source, o = .rename source L.target
  · obtain ⟨source, rfl⟩ := hreplaces
    cases hpre with
    | replace u lock store name temp =>
      have hsound := hinv.sound pid _ hlive
      have hcompleted : L.completed (.called pid s (.file (.rename source L.target)) (.ok ()) ::
          log : Log main initial) = L.completed log ++ [(pid, u)] :=
        completed_replace (hsound.update u rfl)
      rcases r with err | ⟨⟩
      · exact nomatch hok
      refine hinv.step rfl (Inv.live_not_gone hlive) ?_ (fun g' hg' => ?_)
        (fun other g' hother hlive' => ⟨?_, fun hholds => ?_⟩) ?_ (fun _ _ _ heq => nomatch heq)
        fun _ heq => nomatch heq
      · rw [hcompleted]
        exact hsound.replace_content hexec
      · cases hg'
        exact hsound.replace hok hexec
      · exact hinv.call_undisturbed hother hlive hlive' (.replace u lock store source temp) hexec
      · exact absurd (hinv.exclusive hlive' hlive hholds ⟨lock, rfl⟩) hother
      · show askedBy pid log = _
        rw [haccount, completedBy, completedBy, hcompleted]
        simp [pending, Machine.Stage.ghost, Stage.update, next]
  · have hkeep : ∀ source, o ≠ .rename source L.target := fun source hop => hreplaces ⟨source, hop⟩
    have hcompleted : L.completed (.called pid s (.file o) r :: log : Log main initial) =
        L.completed log := completed_of_not_replaces (not_replaces r hkeep)
    refine hinv.step rfl (Inv.live_not_gone hlive) ?_ (fun g' hg' => ?_)
      (fun other g' hother hlive' => ⟨?_, fun _ => hcompleted⟩) ?_ (fun _ _ _ heq => nomatch heq)
      fun _ heq => nomatch heq
    · rw [hcompleted, hinv.call_content hlive hpre hexec hkeep]
      exact hinv.store
    · cases hg'
      exact hinv.call_sound hlive hpre hok hexec rfl fun _ => hcompleted
    · exact hinv.call_undisturbed hother hlive hlive' hpre hexec
    · rw [completedBy, hcompleted, pending, Machine.Stage.ghost, Option.bind_some,
        hpre.next_update hkeep]
      exact haccount

/-- An update is asked for. -/
theorem Inv.ask {log : Log main initial} {gs : ℕ → Machine.Stage (Stage σ U)} {s : Files}
    (hinv : L.Inv log gs s) {pid : ℕ} (hlive : gs pid = .live (.free none)) (u : U) :
    L.Inv (.called pid s (.asked u) () :: log) (Function.update gs pid (.live (.asked u))) s := by
  have hcurrent : current pid (.called pid s (.asked u) () :: log : Log main initial) = some u :=
    if_pos rfl
  have hasked : askedBy pid (.called pid s (.asked u) () :: log : Log main initial) =
      askedBy pid log ++ [u] := if_pos rfl
  have haccount := hinv.account pid
  rw [hlive] at haccount
  refine hinv.step rfl (Inv.live_not_gone hlive) hinv.store (fun g hg => ?_)
    (fun other g hother _ => ⟨.refl s other g, fun _ => rfl⟩) ?_ (fun _ _ _ heq => nomatch heq)
    fun _ heq => nomatch heq
  · cases hg
    refine .of_lock (fun u' hu' => ?_) (fun _ _ hsome => nomatch hsome) rfl rfl rfl rfl
    cases hu'
    exact hcurrent
  · rw [hasked, haccount]
    exact congrArg (· ++ [u]) (List.append_nil _)

/-- The store has been read without the lock. -/
theorem Inv.see {log : Log main initial} {gs : ℕ → Machine.Stage (Stage σ U)} {s : Files}
    (hinv : L.Inv log gs s) {pid : ℕ} {store : σ} (hlive : gs pid = .live (.known none store)) :
    L.Inv (.called pid s (.saw store) () :: log) (Function.update gs pid (.live (.free none))) s := by
  have haccount := hinv.account pid
  rw [hlive] at haccount
  refine hinv.step rfl (Inv.live_not_gone hlive) hinv.store (fun g hg => ?_)
    (fun other g hother _ => ⟨.refl s other g, fun _ => rfl⟩) haccount
    (fun before store' r heq => ?_) fun _ heq => nomatch heq
  · cases hg
    exact .of_lock (fun _ hsome => nomatch hsome) (fun _ _ hsome => nomatch hsome) rfl rfl rfl rfl
  · cases heq
    exact ((hinv.sound pid _ hlive).knows store rfl).1

variable (L main initial)

/-- The outline of what many such processes do. -/
def outline : (machine main initial).Outline (Stage σ U) where
  protocol := L.protocol
  enter _ _ := .free none
  done _ g := g = .free none
  inv := L.Inv

variable {L main initial}

/-- **The outline is valid** for programs that keep to the protocol. -/
theorem outline_valid
    (hmain : ∀ job, Prog.Follows L.protocol (main job) (.free none) fun _ g => g = .free none) :
    (L.outline main initial).Valid where
  init := by
    refine ⟨rfl, fun _ _ hlive => (nomatch hlive), fun _ => rfl, fun _ _ _ _ hmem => (nomatch hmem),
      fun _ _ hmem => nomatch hmem⟩
  main := fun pid job s s' _ => hmain job
  start := by
    intro log gs s pid job s' hinv hunborn hstart
    cases hstart
    have haccount := hinv.account pid
    rw [hunborn] at haccount
    refine hinv.step rfl (fun g heq => ?_) hinv.store (fun g hg => ?_)
      (fun other g hother _ => ⟨.refl s other g, fun _ => rfl⟩) haccount
      (fun _ _ _ heq => nomatch heq) fun _ heq => nomatch heq
    · exact nomatch hunborn.symm.trans heq
    · cases hg
      exact .of_lock (fun _ hsome => nomatch hsome) (fun _ _ hsome => nomatch hsome) rfl rfl rfl rfl
  allowed := by
    intro log gs s pid g o r s' _ _ _ hexec
    cases o with
    | file o => exact ⟨s, (exec_file hexec).1⟩
    | asked u => trivial
    | saw store => trivial
  call := by
    intro log gs s pid g o r s' hinv hlive hpre hexec
    cases o with
    | file o => exact hinv.file_call hlive hpre hexec
    | asked u =>
      cases hpre
      cases hexec
      exact hinv.ask hlive u
    | saw store =>
      cases hpre
      cases hexec
      exact hinv.see hlive
  finish := by
    rintro log gs s pid g a hinv hlive rfl
    have haccount := hinv.account pid
    rw [hlive] at haccount
    exact hinv.step rfl (Inv.live_not_gone hlive) hinv.store (fun _ heq => nomatch heq)
      (fun other g hother _ => ⟨exit_undisturbed hother g, fun _ => rfl⟩) haccount
      (fun _ _ _ heq => nomatch heq) fun _ _ => rfl
  kill := by
    intro log gs s pid g s' hinv hlive hkill
    cases hkill
    have haccount := hinv.account pid
    rw [hlive] at haccount
    exact hinv.step rfl (Inv.live_not_gone hlive) hinv.store (fun _ heq => nomatch heq)
      (fun other g hother _ => ⟨exit_undisturbed hother g, fun _ => rfl⟩) haccount
      (fun _ _ _ heq => nomatch heq) fun _ heq => nomatch heq

/-- **No update is lost.**  Wherever any interleaving leads, the target holds the result of the
completed updates in their order, whoever has looked has seen what it held at some time, and the
updates of a process are completed in the order it asked for them, all but the last one at any
time and all of them once it has finished. -/
theorem linearized
    (hmain : ∀ job, Prog.Follows L.protocol (main job) (.free none) fun _ g => g = .free none)
    {c : (machine main initial).Config} (h : (machine main initial).Reachable c) :
    L.load (c.shared.content L.target) = L.storeAfter initial (L.completed c.log) ∧
      (∀ pid before store r, .called pid before (.saw store) r ∈ c.log → L.Stored c.log store) ∧
      (∀ pid, ∃ last : Option U, askedBy pid c.log = L.completedBy pid c.log ++ last.toList) ∧
      ∀ pid a, .finished pid a ∈ c.log → askedBy pid c.log = L.completedBy pid c.log := by
  obtain ⟨gs, hinv, -⟩ := Machine.Outline.reachable (outline_valid hmain) h
  refine ⟨hinv.store, hinv.saw, fun pid => ⟨_, hinv.account pid⟩, fun pid a hmem => ?_⟩
  have haccount := hinv.account pid
  rw [hinv.ended pid a hmem] at haccount
  exact haccount.trans (List.append_nil _)

end LockedFile
