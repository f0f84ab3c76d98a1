import Mathlib.Data.List.AList
import Mathlib.Data.Nat.Notation

/-!
# A directory that many processes share

One directory, as the processes that work in it see it.  A name stands for an inode and an inode
has bytes; a process gets at the bytes through a handle, and the handle stays with the inode it was
opened on whatever becomes of the name.  That difference is what programs that coordinate through
files live on: a lock belongs to an inode, so it protects a *name* only as long as the name keeps
its inode.

* `FileOp` is the calls and `FileOp.Ret` their answers; a call that can fail may always do so.
* `Files.exec` is what a call does when it gets an answer, and nothing when it cannot get that
  answer.  Renaming is atomic, a lock is exclusive among the handles of an inode, a new file is
  made under a name that was free, and a scan lists every entry that is there all along and may
  list the ones that come and go.
* The section on frames says what a call leaves alone: the entries it does not name, the bytes it
  does not write, and the handles and locks of other processes.
-/

set_option autoImplicit false

/-- A failed call. -/
structure IoError where
  /-- The file is said not to exist. -/
  notFound : Bool
  /-- What is said of the error. -/
  text : String
  deriving DecidableEq

/-- A failed call on files, where other calls fail otherwise. -/
abbrev Files.Error := IoError

/-- A write that failed after some of the bytes. -/
structure WriteError where
  /-- How many bytes were written. -/
  written : ℕ
  /-- What is said of the error. -/
  text : String
  deriving DecidableEq

/-- What a process holds an open file by. -/
abbrev Handle := ℕ

/-- An open file. -/
structure OpenFile where
  /-- The process that has it open. -/
  owner : ℕ
  /-- The file. -/
  inode : ℕ
  /-- How far it has been read. -/
  position : ℕ

/-- A directory scan under way. -/
structure Scan where
  /-- The entries that were there when it began, are there still and have not been listed. -/
  owed : List String
  /-- The entries that were there at some time since it began and have not been listed. -/
  listable : List String

/-- The directory and everything open in it. -/
structure Files where
  /-- The entries of the directory, with their files. -/
  dir : AList fun _ : String => ℕ
  /-- What is in each file. -/
  data : ℕ → List UInt8
  /-- The inodes from this one on are free. -/
  inodes : ℕ
  /-- The files that are open. -/
  handles : Handle → Option OpenFile
  /-- The handle through which an inode is locked. -/
  locks : ℕ → Option Handle
  /-- The scan each process has under way. -/
  scans : ℕ → Option Scan
  /-- The inode of an entry is not free. -/
  dir_lt : ∀ {name : String} {inode : ℕ}, dir.lookup name = some inode → inode < inodes
  /-- The inode of an open file is not free. -/
  handles_lt : ∀ {h : Handle} {file : OpenFile}, handles h = some file → file.inode < inodes

/-- A call. -/
inductive FileOp where
  /-- The directory is made, if it is not there. -/
  | createDirAll
  /-- A file is opened for reading. -/
  | openRead (name : String)
  /-- A file is opened for reading and writing. -/
  | openReadWrite (name : String)
  /-- Opens a file for reading and writing, an empty new one if there is none. -/
  | openOrCreate (name : String)
  /-- A new file, named at random between two given texts. -/
  | createTemp (before after : String)
  /-- An open file is locked, if it is free. -/
  | tryLock (h : Handle)
  /-- Waits until the lock is free. -/
  | lock (h : Handle)
  /-- An open file is unlocked. -/
  | unlock (h : Handle)
  /-- An open file is closed. -/
  | close (h : Handle)
  /-- Whether there is an entry with the name. -/
  | pathExists (name : String)
  /-- The next bytes of a file, at most so many; none at its end. -/
  | read (h : Handle) (limit : ℕ)
  /-- Bytes are written to an open file. -/
  | write (h : Handle) (bytes : List UInt8)
  /-- What was written is flushed. -/
  | flush (h : Handle)
  /-- An entry is removed. -/
  | remove (name : String)
  /-- An entry is renamed, in place of another one if there is one. -/
  | rename (source target : String)
  /-- How many bytes are free. -/
  | availableSpace
  /-- A scan of the directory begins. -/
  | readDir
  /-- The next entry of the scan, or its end. -/
  | nextEntry
  deriving DecidableEq

/-- What a call is answered with.  A new file is known by the random part of its name. -/
@[reducible] def FileOp.Ret : FileOp → Type
  | .openRead _ | .openReadWrite _ | .openOrCreate _ => Except IoError Handle
  | .createTemp _ _ => Except IoError (String × Handle)
  | .close _ => Unit
  | .pathExists _ => Except IoError Bool
  | .read _ _ => Except IoError (List UInt8)
  | .write _ _ => Except WriteError Unit
  | .availableSpace => Except IoError UInt64
  | .nextEntry => Except IoError (Option String)
  | _ => Except IoError Unit

namespace Files

variable (s : Files)

/-- What a name stands for. -/
def inodeAt (name : String) : Option ℕ := s.dir.lookup name

/-- The bytes under a name. -/
def content (name : String) : Option (List UInt8) := (s.inodeAt name).map s.data

/-- A file that the process has open. -/
def mine (pid : ℕ) (h : Handle) : Option OpenFile := (s.handles h).filter (·.owner == pid)

variable {s} in
theorem mine_eq_some {pid : ℕ} {h : Handle} {file : OpenFile} :
    s.mine pid h = some file ↔ s.handles h = some file ∧ file.owner = pid := by
  simp [mine, Option.filter_eq_some_iff]

variable {s} in
theorem mine_lt {pid : ℕ} {h : Handle} {file : OpenFile} (hmine : s.mine pid h = some file) :
    file.inode < s.inodes :=
  s.handles_lt (mine_eq_some.mp hmine).1

/-- The name of a new file. -/
def tempName (before random after : String) : String := before ++ random ++ after

/-! ## What the calls do -/

/-- An empty new file under a name. -/
def create (name : String) : Files where
  dir := s.dir.insert name s.inodes
  data := Function.update s.data s.inodes []
  inodes := s.inodes + 1
  handles := s.handles
  locks := s.locks
  scans := fun pid => (s.scans pid).map fun scan => { scan with listable := name :: scan.listable }
  dir_lt := by
    intro other inode h
    by_cases hname : other = name
    · subst hname
      rw [AList.lookup_insert] at h
      cases h
      exact Nat.lt_succ_self _
    · rw [AList.lookup_insert_ne hname] at h
      exact Nat.lt_succ_of_lt (s.dir_lt h)
  handles_lt := fun h => Nat.lt_succ_of_lt (s.handles_lt h)

/-- The file under a name, made if there is none. -/
def ensure (name : String) : Files := if (s.inodeAt name).isSome then s else s.create name

/-- The handle is at the file. -/
def setHandle (h : Handle) (file : OpenFile) (hlt : file.inode < s.inodes) : Files where
  dir := s.dir
  data := s.data
  inodes := s.inodes
  handles := Function.update s.handles h (some file)
  locks := s.locks
  scans := s.scans
  dir_lt := s.dir_lt
  handles_lt := by
    intro h' file' hfile
    by_cases hh : h' = h
    · subst hh
      rw [Function.update_self] at hfile
      cases hfile
      exact hlt
    · rw [Function.update_of_ne hh] at hfile
      exact s.handles_lt hfile

/-- The file under a name gets opened through a handle that is free. -/
def openAt (pid : ℕ) (name : String) (h : Handle) : Option Files :=
  match hinode : s.inodeAt name with
  | none => none
  | some inode =>
    if (s.handles h).isNone then some (s.setHandle h ⟨pid, inode, 0⟩ (s.dir_lt hinode)) else none

/-- A new file under a name with the random part, opened through a handle that is free. -/
def makeTemp (pid : ℕ) (before random after : String) (h : Handle) : Option Files :=
  if random.length = 6 ∧ random.toList.all Char.isAlphanum ∧
      (s.inodeAt (tempName before random after)).isNone then
    (s.create (tempName before random after)).openAt pid (tempName before random after) h
  else none

/-- The locks are as given. -/
def setLocks (locks : ℕ → Option Handle) : Files := { s with locks := locks }

/-- The inode is locked through the handle. -/
def acquire (inode : ℕ) (h : Handle) : Files := s.setLocks (Function.update s.locks inode (some h))

/-- A process locks a file it has open, if nobody has it locked. -/
def take (pid : ℕ) (h : Handle) : Option Files :=
  match s.mine pid h with
  | some file => if (s.locks file.inode).isNone then some (s.acquire file.inode h) else none
  | none => none

/-- Nothing is locked through the handle. -/
def release (h : Handle) : Files :=
  s.setLocks fun inode => (s.locks inode).filter (· != h)

/-- The open files that satisfy `keep` stay open, and what is locked through the others no longer
is. -/
def closeUnless (keep : Handle → OpenFile → Bool) : Files where
  dir := s.dir
  data := s.data
  inodes := s.inodes
  handles := fun h => (s.handles h).filter (keep h)
  locks := fun inode => (s.locks inode).filter fun h => (s.handles h).any (keep h)
  scans := s.scans
  dir_lt := s.dir_lt
  handles_lt := fun h => s.handles_lt (Option.filter_eq_some_iff.mp h).1

/-- The bytes of a file are as given. -/
def setData (inode : ℕ) (bytes : List UInt8) : Files :=
  { s with data := Function.update s.data inode bytes }

/-- The name is gone. -/
def remove (name : String) : Files where
  dir := s.dir.erase name
  data := s.data
  inodes := s.inodes
  handles := s.handles
  locks := s.locks
  scans := fun pid =>
    (s.scans pid).map fun scan => { scan with owed := scan.owed.filter (· != name) }
  dir_lt := by
    intro other inode h
    by_cases hname : other = name
    · rw [hname, AList.lookup_erase] at h
      exact nomatch h
    · rw [AList.lookup_erase_ne hname] at h
      exact s.dir_lt h
  handles_lt := s.handles_lt

/-- The name stands for the inode. -/
def link (name : String) (inode : ℕ) (hlt : inode < s.inodes) : Files where
  dir := s.dir.insert name inode
  data := s.data
  inodes := s.inodes
  handles := s.handles
  locks := s.locks
  scans := fun pid => (s.scans pid).map fun scan => { scan with listable := name :: scan.listable }
  dir_lt := by
    intro other inode' h
    by_cases hname : other = name
    · subst hname
      rw [AList.lookup_insert] at h
      cases h
      exact hlt
    · rw [AList.lookup_insert_ne hname] at h
      exact s.dir_lt h
  handles_lt := s.handles_lt

/-- The file under one name is under another instead. -/
def move (source target : String) : Option Files :=
  match hinode : s.inodeAt source with
  | none => none
  | some inode => some ((s.remove source).link target inode (s.dir_lt hinode))

/-- The scan of a process is as given. -/
def setScan (pid : ℕ) (scan : Option Scan) : Files :=
  { s with scans := Function.update s.scans pid scan }

/-- A new scan. -/
def beginScan (pid : ℕ) : Files := s.setScan pid (some ⟨s.dir.keys, s.dir.keys⟩)

/-- The scan once it has listed an entry, or come to its end. -/
def advanceScan (pid : ℕ) : Option String → Option Files
  | some name =>
    match s.scans pid with
    | some scan =>
      if name ∈ scan.listable then
        some (s.setScan pid (some ⟨scan.owed.filter (· != name), scan.listable.filter (· != name)⟩))
      else none
    | none => none
  | none =>
    match s.scans pid with
    | some scan => if scan.owed.isEmpty then some (s.setScan pid none) else none
    | none => none

/-- The bytes can be what a read of an open file comes back with. -/
def Reads (file : OpenFile) (limit : ℕ) (bytes : List UInt8) : Bool :=
  bytes.isPrefixOf ((s.data file.inode).drop file.position) && bytes.length ≤ limit &&
    (!bytes.isEmpty || ((s.data file.inode).drop file.position).isEmpty)

/-- The file of a handle once these bytes have been read from it. -/
def readFrom (pid : ℕ) (h : Handle) (limit : ℕ) (bytes : List UInt8) : Option Files :=
  match hmine : s.mine pid h with
  | some file =>
    if s.Reads file limit bytes then
      have hlt : file.inode < s.inodes := mine_lt hmine
      some (s.setHandle h ⟨file.owner, file.inode, file.position + bytes.length⟩ hlt)
    else none
  | none => none

/-- What a call does when it is answered so. -/
def exec (pid : ℕ) (s : Files) (o : FileOp) (r : o.Ret) : Option Files :=
  match o, r with
  | .openRead name, .ok h => s.openAt pid name h
  | .openReadWrite name, .ok h => s.openAt pid name h
  | .openOrCreate name, .ok h => (s.ensure name).openAt pid name h
  | .createTemp before after, .ok (random, h) => s.makeTemp pid before random after h
  | .tryLock h, .ok () => s.take pid h
  | .lock h, .ok () => s.take pid h
  | .unlock h, .ok () => (s.mine pid h).map fun _ => s.release h
  | .close h, () => (s.mine pid h).map fun _ => s.closeUnless fun other _ => other != h
  | .pathExists name, .ok there => if there = (s.inodeAt name).isSome then some s else none
  | .read h limit, .ok bytes => s.readFrom pid h limit bytes
  | .write h bytes, .ok () =>
    (s.mine pid h).map fun file => s.setData file.inode (s.data file.inode ++ bytes)
  | .write h bytes, .error err =>
    (s.mine pid h).map fun file =>
      s.setData file.inode (s.data file.inode ++ bytes.take err.written)
  | .remove name, .ok () => if (s.inodeAt name).isSome then some (s.remove name) else none
  | .rename source target, .ok () => s.move source target
  | .readDir, .ok () => some (s.beginScan pid)
  | .nextEntry, .ok entry => s.advanceScan pid entry
  | _, _ => some s

/-- A process goes away, and with it everything it has open. -/
def exit (pid : ℕ) : Files := (s.closeUnless fun _ file => file.owner != pid).setScan pid none

/-- The directory with nothing open in it. -/
def atRest : Files where
  dir := s.dir
  data := s.data
  inodes := s.inodes
  handles := fun _ => none
  locks := fun _ => none
  scans := fun _ => none
  dir_lt := s.dir_lt
  handles_lt := fun h => nomatch h

/-- The directory with nothing in it. -/
def empty : Files where
  dir := ∅
  data := fun _ => []
  inodes := 0
  handles := fun _ => none
  locks := fun _ => none
  scans := fun _ => none
  dir_lt := fun h => nomatch h
  handles_lt := fun h => nomatch h

variable {s}

theorem inodeAt_lt {name : String} {inode : ℕ} (h : s.inodeAt name = some inode) :
    inode < s.inodes :=
  s.dir_lt h

theorem openAt_eq_some {pid : ℕ} {name : String} {h : Handle} {s' : Files}
    (hopen : s.openAt pid name h = some s') :
    ∃ inode hlt, s.inodeAt name = some inode ∧ s.handles h = none ∧
      s' = s.setHandle h ⟨pid, inode, 0⟩ hlt := by
  rw [openAt] at hopen
  split at hopen
  · exact nomatch hopen
  · rename_i inode hinode
    split at hopen
    · rename_i hfree
      cases hopen
      exact ⟨inode, s.dir_lt hinode, hinode, Option.isNone_iff_eq_none.mp hfree, rfl⟩
    · exact nomatch hopen

theorem readFrom_eq_some {pid : ℕ} {h : Handle} {limit : ℕ} {bytes : List UInt8} {s' : Files}
    (hread : s.readFrom pid h limit bytes = some s') :
    ∃ file hlt, s.handles h = some file ∧ file.owner = pid ∧ s.Reads file limit bytes ∧
      s' = s.setHandle h ⟨file.owner, file.inode, file.position + bytes.length⟩ hlt := by
  rw [readFrom] at hread
  split at hread
  · rename_i file hmine
    obtain ⟨hfile, howner⟩ := mine_eq_some.mp hmine
    split at hread
    · rename_i hreads
      cases hread
      have hlt : file.inode < s.inodes := mine_lt hmine
      exact ⟨file, hlt, hfile, howner, hreads, rfl⟩
    · exact nomatch hread
  · exact nomatch hread

theorem move_eq_some {source target : String} {s' : Files} (hmove : s.move source target = some s') :
    ∃ inode hlt, s.inodeAt source = some inode ∧
      s' = (s.remove source).link target inode hlt := by
  rw [move] at hmove
  split at hmove
  · exact nomatch hmove
  · rename_i inode hinode
    cases hmove
    exact ⟨inode, s.dir_lt hinode, hinode, rfl⟩

theorem makeTemp_eq_some {pid : ℕ} {before random after : String} {h : Handle} {s' : Files}
    (hmake : s.makeTemp pid before random after h = some s') :
    random.length = 6 ∧ random.toList.all Char.isAlphanum ∧
      s.inodeAt (tempName before random after) = none ∧
      (s.create (tempName before random after)).openAt pid (tempName before random after) h =
        some s' := by
  rw [makeTemp] at hmake
  split at hmake
  · rename_i hnew
    exact ⟨hnew.1, hnew.2.1, Option.isNone_iff_eq_none.mp hnew.2.2, hmake⟩
  · exact nomatch hmake

theorem take_eq_some {pid : ℕ} {h : Handle} {s' : Files} (htake : s.take pid h = some s') :
    ∃ file, s.mine pid h = some file ∧ s.locks file.inode = none ∧
      s' = s.acquire file.inode h := by
  rw [take] at htake
  split at htake
  · rename_i file hmine
    split at htake
    · rename_i hfree
      cases htake
      exact ⟨file, hmine, Option.isNone_iff_eq_none.mp hfree, rfl⟩
    · exact nomatch htake
  · exact nomatch htake

/-! ## Entries -/

theorem inodeAt_create (name other : String) :
    (s.create name).inodeAt other = if other = name then some s.inodes else s.inodeAt other := by
  split
  · rename_i hname
    rw [hname]
    exact AList.lookup_insert s.dir
  · rename_i hname
    exact AList.lookup_insert_ne hname

theorem inodeAt_remove (name other : String) :
    (s.remove name).inodeAt other = if other = name then none else s.inodeAt other := by
  split
  · rename_i hname
    rw [hname]
    exact AList.lookup_erase name s.dir
  · rename_i hname
    exact AList.lookup_erase_ne hname

theorem inodeAt_link (name other : String) {inode : ℕ} (hlt : inode < s.inodes) :
    (s.link name inode hlt).inodeAt other =
      if other = name then some inode else s.inodeAt other := by
  split
  · rename_i hname
    rw [hname]
    exact AList.lookup_insert s.dir
  · rename_i hname
    exact AList.lookup_insert_ne hname

@[simp] theorem inodeAt_setHandle (h : Handle) (file : OpenFile) (hlt : file.inode < s.inodes) :
    (s.setHandle h file hlt).inodeAt = s.inodeAt := rfl

@[simp] theorem inodeAt_setLocks (locks : ℕ → Option Handle) :
    (s.setLocks locks).inodeAt = s.inodeAt := rfl

@[simp] theorem inodeAt_closeUnless (keep : Handle → OpenFile → Bool) :
    (s.closeUnless keep).inodeAt = s.inodeAt := rfl

@[simp] theorem inodeAt_setData (inode : ℕ) (bytes : List UInt8) :
    (s.setData inode bytes).inodeAt = s.inodeAt := rfl

@[simp] theorem inodeAt_setScan (pid : ℕ) (scan : Option Scan) :
    (s.setScan pid scan).inodeAt = s.inodeAt := rfl

theorem content_eq_some {name : String} {bytes : List UInt8} :
    s.content name = some bytes ↔ ∃ inode, s.inodeAt name = some inode ∧ s.data inode = bytes := by
  simp [content]

/-! ## What a call can have changed -/

/-- The calls that may make a new file under a name. -/
def Names (o : FileOp) (name : String) : Prop :=
  o = .openOrCreate name ∨
    ∃ before after random, o = .createTemp before after ∧ name = tempName before random after ∧
      random.toList.all Char.isAlphanum = true

/-- The calls that open a file under a name. -/
def Opens (o : FileOp) (name : String) : Prop :=
  o = .openRead name ∨ o = .openReadWrite name ∨ o = .openOrCreate name

/-- The kinds of change a call makes. -/
inductive Change (pid : ℕ) (s : Files) (o : FileOp) : Files → Prop where
  /-- Nothing. -/
  | none : Change pid s o s
  /-- A file under a name is opened. -/
  | opened (name : String) (h : Handle) (inode : ℕ) (hlt : inode < s.inodes) (hop : Opens o name)
      (hinode : s.inodeAt name = some inode) (hfree : s.handles h = none) :
      Change pid s o (s.setHandle h ⟨pid, inode, 0⟩ hlt)
  /-- A file is made and opened. -/
  | made (name : String) (h : Handle) (hlt : s.inodes < (s.create name).inodes)
      (hop : Names o name) (hnew : s.inodeAt name = none) (hfree : s.handles h = none) :
      Change pid s o ((s.create name).setHandle h ⟨pid, s.inodes, 0⟩ hlt)
  /-- The process reads on in a file of its own. -/
  | advanced (h : Handle) (file : OpenFile) (position : ℕ) (hlt : file.inode < s.inodes)
      (hfile : s.handles h = some file) (howner : file.owner = pid) :
      Change pid s o (s.setHandle h ⟨file.owner, file.inode, position⟩ hlt)
  /-- A free file is locked. -/
  | locked (h : Handle) (inode : ℕ) (hfree : s.locks inode = .none) :
      Change pid s o (s.acquire inode h)
  /-- The process unlocks a file of its own. -/
  | released (h : Handle) (file : OpenFile) (hop : o = .unlock h)
      (hfile : s.handles h = some file) (howner : file.owner = pid) :
      Change pid s o (s.release h)
  /-- The process closes a file of its own. -/
  | closed (h : Handle) (file : OpenFile) (hop : o = .close h)
      (hfile : s.handles h = some file) (howner : file.owner = pid) :
      Change pid s o (s.closeUnless fun other _ => other != h)
  /-- The process writes to a file of its own. -/
  | wrote (h : Handle) (file : OpenFile) (given bytes : List UInt8) (hop : o = .write h given)
      (hfile : s.handles h = some file) (howner : file.owner = pid) :
      Change pid s o (s.setData file.inode bytes)
  /-- An entry is removed. -/
  | removed (name : String) (hop : o = .remove name) : Change pid s o (s.remove name)
  /-- An entry is renamed. -/
  | moved (source target : String) (inode : ℕ) (hlt : inode < (s.remove source).inodes)
      (hop : o = .rename source target) (hinode : s.inodeAt source = some inode) :
      Change pid s o ((s.remove source).link target inode hlt)
  /-- The scan of the process goes on. -/
  | scanned (scan : Option Scan) : Change pid s o (s.setScan pid scan)

theorem openAt_change {pid : ℕ} {name : String} {h : Handle} {s' : Files} {o : FileOp}
    (hop : Opens o name) (hopen : s.openAt pid name h = some s') : Change pid s o s' := by
  obtain ⟨inode, hlt, hinode, hfree, rfl⟩ := openAt_eq_some hopen
  exact .opened name h inode hlt hop hinode hfree

theorem create_openAt_change {pid : ℕ} {name : String} {h : Handle} {s' : Files} {o : FileOp}
    (hop : Names o name) (hnew : s.inodeAt name = none)
    (hopen : (s.create name).openAt pid name h = some s') : Change pid s o s' := by
  obtain ⟨inode, hlt, hinode, hfree, rfl⟩ := openAt_eq_some hopen
  rw [inodeAt_create, if_pos rfl] at hinode
  cases hinode
  exact .made name h hlt hop hnew hfree

theorem advanceScan_change {pid : ℕ} {entry : Option String} {s' : Files} {o : FileOp}
    (hadvance : s.advanceScan pid entry = some s') : Change pid s o s' := by
  unfold advanceScan at hadvance
  split at hadvance
  all_goals
    split at hadvance
    · split at hadvance
      · cases hadvance
        exact .scanned _
      · exact nomatch hadvance
    · exact nomatch hadvance

/-- **Every call makes one of these changes.** -/
theorem exec_change {pid : ℕ} {o : FileOp} {r : o.Ret} {s' : Files}
    (hexec : s.exec pid o r = some s') : Change pid s o s' := by
  unfold exec at hexec
  split at hexec
  · exact openAt_change (.inl rfl) hexec
  · exact openAt_change (.inr (.inl rfl)) hexec
  · rename_i name h
    rw [ensure] at hexec
    split at hexec
    · exact openAt_change (.inr (.inr rfl)) hexec
    · rename_i hnone
      rw [Bool.not_eq_true, Option.isSome_eq_false_iff, Option.isNone_iff_eq_none] at hnone
      exact create_openAt_change (.inl rfl) hnone hexec
  · rename_i before after random h
    obtain ⟨-, hrandom, hnew, hopen⟩ := makeTemp_eq_some hexec
    exact create_openAt_change (.inr ⟨before, after, random, rfl, rfl, hrandom⟩) hnew hopen
  · obtain ⟨file, -, hfree, rfl⟩ := take_eq_some hexec
    exact .locked _ _ hfree
  · obtain ⟨file, -, hfree, rfl⟩ := take_eq_some hexec
    exact .locked _ _ hfree
  · obtain ⟨file, hmine, rfl⟩ := Option.map_eq_some_iff.mp hexec
    obtain ⟨hfile, howner⟩ := mine_eq_some.mp hmine
    exact .released _ file rfl hfile howner
  · obtain ⟨file, hmine, rfl⟩ := Option.map_eq_some_iff.mp hexec
    obtain ⟨hfile, howner⟩ := mine_eq_some.mp hmine
    exact .closed _ file rfl hfile howner
  · split at hexec
    · cases hexec
      exact .none
    · exact nomatch hexec
  · obtain ⟨file, hlt, hfile, howner, -, rfl⟩ := readFrom_eq_some hexec
    exact .advanced _ file _ hlt hfile howner
  · obtain ⟨file, hmine, rfl⟩ := Option.map_eq_some_iff.mp hexec
    obtain ⟨hfile, howner⟩ := mine_eq_some.mp hmine
    exact .wrote _ file _ _ rfl hfile howner
  · obtain ⟨file, hmine, rfl⟩ := Option.map_eq_some_iff.mp hexec
    obtain ⟨hfile, howner⟩ := mine_eq_some.mp hmine
    exact .wrote _ file _ _ rfl hfile howner
  · split at hexec
    · cases hexec
      exact .removed _ rfl
    · exact nomatch hexec
  · obtain ⟨inode, hlt, hinode, rfl⟩ := move_eq_some hexec
    exact .moved _ _ inode hlt rfl hinode
  · cases hexec
    exact .scanned _
  · exact advanceScan_change hexec
  · cases hexec
    exact .none

/-! ## Frames -/

theorem handles_setHandle_self {h : Handle} {file : OpenFile} {hlt : file.inode < s.inodes} :
    (s.setHandle h file hlt).handles h = some file :=
  Function.update_self h _ s.handles

theorem handles_setHandle_of_ne {h h' : Handle} {file : OpenFile} {hlt : file.inode < s.inodes}
    (hne : h ≠ h') : (s.setHandle h' file hlt).handles h = s.handles h :=
  Function.update_of_ne hne _ s.handles

theorem ne_of_free {h h' : Handle} {file : OpenFile} (hfile : s.handles h = some file)
    (hfree : s.handles h' = none) : h ≠ h' := by
  rintro rfl
  rw [hfree] at hfile
  exact nomatch hfile

section

variable {pid : ℕ} {o : FileOp} {r : o.Ret} {s' : Files} (hexec : s.exec pid o r = some s')
include hexec

/-- No inode is forgotten. -/
theorem exec_inodes : s.inodes ≤ s'.inodes := by
  rcases exec_change hexec with _ | _ | _ | _ | _ | _ | _ | _ | _ | _ | _
  case made => exact Nat.le_succ _
  all_goals exact le_refl _

/-- A process keeps what it has open. -/
theorem exec_handles {h : Handle} {file : OpenFile} (hfile : s.handles h = some file)
    (hother : file.owner ≠ pid) : s'.handles h = some file := by
  rcases exec_change hexec with _ | ⟨_, h', _, _, _, _, hfree⟩ | ⟨_, h', _, _, _, hfree⟩ |
    ⟨h', file', _, _, hfile', howner⟩ | _ | _ | ⟨h', file', _, hfile', howner⟩ | _ | _ | _ | _
  case opened =>
    rw [handles_setHandle_of_ne (ne_of_free hfile hfree)]
    exact hfile
  case made =>
    rw [handles_setHandle_of_ne (ne_of_free hfile hfree)]
    exact hfile
  case advanced =>
    have hne : h ≠ h' := by
      rintro rfl
      rw [hfile'] at hfile
      cases hfile
      exact hother howner
    rw [handles_setHandle_of_ne hne]
    exact hfile
  case closed =>
    have hne : h ≠ h' := by
      rintro rfl
      rw [hfile'] at hfile
      cases hfile
      exact hother howner
    show (s.handles h).filter _ = some file
    simp [hfile, hne]
  all_goals exact hfile

/-- A file stays open until it is closed. -/
theorem exec_open {h : Handle} {file : OpenFile} (hfile : s.handles h = some file)
    (hclose : o ≠ .close h) :
    ∃ file', s'.handles h = some file' ∧ file'.owner = file.owner ∧ file'.inode = file.inode := by
  rcases exec_change hexec with _ | ⟨_, h', _, _, _, _, hfree⟩ | ⟨_, h', _, _, _, hfree⟩ |
    ⟨h', file', position, _, hfile', -⟩ | _ | _ | ⟨h', _, hop, -, -⟩ | _ | _ | _ | _
  case opened =>
    rw [handles_setHandle_of_ne (ne_of_free hfile hfree)]
    exact ⟨file, hfile, rfl, rfl⟩
  case made =>
    rw [handles_setHandle_of_ne (ne_of_free hfile hfree)]
    exact ⟨file, hfile, rfl, rfl⟩
  case advanced =>
    by_cases hh : h = h'
    · subst hh
      rw [hfile'] at hfile
      cases hfile
      exact ⟨_, handles_setHandle_self, rfl, rfl⟩
    · rw [handles_setHandle_of_ne hh]
      exact ⟨file, hfile, rfl, rfl⟩
  case closed =>
    have hne : h ≠ h' := by
      rintro rfl
      exact hclose hop
    refine ⟨file, ?_, rfl, rfl⟩
    show (s.handles h).filter _ = some file
    simp [hfile, hne]
  all_goals exact ⟨file, hfile, rfl, rfl⟩

/-- A lock stays until it is given up. -/
theorem exec_locked {h : Handle} {file : OpenFile} {inode : ℕ} (hfile : s.handles h = some file)
    (hlock : s.locks inode = some h) (hunlock : o ≠ .unlock h) (hclose : o ≠ .close h) :
    s'.locks inode = some h := by
  rcases exec_change hexec with _ | _ | _ | _ | ⟨h', inode', hfree⟩ | ⟨h', _, hop, -, -⟩ |
    ⟨h', _, hop, -, -⟩ | _ | _ | _ | _
  case locked =>
    have hne : inode ≠ inode' := by
      rintro rfl
      rw [hfree] at hlock
      exact nomatch hlock
    show Function.update s.locks inode' (some h') inode = some h
    rw [Function.update_of_ne hne]
    exact hlock
  case released =>
    have hne : h ≠ h' := by
      rintro rfl
      exact hunlock hop
    show (s.locks inode).filter _ = some h
    simp [hlock, hne]
  case closed =>
    have hne : h ≠ h' := by
      rintro rfl
      exact hclose hop
    show (s.locks inode).filter _ = some h
    simp [hlock, hfile, hne]
  all_goals exact hlock

/-- A process keeps its locks. -/
theorem exec_locks {h : Handle} {file : OpenFile} {inode : ℕ} (hfile : s.handles h = some file)
    (hother : file.owner ≠ pid) (hlock : s.locks inode = some h) : s'.locks inode = some h := by
  have hdiffers : ∀ {h' : Handle} {file' : OpenFile}, s.handles h' = some file' →
      file'.owner = pid → h ≠ h' := by
    rintro h' file' hfile' howner rfl
    rw [hfile'] at hfile
    cases hfile
    exact hother howner
  rcases exec_change hexec with _ | _ | _ | _ | ⟨h', inode', hfree⟩ |
    ⟨h', file', _, hfile', howner⟩ | ⟨h', file', _, hfile', howner⟩ | _ | _ | _ | _
  case locked =>
    have hne : inode ≠ inode' := by
      rintro rfl
      rw [hfree] at hlock
      exact nomatch hlock
    show Function.update s.locks inode' (some h') inode = some h
    rw [Function.update_of_ne hne]
    exact hlock
  case released =>
    show (s.locks inode).filter _ = some h
    simp [hlock, hdiffers hfile' howner]
  case closed =>
    show (s.locks inode).filter _ = some h
    simp [hlock, hfile, hdiffers hfile' howner]
  all_goals exact hlock

/-- An entry is only changed by a call that names it. -/
theorem exec_inodeAt {name : String} (hnew : s.inodeAt name = none → ¬ Names o name)
    (hremove : o ≠ .remove name) (hsource : ∀ target, o ≠ .rename name target)
    (htarget : ∀ source, o ≠ .rename source name) : s'.inodeAt name = s.inodeAt name := by
  rcases exec_change hexec with _ | _ | ⟨name', h', hlt, hop, hnone, -⟩ | _ | _ | _ | _ | _ |
    ⟨name', hop⟩ | ⟨source, target, inode, hlt, hop, -⟩ | _
  case made =>
    have hne : name ≠ name' := by
      rintro rfl
      exact hnew hnone hop
    show (s.create name').inodeAt name = s.inodeAt name
    rw [inodeAt_create, if_neg hne]
  case removed =>
    have hne : name ≠ name' := by
      rintro rfl
      exact hremove hop
    rw [inodeAt_remove, if_neg hne]
  case moved =>
    have hne : name ≠ target := by
      rintro rfl
      exact htarget source hop
    have hne' : name ≠ source := by
      rintro rfl
      exact hsource target hop
    rw [inodeAt_link, if_neg hne, inodeAt_remove, if_neg hne']
  all_goals rfl

/-- The bytes of a file are only changed by writing to it. -/
theorem exec_data {inode : ℕ} (hlt : inode < s.inodes)
    (hwrite : ∀ h bytes file, o = .write h bytes → s.handles h = some file → file.owner = pid →
      file.inode ≠ inode) : s'.data inode = s.data inode := by
  rcases exec_change hexec with _ | _ | _ | _ | _ | _ | _ |
    ⟨h, file, given, bytes, hop, hfile, howner⟩ | _ | _ | _
  case made =>
    show Function.update s.data s.inodes [] inode = s.data inode
    exact Function.update_of_ne (Nat.ne_of_lt hlt) _ _
  case wrote =>
    show Function.update s.data file.inode bytes inode = s.data inode
    exact Function.update_of_ne (hwrite h given file hop hfile howner).symm _ _
  all_goals rfl

/-- A file gets a further name only by being renamed. -/
theorem exec_named {name : String} {inode : ℕ} (hlt : inode < s.inodes)
    (hname : s'.inodeAt name = some inode) :
    s.inodeAt name = some inode ∨
      ∃ source, o = .rename source name ∧ s.inodeAt source = some inode := by
  rcases exec_change hexec with _ | _ | ⟨name', h', _, hop, hnone, -⟩ | _ | _ | _ | _ | _ |
    ⟨name', hop⟩ | ⟨source, target, inode', _, hop, hinode⟩ | _
  case made =>
    change (s.create name').inodeAt name = some inode at hname
    rw [inodeAt_create] at hname
    split at hname
    · cases hname
      exact absurd hlt (lt_irrefl _)
    · exact .inl hname
  case removed =>
    rw [inodeAt_remove] at hname
    split at hname
    · exact nomatch hname
    · exact .inl hname
  case moved =>
    rw [inodeAt_link] at hname
    split at hname
    · rename_i heq
      cases hname
      subst heq
      exact .inr ⟨source, hop, hinode⟩
    · rw [inodeAt_remove] at hname
      split at hname
      · exact nomatch hname
      · exact .inl hname
  all_goals exact .inl hname

/-- A file gets a further handle only by being opened under its name. -/
theorem exec_opened {h : Handle} {file : OpenFile} (hlt : file.inode < s.inodes)
    (hfile : s'.handles h = some file) :
    (∃ file', s.handles h = some file' ∧ file'.inode = file.inode) ∨
      ∃ name, Opens o name ∧ s.inodeAt name = some file.inode := by
  have hset : ∀ {t : Files} {h' : Handle} {file' : OpenFile} {hlt : file'.inode < t.inodes},
      t.handles = s.handles → (t.setHandle h' file' hlt).handles h = some file →
      file' = file ∧ h' = h ∨ s.handles h = some file := by
    intro t h' file' hlt ht hfile
    by_cases hh : h = h'
    · subst hh
      rw [handles_setHandle_self] at hfile
      exact .inl ⟨Option.some.inj hfile, rfl⟩
    · rw [handles_setHandle_of_ne hh, ht] at hfile
      exact .inr hfile
  rcases exec_change hexec with _ | ⟨name, h', inode, _, hop, hinode, -⟩ | ⟨name, h', _, _, -, -⟩ |
    ⟨h', file', _, _, hfile', -⟩ | _ | _ | _ | _ | _ | _ | _
  case opened =>
    rcases hset rfl hfile with ⟨rfl, -⟩ | hfile
    · exact .inr ⟨name, hop, hinode⟩
    · exact .inl ⟨file, hfile, rfl⟩
  case made =>
    rcases hset (t := s.create name) rfl hfile with ⟨rfl, -⟩ | hfile
    · exact absurd hlt (lt_irrefl _)
    · exact .inl ⟨file, hfile, rfl⟩
  case advanced =>
    rcases hset rfl hfile with ⟨rfl, rfl⟩ | hfile
    · exact .inl ⟨file', hfile', rfl⟩
    · exact .inl ⟨file, hfile, rfl⟩
  case closed => exact .inl ⟨file, (Option.filter_eq_some_iff.mp hfile).1, rfl⟩
  all_goals exact .inl ⟨file, hfile, rfl⟩

end

/-! ## A process goes away -/

@[simp] theorem inodeAt_exit (pid : ℕ) : (s.exit pid).inodeAt = s.inodeAt := rfl

@[simp] theorem data_exit (pid : ℕ) : (s.exit pid).data = s.data := rfl

@[simp] theorem inodes_exit (pid : ℕ) : (s.exit pid).inodes = s.inodes := rfl

theorem exit_handles {pid : ℕ} {h : Handle} {file : OpenFile} (hfile : s.handles h = some file)
    (hother : file.owner ≠ pid) : (s.exit pid).handles h = some file := by
  show (s.handles h).filter _ = some file
  simp [hfile, hother]

theorem exit_locks {pid : ℕ} {h : Handle} {file : OpenFile} {inode : ℕ}
    (hfile : s.handles h = some file) (hother : file.owner ≠ pid)
    (hlock : s.locks inode = some h) : (s.exit pid).locks inode = some h := by
  show (s.locks inode).filter _ = some h
  simp [hlock, hfile, hother]

theorem exit_opened {pid : ℕ} {h : Handle} {file : OpenFile}
    (hfile : (s.exit pid).handles h = some file) : s.handles h = some file :=
  (Option.filter_eq_some_iff.mp hfile).1

end Files
