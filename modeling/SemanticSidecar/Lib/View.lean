import SemanticSidecar.Lib.Files

/-!
# The directory as one process sees it

As long as nobody else changes the directory, what a process finds there depends on its own calls
alone.  A `View` is that much of it: the entries, the bytes, and the files the process itself has
open; who has what locked and what the others have open is not part of it.  `View.exec` is what the
calls do to a view, and `Files.exec_view` says that they do no more and no less to the directory.

`View.Same` is the relation of two views that differ in nothing a name leads to: files without a
name may have come and gone.

What a call can be answered from the directory it can be answered from the view, with the same
effect.  It need not be so the other way round: a lock may be held by another process, and what a
scan lists depends on the others as well.  About these a view says nothing, and `View.exec` accepts
whatever comes.

The lemmas before the last one go through the ways to change a directory, one by one: an entry is
made, moved or removed, a handle is opened or closed, bytes are read or written.
-/

set_option autoImplicit false

/-- What a process sees of a directory. -/
structure View where
  /-- The entries. -/
  dir : String → Option ℕ
  /-- What is in the files. -/
  data : ℕ → List UInt8
  /-- The inodes from this one on are free. -/
  inodes : ℕ
  /-- The files it has open itself. -/
  opened : Handle → Option OpenFile

namespace View

variable (v : View)

/-- The bytes under a name. -/
def content (name : String) : Option (List UInt8) := (v.dir name).map v.data

/-- The name stands for the inode, or for nothing. -/
def entry (name : String) (inode : Option ℕ) : View :=
  { v with dir := Function.update v.dir name inode }

/-- The bytes of a file are as given. -/
def setData (inode : ℕ) (bytes : List UInt8) : View :=
  { v with data := Function.update v.data inode bytes }

/-- The handle is at the file, or at none. -/
def setOpened (h : Handle) (file : Option OpenFile) : View :=
  { v with opened := Function.update v.opened h file }

/-- An empty new file under a name. -/
def create (name : String) : View where
  dir := Function.update v.dir name (some v.inodes)
  data := Function.update v.data v.inodes []
  inodes := v.inodes + 1
  opened := v.opened

/-- The file under a name, made if there is none. -/
def ensure (name : String) : View := if (v.dir name).isSome then v else v.create name

/-- The file under a name gets opened through a handle that is free. -/
def openAt (pid : ℕ) (name : String) (h : Handle) : Option View :=
  match v.dir name with
  | none => none
  | some inode =>
    if (v.opened h).isNone then some (v.setOpened h (some ⟨pid, inode, 0⟩)) else none

/-- The bytes can be what a read of an open file comes back with. -/
def Reads (file : OpenFile) (limit : ℕ) (bytes : List UInt8) : Bool :=
  bytes.isPrefixOf ((v.data file.inode).drop file.position) && bytes.length ≤ limit &&
    (!bytes.isEmpty || ((v.data file.inode).drop file.position).isEmpty)

/-- What a call does when it is answered so. -/
def exec (pid : ℕ) (v : View) (o : FileOp) (r : o.Ret) : Option View :=
  match o, r with
  | .openRead name, .ok h => v.openAt pid name h
  | .openReadWrite name, .ok h => v.openAt pid name h
  | .openOrCreate name, .ok h => (v.ensure name).openAt pid name h
  | .createTemp before after, .ok (random, h) =>
    if (v.dir (Files.tempName before random after)).isNone then
      (v.create (Files.tempName before random after)).openAt pid
        (Files.tempName before random after) h
    else none
  | .close h, () => (v.opened h).map fun _ => v.setOpened h none
  | .pathExists name, .ok there => if there = (v.dir name).isSome then some v else none
  | .read h limit, .ok bytes =>
    match v.opened h with
    | some file =>
      if v.Reads file limit bytes then
        some (v.setOpened h (some ⟨file.owner, file.inode, file.position + bytes.length⟩))
      else none
    | none => none
  | .write h bytes, .ok () =>
    (v.opened h).map fun file => v.setData file.inode (v.data file.inode ++ bytes)
  | .write h bytes, .error err =>
    (v.opened h).map fun file => v.setData file.inode (v.data file.inode ++ bytes.take err.written)
  | .remove name, .ok () => if (v.dir name).isSome then some (v.entry name none) else none
  | .rename source target, .ok () =>
    (v.dir source).map fun inode => (v.entry source none).entry target (some inode)
  | _, _ => some v

/-- The views differ in nothing a name leads to. -/
structure Same (v v' : View) : Prop where
  /-- The entries are the same. -/
  dir : v'.dir = v.dir
  /-- What is in the files is the same. -/
  data : ∀ inode < v.inodes, v'.data inode = v.data inode
  /-- No inode has become free. -/
  inodes : v.inodes ≤ v'.inodes
  /-- The open files are the same. -/
  opened : v'.opened = v.opened

variable {v}

theorem Same.refl (v : View) : v.Same v := ⟨rfl, fun _ _ => rfl, le_refl _, rfl⟩

/-- A name leads to the same bytes. -/
theorem Same.content {v' : View} (h : v.Same v')
    (hlt : ∀ name inode, v.dir name = some inode → inode < v.inodes) (name : String) :
    v'.content name = v.content name := by
  rw [View.content, View.content, h.dir]
  rcases hname : v.dir name with _ | inode
  · rfl
  · exact congrArg some (h.data inode (hlt name inode hname))

theorem openAt_eq_some {pid : ℕ} {name : String} {h : Handle} {v' : View}
    (hopen : v.openAt pid name h = some v') :
    ∃ inode, v.dir name = some inode ∧ v.opened h = none ∧
      v' = v.setOpened h (some ⟨pid, inode, 0⟩) := by
  rw [openAt] at hopen
  split at hopen
  · exact absurd hopen (by simp)
  · rename_i inode hinode
    split at hopen
    · rename_i hfree
      exact ⟨inode, hinode, Option.isNone_iff_eq_none.mp hfree, (Option.some.inj hopen).symm⟩
    · exact absurd hopen (by simp)

/-- Opening and closing leaves nothing behind. -/
theorem setOpened_closed {h : Handle} (hfree : v.opened h = none) (file : OpenFile) :
    (v.setOpened h (some file)).setOpened h none = v := by
  rw [setOpened, setOpened, Function.update_idem, ← hfree, Function.update_eq_self]

/-- Creating and removing leaves nothing behind but a file that has no name. -/
theorem same_created {name : String} {h : Handle} (hnew : v.dir name = none)
    (hfree : v.opened h = none) (file : OpenFile) (bytes : List UInt8) :
    v.Same (((((v.create name).setOpened h (some file)).setData v.inodes bytes).entry name
      none).setOpened h none) where
  dir := by
    show Function.update (Function.update v.dir name (some v.inodes)) name none = v.dir
    rw [Function.update_idem, ← hnew, Function.update_eq_self]
  data := by
    intro inode hlt
    show Function.update (Function.update v.data v.inodes []) v.inodes bytes inode = v.data inode
    rw [Function.update_idem, Function.update_of_ne (Nat.ne_of_lt hlt)]
  inodes := Nat.le_succ _
  opened := by
    show Function.update (Function.update v.opened h (some file)) h none = v.opened
    rw [Function.update_idem, ← hfree, Function.update_eq_self]

@[simp] theorem setData_setData (inode : ℕ) (bytes bytes' : List UInt8) :
    (v.setData inode bytes).setData inode bytes' = v.setData inode bytes' := by
  rw [setData, setData, Function.update_idem]
  rfl

@[simp] theorem setOpened_setOpened (h : Handle) (file file' : Option OpenFile) :
    (v.setOpened h file).setOpened h file' = v.setOpened h file' := by
  rw [setOpened, setOpened, Function.update_idem]
  rfl

@[simp] theorem opened_setOpened (h : Handle) (file : Option OpenFile) :
    (v.setOpened h file).opened h = file := by
  show Function.update v.opened h file h = file
  rw [Function.update_self]

@[simp] theorem data_setData (inode : ℕ) (bytes : List UInt8) :
    (v.setData inode bytes).data inode = bytes := by
  show Function.update v.data inode bytes inode = bytes
  rw [Function.update_self]

@[simp] theorem opened_setData (inode : ℕ) (bytes : List UInt8) :
    (v.setData inode bytes).opened = v.opened := rfl

theorem dir_create_self (name : String) : (v.create name).dir name = some v.inodes := by
  show Function.update v.dir name (some v.inodes) name = some v.inodes
  rw [Function.update_self]

theorem content_entry_self (name : String) (inode : ℕ) :
    (v.entry name (some inode)).content name = some (v.data inode) := by
  show (Function.update v.dir name (some inode) name).map v.data = some (v.data inode)
  rw [Function.update_self]
  rfl

@[simp] theorem content_setOpened (h : Handle) (file : Option OpenFile) :
    (v.setOpened h file).content = v.content := rfl

@[simp] theorem data_entry (name : String) (inode : Option ℕ) :
    (v.entry name inode).data = v.data := rfl

@[simp] theorem opened_ensure (name : String) : (v.ensure name).opened = v.opened := by
  rw [ensure]
  split
  · rfl
  · rfl

theorem dir_ensure_of_ne {name other : String} (hne : other ≠ name) :
    (v.ensure name).dir other = v.dir other := by
  rw [ensure]
  split
  · rfl
  · exact Function.update_of_ne hne _ _

theorem inodes_le_ensure (name : String) : v.inodes ≤ (v.ensure name).inodes := by
  rw [ensure]
  split
  · exact le_refl _
  · exact Nat.le_succ _

theorem data_ensure {inode : ℕ} (hlt : inode < v.inodes) (name : String) :
    (v.ensure name).data inode = v.data inode := by
  rw [ensure]
  split
  · rfl
  · exact Function.update_of_ne (Nat.ne_of_lt hlt) _ _

/-- Closing a file that was open all along. -/
theorem Same.closed {v' : View} {h : Handle} {file : OpenFile}
    (hsame : (v.setOpened h (some file)).Same v') (hfree : v.opened h = none) :
    v.Same (v'.setOpened h none) where
  dir := hsame.dir
  data := hsame.data
  inodes := hsame.inodes
  opened := by
    show Function.update v'.opened h none = v.opened
    rw [hsame.opened]
    show Function.update (Function.update v.opened h (some file)) h none = v.opened
    rw [Function.update_idem, ← hfree, Function.update_eq_self]

end View

namespace Files

/-- What a process sees of the directory. -/
def view (pid : ℕ) (s : Files) : View := ⟨s.inodeAt, s.data, s.inodes, s.mine pid⟩

variable {s s' : Files} {pid : ℕ}

theorem mine_setHandle {h : Handle} {file : OpenFile} (hlt : file.inode < s.inodes)
    (howner : file.owner = pid) :
    (s.setHandle h file hlt).mine pid = Function.update (s.mine pid) h (some file) := by
  funext other
  by_cases hother : other = h
  · subst hother
    rw [Function.update_self]
    exact mine_eq_some.mpr ⟨handles_setHandle_self, howner⟩
  · rw [Function.update_of_ne hother, mine, mine, handles_setHandle_of_ne hother]

theorem mine_close (h : Handle) :
    (s.closeUnless fun other _ => other != h).mine pid = Function.update (s.mine pid) h none := by
  funext other
  show ((s.handles other).filter fun _ => other != h).filter _ = _
  by_cases hother : other = h
  · subst hother
    rw [Function.update_self]
    simp
  · have hkeep : (other != h) = true := bne_iff_ne.mpr hother
    rw [Function.update_of_ne hother, mine]
    simp [hkeep]

theorem view_create (name : String) : (s.create name).view pid = (s.view pid).create name := by
  have hdir : (s.create name).inodeAt = Function.update s.inodeAt name (some s.inodes) := by
    funext other
    rw [inodeAt_create, Function.update_apply]
  rw [view, hdir]
  rfl

theorem view_ensure (name : String) : (s.ensure name).view pid = (s.view pid).ensure name := by
  rw [ensure, View.ensure]
  by_cases hname : (s.inodeAt name).isSome
  · rw [if_pos hname]
    exact (if_pos hname).symm
  · rw [if_neg hname, view_create]
    exact (if_neg hname).symm

theorem view_remove (name : String) : (s.remove name).view pid = (s.view pid).entry name none := by
  have hdir : (s.remove name).inodeAt = Function.update s.inodeAt name none := by
    funext other
    rw [inodeAt_remove, Function.update_apply]
  rw [view, hdir]
  rfl

theorem view_link (name : String) {inode : ℕ} (hlt : inode < s.inodes) :
    (s.link name inode hlt).view pid = (s.view pid).entry name (some inode) := by
  have hdir : (s.link name inode hlt).inodeAt = Function.update s.inodeAt name (some inode) := by
    funext other
    rw [inodeAt_link, Function.update_apply]
  rw [view, hdir]
  rfl

theorem view_setHandle {h : Handle} {file : OpenFile} (hlt : file.inode < s.inodes)
    (howner : file.owner = pid) :
    (s.setHandle h file hlt).view pid = (s.view pid).setOpened h (some file) := by
  rw [view, mine_setHandle hlt howner]
  rfl

theorem view_openAt {name : String} {h : Handle} (hopen : s.openAt pid name h = some s') :
    (s.view pid).openAt pid name h = some (s'.view pid) := by
  obtain ⟨inode, hlt, hinode, hfree, rfl⟩ := openAt_eq_some hopen
  have hdir : (s.view pid).dir name = some inode := hinode
  have hmine : (s.view pid).opened h = none := by
    show (s.handles h).filter _ = none
    rw [hfree]
    rfl
  rw [View.openAt, hdir, view_setHandle hlt rfl]
  exact if_pos (Option.isNone_iff_eq_none.mpr hmine)

theorem view_take {h : Handle} (htake : s.take pid h = some s') : s'.view pid = s.view pid := by
  obtain ⟨file, -, -, rfl⟩ := take_eq_some htake
  rfl

theorem view_advanceScan {entry : Option String} (hadvance : s.advanceScan pid entry = some s') :
    s'.view pid = s.view pid := by
  unfold advanceScan at hadvance
  split at hadvance
  all_goals
    split at hadvance
    · split at hadvance
      · obtain rfl := Option.some.inj hadvance
        rfl
      · exact absurd hadvance (by simp)
    · exact absurd hadvance (by simp)

theorem view_readFrom {h : Handle} {limit : ℕ} {bytes : List UInt8}
    (hread : s.readFrom pid h limit bytes = some s') :
    (s.view pid).exec pid (.read h limit) (.ok bytes) = some (s'.view pid) := by
  obtain ⟨file, hlt, hfile, howner, hreads, rfl⟩ := readFrom_eq_some hread
  have hmine : (s.view pid).opened h = some file := mine_eq_some.mpr ⟨hfile, howner⟩
  simp only [View.exec, hmine]
  rw [view_setHandle hlt howner]
  exact if_pos hreads

/-- **A call does to the view what it does to the directory.** -/
theorem exec_view {o : FileOp} {r : o.Ret} (hexec : s.exec pid o r = some s') :
    (s.view pid).exec pid o r = some (s'.view pid) := by
  have hnone : some s = some s' → some (s.view pid) = some (s'.view pid) := by
    intro h
    rw [Option.some.inj h]
  cases o with
  | openRead name | openReadWrite name =>
    rcases r with err | h
    · exact hnone hexec
    · exact view_openAt hexec
  | openOrCreate name =>
    rcases r with err | h
    · exact hnone hexec
    · have hopen := view_openAt hexec
      rw [view_ensure] at hopen
      exact hopen
  | createTemp before after =>
    rcases r with err | ⟨random, h⟩
    · exact hnone hexec
    · obtain ⟨-, -, hnew, hopen⟩ := makeTemp_eq_some hexec
      have hview := view_openAt hopen
      rw [view_create] at hview
      exact (if_pos (Option.isNone_iff_eq_none.mpr hnew)).trans hview
  | tryLock h | lock h =>
    rcases r with err | ⟨⟩
    · exact hnone hexec
    · exact congrArg some (view_take hexec).symm
  | unlock h =>
    rcases r with err | ⟨⟩
    · exact hnone hexec
    · obtain ⟨file, -, rfl⟩ := Option.map_eq_some_iff.mp hexec
      rfl
  | close h =>
    obtain ⟨file, hmine, rfl⟩ := Option.map_eq_some_iff.mp hexec
    have hclosed : (s.closeUnless fun other _ => other != h).view pid =
        (s.view pid).setOpened h none := by
      rw [view, mine_close]
      rfl
    rw [hclosed]
    exact congrArg (Option.map _) hmine
  | pathExists name =>
    rcases r with err | there
    · exact hnone hexec
    · change (if there = (s.inodeAt name).isSome then some s else none) = some s' at hexec
      split at hexec
      · rename_i hthere
        exact (if_pos hthere).trans (hnone hexec)
      · exact absurd hexec (by simp)
  | read h limit =>
    rcases r with err | bytes
    · exact hnone hexec
    · exact view_readFrom hexec
  | write h bytes =>
    rcases r with err | ⟨⟩
    · obtain ⟨file, hmine, rfl⟩ := Option.map_eq_some_iff.mp hexec
      exact congrArg (Option.map _) hmine
    · obtain ⟨file, hmine, rfl⟩ := Option.map_eq_some_iff.mp hexec
      exact congrArg (Option.map _) hmine
  | remove name =>
    rcases r with err | ⟨⟩
    · exact hnone hexec
    · change (if (s.inodeAt name).isSome then some (s.remove name) else none) = some s' at hexec
      split at hexec
      · rename_i hthere
        obtain rfl := Option.some.inj hexec
        rw [view_remove]
        exact if_pos hthere
      · exact absurd hexec (by simp)
  | rename source target =>
    rcases r with err | ⟨⟩
    · exact hnone hexec
    · obtain ⟨inode, hlt, hinode, rfl⟩ := move_eq_some hexec
      rw [view_link, view_remove]
      exact congrArg (Option.map _) hinode
  | readDir =>
    rcases r with err | ⟨⟩
    · exact hnone hexec
    · obtain rfl := Option.some.inj hexec
      rfl
  | nextEntry =>
    rcases r with err | entry
    · exact hnone hexec
    · exact congrArg some (view_advanceScan hexec).symm
  | createDirAll | flush | availableSpace =>
    rcases r with err | answer
    · exact hnone hexec
    · exact hnone hexec

end Files
