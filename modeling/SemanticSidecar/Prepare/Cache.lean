import SemanticSidecar.Prepare.Standing

/-!
# The cache directory as its processes keep it

What holds of the shared directory while any number of acquisitions and cleanups work in it.

* A process that has opened a cache lock has the file open that is under the lock's name *now*:
  nobody removes a cache lock or renames over it.  So a lock on that file is a lock on the name,
  and two processes never hold the lock of one model (`LockedUnder.exclusive`).
* The partial file an `acquire` is filling is nobody else's.  It has the bytes that were written to
  it, it has no name but its own, and nobody else has it open.  A cleanup may take the name away.

Both rest on the final names being neither locks' nor partials' names (`PlainNames`).
-/

set_option autoImplicit false

namespace SemanticSidecar

/-! ## Locks -/

/-- The process has the file open that is under the name. -/
def OpenUnder (s : Files) (pid : ℕ) (h : Handle) (name : String) : Prop :=
  ∃ file, s.handles h = some file ∧ file.owner = pid ∧ s.inodeAt name = some file.inode

/-- The process has the file locked that is under the name. -/
def LockedUnder (s : Files) (pid : ℕ) (h : Handle) (name : String) : Prop :=
  ∃ file, s.handles h = some file ∧ file.owner = pid ∧ s.inodeAt name = some file.inode ∧
    s.locks file.inode = some h

/-- **Two processes do not hold one lock.** -/
theorem LockedUnder.exclusive {s : Files} {pid pid' : ℕ} {h h' : Handle} {name : String}
    (hlock : LockedUnder s pid h name) (hlock' : LockedUnder s pid' h' name) : pid = pid' := by
  obtain ⟨file, hfile, rfl, hname, hheld⟩ := hlock
  obtain ⟨file', hfile', rfl, hname', hheld'⟩ := hlock'
  have hinode : file.inode = file'.inode := Option.some.inj (hname.symm.trans hname')
  rw [hinode, hheld'] at hheld
  rw [Option.some.inj hheld, hfile] at hfile'
  exact congrArg _ (Option.some.inj hfile')

section

variable {s s' : Files} {pid pid' : ℕ} {h : Handle} {name : String}

theorem OpenUnder.kept {o : FileOp} {r : o.Ret} (hopen : OpenUnder s pid h name)
    (hexec : s.exec pid' o r = some s') (hclose : o ≠ .close h)
    (hname : ∀ inode, s.inodeAt name = some inode → s'.inodeAt name = some inode) :
    OpenUnder s' pid h name := by
  obtain ⟨file, hfile, howner, hinode⟩ := hopen
  obtain ⟨file', hfile', howner', hinode'⟩ := Files.exec_open hexec hfile hclose
  exact ⟨file', hfile', howner'.trans howner, by rw [hinode']; exact hname _ hinode⟩

theorem OpenUnder.other {o : FileOp} {r : o.Ret} (hopen : OpenUnder s pid h name)
    (hexec : s.exec pid' o r = some s') (hne : pid ≠ pid')
    (hname : ∀ inode, s.inodeAt name = some inode → s'.inodeAt name = some inode) :
    OpenUnder s' pid h name := by
  obtain ⟨file, hfile, rfl, hinode⟩ := hopen
  exact ⟨file, Files.exec_handles hexec hfile hne, rfl, hname _ hinode⟩

theorem OpenUnder.exit (hopen : OpenUnder s pid h name) (hne : pid ≠ pid') :
    OpenUnder (s.exit pid') pid h name := by
  obtain ⟨file, hfile, rfl, hinode⟩ := hopen
  exact ⟨file, Files.exit_handles hfile hne, rfl, hinode⟩

theorem LockedUnder.kept {o : FileOp} {r : o.Ret} (hlock : LockedUnder s pid h name)
    (hexec : s.exec pid' o r = some s') (hunlock : o ≠ .unlock h) (hclose : o ≠ .close h)
    (hname : ∀ inode, s.inodeAt name = some inode → s'.inodeAt name = some inode) :
    LockedUnder s' pid h name := by
  obtain ⟨file, hfile, howner, hinode, hheld⟩ := hlock
  obtain ⟨file', hfile', howner', hinode'⟩ := Files.exec_open hexec hfile hclose
  refine ⟨file', hfile', howner'.trans howner, ?_, ?_⟩
  · rw [hinode']
    exact hname _ hinode
  · rw [hinode']
    exact Files.exec_locked hexec hfile hheld hunlock hclose

theorem LockedUnder.other {o : FileOp} {r : o.Ret} (hlock : LockedUnder s pid h name)
    (hexec : s.exec pid' o r = some s') (hne : pid ≠ pid')
    (hname : ∀ inode, s.inodeAt name = some inode → s'.inodeAt name = some inode) :
    LockedUnder s' pid h name := by
  obtain ⟨file, hfile, rfl, hinode, hheld⟩ := hlock
  exact ⟨file, Files.exec_handles hexec hfile hne, rfl, hname _ hinode,
    Files.exec_locks hexec hfile hne hheld⟩

theorem LockedUnder.exit (hlock : LockedUnder s pid h name) (hne : pid ≠ pid') :
    LockedUnder (s.exit pid') pid h name := by
  obtain ⟨file, hfile, rfl, hinode, hheld⟩ := hlock
  exact ⟨file, Files.exit_handles hfile hne, rfl, hinode, Files.exit_locks hfile hne hheld⟩

/-- An open file gets locked. -/
theorem OpenUnder.taken (hopen : OpenUnder s pid h name) (htake : s.take pid h = some s') :
    LockedUnder s' pid h name := by
  obtain ⟨file, hfile, howner, hinode⟩ := hopen
  obtain ⟨file', hmine, -, rfl⟩ := Files.take_eq_some htake
  have heq : file = file' := Option.some.inj (hfile.symm.trans (Files.mine_eq_some.mp hmine).1)
  subst heq
  exact ⟨file, hfile, howner, hinode, Function.update_self file.inode _ s.locks⟩

end

/-! ## Partial files -/

/-- The process is filling a partial file of the model. -/
structure Fills (s : Files) (pid : ℕ) (modelId : String) (w : Writing) (file : OpenFile) :
    Prop where
  /-- The handle is open. -/
  handle : s.handles w.temp.file = some file
  /-- It is the process's own. -/
  owner : file.owner = pid
  /-- The file has what was written. -/
  data : s.data file.inode = w.bytes
  /-- The file has no other name. -/
  name : ∀ name, s.inodeAt name = some file.inode → name = w.temp.name
  /-- The file has no other handle. -/
  only : ∀ h file', s.handles h = some file' → file'.inode = file.inode → h = w.temp.file
  /-- The name is free or the file's. -/
  there : s.inodeAt w.temp.name = none ∨ s.inodeAt w.temp.name = some file.inode
  /-- The name is one that `partial_prefix` and a random part make. -/
  partialName : ∃ random, w.temp.name = partialName modelId random ∧ '.' ∉ random.toList

theorem Fills.isPartialName {s : Files} {pid : ℕ} {modelId : String} {w : Writing}
    {file : OpenFile} (h : Fills s pid modelId w file) : isPartialName w.temp.name = true := by
  obtain ⟨random, hname, -⟩ := h.partialName
  rw [hname]
  exact isPartialName_partialName modelId random

/-- A call leaves a partial file alone unless it writes to it or closes it, or opens, makes or
renames a file under its name. -/
theorem Fills.kept {s s' : Files} {pid pid' : ℕ} {modelId : String} {w : Writing}
    {file : OpenFile} {o : FileOp} {r : o.Ret} (h : Fills s pid modelId w file)
    (hexec : s.exec pid' o r = some s')
    (hhandle : ∃ file', s'.handles w.temp.file = some file' ∧ file'.owner = file.owner ∧
      file'.inode = file.inode)
    (hwrite : ∀ bytes, o = .write w.temp.file bytes → file.owner ≠ pid')
    (hopens : ¬ Files.Opens o w.temp.name) (hnames : ¬ Files.Names o w.temp.name)
    (hsource : ∀ target, o ≠ .rename w.temp.name target)
    (htarget : ∀ source, o ≠ .rename source w.temp.name) :
    ∃ file', Fills s' pid modelId w file' ∧ file'.inode = file.inode := by
  obtain ⟨file', hfile', howner', hinode'⟩ := hhandle
  have hlt : file.inode < s.inodes := s.handles_lt h.handle
  refine ⟨file', ⟨hfile', howner'.trans h.owner, ?_, ?_, ?_, ?_, h.partialName⟩, hinode'⟩
  · rw [hinode', ← h.data]
    refine Files.exec_data hexec hlt fun h' bytes opened hop hopened howner heq => ?_
    have hfile := h.only h' opened hopened heq
    subst hfile
    rw [h.handle] at hopened
    cases hopened
    exact hwrite bytes hop howner
  · intro name hname
    rw [hinode'] at hname
    rcases Files.exec_named hexec hlt hname with hname | ⟨source, hop, hname⟩
    · exact h.name name hname
    · rw [h.name source hname] at hop
      exact absurd hop (hsource name)
  · intro h' opened hopened heq
    rw [hinode'] at heq
    rcases Files.exec_opened hexec (heq ▸ hlt) hopened with ⟨opened', hopened', heq'⟩ | ⟨name, hop, hname⟩
    · exact h.only h' opened' hopened' (heq'.trans heq)
    · rw [heq] at hname
      rw [h.name name hname] at hop
      exact absurd hop hopens
  · by_cases hremove : o = .remove w.temp.name
    · subst hremove
      rcases r with err | ⟨⟩
      · cases hexec
        rw [hinode']
        exact h.there
      · change (if (s.inodeAt w.temp.name).isSome then some (s.remove w.temp.name) else none) = _
          at hexec
        split at hexec
        · cases hexec
          rw [Files.inodeAt_remove, if_pos rfl]
          exact .inl rfl
        · exact nomatch hexec
    · rw [Files.exec_inodeAt hexec (fun _ => hnames) hremove hsource htarget, hinode']
      exact h.there

theorem Fills.exit {s : Files} {pid pid' : ℕ} {modelId : String} {w : Writing} {file : OpenFile}
    (h : Fills s pid modelId w file) (hne : pid ≠ pid') :
    Fills (s.exit pid') pid modelId w file where
  handle := Files.exit_handles h.handle (by rw [h.owner]; exact hne)
  owner := h.owner
  data := h.data
  name := h.name
  only := fun h' opened hopened => h.only h' opened (Files.exit_opened hopened)
  there := h.there
  partialName := h.partialName

/-! ## What each process can rely on -/

/-- What an `acquire` can rely on. -/
structure Acquiring.Sound (s : Files) (pid : ℕ) (a : Acquiring) : Prop where
  /-- A lock it has opened is open at the lock's name. -/
  opened : ∀ h, a.lock = .opened h → OpenUnder s pid h (lockName a.request.modelId)
  /-- A lock it holds is locked at the lock's name. -/
  held : ∀ h, a.lock = .held h → LockedUnder s pid h (lockName a.request.modelId)
  /-- Under the lock, its partial file is being filled by it alone. -/
  temp : a.Holds → ∀ w, a.temp = some w → ∃ file, Fills s pid a.request.modelId w file

/-- What a cleanup can rely on. -/
structure Cleaning.Sound (mix : PrepareRequest → Bool) (s : Files) (pid : ℕ) (c : Cleaning) :
    Prop where
  /-- A lock of the mix that it is about to try is open at its name. -/
  pending : ∀ q h, mix q = true → c.pending = some (lockName q.modelId, h) →
    OpenUnder s pid h (lockName q.modelId)
  /-- A lock that it could take is open, until the locks are given up. -/
  open' : c.releasing = false → ∀ name h, (name, some h) ∈ c.tried →
    ∃ file, s.handles h = some file ∧ file.owner = pid
  /-- A lock of the mix that it could take is locked, until then. -/
  held : c.releasing = false → ∀ q h, mix q = true → (lockName q.modelId, some h) ∈ c.tried →
    LockedUnder s pid h (lockName q.modelId)

/-- What a process can rely on. -/
def Standing.Sound (mix : PrepareRequest → Bool) (s : Files) (pid : ℕ) : Standing → Prop
  | .acquiring a => mix a.request = true ∧ a.Sound s pid
  | .cleaning c => c.Sound mix s pid

section

variable {sha256 : List UInt8 → List UInt8} {mix : PrepareRequest → Bool} {s s' : Files}
  {pid pid' : ℕ} {o : FileOp} {r : o.Ret} {name : String}

/-! ## The names a process touches -/

/-- A file of the model an `acquire` works on, its lock apart. -/
def Acquiring.Owns (a : Acquiring) (name : String) : Prop :=
  name = a.request.fileName ∨
    ∃ random, name = partialName a.request.modelId random ∧ '.' ∉ random.toList

theorem dot_notMem_of_isAlphanum {random : String}
    (h : random.toList.all Char.isAlphanum = true) : '.' ∉ random.toList := by
  intro hdot
  exact absurd (List.all_eq_true.mp h '.' hdot) (by decide)

namespace Acquiring

variable {a : Acquiring}

theorem removes_own (ha : a.Sound s pid) (hpre : a.pre sha256 (.file (.remove name))) :
    a.Holds ∧ a.Owns name := by
  obtain ⟨hholds, -, hname⟩ := hpre
  refine ⟨hholds, ?_⟩
  split at hname
  · rename_i w htemp
    obtain ⟨file, hfills⟩ := ha.temp hholds w htemp
    rw [hname]
    exact .inr hfills.partialName
  · exact .inl hname.1

theorem renames_own {source target : String} (ha : a.Sound s pid)
    (hpre : a.pre sha256 (.file (.rename source target))) :
    a.Holds ∧ a.Owns source ∧ target = a.request.fileName := by
  obtain ⟨htarget, hholds, -, w, htemp, hsource, -⟩ := hpre
  obtain ⟨file, hfills⟩ := ha.temp hholds w htemp
  rw [hsource]
  exact ⟨hholds, .inr hfills.partialName, htarget⟩

theorem names_own (hpre : a.pre sha256 (.file o)) (hnames : Files.Names o name) :
    name = lockName a.request.modelId ∨ a.Holds ∧ a.Owns name := by
  rcases hnames with rfl | ⟨before, after, random, rfl, rfl, hrandom⟩
  · exact .inl hpre.1
  · obtain ⟨rfl, rfl, hholds, -⟩ := hpre
    exact .inr ⟨hholds, .inr ⟨random, rfl, dot_notMem_of_isAlphanum hrandom⟩⟩

theorem opens_own (hpre : a.pre sha256 (.file o)) (hopens : Files.Opens o name) :
    name = lockName a.request.modelId ∨ name = a.request.fileName := by
  rcases hopens with rfl | rfl | rfl
  · exact .inr hpre.1
  · exact hpre.elim
  · exact .inl hpre.1

end Acquiring

/-- What a process may remove or rename is a partial file's name or a final one, not a lock's. -/
theorem touched_ne_lockName (hplain : PlainNames mix) {g : Standing} (hg : g.Sound mix s pid)
    (hpre : (prepareProtocol sha256).pre g (.file o)) {q : PrepareRequest} (hq : mix q = true) :
    (o ≠ .remove (lockName q.modelId)) ∧ (∀ target, o ≠ .rename (lockName q.modelId) target) ∧
      ∀ source, o ≠ .rename source (lockName q.modelId) := by
  have hlock := isPartialName_of_isLockName (isLockName_lockName q.modelId)
  rcases g with a | c
  · obtain ⟨hmix, ha⟩ := hg
    have hnotOwn : ¬ a.Owns (lockName q.modelId) := by
      rintro (hname | ⟨random, hname, -⟩)
      · exact hplain.lock _ _ hmix hq hname.symm
      · rw [hname, isPartialName_partialName] at hlock
        exact nomatch hlock
    refine ⟨?_, ?_, ?_⟩
    · rintro rfl
      exact hnotOwn (Acquiring.removes_own ha hpre).2
    · rintro target rfl
      exact hnotOwn (Acquiring.renames_own ha hpre).2.1
    · rintro source rfl
      exact hnotOwn (.inl (Acquiring.renames_own ha hpre).2.2)
  · refine ⟨?_, ?_, ?_⟩
    · rintro rfl
      obtain ⟨-, -, -, hpart, -⟩ := hpre
      rw [hlock] at hpart
      exact nomatch hpart
    · rintro target rfl
      exact hpre.elim
    · rintro source rfl
      exact hpre.elim

/-- **A cache lock keeps its file.** -/
theorem lockName_kept (hplain : PlainNames mix) {g : Standing} (hg : g.Sound mix s pid)
    (hpre : (prepareProtocol sha256).pre g (.file o)) (hexec : s.exec pid o r = some s')
    {q : PrepareRequest} (hq : mix q = true) :
    ∀ inode, s.inodeAt (lockName q.modelId) = some inode →
      s'.inodeAt (lockName q.modelId) = some inode := by
  intro inode hinode
  obtain ⟨hremove, hsource, htarget⟩ := touched_ne_lockName hplain hg hpre hq
  rw [Files.exec_inodeAt hexec (fun hnone => ?_) hremove hsource htarget]
  · exact hinode
  · rw [hinode] at hnone
    exact nomatch hnone

/-! ## What the others leave alone -/

namespace Acquiring

variable {a : Acquiring}

theorem Sound.lockedUnder (ha : a.Sound s pid) (hholds : a.Holds) :
    ∃ h, LockedUnder s pid h (lockName a.request.modelId) := by
  obtain ⟨lock, hlock⟩ := hholds
  exact ⟨lock, ha.held lock hlock⟩

/-- Only the process that fills a partial file owns its name. -/
theorem owner_of_owns (hplain : PlainNames mix) {a' : Acquiring} (ha : a.Sound s pid)
    (hholds : a.Holds) (hmix' : mix a'.request = true) (ha' : a'.Sound s pid')
    (hholds' : a'.Holds) {w : Writing} {file : OpenFile}
    (hfills : Fills s pid a.request.modelId w file) (howns : a'.Owns w.temp.name) :
    pid = pid' := by
  rcases howns with hname | ⟨random', hname', hdot'⟩
  · have hpart := hfills.isPartialName
    rw [hname, hplain.isPartial _ hmix'] at hpart
    exact nomatch hpart
  · obtain ⟨random, hname, hdot⟩ := hfills.partialName
    have hmodel := partialName_model hdot hdot' (hname.symm.trans hname')
    obtain ⟨lock, hlock⟩ := ha.lockedUnder hholds
    obtain ⟨lock', hlock'⟩ := ha'.lockedUnder hholds'
    rw [← hmodel] at hlock'
    exact hlock.exclusive hlock'

theorem opens_ne_partialName (hplain : PlainNames mix) {g : Standing} (hg : g.Sound mix s pid)
    (hpre : (prepareProtocol sha256).pre g (.file o)) (hpart : isPartialName name = true) :
    ¬ Files.Opens o name := by
  intro hopens
  have hnotLock : ∀ modelId, name ≠ lockName modelId := by
    rintro modelId rfl
    rw [isPartialName_of_isLockName (isLockName_lockName modelId)] at hpart
    exact nomatch hpart
  rcases g with a | c
  · rcases opens_own hpre hopens with hname | hname
    · exact hnotLock _ hname
    · rw [hname, hplain.isPartial _ hg.1] at hpart
      exact nomatch hpart
  · rcases hopens with rfl | rfl | rfl
    · exact hpre.elim
    · rw [isPartialName_of_isLockName hpre.2.2] at hpart
      exact nomatch hpart
    · exact hpre.elim

/-- Nobody else makes or renames a file under the name of a partial file. -/
theorem names_ne_partial (hplain : PlainNames mix)
    (ha : a.Sound s pid) (hholds : a.Holds) {w : Writing} {file : OpenFile}
    (hfills : Fills s pid a.request.modelId w file) (hne : pid ≠ pid') {g : Standing}
    (hg : g.Sound mix s pid') (hpre : (prepareProtocol sha256).pre g (.file o)) :
    ¬ Files.Names o w.temp.name ∧ (∀ target, o ≠ .rename w.temp.name target) ∧
      ∀ source, o ≠ .rename source w.temp.name := by
  rcases g with a' | c
  · obtain ⟨hmix', ha'⟩ := hg
    have hnotOwn : a'.Holds → ¬ a'.Owns w.temp.name := fun hholds' howns =>
      hne (owner_of_owns hplain ha hholds hmix' ha' hholds' hfills howns)
    refine ⟨fun hnames => ?_, ?_, ?_⟩
    · rcases names_own hpre hnames with hname | ⟨hholds', howns⟩
      · have hpart := hfills.isPartialName
        rw [hname, isPartialName_of_isLockName (isLockName_lockName _)] at hpart
        exact nomatch hpart
      · exact hnotOwn hholds' howns
    · rintro target rfl
      obtain ⟨hholds', howns, -⟩ := renames_own ha' hpre
      exact hnotOwn hholds' howns
    · rintro source rfl
      obtain ⟨hholds', -, htarget⟩ := renames_own ha' hpre
      exact hnotOwn hholds' (.inl htarget)
  · refine ⟨?_, ?_, ?_⟩
    · rintro (rfl | ⟨_, _, _, rfl, -, -⟩)
      · exact hpre.elim
      · exact hpre.elim
    · rintro target rfl
      exact hpre.elim
    · rintro source rfl
      exact hpre.elim

theorem fills_other (hplain : PlainNames mix)
    (ha : a.Sound s pid) (hholds : a.Holds) {w : Writing} {file : OpenFile}
    (hfills : Fills s pid a.request.modelId w file) (hne : pid ≠ pid') {g : Standing}
    (hg : g.Sound mix s pid') (hpre : (prepareProtocol sha256).pre g (.file o))
    (hexec : s.exec pid' o r = some s') :
    ∃ file', Fills s' pid a.request.modelId w file' ∧ file'.inode = file.inode := by
  obtain ⟨hnames, hsource, htarget⟩ := names_ne_partial hplain ha hholds hfills hne hg hpre
  have hother : file.owner ≠ pid' := by
    rw [hfills.owner]
    exact hne
  exact hfills.kept hexec ⟨file, Files.exec_handles hexec hfills.handle hother, rfl, rfl⟩
    (fun _ _ => hother) (opens_ne_partialName hplain hg hpre hfills.isPartialName) hnames hsource
    htarget

/-- **What an `acquire` relies on, another process leaves alone.** -/
theorem Sound.other (hplain : PlainNames mix) (hmix : mix a.request = true)
    (ha : a.Sound s pid) (hne : pid ≠ pid') {g : Standing} (hg : g.Sound mix s pid')
    (hpre : (prepareProtocol sha256).pre g (.file o)) (hexec : s.exec pid' o r = some s') :
    a.Sound s' pid := by
  have hname := lockName_kept hplain hg hpre hexec hmix
  refine ⟨fun h hlock => (ha.opened h hlock).other hexec hne hname,
    fun h hlock => (ha.held h hlock).other hexec hne hname, fun hholds w hw => ?_⟩
  obtain ⟨file, hfills⟩ := ha.temp hholds w hw
  obtain ⟨file', hfills', -⟩ := fills_other hplain ha hholds hfills hne hg hpre hexec
  exact ⟨file', hfills'⟩

theorem Sound.exit (ha : a.Sound s pid) (hne : pid ≠ pid') : a.Sound (s.exit pid') pid := by
  refine ⟨fun h hlock => (ha.opened h hlock).exit hne,
    fun h hlock => (ha.held h hlock).exit hne, fun hholds w hw => ?_⟩
  obtain ⟨file, hfills⟩ := ha.temp hholds w hw
  exact ⟨file, hfills.exit hne⟩

end Acquiring

namespace Cleaning

variable {c : Cleaning}

theorem Sound.other (hplain : PlainNames mix) (hc : c.Sound mix s pid) (hne : pid ≠ pid')
    {g : Standing} (hg : g.Sound mix s pid') (hpre : (prepareProtocol sha256).pre g (.file o))
    (hexec : s.exec pid' o r = some s') : c.Sound mix s' pid := by
  refine ⟨fun q h hq hp => ?_, fun hreleasing name h hmem => ?_, fun hreleasing q h hq hmem => ?_⟩
  · exact (hc.pending q h hq hp).other hexec hne (lockName_kept hplain hg hpre hexec hq)
  · obtain ⟨file, hfile, rfl⟩ := hc.open' hreleasing name h hmem
    exact ⟨file, Files.exec_handles hexec hfile hne, rfl⟩
  · exact (hc.held hreleasing q h hq hmem).other hexec hne
      (lockName_kept hplain hg hpre hexec hq)

theorem Sound.exit (hc : c.Sound mix s pid) (hne : pid ≠ pid') :
    c.Sound mix (s.exit pid') pid := by
  refine ⟨fun q h hq hp => (hc.pending q h hq hp).exit hne, fun hreleasing name h hmem => ?_,
    fun hreleasing q h hq hmem => (hc.held hreleasing q h hq hmem).exit hne⟩
  obtain ⟨file, hfile, rfl⟩ := hc.open' hreleasing name h hmem
  exact ⟨file, Files.exit_handles hfile hne, rfl⟩

end Cleaning

/-! ## What a process does to itself -/

namespace Acquiring

variable {a : Acquiring}

/-- The calls after which an `acquire` has the lock and the partial file it had before. -/
def Steady : FileOp → Prop
  | .openOrCreate _ | .createTemp _ _ | .unlock _ | .close _ | .write _ _ | .rename _ _ => False
  | _ => True

theorem Sound.keepsLock (hplain : PlainNames mix) (hmix : mix a.request = true)
    (ha : a.Sound s pid) (hpre : a.pre sha256 (.file o)) (hexec : s.exec pid o r = some s')
    (hunlock : ∀ h, o ≠ .unlock h) (hclose : ∀ h, o ≠ .close h) {a' : Acquiring}
    (hrequest : a'.request = a.request) (hlock : a'.lock = a.lock)
    (htemp : a.Holds → ∀ w, a'.temp = some w → ∃ file, Fills s' pid a.request.modelId w file) :
    a'.Sound s' pid := by
  have hname : ∀ inode, s.inodeAt (lockName a.request.modelId) = some inode →
      s'.inodeAt (lockName a.request.modelId) = some inode :=
    lockName_kept (g := .acquiring a) hplain ⟨hmix, ha⟩ hpre hexec hmix
  refine ⟨fun h hlock' => ?_, fun h hlock' => ?_, fun hholds w hw => ?_⟩
  · rw [hrequest]
    exact (ha.opened h (hlock.symm.trans hlock')).kept hexec (hclose h) hname
  · rw [hrequest]
    exact (ha.held h (hlock.symm.trans hlock')).kept hexec (hunlock h) (hclose h) hname
  · rw [hrequest]
    obtain ⟨lock, hholds⟩ := hholds
    exact htemp ⟨lock, hlock.symm.trans hholds⟩ w hw

theorem Sound.steady (hplain : PlainNames mix) (hmix : mix a.request = true)
    (ha : a.Sound s pid) (hpre : a.pre sha256 (.file o)) (hexec : s.exec pid o r = some s')
    (hsteady : Steady o) {a' : Acquiring} (hrequest : a'.request = a.request)
    (hlock : a'.lock = a.lock)
    (htemp : ∀ w', a'.temp = some w' → ∃ w, a.temp = some w ∧ w'.temp = w.temp ∧
      w'.bytes = w.bytes) : a'.Sound s' pid := by
  have hclose : ∀ h, o ≠ .close h := by
    rintro h rfl
    exact hsteady
  have hunlock : ∀ h, o ≠ .unlock h := by
    rintro h rfl
    exact hsteady
  refine ha.keepsLock hplain hmix hpre hexec hunlock hclose hrequest hlock fun hholds w' hw' => ?_
  obtain ⟨w, hw, htempEq, hbytes⟩ := htemp w' hw'
  obtain ⟨file, hfills⟩ := ha.temp hholds w hw
  obtain ⟨file', hfills', -⟩ := hfills.kept hexec
    (Files.exec_open hexec hfills.handle (hclose _))
    (fun bytes hop => absurd hsteady (hop ▸ id))
    (opens_ne_partialName (g := .acquiring a) hplain ⟨hmix, ha⟩ hpre hfills.isPartialName)
    (by
      rintro (rfl | ⟨_, _, _, rfl, -, -⟩)
      · exact hsteady
      · exact hsteady)
    (fun target hop => absurd hsteady (hop ▸ id)) (fun source hop => absurd hsteady (hop ▸ id))
  obtain ⟨temp, bytes, dropped⟩ := w
  obtain ⟨temp', bytes', dropped'⟩ := w'
  cases htempEq
  cases hbytes
  exact ⟨file', hfills'.handle, hfills'.owner, hfills'.data, hfills'.name, hfills'.only,
    hfills'.there, hfills'.partialName⟩

/-- Without a lock there is nothing to rely on. -/
theorem Sound.of_idle (hlock : a.lock = .unopened ∨ ∃ h, a.lock = .released h) :
    a.Sound s pid := by
  have hnot : ∀ h, a.lock ≠ .opened h ∧ a.lock ≠ .held h := by
    intro h
    rcases hlock with hlock | ⟨h', hlock⟩
    · rw [hlock]
      exact ⟨fun heq => (nomatch heq), fun heq => nomatch heq⟩
    · rw [hlock]
      exact ⟨fun heq => (nomatch heq), fun heq => nomatch heq⟩
  exact ⟨fun h heq => absurd heq (hnot h).1, fun h heq => absurd heq (hnot h).2,
    fun ⟨h, heq⟩ => absurd heq (hnot h).2⟩

/-- A file that is opened is open under its name. -/
theorem openAt_openUnder {h : Handle} (hopen : s.openAt pid name h = some s') :
    OpenUnder s' pid h name := by
  obtain ⟨inode, hlt, hinode, -, rfl⟩ := Files.openAt_eq_some hopen
  exact ⟨_, Files.handles_setHandle_self, rfl, hinode⟩

/-- A new partial file is empty, and nobody else's. -/
theorem makeTemp_fills {modelId random : String} {h : Handle}
    (hmake : s.makeTemp pid (partialPrefix modelId) random partialSuffix h = some s') :
    ∃ file, Fills s' pid modelId ⟨⟨Files.tempName (partialPrefix modelId) random partialSuffix, h⟩,
      [], false⟩ file := by
  obtain ⟨-, hrandom, hnone, hopen⟩ := Files.makeTemp_eq_some hmake
  obtain ⟨inode, hlt, hinode, hfree, rfl⟩ := Files.openAt_eq_some hopen
  rw [Files.inodeAt_create, if_pos rfl] at hinode
  cases hinode
  refine ⟨⟨pid, s.inodes, 0⟩, Files.handles_setHandle_self, rfl, ?_, ?_, ?_, .inr ?_,
    random, rfl, dot_notMem_of_isAlphanum hrandom⟩
  · exact Function.update_self s.inodes [] s.data
  · intro name hname
    change (s.create _).inodeAt name = some s.inodes at hname
    rw [Files.inodeAt_create] at hname
    split at hname
    · assumption
    · exact absurd (Files.inodeAt_lt hname) (lt_irrefl _)
  · intro h' file' hfile' hinode'
    by_cases hh : h' = h
    · exact hh
    · rw [Files.handles_setHandle_of_ne hh] at hfile'
      have hlt' : file'.inode < s.inodes := s.handles_lt hfile'
      rw [hinode'] at hlt'
      exact absurd hlt' (lt_irrefl _)
  · show (s.create _).inodeAt _ = some s.inodes
    rw [Files.inodeAt_create, if_pos rfl]

/-- What is written to a partial file is added to it. -/
theorem Fills.wrote {modelId : String} {w : Writing} {file : OpenFile} {bytes : List UInt8}
    (h : Fills s pid modelId w file)
    (hwrite : (s.mine pid w.temp.file).map
      (fun file => s.setData file.inode (s.data file.inode ++ bytes)) = some s') :
    Fills s' pid modelId { w with bytes := w.bytes ++ bytes } file := by
  obtain ⟨file', hmine, rfl⟩ := Option.map_eq_some_iff.mp hwrite
  have heq : file' = file :=
    Option.some.inj ((Files.mine_eq_some.mp hmine).1.symm.trans h.handle)
  subst heq
  refine ⟨h.handle, h.owner, ?_, h.name, h.only, h.there, h.partialName⟩
  show Function.update s.data file'.inode _ file'.inode = w.bytes ++ bytes
  rw [Function.update_self, h.data]

/-- **What an `acquire` relies on, it keeps itself.** -/
theorem Sound.own (hplain : PlainNames mix) (hmix : mix a.request = true) (ha : a.Sound s pid)
    (hpre : a.pre sha256 (.file o)) (hexec : s.exec pid o r = some s') :
    (a.next (.file o) r).Sound s' pid := by
  have hsame : ∀ w, a.temp = some w → ∃ w', a.temp = some w' ∧ w.temp = w'.temp ∧
      w.bytes = w'.bytes := fun w hw => ⟨w, hw, rfl, rfl⟩
  have hattempted : ∀ w, a.attempted.temp = some w → ∃ w', a.temp = some w' ∧
      w.temp = w'.temp ∧ w.bytes = w'.bytes := by
    intro w hw
    obtain ⟨w', hw', rfl⟩ := Option.map_eq_some_iff.mp hw
    exact ⟨w', hw', rfl, rfl⟩
  have hsteady : ∀ {a' : Acquiring}, Steady o → a'.request = a.request → a'.lock = a.lock →
      a'.temp = a.temp → a'.Sound s' pid := fun ho hrequest hlock htemp =>
    ha.steady hplain hmix hpre hexec ho hrequest hlock (by rw [htemp]; exact hsame)
  cases o with
  | createDirAll | flush | availableSpace => exact hsteady trivial rfl rfl rfl
  | openReadWrite | readDir | nextEntry => exact hpre.elim
  | openOrCreate name =>
    obtain ⟨rfl, hlock⟩ := hpre
    rcases r with err | h
    · exact .of_idle (.inl hlock)
    · refine ⟨fun h' heq => ?_, fun h' heq => (by cases heq), fun hheld => ?_⟩
      · cases heq
        exact openAt_openUnder hexec
      · obtain ⟨h', heq⟩ := hheld
        cases heq
  | tryLock h | lock h =>
    obtain ⟨hlock, -, -, htemp⟩ := hpre
    rcases r with err | ⟨⟩
    · cases hexec
      exact ha
    · refine ⟨fun h' heq => (by cases heq), fun h' heq => ?_, fun _ w hw => ?_⟩
      · cases heq
        exact (ha.opened h hlock).taken hexec
      · cases htemp.symm.trans hw
  | unlock h =>
    rcases r with err | ⟨⟩
    · exact .of_idle (.inr ⟨h, rfl⟩)
    · exact .of_idle (.inr ⟨h, rfl⟩)
  | close h =>
    have hpermitted : (prepareProtocol sha256).pre (.acquiring a) (.file (.close h)) := hpre
    have hname := lockName_kept (g := .acquiring a) hplain ⟨hmix, ha⟩ hpermitted hexec hmix
    have hlock : ∀ {stage}, (a.closed h).lock = stage → stage ≠ .unopened →
        a.lock = stage ∧ stage ≠ .opened h := by
      rintro _ rfl hstage
      by_cases hh : a.lock = .opened h
      · exact absurd (if_pos hh) hstage
      · have heq : (a.closed h).lock = a.lock := if_neg hh
        rw [heq]
        exact ⟨rfl, hh⟩
    refine ⟨fun h' heq => ?_, fun h' heq => ?_, fun ⟨h', heq⟩ w hw => ?_⟩
    · obtain ⟨hopened, hne⟩ := hlock heq fun h => by cases h
      refine (ha.opened h' hopened).kept hexec (fun hop => hne ?_) hname
      cases hop
      rfl
    · obtain ⟨hheld, -⟩ := hlock heq fun h => by cases h
      refine (ha.held h' hheld).kept hexec (fun hop => by cases hop) (fun hop => hpre.1 ?_) hname
      cases hop
      exact hheld
    · obtain ⟨hheld, -⟩ := hlock heq fun h => by cases h
      obtain ⟨hw, hne⟩ := Option.filter_eq_some_iff.mp hw
      obtain ⟨file, hfills⟩ := ha.temp ⟨h', hheld⟩ w hw
      have hother : FileOp.close h ≠ .close w.temp.file := by
        intro hop
        cases hop
        simp at hne
      obtain ⟨file', hfills', -⟩ := hfills.kept hexec
        (Files.exec_open hexec hfills.handle hother) (fun _ hop => by cases hop)
        (opens_ne_partialName (g := .acquiring a) hplain ⟨hmix, ha⟩ hpermitted hfills.isPartialName)
        (by rintro (hop | ⟨_, _, _, hop, -, -⟩) <;> cases hop)
        (fun _ hop => by cases hop) (fun _ hop => by cases hop)
      exact ⟨file', hfills'⟩
  | pathExists name =>
    rcases r with err | (_ | _)
    · exact hsteady trivial rfl rfl rfl
    · exact hsteady trivial rfl rfl rfl
    · exact hsteady trivial rfl rfl rfl
  | openRead name =>
    rcases r with err | h
    · exact hsteady trivial rfl rfl rfl
    · exact hsteady trivial rfl rfl rfl
  | read h limit =>
    rcases r with err | chunk
    · exact hsteady trivial rfl rfl rfl
    · obtain ⟨-, -, bytes, hreading⟩ := hpre
      show (a.hasRead h chunk).Sound s' pid
      rw [hasRead, hreading]
      dsimp only
      split
      · exact hsteady trivial rfl rfl rfl
      · exact hsteady trivial rfl rfl rfl
  | remove name =>
    rcases r with err | ⟨⟩
    · exact ha.steady hplain hmix hpre hexec trivial rfl rfl hattempted
    · show (if a.temp.isSome then a.attempted else { a with known := .absent }).Sound s' pid
      split
      · exact ha.steady hplain hmix hpre hexec trivial rfl rfl hattempted
      · exact hsteady trivial rfl rfl rfl
  | createTemp before after =>
    obtain ⟨rfl, rfl, -⟩ := id hpre
    rcases r with err | ⟨random, h⟩
    · cases hexec
      exact ha
    · refine ha.keepsLock hplain hmix hpre hexec (fun _ hop => by cases hop)
        (fun _ hop => by cases hop) rfl rfl fun _ w hw => ?_
      cases hw
      exact makeTemp_fills hexec
  | write h bytes =>
    obtain ⟨hholds, -, w, hw, rfl⟩ := id hpre
    obtain ⟨file, hfills⟩ := ha.temp hholds w hw
    rcases r with err | ⟨⟩
    all_goals
      refine ha.keepsLock hplain hmix hpre hexec (fun _ hop => by cases hop)
        (fun _ hop => by cases hop) rfl rfl fun _ w' hw' => ?_
      obtain ⟨w'', hw'', rfl⟩ := Option.map_eq_some_iff.mp hw'
      cases hw.symm.trans hw''
      exact ⟨file, Fills.wrote hfills hexec⟩
  | rename source target =>
    rcases r with err | ⟨⟩
    · cases hexec
      exact ha
    · exact ha.keepsLock hplain hmix hpre hexec (fun _ hop => by cases hop)
        (fun _ hop => by cases hop) rfl rfl fun _ w hw => by cases hw

end Acquiring

namespace Cleaning

variable {c : Cleaning}

/-- A cleanup keeps what it does not give up. -/
theorem Sound.keeps (hplain : PlainNames mix) (hc : c.Sound mix s pid)
    (hpre : c.pre (.file o)) (hexec : s.exec pid o r = some s') {c' : Cleaning}
    (hpending : ∀ q h, mix q = true → c'.pending = some (lockName q.modelId, h) →
      c.pending = some (lockName q.modelId, h) ∧ o ≠ .close h ∨
        OpenUnder s' pid h (lockName q.modelId))
    (htried : c'.releasing = false → c.releasing = false ∧
      ∀ name h, (name, some h) ∈ c'.tried →
        (name, some h) ∈ c.tried ∧ o ≠ .unlock h ∧ o ≠ .close h ∨
          (∃ file, s'.handles h = some file ∧ file.owner = pid) ∧
            ∀ q, mix q = true → name = lockName q.modelId → LockedUnder s' pid h name) :
    c'.Sound mix s' pid := by
  have hname : ∀ {q}, mix q = true → ∀ inode, s.inodeAt (lockName q.modelId) = some inode →
      s'.inodeAt (lockName q.modelId) = some inode := fun hq =>
    @lockName_kept id _ _ _ _ _ _ hplain (.cleaning c) hc hpre hexec _ hq
  refine ⟨fun q h hq hp => ?_, fun hreleasing name h hmem => ?_, fun hreleasing q h hq hmem => ?_⟩
  · rcases hpending q h hq hp with ⟨hp, hclose⟩ | hopen
    · exact (hc.pending q h hq hp).kept hexec hclose (hname hq)
    · exact hopen
  · obtain ⟨hreleasing, htried⟩ := htried hreleasing
    rcases htried name h hmem with ⟨hmem, -, hclose⟩ | ⟨hopen, -⟩
    · obtain ⟨file, hfile, rfl⟩ := hc.open' hreleasing name h hmem
      obtain ⟨file', hfile', howner, -⟩ := Files.exec_open hexec hfile hclose
      exact ⟨file', hfile', howner⟩
    · exact hopen
  · obtain ⟨hreleasing, htried⟩ := htried hreleasing
    rcases htried _ h hmem with ⟨hmem, hunlock, hclose⟩ | ⟨-, hlocked⟩
    · exact (hc.held hreleasing q h hq hmem).kept hexec hunlock hclose (hname hq)
    · exact hlocked q hq rfl

/-- **What a cleanup relies on, it keeps itself.** -/
theorem Sound.own (hplain : PlainNames mix) (hc : c.Sound mix s pid)
    (hpre : c.pre (.file o)) (hexec : s.exec pid o r = some s') :
    (c.next (.file o) r).Sound mix s' pid := by
  have hsame : ∀ {c' : Cleaning}, c'.pending = c.pending → c'.tried = c.tried →
      c'.releasing = c.releasing → (∀ h, o ≠ .unlock h) → (∀ h, o ≠ .close h) →
      c'.Sound mix s' pid := by
    intro c' hpending htried hreleasing hunlock hclose
    refine hc.keeps hplain hpre hexec (fun q h _ hp => .inl ⟨hpending ▸ hp, hclose h⟩)
      fun hreleasing' => ⟨hreleasing ▸ hreleasing', fun name h hmem => ?_⟩
    exact .inl ⟨htried ▸ hmem, hunlock h, hclose h⟩
  cases o with
  | readDir | remove =>
    exact hsame rfl rfl rfl (fun _ hop => by cases hop) (fun _ hop => by cases hop)
  | nextEntry =>
    rcases r with err | (_ | name)
    all_goals exact hsame rfl rfl rfl (fun _ hop => by cases hop) (fun _ hop => by cases hop)
  | openReadWrite name =>
    rcases r with err | h
    · refine hc.keeps hplain hpre hexec (fun q h _ hp => .inl ⟨hp, fun hop => by cases hop⟩)
        fun hreleasing => ⟨hreleasing, fun other h hmem => ?_⟩
      rcases List.mem_append.mp hmem with hmem | hmem
      · exact .inl ⟨hmem, fun hop => (by cases hop), fun hop => by cases hop⟩
      · cases (Prod.mk.inj (List.mem_singleton.mp hmem)).2
    · refine hc.keeps hplain hpre hexec (fun q h' _ hp => .inr ?_)
        fun hreleasing => ⟨hreleasing, fun other h' hmem => ?_⟩
      · obtain ⟨rfl, rfl⟩ := Prod.mk.inj (Option.some.inj hp)
        exact Acquiring.openAt_openUnder hexec
      · exact .inl ⟨hmem, fun hop => (by cases hop), fun hop => by cases hop⟩
  | tryLock h =>
    obtain ⟨-, name, hpending⟩ := id hpre
    rcases r with err | ⟨⟩
    · refine hc.keeps hplain hpre hexec (fun q h _ hp => by cases hp)
        fun hreleasing => ⟨hreleasing, fun other h' hmem => ?_⟩
      change (other, some h') ∈ c.tried ++ (c.pending.map fun p => (p.1, none)).toList at hmem
      rw [hpending] at hmem
      rcases List.mem_append.mp hmem with hmem | hmem
      · exact .inl ⟨hmem, fun hop => (by cases hop), fun hop => by cases hop⟩
      · cases (Prod.mk.inj (List.mem_singleton.mp hmem)).2
    · refine hc.keeps hplain hpre hexec (fun q h _ hp => by cases hp)
        fun hreleasing => ⟨hreleasing, fun other h' hmem => ?_⟩
      change (other, some h') ∈ c.tried ++ (c.pending.map fun p => (p.1, some h)).toList at hmem
      rw [hpending] at hmem
      rcases List.mem_append.mp hmem with hmem | hmem
      · exact .inl ⟨hmem, fun hop => (by cases hop), fun hop => by cases hop⟩
      · obtain ⟨rfl, hh⟩ := Prod.mk.inj (List.mem_singleton.mp hmem)
        cases hh
        obtain ⟨file, hmine, -, rfl⟩ := Files.take_eq_some hexec
        refine .inr ⟨⟨file, Files.mine_eq_some.mp hmine⟩, ?_⟩
        rintro q hq rfl
        exact (hc.pending q h hq hpending).taken hexec
  | unlock h =>
    rcases r with err | ⟨⟩
    all_goals
      exact hc.keeps hplain hpre hexec (fun q h' _ hp => .inl ⟨hp, fun hop => by cases hop⟩)
        fun hreleasing => by cases hreleasing
  | close h =>
    refine hc.keeps hplain hpre hexec (fun q h' _ hp => .inl ?_) fun hreleasing => ?_
    · obtain ⟨hp, hne⟩ := Option.filter_eq_some_iff.mp hp
      refine ⟨hp, fun hop => ?_⟩
      cases hop
      simp at hne
    · obtain ⟨hreleasing, hnone⟩ := Bool.or_eq_false_iff.mp hreleasing
      refine ⟨hreleasing, fun name h' hmem => .inl ⟨hmem, fun hop => (by cases hop), fun hop => ?_⟩⟩
      cases hop
      have hany := List.any_eq_false.mp hnone _ hmem
      simp at hany
  | createDirAll | openRead | openOrCreate | createTemp | lock | pathExists | read | write | flush
  | rename | availableSpace => exact hpre.elim

end Cleaning

/-- **What a process relies on, every call leaves alone.** -/
theorem Standing.Sound.own (hplain : PlainNames mix) {g : Standing} (hg : g.Sound mix s pid)
    (hpre : (prepareProtocol sha256).pre g (.file o)) (hexec : s.exec pid o r = some s') :
    ((prepareProtocol sha256).next g (.file o) r).Sound mix s' pid := by
  rcases g with a | c
  · refine ⟨?_, hg.2.own hplain hg.1 hpre hexec⟩
    show mix (a.next (.file o) r).request = true
    rw [Acquiring.next_request]
    exact hg.1
  · exact Cleaning.Sound.own hplain hg hpre hexec

theorem Standing.Sound.other (hplain : PlainNames mix) {g g' : Standing}
    (hg : g.Sound mix s pid) (hne : pid ≠ pid') (hg' : g'.Sound mix s pid')
    (hpre : (prepareProtocol sha256).pre g' (.file o)) (hexec : s.exec pid' o r = some s') :
    g.Sound mix s' pid := by
  rcases g with a | c
  · exact ⟨hg.1, hg.2.other hplain hg.1 hne hg' hpre hexec⟩
  · exact Cleaning.Sound.other hplain hg hne hg' hpre hexec

theorem Standing.Sound.exit {g : Standing} (hg : g.Sound mix s pid) (hne : pid ≠ pid') :
    g.Sound mix (s.exit pid') pid := by
  rcases g with a | c
  · exact ⟨hg.1, hg.2.exit hne⟩
  · exact Cleaning.Sound.exit hg hne

end

/-! ## The outline -/

section

variable {sha256 : List UInt8 → List UInt8} {cacheDir : String} {mix : PrepareRequest → Bool}
  {cache : Files}

/-- Every process can rely on what it relies on. -/
def AllSound (mix : PrepareRequest → Bool) (gs : ℕ → Machine.Stage Standing) (s : Files) : Prop :=
  ∀ pid g, gs pid = .live g → g.Sound mix s pid

theorem AllSound.update {gs : ℕ → Machine.Stage Standing} {s s' : Files} {pid : ℕ}
    {stage : Machine.Stage Standing} (h : AllSound mix gs s)
    (hself : ∀ g, stage = .live g → g.Sound mix s' pid)
    (hothers : ∀ (other : ℕ) (g : Standing), other ≠ pid → g.Sound mix s other → g.Sound mix s' other) :
    AllSound mix (Function.update gs pid stage) s' := by
  intro other g hlive
  by_cases hother : other = pid
  · subst hother
    rw [Function.update_self] at hlive
    exact hself g hlive
  · rw [Function.update_of_ne hother] at hlive
    exact hothers other g hother (h other g hlive)

/-- To take up a job leaves the directory alone. -/
theorem start_eq_some {pid : ℕ} {job : PrepareJob} {s s' : Files}
    (hstart : (cacheMachine sha256 cacheDir mix cache).start pid job s = some s') :
    s = s' ∧ ∀ request, job = .acquire request → mix request = true := by
  rcases job with request | ⟨⟩
  · change (if mix request then some s else none) = some s' at hstart
    split at hstart
    · rename_i hmix
      refine ⟨Option.some.inj hstart, ?_⟩
      rintro _ ⟨⟩
      exact hmix
    · exact nomatch hstart
  · exact ⟨Option.some.inj hstart, fun _ h => nomatch h⟩

/-- The calls that are not the file system's leave the directory alone. -/
theorem cacheExec_of_not_file {pid : ℕ} {s s' : Files} {o : PrepareOp} {r : o.Ret}
    (hexec : (cacheMachine sha256 cacheDir mix cache).exec pid s o r = some s')
    (hfile : ∀ fo, o ≠ .file fo) : s' = s := by
  cases o with
  | file fo => exact absurd rfl (hfile fo)
  | readBody limit =>
    rcases r with err | bytes
    · exact (Option.some.inj hexec).symm
    · change (if bytes.length ≤ limit then some s else none) = some s' at hexec
      split at hexec
      · exact (Option.some.inj hexec).symm
      · exact nomatch hexec
  | awaitResponse =>
    rcases r with err | offered
    all_goals exact (Option.some.inj hexec).symm
  | emit | openRequest | progressDue => exact (Option.some.inj hexec).symm

theorem Standing.Sound.next_of_not_file {s : Files} {pid : ℕ} {g : Standing} {o : PrepareOp}
    {r : o.Ret} (hg : g.Sound mix s pid) (hpre : (prepareProtocol sha256).pre g o)
    (hfile : ∀ fo, o ≠ .file fo) : ((prepareProtocol sha256).next g o r).Sound mix s pid := by
  rcases g with a | c
  · obtain ⟨hlock, htemp, -, -⟩ := a.next_of_not_file r hfile
    have hrequest := a.next_request o r
    refine ⟨?_, ?_, ?_, ?_⟩
    · rw [hrequest]
      exact hg.1
    · rw [hrequest, hlock]
      exact hg.2.opened
    · rw [hrequest, hlock]
      exact hg.2.held
    · rw [hrequest, htemp, Acquiring.Holds, hlock]
      exact hg.2.temp
  · cases o with
    | file fo => exact absurd rfl (hfile fo)
    | readBody | awaitResponse | emit | openRequest | progressDue => exact hpre.elim

/-- **What the cache machine keeps.** -/
def cacheOutline (sha256 : List UInt8 → List UInt8) (cacheDir : String)
    (mix : PrepareRequest → Bool) (cache : Files) :
    (cacheMachine sha256 cacheDir mix cache).Outline Standing where
  protocol := prepareProtocol sha256
  enter _ := Standing.enter
  done := prepareDone sha256 cacheDir
  inv _ gs s := AllSound mix gs s

theorem prepareAllowed {s s' : Files} {pid : ℕ} {g : Standing} {o : PrepareOp} {r : o.Ret}
    (hg : g.Sound mix s pid) (hpre : (prepareProtocol sha256).pre g o)
    (hexec : (cacheMachine sha256 cacheDir mix cache).exec pid s o r = some s') :
    (prepareProtocol sha256).allowed g o r := by
  rcases g with a | c
  · -- A handle that comes back was free, and the lock's was not.
    have hne : ∀ {t : Files} {name h}, t.handles = s.handles → t.openAt pid name h = some s' →
        a.lock ≠ .held h := by
      intro t name h ht hopen hlock
      obtain ⟨inode, -, -, hfree, -⟩ := Files.openAt_eq_some hopen
      obtain ⟨file, hfile, -⟩ := hg.2.held h hlock
      rw [ht, hfile] at hfree
      exact nomatch hfree
    show a.allowed o r
    unfold Acquiring.allowed
    split
    · exact hne rfl hexec
    · obtain ⟨-, -, -, hopen⟩ := Files.makeTemp_eq_some hexec
      exact hne (t := s.create _) rfl hopen
    · trivial
  · show c.allowed o r
    unfold Cleaning.allowed
    split
    · rename_i h
      intro name hmem
      obtain ⟨inode, -, -, hfree, -⟩ := Files.openAt_eq_some hexec
      obtain ⟨file, hfile, -⟩ := hg.open' hpre.2.1 name h hmem
      rw [hfile] at hfree
      exact nomatch hfree
    · trivial

theorem AllSound.exit {gs : ℕ → Machine.Stage Standing} {s : Files} {pid : ℕ} {g : Standing}
    (h : AllSound mix gs s) :
    AllSound mix (Function.update gs pid (.gone g)) (s.exit pid) :=
  h.update (fun _ hlive => nomatch hlive) fun _ _ hne hg => hg.exit hne

/-- **Every process can rely on what it relies on, in every interleaving.** -/
theorem cacheOutline_valid (hplain : PlainNames mix) :
    (cacheOutline sha256 cacheDir mix cache).Valid where
  init := fun pid g hlive => nomatch hlive
  main := fun _ job _ _ _ => program_follows job
  start := by
    intro log gs s pid job s' hinv hunborn hstart
    have hs := start_eq_some hstart
    obtain ⟨rfl, hmix⟩ := hs
    refine hinv.update (fun g hlive => ?_) fun _ _ _ hg => hg
    cases hlive
    rcases job with request | ⟨⟩
    · exact ⟨hmix request rfl, .of_idle (.inl rfl)⟩
    · exact ⟨fun _ _ _ h => (nomatch h), fun _ _ _ h => (nomatch h), fun _ _ _ _ h => nomatch h⟩
  allowed := fun pid g o r s' hinv hlive hpre hexec => prepareAllowed (hinv pid g hlive) hpre hexec
  call := by
    intro log gs s pid g o r s' hinv hlive hpre hexec
    have hg := hinv pid g hlive
    by_cases hfile : ∃ fo, o = .file fo
    · obtain ⟨fo, rfl⟩ := hfile
      refine hinv.update (fun g' hg' => ?_) fun other g' hne hg' => ?_
      · cases hg'
        exact hg.own hplain hpre hexec
      · exact hg'.other hplain hne hg hpre hexec
    · have hnot : ∀ fo, o ≠ .file fo := fun fo heq => hfile ⟨fo, heq⟩
      cases cacheExec_of_not_file hexec hnot
      refine hinv.update (fun g' hg' => ?_) fun other g' hne hg' => hg'
      cases hg'
      exact hg.next_of_not_file hpre hnot
  finish := fun _ _ _ hinv _ _ => AllSound.exit hinv
  kill := by
    intro log gs s pid g s' hinv hlive hkill
    cases hkill
    exact AllSound.exit hinv

end

end SemanticSidecar
