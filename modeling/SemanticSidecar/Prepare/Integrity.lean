import SemanticSidecar.Prepare.History

/-!
# What is at a final path

An acquisition that holds a model's cache lock is the only one that touches the model's final
path, so what it has found out there stays true until it changes it itself (`Informed`).  From that
follows what a final path goes through: a file appears there only by the renaming of a complete
partial file with the right digest, goes only if it had the wrong one, and is never written to.

`finalStep_of_pre` says so of one call, for models whose final names are unique and plain.

The proof goes by the protocol of `Prepare/Standing`.  A call to a final path is permitted only
under the lock of its model, and a process that removes or renames there knows what is there, by
`Acquiring.Informed`.  Everybody else's calls leave the final path alone: no other model has the
same final name, a cleanup removes nothing but partial files, and what is written is written to
partial files.

`SameFile` is what "leave alone" means.  The name is the same file's as before, and the file has the
same bytes.
-/

set_option autoImplicit false

namespace SemanticSidecar

open Machine (jobOf running EveryCall)

section

variable {sha256 : List UInt8 → List UInt8} {cacheDir : String} {mix : PrepareRequest → Bool}
  {cache : Files} {s s' : Files} {pid pid' : ℕ} {fo : FileOp} {r : fo.Ret} {a : Acquiring}

/-! ## What an acquisition knows -/

/-- What an `acquire` believes of the file at its final path is so, while it holds the lock. -/
structure Acquiring.Informed (s : Files) (pid : ℕ) (a : Acquiring) : Prop where
  /-- What it has read of a file is the beginning of the file at the final path. -/
  reading : a.Holds → ∀ h bytes, a.reading = some (h, bytes) → ∃ file, s.handles h = some file ∧
    file.owner = pid ∧ s.inodeAt a.request.fileName = some file.inode ∧
    bytes = (s.data file.inode).take file.position ∧
    file.position ≤ (s.data file.inode).length
  /-- If it found no file there is none. -/
  absent : a.Holds → a.known = .absent → s.inodeAt a.request.fileName = none
  /-- If it read a file to its end, these are the bytes of the file there. -/
  contents : a.Holds → ∀ bytes, a.known = .contents bytes →
    s.content a.request.fileName = some bytes

/-- The file under a name is as it was. -/
structure SameFile (s s' : Files) (name : String) : Prop where
  /-- The name is the same file's. -/
  inode : s'.inodeAt name = s.inodeAt name
  /-- The file has the same bytes. -/
  data : ∀ inode, s.inodeAt name = some inode → s'.data inode = s.data inode

theorem SameFile.refl (s : Files) (name : String) : SameFile s s name := ⟨rfl, fun _ _ => rfl⟩

theorem SameFile.content {name : String} (h : SameFile s s' name) :
    s'.content name = s.content name := by
  rw [Files.content, Files.content, h.inode]
  cases hinode : s.inodeAt name with
  | none => rfl
  | some inode => exact congrArg some (h.data inode hinode)

namespace Acquiring

theorem Informed.of_not_holds (h : ¬ a.Holds) : a.Informed s pid :=
  ⟨fun hholds => absurd hholds h, fun hholds => absurd hholds h, fun hholds => absurd hholds h⟩

/-- A partial file is not at a final path. -/
theorem fills_ne_final (hplain : PlainNames mix) {q : PrepareRequest} (hq : mix q = true)
    {modelId : String} {w : Writing} {file : OpenFile} (hfills : Fills s pid modelId w file) :
    s.inodeAt q.fileName ≠ some file.inode := by
  intro hinode
  have hpart := hfills.isPartialName
  rw [← hfills.name _ hinode, hplain.isPartial q hq] at hpart
  exact nomatch hpart

/-- Only the process that holds the lock of a model owns the model's final name. -/
theorem final_owner (hunique : UniqueNames mix) (hplain : PlainNames mix)
    (hmix : mix a.request = true) (ha : a.Sound s pid) (hholds : a.Holds) {a' : Acquiring}
    (hmix' : mix a'.request = true) (ha' : a'.Sound s pid') (hholds' : a'.Holds)
    (howns : a'.Owns a.request.fileName) : pid = pid' := by
  rcases howns with hname | ⟨random, hname, -⟩
  · have hmodel := hunique.model _ _ hmix hmix' hname
    obtain ⟨lock, hlock⟩ := ha.lockedUnder hholds
    obtain ⟨lock', hlock'⟩ := ha'.lockedUnder hholds'
    rw [← hmodel] at hlock'
    exact hlock.exclusive hlock'
  · have hpart := hplain.isPartial _ hmix
    rw [hname, isPartialName_partialName] at hpart
    exact nomatch hpart

end Acquiring

/-- Nobody writes to the file at a final path. -/
theorem data_of_final (hplain : PlainNames mix) {g : Standing} (hg : g.Sound mix s pid)
    (hpre : (prepareProtocol sha256).pre g (.file fo)) (hexec : s.exec pid fo r = some s')
    {q : PrepareRequest} (hq : mix q = true) {inode : ℕ}
    (hinode : s.inodeAt q.fileName = some inode) : s'.data inode = s.data inode := by
  refine Files.exec_data hexec (Files.inodeAt_lt hinode) fun h bytes file hop hfile _ heq => ?_
  subst hop
  rcases g with a | c
  · obtain ⟨hholds, -, w, htemp, rfl⟩ := hpre
    obtain ⟨file', hfills⟩ := hg.2.temp hholds w htemp
    cases hfills.handle.symm.trans hfile
    exact Acquiring.fills_ne_final hplain hq hfills (heq ▸ hinode)
  · exact hpre.elim

/-- A call that does not remove or rename the file at a final path, or one to it, leaves it. -/
theorem sameFile_of_untouched (hplain : PlainNames mix) {g : Standing} (hg : g.Sound mix s pid)
    (hpre : (prepareProtocol sha256).pre g (.file fo)) (hexec : s.exec pid fo r = some s')
    {q : PrepareRequest} (hq : mix q = true) (hremove : fo ≠ .remove q.fileName)
    (htarget : ∀ source, fo ≠ .rename source q.fileName) : SameFile s s' q.fileName := by
  have hnotPartial : ∀ {name}, isPartialName name = true → name ≠ q.fileName := by
    rintro _ hpart rfl
    exact nomatch (hplain.isPartial q hq).symm.trans hpart
  refine ⟨Files.exec_inodeAt hexec (fun _ hnames => ?_) hremove (fun target hop => ?_) htarget,
    fun inode hinode => data_of_final hplain hg hpre hexec hq hinode⟩
  · rcases g with a | c
    · rcases hnames with rfl | ⟨before, after, random, rfl, hname, -⟩
      · exact hplain.lock q a.request hq hg.1 hpre.1
      · obtain ⟨rfl, rfl, -⟩ := hpre
        exact hnotPartial (isPartialName_partialName a.request.modelId random) hname.symm
    · rcases hnames with rfl | ⟨_, _, _, rfl, -, -⟩
      · exact hpre.elim
      · exact hpre.elim
  · subst hop
    rcases g with a | c
    · obtain ⟨-, hholds, -, w, htemp, hsource, -⟩ := hpre
      obtain ⟨file, hfills⟩ := hg.2.temp hholds w htemp
      exact hnotPartial hfills.isPartialName hsource.symm
    · exact hpre.elim

namespace Acquiring

/-- Another process leaves the final path alone. -/
theorem sameFile_other (hunique : UniqueNames mix) (hplain : PlainNames mix)
    (hmix : mix a.request = true) (ha : a.Sound s pid) (hholds : a.Holds) (hne : pid ≠ pid')
    {g : Standing} (hg : g.Sound mix s pid') (hpre : (prepareProtocol sha256).pre g (.file fo))
    (hexec : s.exec pid' fo r = some s') : SameFile s s' a.request.fileName := by
  refine sameFile_of_untouched hplain hg hpre hexec hmix ?_ ?_
  · rintro rfl
    rcases g with a' | c
    · obtain ⟨hholds', howns⟩ := removes_own hg.2 hpre
      exact hne (final_owner hunique hplain hmix ha hholds hg.1 hg.2 hholds' howns)
    · exact nomatch (hplain.isPartial _ hmix).symm.trans hpre.2.2.2.1
  · rintro source rfl
    rcases g with a' | c
    · obtain ⟨hholds', -, htarget⟩ := renames_own hg.2 hpre
      exact hne (final_owner hunique hplain hmix ha hholds hg.1 hg.2 hholds' (.inl htarget))
    · exact hpre.elim

theorem Informed.other (hunique : UniqueNames mix) (hplain : PlainNames mix)
    (h : a.Informed s pid) (hmix : mix a.request = true) (ha : a.Sound s pid) (hne : pid ≠ pid')
    {g : Standing} (hg : g.Sound mix s pid') (hpre : (prepareProtocol sha256).pre g (.file fo))
    (hexec : s.exec pid' fo r = some s') : a.Informed s' pid := by
  have hsame : a.Holds → SameFile s s' a.request.fileName := fun hholds =>
    sameFile_other hunique hplain hmix ha hholds hne hg hpre hexec
  refine ⟨fun hholds h' bytes hreading => ?_, fun hholds habsent => ?_,
    fun hholds bytes hknown => ?_⟩
  · obtain ⟨file, hfile, rfl, hinode, hbytes, hle⟩ := h.reading hholds h' bytes hreading
    have hdata := (hsame hholds).data _ hinode
    refine ⟨file, Files.exec_handles hexec hfile hne, rfl, ?_, ?_, ?_⟩
    · rw [(hsame hholds).inode]
      exact hinode
    · rw [hdata]
      exact hbytes
    · rw [hdata]
      exact hle
  · rw [(hsame hholds).inode]
    exact h.absent hholds habsent
  · rw [(hsame hholds).content]
    exact h.contents hholds bytes hknown

theorem Informed.exit (h : a.Informed s pid) (hne : pid ≠ pid') :
    a.Informed (s.exit pid') pid := by
  refine ⟨fun hholds h' bytes hreading => ?_, h.absent, h.contents⟩
  obtain ⟨file, hfile, rfl, hrest⟩ := h.reading hholds h' bytes hreading
  exact ⟨file, Files.exit_handles hfile hne, rfl, hrest⟩

/-- What is known stays so while the file stays, and nothing is being read. -/
theorem Informed.same (h : a.Informed s pid) (hsame : SameFile s s' a.request.fileName)
    {a' : Acquiring} (hrequest : a'.request = a.request) (hholds : a'.Holds → a.Holds)
    (hknown : a'.known = a.known) (hreading : a'.reading = none) : a'.Informed s' pid := by
  refine ⟨fun _ h' bytes hr => (nomatch hreading.symm.trans hr), fun hh habsent => ?_,
    fun hh bytes hcontents => ?_⟩
  · rw [hrequest, hsame.inode]
    exact h.absent (hholds hh) (hknown.symm.trans habsent)
  · rw [hrequest, hsame.content]
    exact h.contents (hholds hh) bytes (hknown.symm.trans hcontents)

/-- What is not about files changes nothing that is known of them. -/
theorem Informed.next_of_not_file (h : a.Informed s pid) {o : PrepareOp} {r : o.Ret}
    (hfile : ∀ fo, o ≠ .file fo) : (a.next o r).Informed s pid := by
  obtain ⟨hlock, -, hreading, hknown⟩ := a.next_of_not_file r hfile
  have hholds : (a.next o r).Holds → a.Holds := by
    rintro ⟨lock, hheld⟩
    exact ⟨lock, hlock.symm.trans hheld⟩
  refine ⟨fun hh => ?_, fun hh => ?_, fun hh => ?_⟩
  · rw [hreading, a.next_request]
    exact h.reading (hholds hh)
  · rw [hknown, a.next_request]
    exact h.absent (hholds hh)
  · rw [hknown, a.next_request]
    exact h.contents (hholds hh)

/-- Nothing is believed about the file that is looked up. -/
theorem Informed.of_nothing {a' : Acquiring} (hreading : a'.reading = none)
    (habsent : a'.known = .absent → s.inodeAt a'.request.fileName = none)
    (hcontents : ∀ bytes, a'.known ≠ .contents bytes) : a'.Informed s pid :=
  ⟨fun _ _ _ hr => (nomatch hreading.symm.trans hr), fun _ => habsent,
    fun _ bytes hknown => absurd hknown (hcontents bytes)⟩

/-- Reading on. -/
theorem Informed.reads (h : a.Informed s pid) (hholds : a.Holds) {handle : Handle} {limit : ℕ}
    {bytes chunk : List UInt8} (hreading : a.reading = some (handle, bytes))
    (hexec : s.readFrom pid handle limit chunk = some s') :
    (a.hasRead handle chunk).Informed s' pid := by
  obtain ⟨file, hfile, howner, hinode, hbytes, hle⟩ := h.reading hholds handle bytes hreading
  obtain ⟨file', hlt, hfile', -, hreads, rfl⟩ := Files.readFrom_eq_some hexec
  cases hfile.symm.trans hfile'
  rw [Files.Reads, Bool.and_eq_true, Bool.and_eq_true, List.isPrefixOf_iff_prefix] at hreads
  obtain ⟨⟨hpre, -⟩, hend⟩ := hreads
  rw [hasRead, hreading]
  dsimp only
  split
  · rename_i hempty
    have hnil : chunk = [] := List.isEmpty_iff.mp hempty
    subst hnil
    have hall : (s.data file.inode).drop file.position = [] := by simpa using hend
    have hlen : (s.data file.inode).length ≤ file.position := List.drop_eq_nil_iff.mp hall
    refine ⟨fun _ h' bytes' hr => ?_, fun _ habsent => (by cases habsent),
      fun _ bytes' hknown => ?_⟩
    · cases hr
      exact ⟨_, Files.handles_setHandle_self, howner, hinode, hbytes, hle⟩
    · cases hknown
      rw [hbytes, List.take_of_length_le hlen]
      exact Files.content_eq_some.mpr ⟨file.inode, hinode, rfl⟩
  · refine ⟨fun _ h' bytes' hr => ?_, h.absent, h.contents⟩
    cases hr
    obtain ⟨rest, hrest⟩ := hpre
    have hlen : file.position + chunk.length ≤ (s.data file.inode).length := by
      have hdrop := congrArg List.length hrest
      rw [List.length_append, List.length_drop] at hdrop
      omega
    refine ⟨_, Files.handles_setHandle_self, howner, hinode, ?_, hlen⟩
    show bytes ++ chunk = (s.data file.inode).take (file.position + chunk.length)
    rw [List.take_add, ← hbytes, ← hrest, List.take_left]

theorem Informed.own (hplain : PlainNames mix)
    (h : a.Informed s pid) (hmix : mix a.request = true) (ha : a.Sound s pid)
    (hpre : a.pre sha256 (.file fo)) (hexec : s.exec pid fo r = some s') :
    (a.next (.file fo) r).Informed s' pid := by
  have hg : Standing.Sound mix s pid (.acquiring a) := ⟨hmix, ha⟩
  have hpermitted : (prepareProtocol sha256).pre (.acquiring a) (.file fo) := hpre
  have hsame : fo ≠ .remove a.request.fileName → (∀ source, fo ≠ .rename source a.request.fileName) →
      SameFile s s' a.request.fileName :=
    sameFile_of_untouched hplain hg hpermitted hexec hmix
  cases fo with
  | openReadWrite | readDir | nextEntry => exact hpre.elim
  | createDirAll | flush =>
    rcases r with err | ⟨⟩
    all_goals
      cases hexec
      exact h
  | availableSpace =>
    rcases r with err | space
    all_goals
      cases hexec
      exact h
  | openOrCreate name =>
    refine .of_not_holds ?_
    rintro ⟨lock, hlock⟩
    rcases r with err | h'
    · cases hpre.2.symm.trans hlock
    · cases hlock
  | tryLock h' | lock h' =>
    obtain ⟨hlock, hreading, hknown, -⟩ := hpre
    rcases r with err | ⟨⟩
    · cases hexec
      exact h
    · exact .of_nothing hreading (fun habsent => by cases hknown.symm.trans habsent)
        (fun bytes hcontents => by cases hknown.symm.trans hcontents)
  | unlock h' =>
    refine .of_not_holds ?_
    rintro ⟨lock, hlock⟩
    rcases r with err | ⟨⟩
    · cases hlock
    · cases hlock
  | close h' =>
    have hholds : (a.closed h').Holds → a.Holds := by
      rintro ⟨lock, hlock⟩
      change (if a.lock = .opened h' then LockStage.unopened else a.lock) = _ at hlock
      split at hlock
      · cases hlock
      · exact ⟨lock, hlock⟩
    obtain ⟨closed, -, rfl⟩ := Option.map_eq_some_iff.mp hexec
    refine ⟨fun hh other bytes hr => ?_, fun hh => h.absent (hholds hh),
      fun hh => h.contents (hholds hh)⟩
    obtain ⟨hr, hne⟩ := Option.filter_eq_some_iff.mp hr
    obtain ⟨file, hfile, howner, hrest⟩ := h.reading (hholds hh) other bytes hr
    refine ⟨file, ?_, howner, hrest⟩
    show (s.handles other).filter _ = some file
    rw [hfile]
    simpa using hne
  | pathExists name =>
    obtain ⟨rfl, hholds, hknown, hreading, -⟩ := hpre
    rcases r with err | there
    · cases hexec
      exact .of_nothing hreading (fun habsent => by cases habsent) (fun bytes hc => by cases hc)
    · change (if there = (s.inodeAt a.request.fileName).isSome then some s else none) = _ at hexec
      split at hexec
      · rename_i hthere
        cases hexec
        rcases there with _ | _
        · refine .of_nothing hreading (fun _ => ?_) (fun bytes hc => by cases hc)
          exact Option.isSome_eq_false_iff.mp hthere.symm |> Option.isNone_iff_eq_none.mp
        · exact h
      · cases hexec
  | openRead name =>
    obtain ⟨rfl, hholds, hknown, hreading, -⟩ := hpre
    rcases r with err | h'
    · cases hexec
      exact .of_nothing hreading (fun habsent => by cases habsent) (fun bytes hc => by cases hc)
    · obtain ⟨inode, hlt, hinode, -, rfl⟩ := Files.openAt_eq_some hexec
      refine ⟨fun _ other bytes hr => ?_, fun _ habsent => (by cases hknown.symm.trans habsent),
        fun _ bytes hc => by cases hknown.symm.trans hc⟩
      cases hr
      exact ⟨_, Files.handles_setHandle_self, rfl, hinode, rfl, Nat.zero_le _⟩
  | read h' limit =>
    obtain ⟨hholds, -, bytes, hreading⟩ := hpre
    rcases r with err | chunk
    · cases hexec
      exact ⟨h.reading, fun _ habsent => (by cases habsent), fun _ bytes hc => by cases hc⟩
    · exact h.reads hholds hreading hexec
  | remove name =>
    obtain ⟨hholds, hreading, hname⟩ := hpre
    rcases r with err | ⟨⟩
    · cases hexec
      exact h.same (SameFile.refl s _) rfl id rfl hreading
    · show (if a.temp.isSome then a.attempted else { a with known := .absent }).Informed s' pid
      cases htemp : a.temp with
      | none =>
        rw [htemp] at hname
        obtain ⟨rfl, -⟩ := hname
        refine .of_nothing hreading (fun _ => ?_) (fun bytes hc => by cases hc)
        change (if (s.inodeAt a.request.fileName).isSome then
          some (s.remove a.request.fileName) else none) = _ at hexec
        split at hexec
        · cases hexec
          exact (Files.inodeAt_remove _ _).trans (if_pos rfl)
        · cases hexec
      | some w =>
        rw [htemp] at hname
        obtain ⟨file, hfills⟩ := ha.temp hholds w htemp
        have hpart := hfills.isPartialName
        refine h.same (hsame ?_ fun _ hop => by cases hop) rfl id rfl hreading
        intro hop
        cases hop
        rw [← hname, hplain.isPartial _ hmix] at hpart
        cases hpart
  | createTemp before after =>
    obtain ⟨-, -, -, hreading, -⟩ := hpre
    rcases r with err | ⟨random, h'⟩
    · cases hexec
      exact h
    · exact h.same (hsame (fun hop => by cases hop) fun _ hop => by cases hop) rfl id rfl hreading
  | write h' bytes =>
    obtain ⟨-, hreading, -⟩ := hpre
    rcases r with err | ⟨⟩
    all_goals
      exact h.same (hsame (fun hop => by cases hop) fun _ hop => by cases hop) rfl id rfl hreading
  | rename source target =>
    rcases r with err | ⟨⟩
    · cases hexec
      exact h
    · obtain ⟨rfl, hholds, hreading, w, htemp, rfl, hbytes, -⟩ := hpre
      refine ⟨fun _ _ _ hr => (by cases hreading.symm.trans hr), fun _ habsent => (by cases habsent),
        fun _ bytes hc => ?_⟩
      cases hc
      obtain ⟨file, hfills⟩ := ha.temp hholds w htemp
      obtain ⟨inode, hlt, hinode, rfl⟩ := Files.move_eq_some hexec
      have heq : inode = file.inode := by
        rcases hfills.there with hnone | hthere
        · cases hnone.symm.trans hinode
        · exact Option.some.inj (hinode.symm.trans hthere)
      refine Files.content_eq_some.mpr ⟨inode, (Files.inodeAt_link _ _ _).trans (if_pos rfl), ?_⟩
      show s.data inode = a.received
      rw [heq, hfills.data, hbytes]

end Acquiring

/-! ## What a call does to a final path -/

/-- What a process believes of its final path. -/
def Standing.Informed (s : Files) (pid : ℕ) : Standing → Prop
  | .acquiring a => a.Informed s pid
  | .cleaning _ => True

/-- What a call does to the final path of a model: nothing, or it removes a file that is wrong, or
it renames a partial file to it that has all that was received and is right. -/
inductive FinalStep (sha256 : List UInt8 → List UInt8) (q : PrepareRequest)
    (received : List UInt8) (s s' : Files) : PrepareOp → Prop
  /-- Nothing happens to it. -/
  | same {o : PrepareOp} (hsame : SameFile s s' q.fileName) : FinalStep sha256 q received s s' o
  /-- A file that is wrong is removed. -/
  | removed {bytes : List UInt8} (hwas : s.content q.fileName = some bytes)
    (hwrong : verifies sha256 q bytes = false) (hgone : s'.content q.fileName = none) :
    FinalStep sha256 q received s s' (.file (.remove q.fileName))
  /-- A partial file that is complete and right is renamed to it. -/
  | renamed {source : String} (hpart : isPartialName source = true)
    (hcomplete : s.content source = some received) (hright : verifies sha256 q received = true)
    (hplaced : s'.content q.fileName = some received) :
    FinalStep sha256 q received s s' (.file (.rename source q.fileName))

/-- Requests for one final path pin one digest. -/
theorem verifies_eq (hunique : UniqueNames mix) {q q' : PrepareRequest} (hq : mix q = true)
    (hq' : mix q' = true) (hname : q.fileName = q'.fileName) (bytes : List UInt8) :
    verifies sha256 q bytes = verifies sha256 q' bytes := by
  have hmodel := hunique.model q q' hq hq' hname
  rw [verifies, verifies, hunique.sha256 q q' hq hq' hmodel]

/-- **What a permitted call does to a final path.** -/
theorem finalStep_of_pre (hunique : UniqueNames mix) (hplain : PlainNames mix) {g : Standing}
    (hg : g.Sound mix s pid) (hinformed : g.Informed s pid) {received : List UInt8}
    (hreceived : ∀ a, g = .acquiring a → a.received = received)
    (hpre : (prepareProtocol sha256).pre g (.file fo)) (hexec : s.exec pid fo r = some s')
    {q : PrepareRequest} (hq : mix q = true) : FinalStep sha256 q received s s' (.file fo) := by
  by_cases hremove : fo = .remove q.fileName
  · subst hremove
    rcases r with err | ⟨⟩
    · cases hexec
      exact .same (.refl s _)
    · change (if (s.inodeAt q.fileName).isSome then some (s.remove q.fileName) else none) = _
        at hexec
      split at hexec
      · cases hexec
        rcases g with a | c
        · obtain ⟨hholds, -, hname⟩ := hpre
          cases htemp : a.temp with
          | none =>
            rw [htemp] at hname
            obtain ⟨hname, bytes, hknown, hwrong⟩ := hname
            have hwas := hinformed.contents hholds bytes hknown
            rw [← hname] at hwas
            refine .removed hwas ?_ ?_
            · rw [verifies_eq hunique hq hg.1 hname]
              exact hwrong
            · rw [Files.content, Files.inodeAt_remove, if_pos rfl]
              rfl
          | some w =>
            rw [htemp] at hname
            obtain ⟨file, hfills⟩ := hg.2.temp hholds w htemp
            have hpart := hfills.isPartialName
            rw [← hname, hplain.isPartial q hq] at hpart
            cases hpart
        · cases (hplain.isPartial q hq).symm.trans hpre.2.2.2.1
      · cases hexec
  · by_cases hrename : ∃ source, fo = .rename source q.fileName
    · obtain ⟨source, rfl⟩ := hrename
      rcases r with err | ⟨⟩
      · cases hexec
        exact .same (.refl s _)
      · rcases g with a | c
        · obtain ⟨hname, hholds, -, w, htemp, rfl, hbytes, hright⟩ := hpre
          obtain ⟨file, hfills⟩ := hg.2.temp hholds w htemp
          obtain ⟨inode, hlt, hinode, rfl⟩ := Files.move_eq_some hexec
          have hfile : s.data inode = received := by
            rcases hfills.there with hnone | hthere
            · cases hnone.symm.trans hinode
            · rw [Option.some.inj (hinode.symm.trans hthere), hfills.data, hbytes]
              exact hreceived a rfl
          refine .renamed hfills.isPartialName (Files.content_eq_some.mpr ⟨inode, hinode, hfile⟩)
            ?_ (Files.content_eq_some.mpr ⟨inode, (Files.inodeAt_link _ _ _).trans (if_pos rfl),
              hfile⟩)
          rw [verifies_eq hunique hq hg.1 hname, ← hreceived a rfl]
          exact hright
        · exact hpre.elim
    · exact .same (sameFile_of_untouched hplain hg hpre hexec hq hremove
        fun source hop => hrename ⟨source, hop⟩)

end

end SemanticSidecar
