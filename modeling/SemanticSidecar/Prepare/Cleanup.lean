import SemanticSidecar.Prepare.History

/-!
# Cleanup and live downloads

A cleanup is meant to leave the partial file of a running acquisition alone: it deletes a model's
partials only when it can take the model's cache lock itself.  But the locks it tries are those its
scan has listed, and a lock that is made while the scan runs may be missed where the partial is
not.

`cleanup_sparesLive` says that this is all that goes wrong: where every partial that is removed had
its model's lock listed, and a dropped partial could be removed, no cleanup unlinks a file whose
maker is at work.  `cleanup_unlinks_live` is a first acquisition that a scan catches half way.

The condition is one on a step of a run: at the moment a partial file is removed, the scan of that
cleanup has listed the lock of its model.  Where the lock was listed it was tried, and the maker,
who is at work, holds it; so it was refused, and the partial file is spared.  The other half of the
condition is about partial files that could not be dropped.  They are still there when their maker
has gone on without them and given up the lock, and a cleanup that removes one takes it from a maker
that is running.

`cleanup_sparesLive_stalePartial` is a run in which a partial file left behind is removed while an
acquisition of another model is at work.
-/

set_option autoImplicit false

namespace SemanticSidecar

open Machine (jobOf running EveryCall)

section

variable {sha256 : List UInt8 → List UInt8} {cacheDir : String} {mix : PrepareRequest → Bool}
  {cache : Files}

/-- A cleanup that unlinks a file unlinks none whose maker is still running. -/
def SparesLive (log : CacheLog sha256 cacheDir mix cache) (pid : ℕ) (before : Files)
    (o : PrepareOp) (r : o.Ret) : Prop :=
  match o, r with
  | .file (.remove name), .ok () => jobOf pid log = some .clean →
    ∀ inode, before.inodeAt name = some inode → ∀ maker, MadePartial log maker inode →
      running maker log = false
  | _, _ => True

/-- Where a cleanup removes a partial, the scan has listed the cache lock of its model, if there is
one; and an acquisition that drops its partial can remove it. -/
def ProbesLocks (mix : PrepareRequest → Bool) (log : CacheLog sha256 cacheDir mix cache)
    (pid : ℕ) (before : Files) (o : PrepareOp) (r : o.Ret) : Prop :=
  match o, r with
  | .file (.remove name), .ok () => jobOf pid log = some .clean →
    ∀ q random, mix q = true → name = partialName q.modelId random → '.' ∉ random.toList →
      before.inodeAt (lockName q.modelId) ≠ none → Listed log pid (lockName q.modelId)
  | .file (.remove name), .error _ => jobOf pid log ≠ some .clean → isPartialName name = true →
    before.inodeAt name = none
  | _, _ => True

/-- What has become of a file an `acquire` has made: it is the partial file it is filling, or it
has no name but the final one. -/
def Acquiring.Accounts (s : Files) (pid : ℕ) (a : Acquiring) (inode : ℕ) : Prop :=
  inode < s.inodes ∧
    ((a.Holds ∧ ∃ w file, a.temp = some w ∧ Fills s pid a.request.modelId w file ∧
        file.inode = inode ∧ (w.dropped = true → s.inodeAt w.temp.name = none)) ∨
      ∀ name, s.inodeAt name = some inode → name = a.request.fileName)

variable {s s' : Files} {pid pid' inode : ℕ} {fo : FileOp} {r : fo.Ret} {a : Acquiring}

/-- What is renamed is a partial file. -/
theorem renames_partial {g : Standing} (hg : g.Sound mix s pid) {source target : String}
    (hpre : (prepareProtocol sha256).pre g (.file (.rename source target))) :
    isPartialName source = true := by
  rcases g with a | c
  · obtain ⟨-, hholds, -, w, htemp, hsource, -⟩ := hpre
    obtain ⟨file, hfills⟩ := hg.2.temp hholds w htemp
    rw [hsource]
    exact hfills.isPartialName
  · exact hpre.elim

/-- A file that has no name but a final one gets no other. -/
theorem named_final (hplain : PlainNames mix) (hmix : mix a.request = true) {g : Standing}
    (hg : g.Sound mix s pid) (hpre : (prepareProtocol sha256).pre g (.file fo))
    (hexec : s.exec pid fo r = some s') (hlt : inode < s.inodes)
    (hfinal : ∀ name, s.inodeAt name = some inode → name = a.request.fileName) :
    ∀ name, s'.inodeAt name = some inode → name = a.request.fileName := by
  intro name hname
  rcases Files.exec_named hexec hlt hname with hname | ⟨source, rfl, hsource⟩
  · exact hfinal name hname
  · have hpart := renames_partial hg hpre
    rw [hfinal source hsource, hplain.isPartial _ hmix] at hpart
    exact nomatch hpart

namespace Acquiring.Accounts

theorem other (hplain : PlainNames mix) (h : a.Accounts s pid inode)
    (hmix : mix a.request = true) (ha : a.Sound s pid) (hne : pid ≠ pid') {g : Standing}
    (hg : g.Sound mix s pid') (hpre : (prepareProtocol sha256).pre g (.file fo))
    (hexec : s.exec pid' fo r = some s') : a.Accounts s' pid inode := by
  obtain ⟨hlt, hcase⟩ := h
  refine ⟨lt_of_lt_of_le hlt (Files.exec_inodes hexec), ?_⟩
  rcases hcase with ⟨hholds, w, file, htemp, hfills, hinode, hdropped⟩ | hfinal
  · obtain ⟨file', hfills', hinode'⟩ := fills_other hplain ha hholds hfills hne hg hpre hexec
    refine .inl ⟨hholds, w, file', htemp, hfills', hinode'.trans hinode, fun hw => ?_⟩
    obtain ⟨hnames, hsource, htarget⟩ := names_ne_partial hplain ha hholds hfills hne hg hpre
    rcases hfills'.there with hnone | hthere
    · exact hnone
    · rw [hinode', hinode] at hthere
      rcases Files.exec_named hexec hlt hthere with hthere | ⟨source, hop, -⟩
      · rw [hdropped hw] at hthere
        cases hthere
      · exact absurd hop (htarget source)
  · exact .inr (named_final hplain hmix hg hpre hexec hlt hfinal)

theorem exit (h : a.Accounts s pid inode) (hne : pid ≠ pid') :
    a.Accounts (s.exit pid') pid inode := by
  obtain ⟨hlt, hcase⟩ := h
  refine ⟨hlt, ?_⟩
  rcases hcase with ⟨hholds, w, file, htemp, hfills, hinode, hdropped⟩ | hfinal
  · exact .inl ⟨hholds, w, file, htemp, hfills.exit hne, hinode, hdropped⟩
  · exact .inr hfinal

/-- The partial file is still being filled after a call that does not close it. -/
theorem still (hplain : PlainNames mix) (hmix : mix a.request = true) (ha : a.Sound s pid)
    (hpre : a.pre sha256 (.file fo)) (hexec : s.exec pid fo r = some s') {w w' : Writing}
    {file : OpenFile} (hlt : inode < s.inodes) (hfills : Fills s pid a.request.modelId w file)
    (hinode : file.inode = inode) (hclose : fo ≠ .close w.temp.file)
    (hholds : (a.next (.file fo) r).Holds) (htemp : (a.next (.file fo) r).temp = some w')
    (hw : w'.temp = w.temp) (hdropped : w'.dropped = true → s'.inodeAt w.temp.name = none) :
    (a.next (.file fo) r).Accounts s' pid inode := by
  obtain ⟨file', hfills'⟩ := (ha.own hplain hmix hpre hexec).temp hholds w' htemp
  obtain ⟨opened, hopened, -, hsame⟩ := Files.exec_open hexec hfills.handle hclose
  have heq : file' = opened := by
    have hhandle := hfills'.handle
    rw [hw, hopened] at hhandle
    exact (Option.some.inj hhandle).symm
  refine ⟨lt_of_lt_of_le hlt (Files.exec_inodes hexec), .inl ⟨hholds, w', file', htemp, hfills', ?_, ?_⟩⟩
  · rw [heq, hsame, hinode]
  · rw [hw]
    exact hdropped

theorem own (hplain : PlainNames mix) (h : a.Accounts s pid inode)
    (hmix : mix a.request = true) (ha : a.Sound s pid) (hpre : a.pre sha256 (.file fo))
    (hexec : s.exec pid fo r = some s') {log : CacheLog sha256 cacheDir mix cache}
    (hjob : jobOf pid log ≠ some .clean) (hcareful : ProbesLocks mix log pid s (.file fo) r) :
    (a.next (.file fo) r).Accounts s' pid inode := by
  obtain ⟨hlt, hcase⟩ := h
  have hlt' := lt_of_lt_of_le hlt (Files.exec_inodes hexec)
  rcases hcase with ⟨hholds, w, file, htemp, hfills, hinode, hdropped⟩ | hfinal
  · have hstill : ∀ {w' : Writing}, fo ≠ .close w.temp.file → (a.next (.file fo) r).Holds →
        (a.next (.file fo) r).temp = some w' → w'.temp = w.temp →
        (w'.dropped = true → s'.inodeAt w.temp.name = none) →
        (a.next (.file fo) r).Accounts s' pid inode := fun hclose =>
      still hplain hmix ha hpre hexec hlt hfills hinode hclose
    have hno : a.temp ≠ none := by
      rw [htemp]
      exact fun h => by cases h
    cases fo with
    | openReadWrite | readDir | nextEntry => exact hpre.elim
    | openOrCreate =>
      obtain ⟨lock, hlock⟩ := hholds
      cases hlock.symm.trans hpre.2
    | tryLock | lock => exact absurd hpre.2.2.2 hno
    | unlock => exact absurd hpre.2 hno
    | pathExists | openRead => exact absurd hpre.2.2.2.2 hno
    | read => exact absurd hpre.2.1 hno
    | createTemp => exact absurd hpre.2.2.2.2.2 hno
    | createDirAll | flush =>
      rcases r with err | ⟨⟩
      all_goals
        cases hexec
        exact hstill (fun h => by cases h) hholds htemp rfl hdropped
    | availableSpace =>
      rcases r with err | space
      all_goals
        cases hexec
        exact hstill (fun h => by cases h) hholds htemp rfl hdropped
    | write h bytes =>
      rcases r with err | ⟨⟩
      all_goals
        refine hstill (fun h => by cases h) hholds (congrArg (Option.map _) htemp) rfl fun hw => ?_
        obtain ⟨opened, -, rfl⟩ := Option.map_eq_some_iff.mp hexec
        exact hdropped hw
    | remove name =>
      have hname : name = w.temp.name := by
        have hname := hpre.2.2
        rw [htemp] at hname
        exact hname
      subst hname
      rcases r with err | ⟨⟩
      · refine hstill (fun h => by cases h) hholds (congrArg (Option.map _) htemp) rfl fun _ => ?_
        cases hexec
        exact hcareful hjob hfills.isPartialName
      · have hnext : a.next (.file (.remove w.temp.name)) (.ok ()) = a.attempted := by
          show (if a.temp.isSome then _ else _) = _
          rw [htemp]
          rfl
        have htemp' : (a.next (.file (.remove w.temp.name)) (.ok ())).temp =
            some { w with dropped := true } := by
          rw [hnext]
          exact congrArg (Option.map _) htemp
        refine hstill (fun h => by cases h) ?_ htemp' rfl fun _ => ?_
        · rw [hnext]
          exact hholds
        · change (if (s.inodeAt w.temp.name).isSome then some (s.remove w.temp.name) else none) = _
            at hexec
          split at hexec
          · cases hexec
            rw [Files.inodeAt_remove, if_pos rfl]
          · cases hexec
    | close h =>
      obtain ⟨opened, -, rfl⟩ := Option.map_eq_some_iff.mp hexec
      by_cases hh : w.temp.file = h
      · refine ⟨hlt', .inr fun name hname => ?_⟩
        have hnone := hdropped (hpre.2 w htemp hh)
        rw [← hfills.name name (hinode ▸ hname)] at hnone
        cases hnone.symm.trans hname
      · have hlock : (a.closed h).Holds := by
          obtain ⟨lock, hlock⟩ := hholds
          refine ⟨lock, ?_⟩
          show (if a.lock = .opened h then _ else a.lock) = _
          rw [hlock]
          exact if_neg fun h => by cases h
        refine hstill (fun hop => hh ?_) hlock ?_ rfl hdropped
        · cases hop
          rfl
        · show a.temp.filter _ = some w
          rw [htemp]
          simp [hh]
    | rename source target =>
      rcases r with err | ⟨⟩
      · cases hexec
        exact hstill (fun h => by cases h) hholds htemp rfl hdropped
      · obtain ⟨htarget, -, -, w', htemp', hsource, -⟩ := hpre
        cases htemp.symm.trans htemp'
        obtain ⟨moved, hmoved, hmovedInode, rfl⟩ := Files.move_eq_some hexec
        refine ⟨hlt', .inr fun name hname => ?_⟩
        rw [Files.inodeAt_link] at hname
        split at hname
        · rename_i hname'
          exact hname'.trans htarget
        · rw [Files.inodeAt_remove] at hname
          split at hname
          · cases hname
          · rename_i hne
            exact absurd ((hfills.name name (hinode ▸ hname)).trans hsource.symm) hne
  · refine ⟨hlt', .inr fun name hname => ?_⟩
    rw [Acquiring.next_request]
    exact named_final (g := .acquiring a) hplain hmix ⟨hmix, ha⟩ hpre hexec hlt hfinal name hname

/-- What has just been made is accounted for. -/
theorem made (hplain : PlainNames mix) (hmix : mix a.request = true) (ha : a.Sound s pid)
    {start suffix random : String} {h : Handle}
    (hpre : a.pre sha256 (.file (.createTemp start suffix)))
    (hexec : s.exec pid (.createTemp start suffix) (.ok (random, h)) = some s')
    (hinode : s'.inodeAt (Files.tempName start random suffix) = some inode) :
    (a.next (.file (.createTemp start suffix)) (.ok (random, h))).Accounts s' pid inode := by
  have hholds : (a.next (.file (.createTemp start suffix)) (.ok (random, h))).Holds := hpre.2.2.1
  obtain ⟨file, hfills⟩ := (ha.own hplain hmix hpre hexec).temp hholds _ rfl
  refine ⟨Files.inodeAt_lt hinode, .inl ⟨hholds, _, file, rfl, hfills, ?_, fun hw => by cases hw⟩⟩
  rcases hfills.there with hnone | hthere
  · cases hnone.symm.trans hinode
  · exact Option.some.inj (hthere.symm.trans hinode)

end Acquiring.Accounts

/-- Every running `acquire` accounts for what it has made. -/
def AllAccounted (log : CacheLog sha256 cacheDir mix cache) (gs : ℕ → Machine.Stage Standing)
    (s : Files) : Prop :=
  ∀ pid a, gs pid = .live (.acquiring a) → ∀ inode, MadePartial log pid inode →
    a.Accounts s pid inode

/-- **A cleanup that has tried the lock of a partial's model does not unlink it from under a
running `acquire`.** -/
theorem sparesLive_of_accounted (hplain : PlainNames mix)
    {log : CacheLog sha256 cacheDir mix cache} {gs : ℕ → Machine.Stage Standing}
    (hsound : AllSound mix gs s) (hchronicle : Machine.Outline.Chronicle log gs)
    (hrecorded : AllRecorded log gs) (haccounted : AllAccounted log gs s) {g : Standing}
    (hlive : gs pid = .live g) {o : PrepareOp} {r : o.Ret}
    (hpre : (prepareProtocol sha256).pre g o) (hcareful : ProbesLocks mix log pid s o r) :
    SparesLive log pid s o r := by
  unfold SparesLive
  split
  · rename_i name
    intro hjob inode hinode maker hmade
    rw [← Bool.not_eq_true]
    intro hrunning
    obtain ⟨g', hlive'⟩ := (hchronicle.running maker).mp hrunning
    have hrecord : g.Recorded log pid := hrecorded pid g (by rw [hlive]; rfl)
    have hrecord' : g'.Recorded log maker := hrecorded maker g' (by rw [hlive']; rfl)
    rcases g with a | c
    · exact nomatch hrecord.1.symm.trans hjob
    rcases g' with a | c'
    swap
    · exact hrecord'.2.2 inode hmade
    obtain ⟨-, hreleasing, -, hpart, htried, hcondemns⟩ := hpre
    obtain ⟨hmix, ha⟩ := hsound maker _ hlive'
    rcases (haccounted maker a hlive' inode hmade).2 with
      ⟨hholds, w, file, htemp, hfills, rfl, -⟩ | hfinal
    · obtain ⟨random, hname, hdot⟩ := hfills.partialName
      rw [← hfills.name name hinode] at hname
      obtain ⟨lock, hlock⟩ := ha.lockedUnder hholds
      have hlisted := hcareful hjob a.request random hmix hname hdot (by
        obtain ⟨_, _, _, hthere, _⟩ := hlock
        rw [hthere]
        exact fun h => nomatch h)
      obtain ⟨outcome, hmem⟩ := htried _ (hrecord.2.1 _ hlisted) (isLockName_lockName _)
      rcases outcome with _ | h
      · -- The lock could not be taken, and stands against the removal.
        obtain ⟨modelId, hmodel, hne⟩ := hcondemns _ hmem
        rw [hname, modelOfPartial_partialName _ hdot] at hmodel
        split at hmodel
        · rename_i hnonempty
          rw [fileStem_lockName hnonempty.1] at hne
          exact hne (Option.some.inj hmodel).symm
        · exact nomatch hmodel
      · -- The cleanup has the lock, and so has the maker.
        have hcleaner := (hsound pid _ hlive).held hreleasing a.request h hmix hmem
        rw [hcleaner.exclusive hlock, hlive'] at hlive
        exact nomatch hlive
    · rw [hfinal name hinode, hplain.isPartial _ hmix] at hpart
      exact nomatch hpart
  · trivial

theorem AllAccounted.called (hplain : PlainNames mix)
    {log : CacheLog sha256 cacheDir mix cache} {gs : ℕ → Machine.Stage Standing}
    (h : AllAccounted log gs s) (hsound : AllSound mix gs s) (hrecorded : AllRecorded log gs)
    {g : Standing} (hlive : gs pid = .live g) {o : PrepareOp} {r : o.Ret}
    (hpre : (prepareProtocol sha256).pre g o)
    (hexec : (cacheMachine sha256 cacheDir mix cache).exec pid s o r = some s')
    (hcareful : ProbesLocks mix log pid s o r) :
    AllAccounted (.called pid s o r :: log)
      (Function.update gs pid (.live ((prepareProtocol sha256).next g o r))) s' := by
  intro other a ha inode hmade
  have hg := hsound pid g hlive
  by_cases hother : other = pid
  · subst hother
    rw [Function.update_self] at ha
    rcases g with a₀ | c
    swap
    · exact nomatch ha
    cases ha
    have hrecord : (Standing.acquiring a₀).Recorded log other :=
      hrecorded other _ (by rw [hlive]; rfl)
    have hjob : jobOf other log ≠ some .clean := by
      rw [hrecord.1]
      exact fun h => nomatch h
    obtain ⟨before, start, suffix, random, h', after, hmem, hmake, hinode⟩ := hmade
    rcases List.mem_cons.mp hmem with heq | hmem
    · cases heq
      cases hexec.symm.trans hmake
      have hpre : a₀.pre sha256 (.file (.createTemp start suffix)) := hpre
      exact Acquiring.Accounts.made hplain hg.1 hg.2 hpre hexec hinode
    · have hold := h other a₀ hlive inode ⟨before, start, suffix, random, h', after, hmem, hmake, hinode⟩
      by_cases hfile : ∃ fo, o = .file fo
      · obtain ⟨fo, rfl⟩ := hfile
        exact hold.own hplain hg.1 hg.2 hpre hexec hjob hcareful
      · have hnot : ∀ fo, o ≠ .file fo := fun fo heq => hfile ⟨fo, heq⟩
        cases cacheExec_of_not_file hexec hnot
        obtain ⟨hlock, htemp, -, -⟩ := a₀.next_of_not_file r hnot
        show (a₀.next o r).Accounts s other inode
        rw [Acquiring.Accounts, Acquiring.Holds, Acquiring.next_request, hlock, htemp]
        exact hold
  · rw [Function.update_of_ne hother] at ha
    have hold := h other a ha inode (madePartial_other (Ne.symm hother) hmade)
    by_cases hfile : ∃ fo, o = .file fo
    · obtain ⟨fo, rfl⟩ := hfile
      obtain ⟨hmix, hself⟩ := hsound other _ ha
      exact hold.other hplain hmix hself hother hg hpre hexec
    · cases cacheExec_of_not_file hexec fun fo heq => hfile ⟨fo, heq⟩
      exact hold

theorem AllAccounted.left {log : CacheLog sha256 cacheDir mix cache}
    {gs : ℕ → Machine.Stage Standing} (h : AllAccounted log gs s)
    {e : (cacheMachine sha256 cacheDir mix cache).Event} (hactor : e.actor = pid) {g : Standing} :
    AllAccounted (e :: log) (Function.update gs pid (.gone g)) (s.exit pid) := by
  intro other a ha inode hmade
  by_cases hother : other = pid
  · rw [hother, Function.update_self] at ha
    exact nomatch ha
  · rw [Function.update_of_ne hother] at ha
    have hne : e.actor ≠ other := by
      rw [hactor]
      exact Ne.symm hother
    exact (h other a ha inode (madePartial_other hne hmade)).exit hother

/-- Where locks are probed, makers account for what they make and cleanups spare them. -/
theorem cleanup_keeps (hplain : PlainNames mix) :
    (historyOutline sha256 cacheDir mix cache).Keeps fun log gs s =>
      EveryCall (ProbesLocks mix) log → AllAccounted log gs s ∧ EveryCall SparesLive log where
  init := fun _ => ⟨fun _ _ h => (nomatch h), trivial⟩
  start := by
    intro log gs s pid job s' hinv hkeeps hunborn hstart hcareful
    have hs : s = s' := by
      rcases job with request | ⟨⟩
      · change (if mix request then some s else none) = some s' at hstart
        split at hstart
        · exact Option.some.inj hstart
        · exact nomatch hstart
      · exact Option.some.inj hstart
    subst hs
    obtain ⟨haccounted, hspares⟩ := hkeeps hcareful
    refine ⟨fun other a ha inode hmade => ?_, hspares⟩
    by_cases hother : other = pid
    · subst hother
      obtain ⟨before, start, suffix, random, h, after, hmem, -⟩ := hmade
      rcases List.mem_cons.mp hmem with heq | hmem
      · exact nomatch heq
      · exact absurd rfl (hinv.1.2.unborn other hunborn _ hmem)
    · rw [Function.update_of_ne hother] at ha
      exact haccounted other a ha inode (madePartial_other (Ne.symm hother) hmade)
  call := by
    intro log gs s pid g o r s' hinv hkeeps hlive hpre hexec hcareful
    obtain ⟨haccounted, hspares⟩ := hkeeps hcareful.2
    exact ⟨haccounted.called hplain hinv.1.1 hinv.2 hlive hpre hexec hcareful.1,
      sparesLive_of_accounted hplain hinv.1.1 hinv.1.2 hinv.2 haccounted hlive hpre hcareful.1,
      hspares⟩
  finish := by
    intro log gs s pid g a hinv hkeeps hlive _ hcareful
    obtain ⟨haccounted, hspares⟩ := hkeeps hcareful
    exact ⟨haccounted.left rfl, hspares⟩
  kill := by
    intro log gs s pid g s' hinv hkeeps hlive hkill hcareful
    obtain ⟨haccounted, hspares⟩ := hkeeps hcareful
    cases hkill
    exact ⟨haccounted.left rfl, hspares⟩

/-- A partial may be removed where the scan has listed the cache lock of its model. -/
theorem probesLocks_remove {log : CacheLog sha256 cacheDir mix cache} {modelId random : String}
    (hdot : '.' ∉ random.toList) (hlisted : Listed log pid (lockName modelId)) :
    ProbesLocks mix log pid s (.file (.remove (partialName modelId random)))
      (Except.ok () : Except IoError Unit) := by
  intro _ q random' _ hname hdot' _
  rw [← partialName_model hdot hdot' hname]
  exact hlisted

/-- **Where every partial that is removed had its model's lock listed, no cleanup unlinks a partial
file whose maker is running.** -/
theorem cleanup_sparesLive (hplain : PlainNames mix)
    {config : (cacheMachine sha256 cacheDir mix cache).Config}
    (h : (cacheMachine sha256 cacheDir mix cache).Reachable config)
    (hprobes : EveryCall (ProbesLocks mix) config.log) : EveryCall SparesLive config.log := by
  obtain ⟨gs, hinv, -⟩ :=
    Machine.Outline.reachable ((historyOutline_valid hplain).also (cleanup_keeps hplain)) h
  exact (hinv.2 hprobes).2

end

/-! ## A cleanup that spares a live download, and one that does not -/

/-- A cache directory with nothing in it. -/
def emptyCache : Files := .empty

/-- The pinned models on an empty cache, with a digest that needs no computing. -/
@[reducible] def pinnedMachine : Machine prepareSig PrepareJob PrepareResult :=
  cacheMachine (fun _ => []) "/cache" pinned emptyCache

/-- The partial file of a download of the default model. -/
def livePartial : String := partialName bgeSmall.id "abcdef"

/-- What a killed download of the other model left behind. -/
def stalePartial : String := partialName qwen3.id "ghijkl"

/-- The pinned models on a cache with this stale partial file and the lock of its model in it. -/
@[reducible] def staleMachine : Machine prepareSig PrepareJob PrepareResult :=
  cacheMachine (fun _ => []) "/cache" pinned
    ((emptyCache.create (lockName qwen3.id)).create stalePartial)

set_option maxRecDepth 8000 in
/-- A cleanup beside an acquisition of the default model that is filling its partial file.  The scan
lists both locks and both partial files; the one lock is refused, the other one is free, and what
is removed is the partial file that goes with it. -/
theorem stalePartial_removed :
    ∃ config : staleMachine.Config, staleMachine.Reachable config ∧
      EveryCall (ProbesLocks pinned) config.log ∧ running 1 config.log = true ∧
      config.shared.inodeAt livePartial = some 3 ∧ MadePartial config.log 1 3 ∧
      config.shared.inodeAt stalePartial = none := by
  have arrived := Machine.Reachable.step Machine.Reachable.start
    (Machine.Step.start (M := staleMachine) 1 (.acquire (.fromPin bgeSmall)) rfl rfl)
  have made := arrived.step (.call 1 (Except.ok () : Except IoError Unit) rfl rfl)
  have opened := made.step (.call 1 (Except.ok 0 : Except IoError Handle) rfl rfl)
  have locked := opened.step (.call 1 (Except.ok () : Except IoError Unit) rfl rfl)
  have missing := locked.step (.call 1 (Except.ok false : Except IoError Bool) rfl rfl)
  have fits := missing.step (.call 1 (Except.ok 133609568 : Except IoError UInt64) rfl rfl)
  have asked := fits.step (.call 1 () rfl rfl)
  have offered := asked.step (.call 1 (Except.ok none : Except String (Option UInt64)) rfl rfl)
  have filling := offered.step
    (.call 1 (Except.ok ("abcdef", 1) : Except IoError (String × Handle)) rfl rfl)
  have cleaning := filling.step (.start 0 .clean rfl rfl)
  have begun := cleaning.step (.call 0 (Except.ok () : Except IoError Unit) rfl rfl)
  have listed := (begun.step (.turn 0 rfl)).step (.call 0
    (Except.ok (some (lockName bgeSmall.id)) : Except IoError (Option String)) rfl rfl)
  have listed := (listed.step (.turn 0 rfl)).step (.call 0
    (Except.ok (some (lockName qwen3.id)) : Except IoError (Option String)) rfl rfl)
  have listed := (listed.step (.turn 0 rfl)).step (.call 0
    (Except.ok (some livePartial) : Except IoError (Option String)) rfl rfl)
  have listed := (listed.step (.turn 0 rfl)).step (.call 0
    (Except.ok (some stalePartial) : Except IoError (Option String)) rfl rfl)
  have ended := (listed.step (.turn 0 rfl)).step
    (.call 0 (Except.ok none : Except IoError (Option String)) rfl rfl)
  have opened := ended.step (.call 0 (Except.ok 2 : Except IoError Handle) rfl rfl)
  have refused := opened.step
    (.call 0 (Except.error ⟨false, "would block"⟩ : Except IoError Unit) rfl rfl)
  have closed := refused.step (.call 0 () rfl rfl)
  have opened := closed.step (.call 0 (Except.ok 3 : Except IoError Handle) rfl rfl)
  have taken := opened.step (.call 0 (Except.ok () : Except IoError Unit) rfl rfl)
  have removed := taken.step (.call 0 (Except.ok () : Except IoError Unit) rfl rfl)
  -- The two lists of steps lead from the end of the log to the listing and to the creation.
  refine ⟨_, removed, ⟨probesLocks_remove (by decide) ⟨_, .tail _ <| .tail _ <| .tail _ <|
    .tail _ <| .tail _ <| .tail _ <| .tail _ <| .tail _ <| .head _⟩, ?_⟩, rfl, rfl,
    ⟨_, _, _, _, _, _, .tail _ <| .tail _ <| .tail _ <| .tail _ <| .tail _ <| .tail _ <| .tail _ <|
      .tail _ <| .tail _ <| .tail _ <| .tail _ <| .tail _ <| .tail _ <| .head _, rfl, rfl⟩, rfl⟩
  exact ⟨trivial, trivial, trivial, trivial, trivial, trivial, trivial, trivial, trivial, trivial,
    trivial, trivial, trivial, trivial, trivial, trivial, trivial, trivial, trivial, trivial⟩

/-- The live partial file was spared. -/
theorem cleanup_sparesLive_stalePartial :
    ∃ config : staleMachine.Config, staleMachine.Reachable config ∧
      running 1 config.log = true ∧ config.shared.inodeAt livePartial = some 3 ∧
      MadePartial config.log 1 3 ∧ config.shared.inodeAt stalePartial = none ∧
      EveryCall SparesLive config.log := by
  obtain ⟨config, hreach, hprobes, hrunning, hlive, hmade, hstale⟩ := stalePartial_removed
  exact ⟨config, hreach, hrunning, hlive, hmade, hstale,
    cleanup_sparesLive pinned_names.2 hreach hprobes⟩

set_option maxRecDepth 4000 in
/-- A cleanup begins its scan of the empty directory.  The first acquisition of the default model
makes the cache lock, takes it, and gets as far as its partial file.  The scan lists the partial
file and not the lock, and the cleanup unlinks it. -/
theorem firstPrepare_scanned :
    ∃ config : pinnedMachine.Config, pinnedMachine.Reachable config ∧
      ∃ before log, config.log =
          .called 0 before (.file (.remove livePartial)) (Except.ok () : Except IoError Unit) :: log ∧
        jobOf 0 log = some .clean ∧ before.inodeAt livePartial = some 1 ∧ running 1 log = true ∧
        MadePartial log 1 1 := by
  have cleaning := Machine.Reachable.step Machine.Reachable.start
    (Machine.Step.start (M := pinnedMachine) 0 .clean rfl rfl)
  have begun := cleaning.step (.call 0 (Except.ok () : Except IoError Unit) rfl rfl)
  have scanning := begun.step (.turn 0 rfl)
  have arrived := scanning.step (.start 1 (.acquire (.fromPin bgeSmall)) rfl rfl)
  have made := arrived.step (.call 1 (Except.ok () : Except IoError Unit) rfl rfl)
  have opened := made.step (.call 1 (Except.ok 0 : Except IoError Handle) rfl rfl)
  have locked := opened.step (.call 1 (Except.ok () : Except IoError Unit) rfl rfl)
  have missing := locked.step (.call 1 (Except.ok false : Except IoError Bool) rfl rfl)
  have fits := missing.step (.call 1 (Except.ok 133609568 : Except IoError UInt64) rfl rfl)
  have asked := fits.step (.call 1 () rfl rfl)
  have offered := asked.step (.call 1 (Except.ok none : Except String (Option UInt64)) rfl rfl)
  have filling := offered.step
    (.call 1 (Except.ok ("abcdef", 1) : Except IoError (String × Handle)) rfl rfl)
  have listed := filling.step
    (.call 0 (Except.ok (some livePartial) : Except IoError (Option String)) rfl rfl)
  have again := listed.step (.turn 0 rfl)
  have ended := again.step (.call 0 (Except.ok none : Except IoError (Option String)) rfl rfl)
  have removed := ended.step (.call 0 (Except.ok () : Except IoError Unit) rfl rfl)
  refine ⟨_, removed, _, _, rfl, rfl, rfl, rfl, ?_⟩
  exact ⟨_, _, _, _, _, _, List.mem_cons_of_mem _ (List.mem_cons_of_mem _ List.mem_cons_self),
    rfl, rfl⟩

/-- **A cleanup can unlink the partial file of a running download.** -/
theorem cleanup_unlinks_live :
    ∃ config : pinnedMachine.Config, pinnedMachine.Reachable config ∧
      ¬ EveryCall SparesLive config.log := by
  obtain ⟨config, hreach, before, log, hlog, hjob, hinode, hrunning, hmade⟩ := firstPrepare_scanned
  refine ⟨config, hreach, fun hspares => ?_⟩
  rw [hlog] at hspares
  have hnot := hspares.1 hjob 1 hinode 1 hmade
  rw [hrunning] at hnot
  exact nomatch hnot

end SemanticSidecar
