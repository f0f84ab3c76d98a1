import SemanticSidecar.Prepare.FinalPath

/-!
# A file that has been under a final path

What `Prepare/FinalPath` says of a final path, said of a file: once it has been under a final path
nobody writes to it again, whatever becomes of its name.  A process that has opened the model can
read it in as many pieces as it likes, and others can go on with their downloads meanwhile.

The only files that are written to are the partial files, and `Standing.Spares` is that no process
is filling the file in question.  It holds of a file that is under a final path, and no call can
make it false: a process that starts on a partial file has made it itself.

With the result of `Prepare/FinalPath` this is what a reader needs: the file was right when it was
at the final path, and it has stayed as it was.  `Engine/Checked` uses both, for a process that
opens the model and takes no lock.
-/

set_option autoImplicit false

namespace SemanticSidecar

section

variable {sha256 : List UInt8 → List UInt8} {cacheDir : String} {mix : PrepareRequest → Bool}
  {cache : Files} {log : CacheLog sha256 cacheDir mix cache} {s s' : Files} {pid pid' : ℕ}
  {fo : FileOp} {r : fo.Ret} {inode : ℕ} {g : Standing}

/-! ## A file nobody is filling -/

/-- The file is not the partial file the process is filling. -/
def Standing.Spares (s : Files) (inode : ℕ) : Standing → Prop
  | .acquiring a => a.Holds → ∀ w file, a.temp = some w → s.handles w.temp.file = some file →
      file.inode ≠ inode
  | .cleaning _ => True

/-- A file at a final path is nobody's partial file. -/
theorem spares_of_final (hplain : PlainNames mix) (hg : g.Sound mix s pid) {q : PrepareRequest}
    (hq : mix q = true) (hinode : s.inodeAt q.fileName = some inode) : g.Spares s inode := by
  rcases g with a | c
  · intro hholds w file hw hfile heq
    obtain ⟨file', hfills⟩ := hg.2.temp hholds w hw
    cases hfills.handle.symm.trans hfile
    exact Acquiring.fills_ne_final hplain hq hfills (heq ▸ hinode)
  · trivial

/-- Who spares a file does not write to it. -/
theorem data_of_spares (hlt : inode < s.inodes) (hspares : g.Spares s inode)
    (hpre : (prepareProtocol sha256).pre g (.file fo)) (hexec : s.exec pid fo r = some s') :
    s'.data inode = s.data inode := by
  refine Files.exec_data hexec hlt fun h bytes file hop hfile _ => ?_
  subst hop
  rcases g with a | c
  · obtain ⟨hholds, -, w, hw, rfl⟩ := hpre
    exact hspares hholds w file hw hfile
  · exact hpre.elim

/-- What others do takes no partial file away from the process that fills it. -/
theorem Standing.Spares.other (h : g.Spares s inode) (hg : g.Sound mix s pid) (hne : pid ≠ pid')
    (hexec : s.exec pid' fo r = some s') : g.Spares s' inode := by
  rcases g with a | c
  · intro hholds w file hw hfile
    obtain ⟨file', hfills⟩ := hg.2.temp hholds w hw
    have hother : file'.owner ≠ pid' := by
      rw [hfills.owner]
      exact hne
    cases (Files.exec_handles hexec hfills.handle hother).symm.trans hfile
    exact h hholds w _ hw hfills.handle
  · trivial

theorem Standing.Spares.exit (h : g.Spares s inode) : g.Spares (s.exit pid') inode := by
  rcases g with a | c
  · exact fun hholds w file hw hfile => h hholds w file hw (Files.exit_opened hfile)
  · trivial

namespace Acquiring

variable {a a' : Acquiring}

/-- The partial file after the call is the one that was there before. -/
theorem spares_of_same (h : (Standing.acquiring a).Spares s inode) (ha : a.Sound s pid)
    (hexec : s.exec pid fo r = some s') (hholds : a'.Holds → a.Holds)
    (htemp : ∀ w', a'.temp = some w' →
      ∃ w, a.temp = some w ∧ w'.temp = w.temp ∧ fo ≠ .close w.temp.file) :
    (Standing.acquiring a').Spares s' inode := by
  intro hholds' w' file' hw' hfile'
  obtain ⟨w, hw, heq, hclose⟩ := htemp w' hw'
  obtain ⟨file, hfills⟩ := ha.temp (hholds hholds') w hw
  obtain ⟨file'', hfile'', -, hinode⟩ := Files.exec_open hexec hfills.handle hclose
  rw [heq] at hfile'
  cases hfile''.symm.trans hfile'
  rw [hinode]
  exact h (hholds hholds') w file hw hfills.handle

/-- **No call makes a partial file of a file there was.** -/
theorem spares_own (h : (Standing.acquiring a).Spares s inode) (hlt : inode < s.inodes)
    (ha : a.Sound s pid) (hpre : a.pre sha256 (.file fo)) (hexec : s.exec pid fo r = some s') :
    (Standing.acquiring (a.next (.file fo) r)).Spares s' inode := by
  have hsame : ∀ {a' : Acquiring}, (∀ h, fo ≠ .close h) → a'.lock = a.lock → a'.temp = a.temp →
      (Standing.acquiring a').Spares s' inode := by
    intro a' hclose hlock htemp
    refine spares_of_same h ha hexec ?_ fun w hw => ⟨w, htemp.symm.trans hw, rfl, hclose _⟩
    rintro ⟨lock, hheld⟩
    exact ⟨lock, hlock.symm.trans hheld⟩
  have hmapped : ∀ {a' : Acquiring} {f : Writing → Writing}, (∀ h, fo ≠ .close h) → a'.lock = a.lock →
      a'.temp = a.temp.map f → (∀ w, (f w).temp = w.temp) →
      (Standing.acquiring a').Spares s' inode := by
    intro a' f hclose hlock htemp hf
    refine spares_of_same h ha hexec ?_ fun w' hw' => ?_
    · rintro ⟨lock, hheld⟩
      exact ⟨lock, hlock.symm.trans hheld⟩
    · obtain ⟨w, hw, rfl⟩ := Option.map_eq_some_iff.mp (htemp.symm.trans hw')
      exact ⟨w, hw, hf w, hclose _⟩
  have hnone : ∀ {a' : Acquiring}, a'.temp = none → (Standing.acquiring a').Spares s' inode :=
    fun htemp _ w _ hw => by cases htemp.symm.trans hw
  cases fo with
  | openReadWrite | readDir | nextEntry => exact hpre.elim
  | createDirAll | flush | availableSpace =>
    rcases r with err | _
    all_goals exact hsame (fun _ hop => by cases hop) rfl rfl
  | openOrCreate name =>
    rcases r with err | h'
    · exact hsame (fun _ hop => by cases hop) rfl rfl
    · rintro ⟨lock, hlock⟩
      cases hlock
  | tryLock h' | lock h' =>
    rcases r with err | ⟨⟩
    · exact hsame (fun _ hop => by cases hop) rfl rfl
    · exact hnone hpre.2.2.2
  | unlock h' =>
    rcases r with err | ⟨⟩
    all_goals
      rintro ⟨lock, hlock⟩
      cases hlock
  | close h' =>
    refine spares_of_same h ha hexec ?_ fun w hw => ?_
    · rintro ⟨lock, hlock⟩
      change (if a.lock = .opened h' then LockStage.unopened else a.lock) = _ at hlock
      split at hlock
      · cases hlock
      · exact ⟨lock, hlock⟩
    · obtain ⟨hw, hne⟩ := Option.filter_eq_some_iff.mp hw
      refine ⟨w, hw, rfl, fun hop => ?_⟩
      cases hop
      simp at hne
  | pathExists name =>
    rcases r with err | (_ | _)
    all_goals exact hsame (fun _ hop => by cases hop) rfl rfl
  | openRead name =>
    rcases r with err | h'
    all_goals exact hsame (fun _ hop => by cases hop) rfl rfl
  | read h' limit =>
    rcases r with err | chunk
    · exact hsame (fun _ hop => by cases hop) rfl rfl
    · obtain ⟨-, -, bytes, hreading⟩ := hpre
      show (Standing.acquiring (a.hasRead h' chunk)).Spares s' inode
      rw [hasRead, hreading]
      dsimp only
      split
      all_goals exact hsame (fun _ hop => by cases hop) rfl rfl
  | remove name =>
    have hattempted : (Standing.acquiring a.attempted).Spares s' inode :=
      hmapped (fun _ hop => by cases hop) rfl rfl fun _ => rfl
    rcases r with err | ⟨⟩
    · exact hattempted
    · show (Standing.acquiring
        (if a.temp.isSome then a.attempted else { a with known := .absent })).Spares s' inode
      split
      · exact hattempted
      · exact hsame (fun _ hop => by cases hop) rfl rfl
  | createTemp before after =>
    rcases r with err | ⟨random, h'⟩
    · exact hsame (fun _ hop => by cases hop) rfl rfl
    · -- The file that has been made has a number that was free.
      intro _ w file hw hfile
      cases hw
      obtain ⟨-, -, -, hopen⟩ := Files.makeTemp_eq_some hexec
      obtain ⟨inode', hlt', hinode', -, rfl⟩ := Files.openAt_eq_some hopen
      rw [Files.inodeAt_create, if_pos rfl] at hinode'
      cases hinode'
      cases Files.handles_setHandle_self.symm.trans hfile
      exact hlt.ne'
  | write h' bytes =>
    rcases r with err | ⟨⟩
    all_goals exact hmapped (fun _ hop => by cases hop) rfl rfl fun _ => rfl
  | rename source target =>
    rcases r with err | ⟨⟩
    · exact hsame (fun _ hop => by cases hop) rfl rfl
    · exact hnone rfl

end Acquiring

theorem Standing.Spares.own (h : g.Spares s inode) (hlt : inode < s.inodes)
    (hg : g.Sound mix s pid) (hpre : (prepareProtocol sha256).pre g (.file fo))
    (hexec : s.exec pid fo r = some s') :
    ((prepareProtocol sha256).next g (.file fo) r).Spares s' inode := by
  rcases g with a | c
  · exact Acquiring.spares_own h hlt hg.2 hpre hexec
  · trivial

theorem Standing.Spares.next_of_not_file {o : PrepareOp} {r : o.Ret} (h : g.Spares s inode)
    (hfile : ∀ fo, o ≠ .file fo) : ((prepareProtocol sha256).next g o r).Spares s inode := by
  rcases g with a | c
  · obtain ⟨hlock, htemp, -, -⟩ := a.next_of_not_file r hfile
    show (Standing.acquiring (a.next o r)).Spares s inode
    rw [Standing.Spares, Acquiring.Holds, hlock, htemp]
    exact h
  · trivial

/-! ## Whole runs -/

/-- A call was made while the file was under a final path. -/
def WasFinal (log : CacheLog sha256 cacheDir mix cache) (inode : ℕ) : Prop :=
  ∃ pid before o r q, .called pid before o r ∈ log ∧ mix q = true ∧
    before.inodeAt q.fileName = some inode

theorem WasFinal.mono {log' : CacheLog sha256 cacheDir mix cache} (hsub : log ⊆ log')
    (h : WasFinal log inode) : WasFinal log' inode := by
  obtain ⟨pid, before, o, r, q, hmem, hfinal⟩ := h
  exact ⟨pid, before, o, r, q, hsub hmem, hfinal⟩

/-- Only a call can be one that was made while the file was under a final path. -/
theorem WasFinal.of_cons {e : (cacheMachine sha256 cacheDir mix cache).Event}
    (h : WasFinal (e :: log) inode) (hcall : ∀ pid before o r, e ≠ .called pid before o r) :
    WasFinal log inode := by
  obtain ⟨pid, before, o, r, q, hmem, hfinal⟩ := h
  refine ⟨pid, before, o, r, q, (List.mem_cons.mp hmem).resolve_left fun heq => ?_, hfinal⟩
  exact hcall pid before o r heq.symm

/-- What has been under a final path is nobody's partial file. -/
def AllSpare (log : CacheLog sha256 cacheDir mix cache) (gs : ℕ → Machine.Stage Standing)
    (s : Files) : Prop :=
  ∀ inode, WasFinal log inode → inode < s.inodes ∧ ∀ pid g, gs pid = .live g → g.Spares s inode

/-- An event that is no call, in a directory in which nothing else has changed. -/
theorem AllSpare.update {gs : ℕ → Machine.Stage Standing}
    {e : (cacheMachine sha256 cacheDir mix cache).Event} {stage : Machine.Stage Standing}
    (h : AllSpare log gs s) (hcall : ∀ pid before o r, e ≠ .called pid before o r)
    (hinodes : s'.inodes = s.inodes) (hself : ∀ g, stage = .live g → g.Spares s' inode)
    (hothers : ∀ g : Standing, g.Spares s inode → g.Spares s' inode) (hwas : WasFinal (e :: log) inode) :
    inode < s'.inodes ∧ ∀ other g, Function.update gs pid stage other = .live g →
      g.Spares s' inode := by
  obtain ⟨hlt, hspares⟩ := h inode (hwas.of_cons hcall)
  refine ⟨hinodes ▸ hlt, fun other g hlive => ?_⟩
  by_cases hother : other = pid
  · subst hother
    rw [Function.update_self] at hlive
    exact hself g hlive
  · rw [Function.update_of_ne hother] at hlive
    exact hothers g (hspares other g hlive)

/-- What has been under a final path, or is. -/
def EverFinal (log : CacheLog sha256 cacheDir mix cache) (s : Files) (inode : ℕ) : Prop :=
  WasFinal log inode ∨ ∃ q, mix q = true ∧ s.inodeAt q.fileName = some inode

/-- Nobody is filling a file that has been under a final path. -/
theorem EverFinal.spares (hplain : PlainNames mix) {gs : ℕ → Machine.Stage Standing}
    (hsound : AllSound mix gs s) (hall : AllSpare log gs s) (h : EverFinal log s inode) :
    inode < s.inodes ∧ ∀ pid g, gs pid = .live g → g.Spares s inode := by
  rcases h with hwas | ⟨q, hq, hinode⟩
  · exact hall inode hwas
  · exact ⟨Files.inodeAt_lt hinode,
      fun pid g hlive => spares_of_final hplain (hsound pid g hlive) hq hinode⟩

/-- **Nobody ever fills a file that has been under a final path.** -/
theorem allSpare_keeps (hplain : PlainNames mix) :
    (cacheOutline sha256 cacheDir mix cache).Keeps AllSpare where
  init := by
    rintro inode ⟨pid, before, o, r, q, hmem, -⟩
    cases hmem
  start := by
    intro log gs s pid job s' _ h _ hstart inode hwas
    obtain ⟨rfl, -⟩ := start_eq_some hstart
    refine h.update (fun _ _ _ _ heq => by cases heq) rfl (fun g hlive => ?_) (fun _ hg => hg) hwas
    cases hlive
    rcases job with request | ⟨⟩
    · rintro ⟨lock, hlock⟩
      cases hlock
    · trivial
  call := by
    intro log gs s pid g o r s' hinv h hlive hpre hexec inode hwas
    have hever : EverFinal log s inode := by
      obtain ⟨pid', before, o', r', q, hmem, hq, hinode⟩ := hwas
      rcases List.mem_cons.mp hmem with heq | hmem
      · cases heq
        exact .inr ⟨q, hq, hinode⟩
      · exact .inl ⟨pid', before, o', r', q, hmem, hq, hinode⟩
    obtain ⟨hlt, hspares⟩ := hever.spares hplain hinv h
    by_cases hfile : ∃ fo, o = .file fo
    · obtain ⟨fo, rfl⟩ := hfile
      refine ⟨Nat.lt_of_lt_of_le hlt (Files.exec_inodes hexec), fun other g' hlive' => ?_⟩
      by_cases hother : other = pid
      · subst hother
        rw [Function.update_self] at hlive'
        cases hlive'
        exact (hspares other g hlive).own hlt (hinv other g hlive) hpre hexec
      · rw [Function.update_of_ne hother] at hlive'
        exact (hspares other g' hlive').other (hinv other g' hlive') hother hexec
    · have hnot : ∀ fo, o ≠ .file fo := fun fo heq => hfile ⟨fo, heq⟩
      cases cacheExec_of_not_file hexec hnot
      refine ⟨hlt, fun other g' hlive' => ?_⟩
      by_cases hother : other = pid
      · subst hother
        rw [Function.update_self] at hlive'
        cases hlive'
        exact (hspares other g hlive).next_of_not_file hnot
      · rw [Function.update_of_ne hother] at hlive'
        exact hspares other g' hlive'
  finish := by
    intro log gs s pid g result _ h _ _ inode hwas
    exact h.update (fun _ _ _ _ heq => by cases heq) rfl (fun _ hlive => by cases hlive)
      (fun _ hg => hg.exit) hwas
  kill := by
    intro log gs s pid g s' _ h _ hkill inode hwas
    cases hkill
    exact h.update (fun _ _ _ _ heq => by cases heq) rfl (fun _ hlive => by cases hlive)
      (fun _ hg => hg.exit) hwas

/-- A step leaves a file that has been under a final path as it is, and it goes on having been
there. -/
theorem step_everFinal (hplain : PlainNames mix)
    {c c' : (cacheMachine sha256 cacheDir mix cache).Config}
    (h : (cacheMachine sha256 cacheDir mix cache).Reachable c)
    (hstep : (cacheMachine sha256 cacheDir mix cache).Step c c')
    (hever : EverFinal c.log c.shared inode) :
    EverFinal c'.log c'.shared inode ∧ c'.shared.data inode = c.shared.data inode := by
  have hkept : ∀ {e : (cacheMachine sha256 cacheDir mix cache).Event} {s : Files},
      s.dir = c.shared.dir → EverFinal (e :: c.log) s inode := by
    intro e s hdir
    rcases hever with hwas | ⟨q, hq, hinode⟩
    · exact .inl (hwas.mono (List.subset_cons_self _ _))
    · refine .inr ⟨q, hq, ?_⟩
      rw [Files.inodeAt, hdir]
      exact hinode
  cases hstep with
  | start pid job hthread hstart =>
    obtain ⟨rfl, -⟩ := start_eq_some hstart
    exact ⟨hkept rfl, rfl⟩
  | @call pid o k r s' hthread hexec =>
    obtain ⟨gs, ⟨hsound, hall⟩, hstands⟩ :=
      Machine.Outline.reachable ((cacheOutline_valid hplain).also (allSpare_keeps hplain)) h
    obtain ⟨hlt, hspares⟩ := hever.spares hplain hsound hall
    have hpid := hstands pid
    rw [hthread] at hpid
    obtain ⟨g, hlive, hpre, -⟩ := hpid
    constructor
    · left
      rcases hever with hwas | ⟨q, hq, hinode⟩
      · exact hwas.mono (List.subset_cons_self _ _)
      · exact ⟨pid, c.shared, o, r, q, List.mem_cons_self, hq, hinode⟩
    · by_cases hfile : ∃ fo, o = .file fo
      · obtain ⟨fo, rfl⟩ := hfile
        exact data_of_spares hlt (hspares pid g hlive) hpre hexec
      · cases cacheExec_of_not_file hexec fun fo heq => hfile ⟨fo, heq⟩
        rfl
  | turn => exact ⟨hever, rfl⟩
  | finish => exact ⟨hkept rfl, rfl⟩
  | kill pid hthread hkill =>
    cases hkill
    exact ⟨hkept rfl, rfl⟩

/-- **The file under a final path is never written to again**, wherever its name goes. -/
theorem run_everFinal (hplain : PlainNames mix)
    {c c' : (cacheMachine sha256 cacheDir mix cache).Config}
    (h : (cacheMachine sha256 cacheDir mix cache).Reachable c)
    (hrun : Relation.ReflTransGen (cacheMachine sha256 cacheDir mix cache).Step c c')
    (hever : EverFinal c.log c.shared inode) :
    EverFinal c'.log c'.shared inode ∧ c'.shared.data inode = c.shared.data inode ∧
      (cacheMachine sha256 cacheDir mix cache).Reachable c' := by
  induction hrun with
  | refl => exact ⟨hever, rfl, h⟩
  | tail _ hstep ih =>
    obtain ⟨hever, hdata, hreach⟩ := ih
    obtain ⟨hever', hdata'⟩ := step_everFinal hplain hreach hstep hever
    exact ⟨hever', hdata'.trans hdata, hreach.step hstep⟩

end

end SemanticSidecar
