import SemanticSidecar.Lib.View
import SemanticSidecar.Prepare.Cache
import SemanticSidecar.Prepare.Account

/-!
# What a failed acquisition leaves behind

One call of `acquire` in a directory that nobody else changes meanwhile.  Others may open and lock
what is there, so the call may have to wait for its lock; that is all `undisturbed` allows them.

Each part of the program has one exact statement about the view of its process.  A download that
fails leaves nothing a name leads to (`View.Same`), reading a file leaves nothing at all, and the
stale file at the final path is the one thing that may be gone afterwards.  A partial file that is
dropped is taken to be removed, as `tempfile` documents it: `Drops` is that assumption.

All that a failed call changes in the directory is that there is a lock file and that a stale file
may be gone from the final path.  Its partial file is gone, on every path through the program on
which one was made, and so are its handles, hence its lock.

There are two runs to see it by.  In the first the connection breaks in the middle of the body.  In
the second the final name is that of the lock, which the result excludes.
-/

set_option autoImplicit false

namespace SemanticSidecar

open Prog (Ensures Called)

/-! ## A call on its own -/

/-- The removal of a partial file the call has made does not fail. -/
def Drops (partials : List String) (o : PrepareOp) (r : o.Ret) : Prop :=
  match o, r with
  | .file (.remove name), .error _ => name ∉ partials
  | _, _ => True

/-- What there is to a call that is on its own. -/
structure Scene where
  /-- What the call sees of the files. -/
  view : View
  /-- The partial files it has made. -/
  partials : List String
  /-- What the server has sent it. -/
  body : List UInt8

/-- The partial file a call makes. -/
def madeBy (o : FileOp) (r : o.Ret) : List String :=
  match o, r with
  | .createTemp before after, .ok (random, _) => [Files.tempName before random after]
  | _, _ => []

/-- Its surroundings; `drops` says whether partial files are removed when they are dropped. -/
def alone (drops : Prop) (pid : ℕ) : Prog.Env prepareSig Scene := fun w o r w' =>
  match o, r with
  | .file o, r => (drops → Drops w.partials (.file o) r) ∧
      ∃ v, w.view.exec pid o r = some v ∧ w' = ⟨v, w.partials ++ madeBy o r, w.body⟩
  | .readBody _, .ok chunk => w' = ⟨w.view, w.partials, w.body ++ chunk⟩
  | _, _ => w' = w

/-- The cache directory while nobody else changes it. -/
def undisturbed (sha256 : List UInt8 → List UInt8) (cacheDir : String) (pid : ℕ) :
    Prog.Env prepareSig Files := fun s o r s' =>
  ∃ between : Files, between.view pid = s.view pid ∧
    (cacheMachine sha256 cacheDir (fun _ => true) .empty).exec pid between o r = some s'

/-- Every partial file the call has made is removed when it is dropped. -/
def DropsPartials (t : List (Called prepareSig)) : Prop :=
  ∀ front call back, t = front ++ call :: back →
    Drops (accountOf front).partials call.op call.ret

/-- A view of the directory and what the calls so far come to. -/
def sceneOf (pid : ℕ) (before : List (Called prepareSig)) (s : Files) : Scene :=
  ⟨s.view pid, (accountOf before).partials, (accountOf before).body⟩

section

variable {sha256 : List UInt8 → List UInt8} {cacheDir : String} {drops : Prop} {pid : ℕ}

theorem alone_of_undisturbed {before : List (Called prepareSig)} {s s' : Files} {o : PrepareOp}
    {r : o.Ret} (hdrops : drops → Drops (accountOf before).partials o r)
    (hstep : undisturbed sha256 cacheDir pid s o r s') :
    alone drops pid (sceneOf pid before s) o r (sceneOf pid (before ++ [⟨o, r⟩]) s') := by
  obtain ⟨between, hview, hexec⟩ := hstep
  rw [sceneOf, sceneOf, accountOf_concat, ← hview]
  cases o with
  | file fo =>
    have hfile : between.exec pid fo r = some s' := hexec
    refine ⟨hdrops, s'.view pid, Files.exec_view hfile, ?_⟩
    cases fo with
    | createTemp prior after =>
      rcases r with err | ⟨random, h⟩
      · simp [CallAccount.next, madeBy]
      · rfl
    | _ => simp [CallAccount.next, madeBy, CallAccount.wrote]
  | readBody limit =>
    have hsame := cacheExec_of_not_file hexec (by simp)
    rcases r with err | chunk
    · rw [hsame]
      rfl
    · rw [hsame]
      rfl
  | awaitResponse =>
    rw [cacheExec_of_not_file hexec (by simp)]
    rfl
  | emit | openRequest | progressDue =>
    rw [cacheExec_of_not_file hexec (by simp)]
    rfl

/-- A run in an undisturbed directory, as the call sees it. -/
theorem steps_alone (drops : Prop) {s s' : Files} {t : List (Called prepareSig)}
    (hsteps : Prog.Steps (undisturbed sha256 cacheDir pid) s t s')
    (hdrops : drops → DropsPartials t) :
    Prog.Steps (alone drops pid) ⟨s.view pid, [], []⟩ t
      ⟨s'.view pid, (accountOf t).partials, (accountOf t).body⟩ :=
  hsteps.simulates
    (P := fun before call => drops → Drops (accountOf before).partials call.op call.ret)
    (sceneOf pid) (fun _ _ _ _ _ hdrop hstep => alone_of_undisturbed hdrop hstep) []
    fun front call back heq hyes => hdrops hyes front call back heq

/-! ## The parts of the program -/

variable {request : PrepareRequest} {temp : TempFile} {file : OpenFile} {v : View}
  {partials : List String}

/-- The view once a partial file is removed and closed. -/
def TempFile.goneFrom (temp : TempFile) (v : View) : View :=
  (v.entry temp.name none).setOpened temp.file none

theorem tempDrop_removes {w : Scene} (hpart : temp.name ∈ w.partials) :
    Ensures (alone drops pid) temp.drop w fun _ w' =>
      drops → w' = { w with view := temp.goneFrom w.view } := by
  rintro removed _ ⟨hdrops, v, hremoved, rfl⟩
  rcases removed with err | ⟨⟩
  · rintro ⟨⟩ _ -
    exact fun hyes => absurd hpart (hdrops hyes)
  · change (if (w.view.dir temp.name).isSome then some (w.view.entry temp.name none) else none) =
      some v at hremoved
    split at hremoved
    · obtain rfl := Option.some.inj hremoved
      rintro ⟨⟩ _ ⟨-, v, hclosed, rfl⟩
      obtain ⟨_, -, rfl⟩ := Option.map_eq_some_iff.mp hclosed
      show drops → _ = _
      simp [TempFile.goneFrom, madeBy]
    · exact absurd hremoved (by simp)

/-- A partial file that is being filled, in the view of the process. -/
def fillingScene (v : View) (file : OpenFile) (partials : List String) (bytes body : List UInt8) :
    Scene :=
  ⟨v.setData file.inode bytes, partials, body⟩

/-- The copy loop has come to its end: all that was sent is in the file, or some of it. -/
def Filled (v : View) (file : OpenFile) (partials : List String)
    (result : Except String (List UInt8 × UInt64)) (w : Scene) : Prop :=
  match result with
  | .ok (bytes, _) => w = fillingScene v file partials bytes bytes
  | .error _ => ∃ junk body, w = fillingScene v file partials junk body

theorem copyTurn_fills (hopen : v.opened temp.file = some file) (bytes : List UInt8)
    (received : UInt64) :
    Ensures (alone drops pid) (copyTurn request temp bytes received)
      (fillingScene v file partials bytes bytes) fun turn w =>
        match turn with
        | .inl (bytes, _) => w = fillingScene v file partials bytes bytes
        | .inr result => Filled v file partials result w := by
  simp only [copyTurn, Prog.bind_eq, Prog.perform, Prog.call_bind, Prog.ret_bind]
  rintro answer w hanswer
  rcases answer with err | chunk
  · exact ⟨bytes, bytes, hanswer⟩
  · obtain rfl : w = fillingScene v file partials bytes (bytes ++ chunk) := hanswer
    dsimp only
    split
    · rename_i hempty
      rw [List.isEmpty_iff.mp hempty, List.append_nil]
      exact rfl
    · split
      · exact ⟨bytes, bytes ++ chunk, rfl⟩
      · rintro written w ⟨-, v', hwritten, rfl⟩
        have hbytes : ∀ more, some v' = (some file).map (fun opened : OpenFile =>
              (v.setData file.inode bytes).setData opened.inode
                ((v.setData file.inode bytes).data opened.inode ++ more)) →
            v' = v.setData file.inode (bytes ++ more) := by
          intro more heq
          simpa using heq
        rcases written with err | ⟨⟩
        · obtain rfl := hbytes (chunk.take err.written) (hopen ▸ hwritten.symm)
          exact ⟨bytes ++ chunk.take err.written, bytes ++ chunk, by simp [fillingScene, madeBy]⟩
        · obtain rfl := hbytes chunk (hopen ▸ hwritten.symm)
          have hscene : (⟨v.setData file.inode (bytes ++ chunk), partials ++ [],
              bytes ++ chunk⟩ : Scene) = fillingScene v file partials (bytes ++ chunk)
                (bytes ++ chunk) := by
            rw [List.append_nil]
            rfl
          rintro due w hdue
          rcases due with _ | _
          · exact hdue.trans hscene
          · rintro ⟨⟩ w' hemitted
            exact hemitted.trans (hdue.trans hscene)

/-- What has come of a partial file. -/
def Disposed (drops : Prop) (request : PrepareRequest) (temp : TempFile) (v : View) (file : OpenFile)
    (partials : List String) (result : Except String Unit) (w : Scene) : Prop :=
  match result with
  | .ok () => w.view.content request.fileName = some w.body
  | .error _ => drops →
    ∃ junk body, w = ⟨temp.goneFrom (v.setData file.inode junk), partials, body⟩

theorem disposed_dropped (hpart : temp.name ∈ partials) (junk body : List UInt8)
    (message : String) :
    Ensures (alone drops pid) (temp.drop.bind fun _ => .ret (.error message))
      (fillingScene v file partials junk body) (Disposed drops request temp v file partials) := by
  refine (tempDrop_removes (w := fillingScene v file partials junk body) hpart).andThen ?_
  rintro ⟨⟩ w hgone
  exact fun hyes => ⟨junk, body, hgone hyes⟩

theorem placeVerified_disposes (hdir : v.dir temp.name = some file.inode)
    (hpart : temp.name ∈ partials) (bytes : List UInt8) :
    Ensures (alone drops pid) (placeVerified sha256 cacheDir request temp bytes)
      (fillingScene v file partials bytes bytes) (Disposed drops request temp v file partials) := by
  simp only [placeVerified, Prog.bind_eq, Prog.perform, Prog.call_bind, Prog.ret_bind]
  split
  · exact disposed_dropped hpart bytes bytes _
  · rintro placed w ⟨-, v', hplaced, rfl⟩
    rcases placed with err | ⟨⟩
    · obtain rfl := Option.some.inj hplaced
      simp only [madeBy, List.append_nil]
      exact disposed_dropped hpart bytes bytes _
    · obtain ⟨inode, hinode, rfl⟩ := Option.map_eq_some_iff.mp hplaced
      obtain rfl : inode = file.inode := Option.some.inj (hinode.symm.trans hdir)
      rintro ⟨⟩ w ⟨-, v', hclosed, rfl⟩
      obtain ⟨_, -, rfl⟩ := Option.map_eq_some_iff.mp hclosed
      show View.content _ request.fileName = some bytes
      rw [View.content_setOpened, View.content_entry_self, View.data_entry, fillingScene,
        View.data_setData]

theorem copyBody_disposes (hopen : v.opened temp.file = some file)
    (hdir : v.dir temp.name = some file.inode) (hempty : v.data file.inode = [])
    (hpart : temp.name ∈ partials) :
    Ensures (alone drops pid) (copyBody sha256 cacheDir request temp) ⟨v, partials, []⟩
      (Disposed drops request temp v file partials) := by
  have hstart : (⟨v, partials, []⟩ : Scene) = fillingScene v file partials [] [] := by
    rw [fillingScene, View.setData, ← hempty, Function.update_eq_self]
  rintro ⟨⟩ w hemitted
  obtain rfl := (show w = _ from hemitted).trans hstart
  refine (Ensures.iterate (Q := Filled v file partials)
    (fun state w => w = fillingScene v file partials state.1 state.1) rfl ?_).andThen ?_
  · rintro ⟨bytes, received⟩ _ rfl
    refine (copyTurn_fills hopen bytes received).mono ?_
    rintro (⟨bytes, received⟩ | result) w hturn
    · exact hturn
    · exact hturn
  · rintro (message | ⟨bytes, received⟩) w hend
    · obtain ⟨junk, body, rfl⟩ := hend
      exact disposed_dropped hpart junk body _
    · obtain rfl : w = fillingScene v file partials bytes bytes := hend
      rintro flushed w ⟨-, v', hflushed, rfl⟩
      have hsame : v' = (fillingScene v file partials bytes bytes).view := by
        rcases flushed with err | ⟨⟩
        · exact (Option.some.inj hflushed).symm
        · exact (Option.some.inj hflushed).symm
      subst hsame
      rcases flushed with err | ⟨⟩
      · simp only [madeBy, List.append_nil]
        exact disposed_dropped hpart bytes bytes _
      · rintro ⟨⟩ w hemitted
        obtain rfl : w = fillingScene v file partials bytes bytes := by
          refine (show w = _ from hemitted).trans ?_
          simp [fillingScene, madeBy]
        exact placeVerified_disposes hdir hpart bytes

/-- Nothing is left of the partial files, and nothing else has changed. -/
structure Restored (v : View) (w : Scene) : Prop where
  /-- The view is as it was. -/
  same : v.Same w.view
  /-- No name of a partial file the call made is taken. -/
  gone : ∀ name ∈ w.partials, w.view.dir name = none

/-- What has come of a download. -/
def Fetched (drops : Prop) (request : PrepareRequest) (v : View) (result : Except String Unit) (w : Scene) :
    Prop :=
  match result with
  | .ok () => w.view.content request.fileName = some w.body
  | .error _ => drops → Restored v w

theorem restored_refl (v : View) : Restored v ⟨v, [], []⟩ where
  same := .refl v
  gone := by simp

theorem downloadVerified_fetches (timeouts : DownloadTimeouts) :
    Ensures (alone drops pid) (downloadVerified sha256 cacheDir request timeouts) ⟨v, [], []⟩
      (Fetched drops request v) := by
  rintro ⟨⟩ _ rfl response w hresponse
  obtain rfl : w = ⟨v, [], []⟩ := by
    rcases response with err | offered
    · exact hresponse
    · exact hresponse
  rcases response with err | offered
  · exact fun _ => restored_refl v
  · simp only [Prog.ret_bind]
    split
    · exact fun _ => restored_refl v
    · rintro made w ⟨-, v', hmade, rfl⟩
      rcases made with err | ⟨random, h⟩
      · obtain rfl := Option.some.inj hmade
        exact fun _ => restored_refl v
      · change (if (v.dir _).isNone then _ else none) = some v' at hmade
        split at hmade
        · rename_i hnew
          rw [Option.isNone_iff_eq_none] at hnew
          obtain ⟨inode, hinode, hfree, rfl⟩ := View.openAt_eq_some hmade
          obtain rfl : v.inodes = inode :=
            Option.some.inj ((View.dir_create_self _).symm.trans hinode)
          have hopen : ((v.create (Files.tempName (partialPrefix request.modelId) random
              partialSuffix)).setOpened h (some ⟨pid, v.inodes, 0⟩)).opened h =
                some ⟨pid, v.inodes, 0⟩ := View.opened_setOpened _ _
          refine (copyBody_disposes hopen hinode (Function.update_self ..)
            List.mem_cons_self).mono ?_
          rintro (message | ⟨⟩) w hdisposed
          · intro hyes
            obtain ⟨junk, body, rfl⟩ := hdisposed hyes
            have hsame := View.same_created hnew hfree ⟨pid, v.inodes, 0⟩ junk
            refine ⟨hsame, fun name hname => ?_⟩
            obtain rfl := List.mem_singleton.mp hname
            exact (congrFun hsame.dir _).trans hnew
          · exact hdisposed
        · exact absurd hmade (by simp)

theorem acquireMissing_fetches (timeouts : DownloadTimeouts) :
    Ensures (alone drops pid) (acquireMissing sha256 cacheDir request timeouts) ⟨v, [], []⟩
      fun result w => match result with
        | .ok prepared => prepared.alreadyCached = false ∧ Fetched drops request v (.ok ()) w
        | .error _ => drops → Restored v w := by
  rintro space w ⟨-, v', hspace, rfl⟩
  have hsame : v' = v := by
    rcases space with err | available
    · exact (Option.some.inj hspace).symm
    · exact (Option.some.inj hspace).symm
  subst hsame
  rcases space with err | available
  · exact fun _ => restored_refl v'
  · simp only [Prog.ret_bind]
    split
    · exact fun _ => restored_refl v'
    · simp only [Prog.pure_eq, Prog.bind_eq, Prog.ret_bind]
      refine (downloadVerified_fetches (v := v') timeouts).andThen ?_
      rintro (message | ⟨⟩) w hfetched
      · exact hfetched
      · rintro ⟨⟩ _ rfl
        exact ⟨rfl, hfetched⟩

/-- A turn of reading a file that is open. -/
theorem digestTurn_reads {h : Handle} {inode : ℕ} {body bytes : List UInt8}
    (hread : bytes <+: v.data inode) :
    Ensures (alone drops pid) (digestTurn sha256 h bytes)
      ⟨v.setOpened h (some ⟨pid, inode, bytes.length⟩), partials, body⟩ fun turn w =>
        match turn with
        | .inl bytes => bytes <+: v.data inode ∧
          w = ⟨v.setOpened h (some ⟨pid, inode, bytes.length⟩), partials, body⟩
        | .inr (.ok digest) => digest = hex (sha256 (v.data inode)) ∧
          ∃ file, w = ⟨v.setOpened h (some file), partials, body⟩
        | .inr (.error _) => ∃ file, w = ⟨v.setOpened h (some file), partials, body⟩ := by
  rintro answer w ⟨-, v', hanswer, rfl⟩
  rcases answer with err | chunk
  · obtain rfl := Option.some.inj hanswer
    exact ⟨⟨pid, inode, bytes.length⟩, by simp [madeBy]⟩
  · simp only [View.exec, View.opened_setOpened] at hanswer
    split at hanswer
    · rename_i hreads
      obtain rfl := Option.some.inj hanswer
      have hrest : View.Reads v ⟨pid, inode, bytes.length⟩ copyChunkBytes chunk = true := hreads
      rw [View.Reads, Bool.and_eq_true, Bool.and_eq_true, List.isPrefixOf_iff_prefix] at hrest
      obtain ⟨⟨hpart, -⟩, hend⟩ := hrest
      obtain ⟨more, hmore⟩ := hread
      simp only [← hmore, List.drop_left] at hpart hend
      simp only [Prog.ret_bind]
      split
      · rename_i hempty
        rw [hempty, Bool.not_true, Bool.false_or, List.isEmpty_iff] at hend
        refine ⟨by rw [← hmore, hend, List.append_nil], ⟨pid, inode, bytes.length + chunk.length⟩, ?_⟩
        simp [madeBy]
      · refine ⟨hmore ▸ (List.prefix_append_right_inj bytes).mpr hpart, ?_⟩
        simp [madeBy]
    · exact absurd hanswer (by simp)

/-- **Reading a file leaves nothing behind**, and its digest is that of the bytes under the name. -/
theorem fileDigest_reads (name : String) (w : Scene) :
    Ensures (alone drops pid) (fileDigest sha256 name) w fun result w' =>
      w' = w ∧ ∀ digest, result = .ok digest →
        ∃ bytes, w.view.content name = some bytes ∧ digest = hex (sha256 bytes) := by
  obtain ⟨v, partials, body⟩ := w
  rintro opened w ⟨-, v', hopened, rfl⟩
  rcases opened with err | h
  · obtain rfl := Option.some.inj hopened
    exact ⟨by simp [madeBy], fun _ hok => nomatch hok⟩
  · obtain ⟨inode, hinode, hfree, rfl⟩ := View.openAt_eq_some hopened
    simp only [Prog.ret_bind, madeBy, List.append_nil]
    refine (Ensures.iterate (Q := fun (result : Except IoError String) w =>
        (∀ digest, result = .ok digest → digest = hex (sha256 (v.data inode))) ∧
          ∃ file, w = ⟨v.setOpened h (some file), partials, body⟩)
      (fun bytes w => bytes <+: v.data inode ∧
        w = ⟨v.setOpened h (some ⟨pid, inode, bytes.length⟩), partials, body⟩)
      ⟨List.nil_prefix, rfl⟩ ?_).andThen ?_
    · rintro bytes _ ⟨hread, rfl⟩
      refine (digestTurn_reads hread).mono ?_
      rintro (bytes | (err | digest)) w hturn
      · exact hturn
      · exact ⟨fun _ hok => (nomatch hok), hturn⟩
      · refine ⟨fun _ hok => ?_, hturn.2⟩
        rw [← Except.ok.inj hok]
        exact hturn.1
    · rintro result _ ⟨hdigest, file, rfl⟩ ⟨⟩ w ⟨-, v', hclosed, rfl⟩
      obtain ⟨_, -, rfl⟩ := Option.map_eq_some_iff.mp hclosed
      refine ⟨?_, fun digest hok => ⟨v.data inode, ?_, hdigest digest hok⟩⟩
      · simp only [madeBy, List.append_nil]
        rw [View.setOpened_closed hfree]
      · exact congrArg (Option.map v.data) hinode

/-- The file at the final path can be read, and is not what the request pins. -/
def Stale (sha256 : List UInt8 → List UInt8) (request : PrepareRequest) (v : View) : Prop :=
  ∃ bytes, v.content request.fileName = some bytes ∧ verifies sha256 request bytes = false

/-- What is left of the directory once the lock is about to be given up. -/
def Settles (drops : Prop) (sha256 : List UInt8 → List UInt8) (request : PrepareRequest) (v : View)
    (result : Except String Prepared) (w : Scene) : Prop :=
  match result with
  | .ok prepared => (prepared.alreadyCached = true → w = ⟨v, [], []⟩) ∧
    (prepared.alreadyCached = false → w.view.content request.fileName = some w.body)
  | .error _ => drops → Restored v w ∨
    Restored (v.entry request.fileName none) w ∧ Stale sha256 request v

theorem settles_placed {prepared : Prepared} {w : Scene} (hfresh : prepared.alreadyCached = false)
    (hplaced : w.view.content request.fileName = some w.body) :
    Settles drops sha256 request v (.ok prepared) w :=
  ⟨fun hcached => absurd (hfresh.symm.trans hcached) Bool.false_ne_true, fun _ => hplaced⟩

theorem acquireLocked_settles (timeouts : DownloadTimeouts) :
    Ensures (alone drops pid) (acquireLocked sha256 cacheDir request timeouts) ⟨v, [], []⟩
      (Settles drops sha256 request v) := by
  have hmissing : Ensures (alone drops pid) (acquireMissing sha256 cacheDir request timeouts) ⟨v, [], []⟩
      (Settles drops sha256 request v) := by
    refine (acquireMissing_fetches timeouts).mono ?_
    rintro (message | prepared) w hend
    · exact fun hyes => .inl (hend hyes)
    · exact settles_placed hend.1 hend.2
  rintro there w ⟨-, v', hthere, rfl⟩
  have hsame : v' = v := by
    rcases there with err | there
    · exact (Option.some.inj hthere).symm
    · change (if there = (v.dir request.fileName).isSome then some v else none) = some v' at hthere
      split at hthere
      · exact (Option.some.inj hthere).symm
      · exact absurd hthere (by simp)
  subst hsame
  rcases there with err | (_ | _)
  · exact hmissing
  · exact hmissing
  · simp only [Prog.ret_bind, Prog.pure_eq, if_true, madeBy, List.append_nil]
    refine (fileDigest_reads request.fileName ⟨v', [], []⟩).andThen ?_
    rintro (err | digest) _ ⟨rfl, hread⟩
    · exact fun _ => .inl (restored_refl v')
    · obtain ⟨bytes, hcontent, rfl⟩ := hread digest rfl
      simp only [Prog.bind_eq, Prog.perform, Prog.call_bind, Prog.ret_bind]
      split
      · rintro ⟨⟩ _ rfl
        exact ⟨fun _ => rfl, fun hfresh => nomatch hfresh⟩
      · rename_i hverifies
        have hstale : Stale sha256 request v' := ⟨bytes, hcontent, Bool.eq_false_iff.mpr hverifies⟩
        rintro removed w ⟨-, v'', hremoved, rfl⟩
        rcases removed with err | ⟨⟩
        · obtain rfl := Option.some.inj hremoved
          exact fun _ => .inl (restored_refl v')
        · change (if (v'.dir request.fileName).isSome then
            some (v'.entry request.fileName none) else none) = some v'' at hremoved
          split at hremoved
          · obtain rfl := Option.some.inj hremoved
            refine (acquireMissing_fetches timeouts).mono ?_
            rintro (message | prepared) w hend
            · exact fun hyes => .inr ⟨hend hyes, hstale⟩
            · exact settles_placed hend.1 hend.2
          · exact absurd hremoved (by simp)

theorem holdCacheLock_opens :
    Ensures (alone drops pid) (holdCacheLock cacheDir request) ⟨v, [], []⟩ fun result w =>
      match result with
      | .ok lock => v.opened lock = none ∧
        ∃ file, w = ⟨(v.ensure (lockName request.modelId)).setOpened lock (some file), [], []⟩
      | .error _ => w = ⟨v, [], []⟩ ∨ w = ⟨v.ensure (lockName request.modelId), [], []⟩ := by
  rintro opened w ⟨-, v', hopened, rfl⟩
  rcases opened with err | lock
  · obtain rfl := Option.some.inj hopened
    exact .inl rfl
  · obtain ⟨inode, -, hfree, rfl⟩ := View.openAt_eq_some hopened
    have hlock : v.opened lock = none := (congrFun (View.opened_ensure _) lock).symm.trans hfree
    rintro tried w ⟨-, v', htried, rfl⟩
    rcases tried with err | ⟨⟩
    · obtain rfl := Option.some.inj htried
      rintro ⟨⟩ _ rfl taken w ⟨-, v', htaken, rfl⟩
      rcases taken with err | ⟨⟩
      · obtain rfl := Option.some.inj htaken
        rintro ⟨⟩ w ⟨-, v', hclosed, rfl⟩
        obtain ⟨_, -, rfl⟩ := Option.map_eq_some_iff.mp hclosed
        refine .inr ?_
        rw [View.setOpened_closed hfree]
        rfl
      · obtain rfl := Option.some.inj htaken
        exact ⟨hlock, _, rfl⟩
    · obtain rfl := Option.some.inj htried
      exact ⟨hlock, _, rfl⟩

theorem Restored.closed {w : Scene} {lock : Handle}
    (h : Restored (v.setOpened lock (some file)) w) (hfree : v.opened lock = none) :
    Restored v ⟨w.view.setOpened lock none, w.partials, w.body⟩ where
  same := h.same.closed hfree
  gone := h.gone

/-- Closing the lock's file settles as much. -/
theorem Settles.closed {outcome : Except String Prepared} {w : Scene} {lock : Handle}
    (h : Settles drops sha256 request (v.setOpened lock (some file)) outcome w)
    (hfree : v.opened lock = none) :
    Settles drops sha256 request v outcome ⟨w.view.setOpened lock none, w.partials, w.body⟩ := by
  rcases outcome with message | prepared
  · intro hyes
    rcases h hyes with hrestored | ⟨hrestored, hstale⟩
    · exact .inl (hrestored.closed hfree)
    · exact .inr ⟨Restored.closed (v := v.entry request.fileName none) hrestored hfree, hstale⟩
  · refine ⟨fun hcached => ?_, h.2⟩
    rw [h.1 hcached, View.setOpened_closed hfree]

/-- **What a call settles**: the lock's file may have been made. -/
theorem acquireWithTimeouts_settles (timeouts : DownloadTimeouts) :
    Ensures (alone drops pid) (acquireWithTimeouts sha256 cacheDir request timeouts) ⟨v, [], []⟩
      fun result w => ∃ base, (base = v ∨ base = v.ensure (lockName request.modelId)) ∧
        Settles drops sha256 request base (Prepared.ofCall result) w := by
  rintro made w ⟨-, v', hmade, rfl⟩
  obtain rfl : v' = v := by
    rcases made with err | ⟨⟩
    · exact (Option.some.inj hmade).symm
    · exact (Option.some.inj hmade).symm
  rcases made with err | ⟨⟩
  · rintro ⟨⟩ _ rfl
    exact ⟨v', .inl rfl, fun _ => .inl (restored_refl v')⟩
  · simp only [Prog.ret_bind, madeBy, List.append_nil]
    refine holdCacheLock_opens.andThen ?_
    rintro (message | lock) w hheld
    · rintro ⟨⟩ _ rfl
      rcases hheld with rfl | rfl
      · exact ⟨v', .inl rfl, fun _ => .inl (restored_refl v')⟩
      · exact ⟨_, .inr rfl, fun _ => .inl (restored_refl _)⟩
    · obtain ⟨hfree, file, rfl⟩ := hheld
      simp only [Prog.bind_eq]
      refine (acquireLocked_settles timeouts).andThen ?_
      rintro outcome w hsettles unlocked w' ⟨-, v'', hunlocked, rfl⟩
      obtain rfl : v'' = w.view := by
        rcases unlocked with err | ⟨⟩
        · exact (Option.some.inj hunlocked).symm
        · exact (Option.some.inj hunlocked).symm
      have hclosed := hsettles.closed ((congrFun (View.opened_ensure _) lock).trans hfree)
      rcases outcome with message | prepared
      · rintro ⟨⟩ _ rfl ⟨⟩ w' ⟨-, v'', hclose, rfl⟩
        obtain ⟨_, -, rfl⟩ := Option.map_eq_some_iff.mp hclose
        simp only [madeBy, List.append_nil]
        exact ⟨_, .inr rfl, hclosed⟩
      · rintro ⟨⟩ w' ⟨-, v'', hclose, rfl⟩
        obtain ⟨_, -, rfl⟩ := Option.map_eq_some_iff.mp hclose
        simp only [madeBy, List.append_nil]
        exact ⟨_, .inr rfl, hclosed⟩

/-! ## What is left in the directory -/

/-- What a failed call leaves: no partial file of its own, the file at the final path as it was or,
if that could be read and was wrong, none, everything else as it was but for the lock's file, and
nothing open, so no lock. -/
structure LeavesNothing (sha256 : List UInt8 → List UInt8) (request : PrepareRequest) (pid : ℕ)
    (s s' : Files) (partials : List String) : Prop where
  /-- Its partial files are gone. -/
  partials : ∀ name ∈ partials, s'.inodeAt name = none
  /-- The final path is as it was, or a wrong file is gone from it. -/
  final : s'.inodeAt request.fileName = s.inodeAt request.fileName ∧
      s'.content request.fileName = s.content request.fileName ∨
    s'.content request.fileName = none ∧ ∃ bytes, s.content request.fileName = some bytes ∧
      verifies sha256 request bytes = false
  /-- Every other name is as it was, but for the lock's. -/
  others : ∀ name, name ≠ lockName request.modelId → name ≠ request.fileName →
    s'.inodeAt name = s.inodeAt name ∧ s'.content name = s.content name
  /-- The process has the handles it had. -/
  closed : s'.mine pid = s.mine pid
  /-- It has no lock that it did not have. -/
  unlocked : ∀ h name, s.mine pid h = none → ¬ LockedUnder s' pid h name

/-- The view before the call, but for the lock's file. -/
structure Based (modelId : String) (v base : View) : Prop where
  /-- Every name is as it was, but for the lock's. -/
  dir : ∀ name, name ≠ lockName modelId → base.dir name = v.dir name
  /-- Files that were there have the same bytes. -/
  data : ∀ inode < v.inodes, base.data inode = v.data inode
  /-- There are no fewer files. -/
  inodes : v.inodes ≤ base.inodes
  /-- The same handles are open. -/
  opened : base.opened = v.opened

theorem based_of_base {modelId : String} {base : View}
    (hbase : base = v ∨ base = v.ensure (lockName modelId)) : Based modelId v base := by
  rcases hbase with rfl | rfl
  · exact ⟨fun _ _ => rfl, fun _ _ => rfl, le_refl _, rfl⟩
  · exact ⟨fun _ hne => View.dir_ensure_of_ne hne, fun _ hlt => View.data_ensure hlt _,
      View.inodes_le_ensure _, View.opened_ensure _⟩

/-- A name that has kept its inode leads to the bytes it led to. -/
theorem Based.kept {modelId : String} {s s' : Files} {base : View} {name : String}
    (hbased : Based modelId (s.view pid) base)
    (hdata : ∀ inode < base.inodes, s'.data inode = base.data inode)
    (hinode : s'.inodeAt name = s.inodeAt name) :
    s'.inodeAt name = s.inodeAt name ∧ s'.content name = s.content name := by
  refine ⟨hinode, ?_⟩
  rw [Files.content, Files.content, hinode]
  rcases hname : s.inodeAt name with _ | inode
  · rfl
  · have hlt : inode < (s.view pid).inodes := Files.inodeAt_lt hname
    have hsame : s'.data inode = s.data inode :=
      (hdata inode (lt_of_lt_of_le hlt hbased.inodes)).trans (hbased.data inode hlt)
    exact congrArg some hsame

theorem Based.content {modelId : String} {s : Files} {base : View} {name : String}
    (hbased : Based modelId (s.view pid) base) (hne : name ≠ lockName modelId) :
    base.content name = s.content name := by
  rw [View.content, hbased.dir name hne, Files.content]
  rcases hname : s.inodeAt name with _ | inode
  · exact congrArg (Option.map _) hname
  · have hlt : inode < (s.view pid).inodes := Files.inodeAt_lt hname
    exact (congrArg (Option.map _) hname).trans (congrArg some (hbased.data inode hlt))

/-- A process with nothing open has nothing locked. -/
theorem not_lockedUnder {s s' : Files} (hclosed : s'.mine pid = s.mine pid) {h : Handle}
    (hfree : s.mine pid h = none) (name : String) : ¬ LockedUnder s' pid h name := by
  rintro ⟨file, hfile, howner, -, -⟩
  have hmine : s'.mine pid h = some file := Files.mine_eq_some.mpr ⟨hfile, howner⟩
  rw [hclosed, hfree] at hmine
  exact absurd hmine (by simp)

theorem leavesNothing_of_settles {s s' : Files} {base : View} {partials : List String}
    {body : List UInt8} {message : String} (hname : request.fileName ≠ lockName request.modelId)
    (hbased : Based request.modelId (s.view pid) base)
    (h : Settles True sha256 request base (.error message) ⟨s'.view pid, partials, body⟩) :
    LeavesNothing sha256 request pid s s' partials := by
  rcases h trivial with hrestored | ⟨hrestored, bytes, hcontent, hwrong⟩
  · have hkept : ∀ name, name ≠ lockName request.modelId →
        s'.inodeAt name = s.inodeAt name ∧ s'.content name = s.content name :=
      fun name hne => hbased.kept hrestored.same.data
        ((congrFun hrestored.same.dir name).trans (hbased.dir name hne))
    have hclosed : s'.mine pid = s.mine pid := hrestored.same.opened.trans hbased.opened
    exact ⟨hrestored.gone, .inl (hkept _ hname), fun name hne _ => hkept name hne, hclosed,
      fun h name hfree => not_lockedUnder hclosed hfree name⟩
  · have hclosed : s'.mine pid = s.mine pid := hrestored.same.opened.trans hbased.opened
    refine ⟨hrestored.gone, .inr ⟨?_, bytes, (hbased.content hname).symm.trans hcontent, hwrong⟩,
      fun name hne hother => hbased.kept hrestored.same.data ?_, hclosed,
      fun h name hfree => not_lockedUnder hclosed hfree name⟩
    · have hgone : s'.inodeAt request.fileName = none :=
        (congrFun hrestored.same.dir _).trans (Function.update_self ..)
      rw [Files.content, hgone, Option.map_none]
    · exact ((congrFun hrestored.same.dir name).trans (Function.update_of_ne hother ..)).trans
        (hbased.dir name hne)

/-- **A failed acquisition leaves nothing behind**, whatever has made it fail, unless the final name
is the lock's own; and one that finds the right file in place touches nothing but the lock's
file. -/
theorem acquire_leavesNothing (sha256 : List UInt8 → List UInt8) (cacheDir : String)
    (request : PrepareRequest) (hname : request.fileName ≠ lockName request.modelId) (pid : ℕ)
    (s s' : Files) (t : List (Called prepareSig)) (result : Except PrepareError Prepared)
    (hrun : Prog.Run (acquire sha256 cacheDir request) t result)
    (hsteps : Prog.Steps (undisturbed sha256 cacheDir pid) s t s') (hdrops : DropsPartials t) :
    (∀ err, result = .error err →
      LeavesNothing sha256 request pid s s' (accountOf t).partials) ∧
    ∀ prepared, result = .ok prepared → prepared.alreadyCached = true →
      ∀ name, name ≠ lockName request.modelId →
        s'.inodeAt name = s.inodeAt name ∧ s'.content name = s.content name := by
  obtain ⟨base, hbase, hsettles⟩ := (acquireWithTimeouts_settles (v := s.view pid)
    { downloadTimeouts with total := downloadTotalTimeout request.sizeBytes }).sound hrun
    (steps_alone True hsteps fun _ => hdrops)
  have hbased := based_of_base hbase
  constructor
  · rintro err rfl
    exact leavesNothing_of_settles hname hbased hsettles
  · rintro prepared rfl hcached name hne
    have hview : s'.view pid = base := congrArg Scene.view (hsettles.1 hcached)
    refine hbased.kept (fun inode _ => congrFun (congrArg View.data hview) inode) ?_
    exact (congrFun (congrArg View.dir hview) name).trans (hbased.dir name hne)

end

theorem dropsPartials_of_forall {t : List (Called prepareSig)}
    (h : ∀ call ∈ t, ∀ partials, Drops partials call.op call.ret) : DropsPartials t := by
  rintro front call back rfl
  exact h call (by simp) _

/-! ## A connection that breaks -/

/-- A model of one byte. -/
def oneByteModel : PrepareRequest := ⟨"m", "m.gguf", "u", "", 1⟩

/-- The message of a body that cannot be read to its end. -/
def brokenMessage : String := "cannot read " ++ oneByteModel.sourceUrl ++ ": " ++ "reset" ++ "; retry prepare"

/-- The connection breaks before the byte is there. -/
def brokenCalls : List (Called prepareSig) :=
  [⟨.file .createDirAll, .ok ()⟩, ⟨.file (.openOrCreate (lockName "m")), .ok 0⟩,
    ⟨.file (.tryLock 0), .ok ()⟩, ⟨.file (.pathExists "m.gguf"), .ok false⟩,
    ⟨.file .availableSpace, .ok 1⟩,
    ⟨.openRequest "u" { downloadTimeouts with total := downloadTotalTimeout 1 }, ()⟩,
    ⟨.awaitResponse, .ok none⟩,
    ⟨.file (.createTemp (partialPrefix "m") partialSuffix), .ok ("abcdef", 1)⟩,
    ⟨.emit (.progress "m" 0 1), ()⟩, ⟨.readBody copyChunkBytes, .error "reset"⟩,
    ⟨.file (.remove (Files.tempName (partialPrefix "m") "abcdef" partialSuffix)), .ok ()⟩,
    ⟨.file (.close 1), ()⟩, ⟨.file (.unlock 0), .ok ()⟩,
    ⟨.emit (.error "m" brokenMessage (some (finalPath "c" oneByteModel)) (some "u")), ()⟩,
    ⟨.file (.close 0), ()⟩]

theorem brokenCalls_run : Prog.Run (acquire (fun _ => []) "c" oneByteModel) brokenCalls
    (.error ⟨brokenMessage⟩) :=
  .call <| .call <| .call <| .call <| .call <| .call <| .call <| .call <| .call <| .loop <| .call <|
    .call <| .call <| .call <| .call <| .call <| .ret _

theorem brokenCalls_steps :
    ∃ s', Prog.Steps (undisturbed (fun _ => []) "c" 0) .empty brokenCalls s' :=
  ⟨_, .cons ⟨_, rfl, rfl⟩ <| .cons ⟨_, rfl, rfl⟩ <| .cons ⟨_, rfl, rfl⟩ <|
    .cons ⟨_, rfl, rfl⟩ <| .cons ⟨_, rfl, rfl⟩ <| .cons ⟨_, rfl, rfl⟩ <| .cons ⟨_, rfl, rfl⟩ <|
    .cons ⟨_, rfl, rfl⟩ <| .cons ⟨_, rfl, rfl⟩ <| .cons ⟨_, rfl, rfl⟩ <| .cons ⟨_, rfl, rfl⟩ <|
    .cons ⟨_, rfl, rfl⟩ <| .cons ⟨_, rfl, rfl⟩ <| .cons ⟨_, rfl, rfl⟩ <| .cons ⟨_, rfl, rfl⟩ <|
    .nil _⟩

theorem brokenCalls_drops : DropsPartials brokenCalls :=
  dropsPartials_of_forall (by simp [brokenCalls, Drops])

/-- The partial file that was made is gone. -/
theorem acquire_leavesNothing_brokenCalls : ∃ s',
    Prog.Steps (undisturbed (fun _ => []) "c" 0) .empty brokenCalls s' ∧
      (accountOf brokenCalls).partials =
        [Files.tempName (partialPrefix "m") "abcdef" partialSuffix] ∧
      LeavesNothing (fun _ => []) oneByteModel 0 .empty s' (accountOf brokenCalls).partials := by
  obtain ⟨s', hsteps⟩ := brokenCalls_steps
  refine ⟨s', hsteps, rfl, ?_⟩
  exact (acquire_leavesNothing (fun _ => []) "c" oneByteModel (by decide) 0 .empty s' brokenCalls _
    brokenCalls_run hsteps brokenCalls_drops).1 _ rfl

/-! ## A final name that is the lock's -/

/-- The file of the model is to have the name of its lock. -/
def lockModel : PrepareRequest := ⟨"m", lockName "m", "u", "", 1⟩

/-- The message of a lock that cannot be taken. -/
def unlockableMessage : String :=
  "cannot take the cache lock " ++ join "c" (lockName lockModel.modelId) ++ ": " ++ "no locks"

/-- The lock's file is made, and cannot be locked. -/
def unlockableCalls : List (Called prepareSig) :=
  [⟨.file .createDirAll, .ok ()⟩, ⟨.file (.openOrCreate (lockName "m")), .ok 0⟩,
    ⟨.file (.tryLock 0), .error ⟨false, "no locks"⟩⟩, ⟨.emit (.waiting "m"), ()⟩,
    ⟨.file (.lock 0), .error ⟨false, "no locks"⟩⟩, ⟨.file (.close 0), ()⟩,
    ⟨.emit (.error "m" unlockableMessage (some (finalPath "c" lockModel)) (some "u")), ()⟩]

theorem unlockableCalls_run : Prog.Run (acquire (fun _ => []) "c" lockModel) unlockableCalls
    (.error ⟨unlockableMessage⟩) :=
  .call <| .call <| .call <| .call <| .call <| .call <| .call <| .ret _

theorem unlockableCalls_steps : ∃ s',
    Prog.Steps (undisturbed (fun _ => []) "c" 0) .empty unlockableCalls s' ∧
      s'.content (lockName "m") = some [] :=
  ⟨_, .cons ⟨_, rfl, rfl⟩ <| .cons ⟨_, rfl, rfl⟩ <| .cons ⟨_, rfl, rfl⟩ <|
    .cons ⟨_, rfl, rfl⟩ <| .cons ⟨_, rfl, rfl⟩ <| .cons ⟨_, rfl, rfl⟩ <| .cons ⟨_, rfl, rfl⟩ <|
    .nil _, rfl⟩

/-- There the final path has a file after a failed call that was not there before. -/
theorem not_leavesNothing_lockModel : ¬ ∀ (request : PrepareRequest) (s s' : Files)
    (t : List (Called prepareSig)) (err : PrepareError),
    Prog.Run (acquire (fun _ => []) "c" request) t (.error err) →
      Prog.Steps (undisturbed (fun _ => []) "c" 0) s t s' → DropsPartials t →
        LeavesNothing (fun _ => []) request 0 s s' (accountOf t).partials := by
  intro hall
  obtain ⟨s', hsteps, hcontent⟩ := unlockableCalls_steps
  have hleaves := hall lockModel .empty s' unlockableCalls _ unlockableCalls_run hsteps
    (dropsPartials_of_forall (by simp [unlockableCalls, Drops]))
  have hbefore : Files.empty.content (lockName "m") = none := rfl
  rcases hleaves.final with ⟨-, hsame⟩ | ⟨-, bytes, hstale, -⟩
  · exact absurd (hcontent.symm.trans (hsame.trans hbefore)) (by simp)
  · exact absurd (hbefore.symm.trans hstale) (by simp)

end SemanticSidecar
