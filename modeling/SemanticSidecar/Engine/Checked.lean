import SemanticSidecar.EngineTrait
import SemanticSidecar.Lib.Ensures
import SemanticSidecar.Prepare.Settled

/-!
# The check of a model before it is loaded

`load_with_policy` reads a cached model once to compare its digest with the pinned one, and the
weights are loaded from the same path afterwards: by this process, and by the workers its
benchmarks start.  In between any number of `prepare` processes may be at work in the directory.

`check_dependable` is why that is sound.  The process here is not one of theirs: it takes no lock,
and others get as far as they like before each of its calls.  When the check succeeds, whoever
opens the path from then on gets a file with the pinned digest, and one that does not change while
it is being read.  When it fails, a call of it failed or the right file was not there at some
moment of it, so it does not refuse a file that was right all along.
-/

set_option autoImplicit false

namespace SemanticSidecar

open Prog (perform Ensures)

/-! ## The program -/

/-- The calls of the check; all of them are about one path. -/
inductive CheckOp where
  /-- `Path::is_file` looks at the path. -/
  | metadata
  /-- The file is opened. -/
  | openRead
  /-- The next bytes of the file, at most so many; none at its end. -/
  | read (limit : ℕ)
  /-- The file is closed. -/
  | close

/-- What a call is answered with; of a path that leads nowhere it is known that it is no file. -/
@[reducible] def CheckOp.Ret : CheckOp → Type
  | .metadata => Except Files.Error Bool
  | .openRead => Except Files.Error Unit
  | .read _ => Except Files.Error (List UInt8)
  | .close => Unit

/-- The calls of the check. -/
@[reducible] def checkSig : Sig := ⟨CheckOp, CheckOp.Ret⟩

/-- A call of the check. -/
def checks (o : CheckOp) : Prog checkSig o.Ret := perform (S := checkSig) o

/-- `DIGEST_CHUNK_BYTES`. -/
def digestChunkBytes : ℕ := 1024 * 1024

namespace LlamaEngine

/-- `Path::is_file`: whatever keeps it from finding out is a no. -/
def isFile : Prog checkSig Bool := do
  match ← checks .metadata with
  | .ok there => return there
  | .error _ => return false

section

variable (sha256 : List UInt8 → List UInt8)

/-- One turn of the loop of `file_digest`, with the bytes read so far. -/
def digestTurn (bytes : List UInt8) : Prog checkSig (List UInt8 ⊕ Except Files.Error String) := do
  match ← checks (.read digestChunkBytes) with
  | .error err => return .inr (.error err)
  | .ok chunk =>
    if chunk.isEmpty then return .inr (.ok (hex (sha256 bytes)))
    else return .inl (bytes ++ chunk)

/-- The digest of the file, in pieces; the file is closed however that ends. -/
def fileDigest : Prog checkSig (Except Files.Error String) := do
  match ← checks .openRead with
  | .error err => return .error err
  | .ok () =>
    let digest ← Prog.iterate (digestTurn sha256) []
    checks .close
    return digest

/-- `verify_cached_digest`. -/
def verifyCachedDigest (path expected : String) : Prog checkSig (Except EngineError Unit) := do
  match ← fileDigest sha256 with
  | .error err =>
    return .error (.new "ModelNotPrepared"
      ("cannot read " ++ path ++ " to verify its digest: " ++ err.text))
  | .ok actual =>
    if eqIgnoreAsciiCase actual expected then return .ok ()
    else
      return .error (.new "ModelNotPrepared"
        (path ++ " does not match its pinned digest: expected sha256 " ++ expected ++ ", found " ++
          actual ++ "; delete it and re-run `prepare`"))

/-- What `load_with_policy` does before it loads anything. -/
def checkCached (path expected : String) : Prog checkSig (Except EngineError Unit) := do
  if ← isFile then verifyCachedDigest sha256 path expected
  else return .error (.new "ModelNotPrepared" (path ++ " is not in the cache; run `prepare`"))

end

end LlamaEngine

/-! ## Its surroundings -/

/-- A file as a process has it open, after a call that got this answer while the directory was as
given. -/
def CheckOp.Answers (pid : ℕ) (name : String) (s : Files) (file : Option OpenFile) (o : CheckOp)
    (r : o.Ret) (file' : Option OpenFile) : Prop :=
  match o, r with
  | .metadata, .ok there => there = (s.inodeAt name).isSome ∧ file' = file
  | .openRead, .ok () => ∃ inode, s.inodeAt name = some inode ∧ file' = some ⟨pid, inode, 0⟩
  | .read limit, .ok bytes => ∃ opened, file = some opened ∧ s.Reads opened limit bytes = true ∧
      file' = some ⟨opened.owner, opened.inode, opened.position + bytes.length⟩
  | .close, () => file' = none
  | _, _ => file' = file

/-- The call failed. -/
def CheckOp.fails (o : CheckOp) (r : o.Ret) : Bool :=
  match o, r with
  | .metadata, .error _ | .openRead, .error _ | .read _, .error _ => true
  | _, _ => false

section

variable (sha256 : List UInt8 → List UInt8) (cacheDir : String) (mix : PrepareRequest → Bool)
  (cache : Files)

/-- The process that checks, among those that prepare. -/
structure Checking where
  /-- The processes that prepare, and the directory they share. -/
  others : (cacheMachine sha256 cacheDir mix cache).Config
  /-- The file it has open. -/
  file : Option OpenFile
  /-- A call of its own has failed. -/
  failed : Bool

/-- What the others can do. -/
def Goes (c c' : (cacheMachine sha256 cacheDir mix cache).Config) : Prop :=
  Relation.ReflTransGen (cacheMachine sha256 cacheDir mix cache).Step c c'

/-- The others go on as they like before each call. -/
def beside (pid : ℕ) (name : String) : Prog.Env checkSig (Checking sha256 cacheDir mix cache) :=
  fun w o r w' => Goes sha256 cacheDir mix cache w.others w'.others ∧
    o.Answers pid name w'.others.shared w.file r w'.file ∧ w'.failed = (w.failed || o.fails r)

end

/-- The file under the final path is the one that is pinned. -/
def IsRight (sha256 : List UInt8 → List UInt8) (q : PrepareRequest) (s : Files) : Prop :=
  ∃ bytes, s.content q.fileName = some bytes ∧ verifies sha256 q bytes = true

section

variable {sha256 : List UInt8 → List UInt8} {cacheDir : String} {mix : PrepareRequest → Bool}
  {cache : Files}

/-- **Whoever opens the final path from now on** gets a file that is right and stays as it is. -/
def Dependable (c : (cacheMachine sha256 cacheDir mix cache).Config) (q : PrepareRequest) : Prop :=
  ∀ opening, Goes sha256 cacheDir mix cache c opening →
    ∃ inode, opening.shared.inodeAt q.fileName = some inode ∧
      verifies sha256 q (opening.shared.data inode) = true ∧
      ∀ reading, Goes sha256 cacheDir mix cache opening reading →
        reading.shared.data inode = opening.shared.data inode

/-- What the check has to say for itself: with a file that may be loaded, or without. -/
def Checked (q : PrepareRequest) (before after : Checking sha256 cacheDir mix cache) :
    Except EngineError Unit → Prop
  | .ok () => Dependable after.others q
  | .error err => err.kind = "ModelNotPrepared" ∧
      (after.failed = true ∨ ∃ moment, Goes sha256 cacheDir mix cache before.others moment ∧
        Goes sha256 cacheDir mix cache moment after.others ∧ ¬ IsRight sha256 q moment.shared)

variable {q : PrepareRequest} {c c' : (cacheMachine sha256 cacheDir mix cache).Config}

/-! ## A file that is right can be depended on -/

/-- A right file stays right. -/
theorem isRight_kept (hunique : UniqueNames mix) (hplain : PlainNames mix) (hq : mix q = true)
    (h : (cacheMachine sha256 cacheDir mix cache).Reachable c)
    (hgoes : Goes sha256 cacheDir mix cache c c') (hright : IsRight sha256 q c.shared) :
    IsRight sha256 q c'.shared :=
  (run_finalKept hunique hplain h hgoes hq).1.right hright

theorem dependable_of_isRight (hunique : UniqueNames mix) (hplain : PlainNames mix)
    (hq : mix q = true) (h : (cacheMachine sha256 cacheDir mix cache).Reachable c)
    (hright : IsRight sha256 q c.shared) : Dependable c q := by
  intro opening hopening
  have hreach := (run_finalKept hunique hplain h hopening hq).2
  obtain ⟨bytes, hcontent, hverifies⟩ := isRight_kept hunique hplain hq h hopening hright
  obtain ⟨inode, hinode, rfl⟩ := Files.content_eq_some.mp hcontent
  exact ⟨inode, hinode, hverifies, fun reading hreading =>
    (run_everFinal hplain hreach hreading (.inr ⟨q, hq, hinode⟩)).2.1⟩

/-! ## The check -/

/-- The file the check has open, after these bytes: it was under the final path at a moment of the
check, and it is as it was then. -/
structure Reading (q : PrepareRequest) (before w : Checking sha256 cacheDir mix cache)
    (moment : (cacheMachine sha256 cacheDir mix cache).Config) (opened : OpenFile)
    (bytes : List UInt8) : Prop where
  /-- The file is the one the process has open. -/
  file : w.file = some opened
  /-- The moment came after the check had begun. -/
  since : Goes sha256 cacheDir mix cache before.others moment
  /-- The moment has passed. -/
  until' : Goes sha256 cacheDir mix cache moment w.others
  /-- The file was under the final path at that moment. -/
  final : moment.shared.inodeAt q.fileName = some opened.inode
  /-- What has been read is the beginning of what was in the file then. -/
  bytes : bytes = (moment.shared.data opened.inode).take opened.position

variable {pid : ℕ} {before w w' : Checking sha256 cacheDir mix cache}
  {moment : (cacheMachine sha256 cacheDir mix cache).Config} {opened : OpenFile}
  {bytes : List UInt8}

/-- What is read is from the file as it was when it was opened. -/
theorem Reading.data (hunique : UniqueNames mix) (hplain : PlainNames mix) (hq : mix q = true)
    (hstart : (cacheMachine sha256 cacheDir mix cache).Reachable before.others)
    (h : Reading q before w moment opened bytes)
    (hgoes : Goes sha256 cacheDir mix cache w.others w'.others) :
    w'.others.shared.data opened.inode = moment.shared.data opened.inode := by
  have hreach := (run_finalKept hunique hplain hstart h.since hq).2
  have hgoes' := h.until'.trans hgoes
  exact (run_everFinal hplain hreach hgoes' (.inr ⟨q, hq, h.final⟩)).2.1

/-- At the end of the file it has been read in full. -/
theorem Reading.ends (hunique : UniqueNames mix) (hplain : PlainNames mix) (hq : mix q = true)
    (hstart : (cacheMachine sha256 cacheDir mix cache).Reachable before.others)
    (h : Reading q before w moment opened bytes)
    (hgoes : Goes sha256 cacheDir mix cache w.others w'.others) {limit : ℕ}
    (hreads : w'.others.shared.Reads opened limit [] = true) :
    moment.shared.content q.fileName = some bytes := by
  have hdata := h.data hunique hplain hq hstart hgoes
  have hend : (moment.shared.data opened.inode).drop opened.position = [] := by
    simpa [Files.Reads, hdata] using hreads
  refine Files.content_eq_some.mpr ⟨opened.inode, h.final, ?_⟩
  rw [h.bytes, List.take_of_length_le (List.drop_eq_nil_iff.mp hend)]

/-- Reading on. -/
theorem Reading.goesOn (hunique : UniqueNames mix) (hplain : PlainNames mix) (hq : mix q = true)
    (hstart : (cacheMachine sha256 cacheDir mix cache).Reachable before.others)
    (h : Reading q before w moment opened bytes)
    (hgoes : Goes sha256 cacheDir mix cache w.others w'.others) {limit : ℕ} {chunk : List UInt8}
    (hreads : w'.others.shared.Reads opened limit chunk = true)
    (hfile : w'.file = some ⟨opened.owner, opened.inode, opened.position + chunk.length⟩) :
    Reading q before w' moment ⟨opened.owner, opened.inode, opened.position + chunk.length⟩
      (bytes ++ chunk) := by
  have hdata := h.data hunique hplain hq hstart hgoes
  simp only [Files.Reads, hdata, Bool.and_eq_true, List.isPrefixOf_iff_prefix] at hreads
  obtain ⟨⟨⟨rest, hrest⟩, -⟩, -⟩ := hreads
  refine ⟨hfile, h.since, h.until'.trans hgoes, h.final, ?_⟩
  show bytes ++ chunk = (moment.shared.data opened.inode).take (opened.position + chunk.length)
  rw [List.take_add, ← h.bytes, ← hrest, List.take_left]

/-- How the reading of a file ends: with the digest of what was under the path at some moment, or
with a call that failed. -/
def Digested (q : PrepareRequest) (before w : Checking sha256 cacheDir mix cache) :
    Except Files.Error String → Prop
  | .ok digest => ∃ moment bytes, Goes sha256 cacheDir mix cache before.others moment ∧
      Goes sha256 cacheDir mix cache moment w.others ∧
      moment.shared.content q.fileName = some bytes ∧ digest = hex (sha256 bytes)
  | .error _ => w.failed = true

/-- The others go on, and what has been found out goes on to be so. -/
theorem Digested.goesOn {result : Except Files.Error String} (h : Digested q before w result)
    (hgoes : Goes sha256 cacheDir mix cache w.others w'.others) {failed : Bool}
    (hfailed : w'.failed = (w.failed || failed)) : Digested q before w' result := by
  rcases result with err | digest
  · have hfail : w.failed = true := h
    show w'.failed = true
    rw [hfailed, hfail, Bool.true_or]
  · obtain ⟨moment, bytes, hsince, huntil, hrest⟩ := h
    exact ⟨moment, bytes, hsince, huntil.trans hgoes, hrest⟩

/-- **The digest is that of the file as it was at one moment**, though it is read in pieces. -/
theorem fileDigest_ensures (hunique : UniqueNames mix) (hplain : PlainNames mix)
    (hq : mix q = true) (hstart : (cacheMachine sha256 cacheDir mix cache).Reachable before.others)
    (hbefore : Goes sha256 cacheDir mix cache before.others w.others) :
    Ensures (beside sha256 cacheDir mix cache pid q.fileName) (LlamaEngine.fileDigest sha256) w
      fun result w' => Digested q before w' result := by
  rintro (err | ⟨⟩) w₁ ⟨hgoes, hanswer, hfailed⟩
  · show w₁.failed = true
    rw [hfailed]
    exact Bool.or_true _
  obtain ⟨inode, hinode, hfile⟩ := hanswer
  simp only [Prog.ret_bind]
  refine Ensures.andThen (Ensures.iterate (fun bytes w => ∃ moment opened,
    Reading q before w moment opened bytes) ⟨w₁.others, ⟨pid, inode, 0⟩, ?_⟩ ?_)
    (R := fun result w => Digested q before w result) ?_
  · exact ⟨hfile, hbefore.trans hgoes, .refl, hinode, rfl⟩
  · rintro bytes w₂ ⟨moment, opened, hreading⟩ (err | chunk) w₃ ⟨hgoes, hanswer, hfailed⟩
    · show w₃.failed = true
      rw [hfailed]
      exact Bool.or_true _
    · obtain ⟨opened', hopened', hreads, hfile⟩ := hanswer
      cases hreading.file.symm.trans hopened'
      simp only [Prog.ret_bind]
      split
      · rename_i hempty
        rw [List.isEmpty_iff.mp hempty] at hreads
        exact ⟨moment, bytes, hreading.since, hreading.until'.trans hgoes,
          hreading.ends hunique hplain hq hstart hgoes hreads, rfl⟩
      · exact ⟨moment, _, hreading.goesOn hunique hplain hq hstart hgoes hreads hfile⟩
  · rintro result w₂ hresult ⟨⟩ w₃ ⟨hgoes, -, hfailed⟩
    exact hresult.goesOn hgoes hfailed

theorem checkCached_ensures (hunique : UniqueNames mix) (hplain : PlainNames mix)
    (hq : mix q = true) (hreach : (cacheMachine sha256 cacheDir mix cache).Reachable w.others) :
    Ensures (beside sha256 cacheDir mix cache pid q.fileName)
      (LlamaEngine.checkCached sha256 (finalPath cacheDir q) q.sha256) w
      fun result w' => Checked q w w' result := by
  rintro (err | there) w₁ ⟨hgoes, hanswer, hfailed⟩
  · refine ⟨rfl, .inl ?_⟩
    rw [hfailed]
    exact Bool.or_true _
  obtain ⟨hthere, -⟩ := hanswer
  rcases there with _ | _
  · refine ⟨rfl, .inr ⟨w₁.others, hgoes, .refl, ?_⟩⟩
    rintro ⟨bytes, hcontent, -⟩
    obtain ⟨inode, hinode, -⟩ := Files.content_eq_some.mp hcontent
    rw [hinode] at hthere
    cases hthere
  show Ensures _ (LlamaEngine.verifyCachedDigest sha256 _ _) w₁ _
  refine Ensures.andThen (fileDigest_ensures hunique hplain hq hreach hgoes) ?_
  rintro (err | digest) w₂ hdigested
  · exact ⟨rfl, .inl hdigested⟩
  obtain ⟨moment, bytes, hsince, huntil, hcontent, rfl⟩ := hdigested
  have hmoment := (run_finalKept hunique hplain hreach hsince hq).2
  have hlater := (run_finalKept hunique hplain hmoment huntil hq).2
  dsimp only
  split
  · rename_i hverifies
    have hright : IsRight sha256 q moment.shared := ⟨bytes, hcontent, hverifies⟩
    exact dependable_of_isRight hunique hplain hq hlater
      (isRight_kept hunique hplain hq hmoment huntil hright)
  · rename_i hwrong
    refine ⟨rfl, .inr ⟨moment, hsince, huntil, ?_⟩⟩
    rintro ⟨bytes', hcontent', hverifies⟩
    cases hcontent.symm.trans hcontent'
    exact hwrong hverifies

/-- **The check leaves no gap between itself and the load**, and does not refuse what was right all
along. -/
theorem check_dependable (hunique : UniqueNames mix) (hplain : PlainNames mix) (hq : mix q = true)
    (pid : ℕ) (w : Checking sha256 cacheDir mix cache)
    (hreach : (cacheMachine sha256 cacheDir mix cache).Reachable w.others) :
    Ensures (beside sha256 cacheDir mix cache pid q.fileName)
      (LlamaEngine.checkCached sha256 (finalPath cacheDir q) q.sha256) w fun result w' =>
        Checked q w w' result ∧
          (IsRight sha256 q w.others.shared → w'.failed = false → result = .ok ()) := by
  refine (checkCached_ensures hunique hplain hq hreach).mono fun result w' hchecked => ?_
  refine ⟨hchecked, fun hright hcalls => ?_⟩
  rcases result with err | ⟨⟩
  · obtain ⟨-, hfailed | ⟨moment, hsince, -, hwrong⟩⟩ := hchecked
    · cases hcalls.symm.trans hfailed
    · exact absurd (isRight_kept hunique hplain hq hreach hsince hright) hwrong
  · rfl

end

/-! ## A check with a download in the middle of it -/

/-- Processes that prepare a model of one byte; what is in the cache has none. -/
@[reducible] def emptyFileMachine : Machine prepareSig PrepareJob PrepareResult :=
  cacheMachine byteSum "c" (only summedModel) (Files.empty.create "m.gguf")

/-- A run goes on from where it has got to. -/
theorem Goes.rest {c c' : emptyFileMachine.Config} (_ : Goes _ _ _ _ c c') : Goes _ _ _ _ c' c' :=
  .refl

set_option maxRecDepth 4000 in
/-- A process finds that the file is wrong, removes it and downloads the right one. -/
theorem emptyFile_replaced :
    ∃ placed : emptyFileMachine.Config,
      Goes byteSum "c" (only summedModel) _ emptyFileMachine.start₀ placed ∧
      placed.shared.inodeAt "m.gguf" = some 2 ∧
      ∃ finished : emptyFileMachine.Config,
        Goes byteSum "c" (only summedModel) _ placed finished ∧
        finished.shared.data 2 = [0x61] ∧
        .finished 0 (.acquired (.ok ⟨"c/m.gguf", false⟩)) ∈ finished.log := by
  have started := Relation.ReflTransGen.single
    (Machine.Step.start (M := emptyFileMachine) (c := emptyFileMachine.start₀) 0
      (.acquire summedModel) rfl rfl)
  have made := started.tail (.call 0 (Except.ok () : Except Files.Error Unit) rfl rfl)
  have opened := made.tail (.call 0 (Except.ok 0 : Except Files.Error Handle) rfl rfl)
  have locked := opened.tail (.call 0 (Except.ok () : Except Files.Error Unit) rfl rfl)
  have there := locked.tail (.call 0 (Except.ok true : Except Files.Error Bool) rfl rfl)
  have opened := there.tail (.call 0 (Except.ok 1 : Except Files.Error Handle) rfl rfl)
  have hashed := (opened.tail (.turn 0 rfl)).tail
    (.call 0 (Except.ok [] : Except Files.Error (List UInt8)) rfl rfl)
  have closed := hashed.tail (.call 0 () rfl rfl)
  have removed := closed.tail (.call 0 (Except.ok () : Except Files.Error Unit) rfl rfl)
  have fits := removed.tail (.call 0 (Except.ok 1 : Except Files.Error UInt64) rfl rfl)
  have asked := fits.tail (.call 0 () rfl rfl)
  have offered := asked.tail (.call 0 (Except.ok none : Except String (Option UInt64)) rfl rfl)
  have filling := offered.tail
    (.call 0 (Except.ok ("abcdef", 2) : Except Files.Error (String × Handle)) rfl rfl)
  have begun := (filling.tail (.call 0 () rfl rfl)).tail (.turn 0 rfl)
  have read := begun.tail (.call 0 (Except.ok [0x61] : Except String (List UInt8)) rfl rfl)
  have written := read.tail (.call 0 (Except.ok () : Except WriteError Unit) rfl rfl)
  have copying := (written.tail (.call 0 false rfl rfl)).tail (.turn 0 rfl)
  have copied := copying.tail (.call 0 (Except.ok [] : Except String (List UInt8)) rfl rfl)
  have flushed := copied.tail (.call 0 (Except.ok () : Except Files.Error Unit) rfl rfl)
  have reported := flushed.tail (.call 0 () rfl rfl)
  have renamed := reported.tail (.call 0 (Except.ok () : Except Files.Error Unit) rfl rfl)
  have closed := (Goes.rest renamed).tail (.call 0 () rfl rfl)
  have done := closed.tail (.call 0 () rfl rfl)
  have unlocked := done.tail (.call 0 (Except.ok () : Except Files.Error Unit) rfl rfl)
  have left := unlocked.tail (.call 0 () rfl rfl)
  have finished := left.tail (.finish 0 rfl)
  exact ⟨_, renamed, rfl, _, finished, rfl, List.mem_cons_self⟩

/-- The check begins with a wrong file and opens the right one, which it finds to be right. -/
theorem check_dependable_replaced :
    ∃ finished : emptyFileMachine.Config,
      .finished 0 (.acquired (.ok ⟨"c/m.gguf", false⟩)) ∈ finished.log ∧
        Dependable finished summedModel := by
  obtain ⟨placed, hplaced, hinode, finished, hfinished, hdata, hlog⟩ := emptyFile_replaced
  have hrun : Prog.Run (LlamaEngine.checkCached byteSum "c/m.gguf" "61")
      [⟨.metadata, .ok true⟩, ⟨.openRead, .ok ()⟩, ⟨.read digestChunkBytes, .ok [0x61]⟩,
        ⟨.read digestChunkBytes, .ok []⟩, ⟨.close, ()⟩] (.ok ()) :=
    .call (.call (.loop (.call (.loop (.call (.call (.ret _)))))))
  have hreads : finished.shared.Reads ⟨1, 2, 0⟩ digestChunkBytes [0x61] = true := by
    simp [Files.Reads, hdata, digestChunkBytes]
  have hends : finished.shared.Reads ⟨1, 2, 1⟩ digestChunkBytes [] = true := by
    simp [Files.Reads, hdata]
  have hopened : beside byteSum "c" (only summedModel) _ 1 "m.gguf"
      ⟨emptyFileMachine.start₀, none, false⟩ .openRead (.ok ()) ⟨placed, some ⟨1, 2, 0⟩, false⟩ :=
    ⟨hplaced, ⟨2, hinode, rfl⟩, rfl⟩
  have hread : beside byteSum "c" (only summedModel) _ 1 "m.gguf" ⟨placed, some ⟨1, 2, 0⟩, false⟩
      (.read digestChunkBytes) (.ok [0x61]) ⟨finished, some ⟨1, 2, 1⟩, false⟩ :=
    ⟨hfinished, ⟨_, rfl, hreads, rfl⟩, rfl⟩
  have hended : beside byteSum "c" (only summedModel) _ 1 "m.gguf"
      ⟨finished, some ⟨1, 2, 1⟩, false⟩ (.read digestChunkBytes) (.ok [])
      ⟨finished, some ⟨1, 2, 1⟩, false⟩ := ⟨.refl, ⟨_, rfl, hends, rfl⟩, rfl⟩
  have hclosed : beside byteSum "c" (only summedModel) _ 1 "m.gguf"
      ⟨finished, some ⟨1, 2, 1⟩, false⟩ .close () ⟨finished, none, false⟩ := ⟨.refl, rfl, rfl⟩
  have hsteps : Prog.Steps (beside byteSum "c" (only summedModel) _ 1 "m.gguf")
      ⟨emptyFileMachine.start₀, none, false⟩
      [⟨.metadata, .ok true⟩, ⟨.openRead, .ok ()⟩, ⟨.read digestChunkBytes, .ok [0x61]⟩,
        ⟨.read digestChunkBytes, .ok []⟩, ⟨.close, ()⟩] ⟨finished, none, false⟩ :=
    .cons ⟨.refl, ⟨rfl, rfl⟩, rfl⟩ <| .cons hopened <| .cons hread <| .cons hended <|
      .cons hclosed (.nil _)
  have hensures := check_dependable (q := summedModel) (only_unique _) summedModel_plain rfl 1
    ⟨emptyFileMachine.start₀, none, false⟩ .start
  exact ⟨finished, hlog, (hensures.sound hrun hsteps).1⟩

end SemanticSidecar
