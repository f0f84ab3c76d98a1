import SemanticSidecar.Lib.Files
import SemanticSidecar.Lib.Json
import SemanticSidecar.Lib.Pool
import SemanticSidecar.Manifest

/-!
# `prepare`: model acquisition into the shared cache

`acquire` makes a model present and verified in the cache directory: it takes the model's cache
lock, looks at what is there, and downloads into a partial file that is renamed to the final name
once its digest is right.  `cleanStalePartials` removes what killed downloads left behind.  Both
are programs over the calls of `Lib/Files`, the HTTP client, the clock and the event sink, and
`cacheMachine` runs any number of them on one cache directory.

Every path the program uses is an entry of the cache directory, so a path is the entry's name here
and `join` puts the directory in front of it where a text shows it.  SHA-256 is a parameter, and a
hasher is the bytes it has been fed.
-/

set_option autoImplicit false

namespace SemanticSidecar

open Prog (perform)

/-! ## Names -/

/-- `PARTIAL_PREFIX`: leading component of a partial-download file name. -/
def partialPrefixText : String := ".julie-prepare-"

/-- `PARTIAL_SUFFIX`: trailing component of a partial-download file name. -/
def partialSuffix : String := ".partial"

/-- File-name prefix a live download uses for a model. -/
def partialPrefix (modelId : String) : String := partialPrefixText ++ modelId ++ "."

/-- `str::starts_with`. -/
def startsWith (text before : String) : Bool := before.toList.isPrefixOf text.toList

/-- `str::ends_with`. -/
def endsWith (text after : String) : Bool := after.toList.isSuffixOf text.toList

/-- The text before and after the last occurrence of a character. -/
def rsplitOnce (sep : Char) (text : List Char) : Option (List Char × List Char) :=
  let after := text.reverse.takeWhile (· != sep)
  match text.reverse.dropWhile (· != sep) with
  | [] => none
  | _ :: before => some (before.reverse, after.reverse)

/-- The text without what it begins with. -/
def stripPrefix (before text : List Char) : Option (List Char) :=
  if before.isPrefixOf text then some (text.drop before.length) else none

/-- The text without what it ends with. -/
def stripSuffix (after text : List Char) : Option (List Char) :=
  if after.isSuffixOf text then some (text.take (text.length - after.length)) else none

/-- The model a partial file belongs to. -/
def modelOfPartial (name : String) : Option String := do
  let inner ← stripPrefix partialPrefixText.toList name.toList
  let inner ← stripSuffix partialSuffix.toList inner
  let (modelId, random) ← rsplitOnce '.' inner
  if !modelId.isEmpty && !random.isEmpty then some (String.ofList modelId) else none

/-- The name of a file without its extension. -/
def fileStem (name : String) : String :=
  match rsplitOnce '.' name.toList with
  | some (stem, _) => if stem.isEmpty then name else String.ofList stem
  | none => name

/-- A file of the cache directory, as a text shows it.  This is `Path::join` with a plain name on
Unix; on Windows the text has a backslash where this one has a slash (`PrepareEnv.join`).  Such a
text is only shown, in messages and events: no call takes one. -/
def join (cacheDir name : String) : String :=
  if endsWith cacheDir "/" then cacheDir ++ name else cacheDir ++ "/" ++ name

/-! ## What is asked for and what comes of it -/

/-- What `acquire` needs to fetch one model. -/
structure PrepareRequest where
  /-- Manifest id reported in every event. -/
  modelId : String
  /-- File name the verified download is renamed to inside the cache directory. -/
  fileName : String
  /-- URL the weight file is streamed from. -/
  sourceUrl : String
  /-- Hex digest the completed file must match before it becomes visible. -/
  sha256 : String
  /-- Declared size. -/
  sizeBytes : UInt64
  deriving DecidableEq

/-- The request for a pinned model. -/
def PrepareRequest.fromPin (pin : ModelPin) : PrepareRequest where
  modelId := pin.id
  fileName := pin.file
  sourceUrl := pin.url
  sha256 := pin.sha256
  sizeBytes := UInt64.ofNat pin.sizeBytes

/-- The name of the cache lock of a model. -/
def lockName (modelId : String) : String := modelId ++ ".lock"

/-- A model present in the cache under its final name with a verified digest. -/
structure Prepared where
  /-- The path of the model file. -/
  path : String
  /-- The file was already present and verified without any network access. -/
  alreadyCached : Bool
  deriving DecidableEq

/-- A failure that has already been reported as an `error` event. -/
structure PrepareError where
  /-- The message of the event. -/
  message : String
  deriving DecidableEq

/-- A line of the event sink. -/
inductive PrepareEvent where
  /-- The cache lock is held by another process, which is waited for. -/
  | waiting (modelId : String)
  /-- So many bytes of the model have been received. -/
  | progress (modelId : String) (receivedBytes totalBytes : UInt64)
  /-- The model is present and verified. -/
  | done (modelId path sha256 : String)
  /-- The model could not be made present. -/
  | error (modelId message : String) (expectedPath sourceUrl : Option String)
  deriving DecidableEq

/-- Deadlines of a download, in seconds. -/
structure DownloadTimeouts where
  /-- For the connection. -/
  connect : ℕ
  /-- For the head of the response. -/
  response : ℕ
  /-- For the whole download. -/
  total : ℕ
  deriving DecidableEq

/-- `DOWNLOAD_TIMEOUTS`. -/
def downloadTimeouts : DownloadTimeouts where
  connect := 30
  response := 300
  total := 2700

/-- `DOWNLOAD_MIN_BYTES_PER_SECOND`. -/
def downloadMinBytesPerSecond : ℕ := 64 * 1024

/-- `COPY_CHUNK_BYTES`. -/
def copyChunkBytes : ℕ := 64 * 1024

/-- `download_total_timeout`: the deadline of a download of this size at the lowest rate. -/
def downloadTotalTimeout (sizeBytes : UInt64) : ℕ :=
  max ((sizeBytes.toNat + downloadMinBytesPerSecond - 1) / downloadMinBytesPerSecond)
    downloadTimeouts.total

/-- Lower-case hexadecimal digits. -/
def hex (bytes : List UInt8) : String :=
  String.ofList <| bytes.flatMap fun byte =>
    [Json.hexDigit (byte.toNat / 16), Json.hexDigit (byte.toNat % 16)]

theorem hexDigit_inj {n n' : ℕ} (hn : n < 16) (hn' : n' < 16)
    (h : Json.hexDigit n = Json.hexDigit n') : n = n' := by
  have hall : ∀ a b : Fin 16, Json.hexDigit a.val = Json.hexDigit b.val → a = b := by decide
  exact congrArg Fin.val (hall ⟨n, hn⟩ ⟨n', hn'⟩ h)

theorem hex_injective : Function.Injective hex := by
  intro bytes bytes' h
  have hlist := String.ofList_injective h
  clear h
  induction bytes generalizing bytes' with
  | nil =>
    rcases bytes' with _ | ⟨byte', rest'⟩
    · rfl
    · exact absurd hlist.symm (by simp)
  | cons byte rest ih =>
    rcases bytes' with _ | ⟨byte', rest'⟩
    · exact absurd hlist (by simp)
    rw [List.flatMap_cons, List.flatMap_cons] at hlist
    simp only [List.cons_append, List.nil_append, List.cons.injEq] at hlist
    obtain ⟨hhigh, hlow, hrest⟩ := hlist
    have hbyte := byte.toNat_lt
    have hbyte' := byte'.toNat_lt
    have h₁ := hexDigit_inj (by omega) (by omega) hhigh
    have h₂ := hexDigit_inj (by omega) (by omega) hlow
    have hsame : byte = byte' := UInt8.toNat_inj.mp (by omega)
    rw [hsame, ih hrest]

/-- Equality up to the case of ASCII letters. -/
def eqIgnoreAsciiCase (a b : String) : Bool :=
  a.toList.map Char.toLower == b.toList.map Char.toLower

/-! ## The calls -/

/-- What `prepare` asks of its surroundings. -/
inductive PrepareOp where
  /-- A call of the file system. -/
  | file (o : FileOp)
  /-- An event is written to the sink. -/
  | emit (event : PrepareEvent)
  /-- The request goes out: network access begins. -/
  | openRequest (url : String) (timeouts : DownloadTimeouts)
  /-- The response, and the length it declares. -/
  | awaitResponse
  /-- The next bytes of the body, at most so many; none at its end. -/
  | readBody (limit : ℕ)
  /-- Whether `PROGRESS_INTERVAL` has passed since the last progress event. -/
  | progressDue

/-- What a call of `prepare` is answered with. -/
@[reducible] def PrepareOp.Ret : PrepareOp → Type
  | .file o => o.Ret
  | .emit _ => Unit
  | .openRequest _ _ => Unit
  | .awaitResponse => Except String (Option UInt64)
  | .readBody _ => Except String (List UInt8)
  | .progressDue => Bool

/-- The calls of `prepare`. -/
@[reducible] def prepareSig : Sig := ⟨PrepareOp, PrepareOp.Ret⟩

/-- A call of the file system. -/
@[reducible] def files (o : FileOp) : Prog prepareSig o.Ret := perform (S := prepareSig) (.file o)

/-- A line for the event sink; that it cannot be written is ignored. -/
@[reducible] def emit (event : PrepareEvent) : Prog prepareSig Unit :=
  perform (S := prepareSig) (.emit event)

/-! ## Acquisition -/

section

variable (sha256 : List UInt8 → List UInt8) (cacheDir : String)

/-- The path the model is at once it is verified, with the separator of Unix. -/
def finalPath (request : PrepareRequest) : String := join cacheDir request.fileName

/-- Takes the cache lock of the model, and says so when it has to wait for it. -/
def holdCacheLock (request : PrepareRequest) : Prog prepareSig (Except String Handle) := do
  let lockPath := join cacheDir (lockName request.modelId)
  match ← files (.openOrCreate (lockName request.modelId)) with
  | .error err => return .error ("cannot open the cache lock " ++ lockPath ++ ": " ++ err.text)
  | .ok lock =>
    match ← files (.tryLock lock) with
    | .ok () => return .ok lock
    | .error _ =>
      emit (.waiting request.modelId)
      match ← files (.lock lock) with
      | .ok () => return .ok lock
      | .error err =>
        files (.close lock)
        return .error ("cannot take the cache lock " ++ lockPath ++ ": " ++ err.text)

/-- `Path::exists`: whatever keeps it from finding out is a no. -/
def pathExists (name : String) : Prog prepareSig Bool := do
  match ← files (.pathExists name) with
  | .ok there => return there
  | .error _ => return false

/-- One turn of the loop of `file_digest`, with the bytes read so far. -/
def digestTurn (file : Handle) (bytes : List UInt8) :
    Prog prepareSig (List UInt8 ⊕ Except IoError String) := do
  match ← files (.read file copyChunkBytes) with
  | .error err => return .inr (.error err)
  | .ok chunk =>
    if chunk.isEmpty then return .inr (.ok (hex (sha256 bytes)))
    else return .inl (bytes ++ chunk)

/-- The digest of a file. -/
def fileDigest (name : String) : Prog prepareSig (Except IoError String) := do
  match ← files (.openRead name) with
  | .error err => return .error err
  | .ok file =>
    let digest ← Prog.iterate (digestTurn sha256 file) []
    files (.close file)
    return digest

/-- Checks the declared size against the free space. -/
def preflightDisk (sizeBytes : UInt64) : Prog prepareSig (Except String Unit) := do
  match ← files .availableSpace with
  | .error err =>
    return .error ("cannot measure free space in " ++ cacheDir ++ ": " ++ err.text)
  | .ok available =>
    if available < sizeBytes then
      return .error ("insufficient disk space in " ++ cacheDir ++ ": need " ++
        toString sizeBytes ++ " bytes, " ++ toString available ++ " available")
    else return .ok ()

/-- A partial file; it is removed when it is dropped. -/
structure TempFile where
  /-- Its name in the cache directory. -/
  name : String
  /-- The handle it is written through. -/
  file : Handle

/-- A partial file goes out of scope: its name is removed, if that can be done, and it is closed. -/
def TempFile.drop (temp : TempFile) : Prog prepareSig Unit := do
  let _ ← files (.remove temp.name)
  files (.close temp.file)

/-- One turn of the copy loop, with what has been hashed and counted so far. -/
def copyTurn (request : PrepareRequest) (temp : TempFile) (bytes : List UInt8)
    (received : UInt64) :
    Prog prepareSig ((List UInt8 × UInt64) ⊕ Except String (List UInt8 × UInt64)) := do
  match ← perform (S := prepareSig) (.readBody copyChunkBytes) with
  | .error err =>
    return .inr (.error ("cannot read " ++ request.sourceUrl ++ ": " ++ err ++ "; retry prepare"))
  | .ok chunk =>
    if chunk.isEmpty then return .inr (.ok (bytes, received))
    else if received + UInt64.ofNat chunk.length > request.sizeBytes then
      return .inr (.error ("oversized response for " ++ request.modelId ++ ": " ++
        request.sourceUrl ++ " sent more than the pinned " ++ toString request.sizeBytes ++
        " bytes"))
    else
      match ← files (.write temp.file chunk) with
      | .error err => return .inr (.error ("cannot write the partial download: " ++ err.text))
      | .ok () =>
        let received := received + UInt64.ofNat chunk.length
        if ← perform (S := prepareSig) .progressDue then
          emit (.progress request.modelId received request.sizeBytes)
        return .inl (bytes ++ chunk, received)

/-- What is done with a partial file once it is complete: its digest is checked, and it is renamed
to the final name. -/
def placeVerified (request : PrepareRequest) (temp : TempFile) (bytes : List UInt8) :
    Prog prepareSig (Except String Unit) := do
  let digest := hex (sha256 bytes)
  if !eqIgnoreAsciiCase digest request.sha256 then
    temp.drop
    return .error ("sha256 mismatch for " ++ request.modelId ++ ": expected " ++ request.sha256 ++
      ", downloaded " ++ digest)
  else
    match ← files (.rename temp.name request.fileName) with
    | .error err =>
      temp.drop
      return .error ("cannot place " ++ finalPath cacheDir request ++
        ": failed to persist temporary file: " ++ err.text)
    | .ok () =>
      files (.close temp.file)
      return .ok ()

/-- Fills a partial file from the body of the response. -/
def copyBody (request : PrepareRequest) (temp : TempFile) :
    Prog prepareSig (Except String Unit) := do
  emit (.progress request.modelId 0 request.sizeBytes)
  match ← Prog.iterate (fun state => copyTurn request temp state.1 state.2) ([], 0) with
  | .error message =>
    temp.drop
    return .error message
  | .ok (bytes, received) =>
    match ← files (.flush temp.file) with
    | .error err =>
      temp.drop
      return .error ("cannot flush the partial download: " ++ err.text)
    | .ok () =>
      emit (.progress request.modelId received request.sizeBytes)
      placeVerified sha256 cacheDir request temp bytes

/-- Streams the source into a partial file, and makes it the final file if it is the right one. -/
def downloadVerified (request : PrepareRequest) (timeouts : DownloadTimeouts) :
    Prog prepareSig (Except String Unit) := do
  perform (S := prepareSig) (.openRequest request.sourceUrl timeouts)
  match ← perform (S := prepareSig) .awaitResponse with
  | .error err =>
    return .error ("cannot fetch " ++ request.sourceUrl ++ ": " ++ err ++ "; retry prepare")
  | .ok offered =>
    match offered.filter (· != request.sizeBytes) with
    | some offered =>
      return .error ("declared size mismatch for " ++ request.modelId ++ ": the pin declares " ++
        toString request.sizeBytes ++ " bytes, " ++ request.sourceUrl ++ " offers " ++
        toString offered)
    | none =>
      match ← files (.createTemp (partialPrefix request.modelId) partialSuffix) with
      | .error err =>
        return .error ("cannot create a partial file in " ++ cacheDir ++ ": " ++ err.text)
      | .ok (random, file) =>
        copyBody sha256 cacheDir request
          ⟨Files.tempName (partialPrefix request.modelId) random partialSuffix, file⟩

/-- What `acquire_locked` does when no good file is there. -/
def acquireMissing (request : PrepareRequest) (timeouts : DownloadTimeouts) :
    Prog prepareSig (Except String Prepared) := do
  match ← preflightDisk cacheDir request.sizeBytes with
  | .error message => return .error message
  | .ok () =>
    match ← downloadVerified sha256 cacheDir request timeouts with
    | .error message => return .error message
    | .ok () =>
      emit (.done request.modelId (finalPath cacheDir request) request.sha256)
      return .ok ⟨finalPath cacheDir request, false⟩

/-- What is done while the cache lock is held. -/
def acquireLocked (request : PrepareRequest) (timeouts : DownloadTimeouts) :
    Prog prepareSig (Except String Prepared) := do
  if ← pathExists request.fileName then
    match ← fileDigest sha256 request.fileName with
    | .ok digest =>
      if eqIgnoreAsciiCase digest request.sha256 then
        emit (.done request.modelId (finalPath cacheDir request) request.sha256)
        return .ok ⟨finalPath cacheDir request, true⟩
      else
        match ← files (.remove request.fileName) with
        | .error err =>
          return .error ("cannot remove stale " ++ finalPath cacheDir request ++ ": " ++ err.text)
        | .ok () => acquireMissing sha256 cacheDir request timeouts
    | .error err =>
      return .error ("cannot read cached " ++ finalPath cacheDir request ++ ": " ++ err.text)
  else acquireMissing sha256 cacheDir request timeouts

/-- Reports a failure in the event sink. -/
def report (request : PrepareRequest) (message : String) : Prog prepareSig PrepareError := do
  emit (.error request.modelId message (some (finalPath cacheDir request))
    (some request.sourceUrl))
  return ⟨message⟩

/-- `acquire_with_timeouts`: the lock is held while the model is looked for, fetched and placed. -/
def acquireWithTimeouts (request : PrepareRequest) (timeouts : DownloadTimeouts) :
    Prog prepareSig (Except PrepareError Prepared) := do
  match ← files .createDirAll with
  | .error err =>
    return .error (← report cacheDir request
      ("cannot create cache directory " ++ cacheDir ++ ": " ++ err.text))
  | .ok () =>
    match ← holdCacheLock cacheDir request with
    | .error message => return .error (← report cacheDir request message)
    | .ok lock =>
      let outcome ← acquireLocked sha256 cacheDir request timeouts
      let _ ← files (.unlock lock)
      match outcome with
      | .ok prepared =>
        files (.close lock)
        return .ok prepared
      | .error message =>
        let err ← report cacheDir request message
        files (.close lock)
        return .error err

/-- Makes the requested model present and verified in the cache. -/
def acquire (request : PrepareRequest) : Prog prepareSig (Except PrepareError Prepared) :=
  acquireWithTimeouts sha256 cacheDir request
    { downloadTimeouts with total := downloadTotalTimeout request.sizeBytes }

/-! ## Cleanup -/

/-- The entries of the cache directory that matter to the cleanup. -/
structure Listing where
  /-- Partial files whose name gives the model, and the model. -/
  attributed : List (String × String)
  /-- Partial files whose name gives no model. -/
  unattributed : List String
  /-- The cache locks. -/
  lockPaths : List String

/-- The listing with one more entry. -/
def Listing.add (listing : Listing) (name : String) : Listing :=
  if endsWith name ".lock" then { listing with lockPaths := listing.lockPaths ++ [name] }
  else if startsWith name partialPrefixText && endsWith name partialSuffix then
    match modelOfPartial name with
    | some modelId => { listing with attributed := listing.attributed ++ [(modelId, name)] }
    | none => { listing with unattributed := listing.unattributed ++ [name] }
  else listing

/-- One turn of the loop over the entries. -/
def listTurn (listing : Listing) : Prog prepareSig (Listing ⊕ Except IoError Listing) := do
  match ← files .nextEntry with
  | .error err => return .inr (.error err)
  | .ok none => return .inr (.ok listing)
  | .ok (some name) => return .inl (listing.add name)

/-- Takes a lock without waiting, `none` when another process holds it or the file cannot be
opened at all. -/
def tryHold (name : String) : Prog prepareSig (Option Handle) := do
  match ← files (.openReadWrite name) with
  | .error _ => return none
  | .ok file =>
    match ← files (.tryLock file) with
    | .ok () => return some file
    | .error _ =>
      files (.close file)
      return none

/-- What the locks in the directory say. -/
structure Probe where
  /-- The locks that were free, which are held now. -/
  freeLocks : List Handle
  /-- The models whose locks were refused. -/
  heldModels : List String
  /-- Some lock was refused. -/
  anyLockHeld : Bool

/-- Tries every lock. -/
def probeLocks : List String → Probe → Prog prepareSig Probe
  | [], probe => return probe
  | path :: rest, probe => do
    match ← tryHold path with
    | some file => probeLocks rest { probe with freeLocks := probe.freeLocks ++ [file] }
    | none =>
      probeLocks rest
        { probe with
          heldModels := probe.heldModels ++ [fileStem path]
          anyLockHeld := true }

/-- One partial is removed, unless it is gone already. -/
def removePartial (name : String) (removed : List String) :
    Prog prepareSig (Except IoError (List String)) := do
  match ← files (.remove name) with
  | .ok () => return .ok (removed ++ [name])
  | .error err => if err.notFound then return .ok removed else return .error err

/-- Removes one partial after the other, until one cannot be removed. -/
def removePartials : List String → List String → Prog prepareSig (Except IoError (List String))
  | [], removed => return .ok removed
  | name :: rest, removed => do
    match ← removePartial name removed with
    | .ok removed => removePartials rest removed
    | .error err => return .error err

/-- The locks go out of scope. -/
def closeAll : List Handle → Prog prepareSig Unit
  | [] => return ()
  | file :: rest => do
    files (.close file)
    closeAll rest

/-- The locks are given up. -/
def unlockAll : List Handle → Prog prepareSig Unit
  | [] => return ()
  | file :: rest => do
    let _ ← files (.unlock file)
    files (.close file)
    unlockAll rest

/-- The partials that the probe leaves to be removed, in the order they are. -/
def condemned (listing : Listing) (probe : Probe) : List String :=
  ((listing.attributed.filter fun entry => !probe.heldModels.contains entry.1).map (·.2)) ++
    if probe.anyLockHeld then [] else listing.unattributed

/-- Removes partial downloads left behind by a killed `prepare`; the answer is what it removed. -/
def cleanStalePartials : Prog prepareSig (Except IoError (List String)) := do
  match ← files .readDir with
  | .error err => if err.notFound then return .ok [] else return .error err
  | .ok () =>
    match ← Prog.iterate listTurn ⟨[], [], []⟩ with
    | .error err => return .error err
    | .ok listing =>
      let probe ← probeLocks listing.lockPaths ⟨[], [], false⟩
      match ← removePartials (condemned listing probe) [] with
      | .error err =>
        closeAll probe.freeLocks
        return .error err
      | .ok removed =>
        unlockAll probe.freeLocks
        return .ok (removed.mergeSort.map (join cacheDir))

/-! ## Any number of them -/

/-- What a process of `prepare` does. -/
inductive PrepareJob where
  /-- A model is acquired. -/
  | acquire (request : PrepareRequest)
  /-- Partials that were left behind are removed. -/
  | clean

/-- What comes of it. -/
inductive PrepareResult where
  /-- What an acquisition returns. -/
  | acquired (result : Except PrepareError Prepared)
  /-- What a cleanup returns. -/
  | cleaned (result : Except IoError (List String))

/-- The program of a job. -/
def PrepareJob.program : PrepareJob → Prog prepareSig PrepareResult
  | .acquire request => do return .acquired (← SemanticSidecar.acquire sha256 cacheDir request)
  | .clean => do return .cleaned (← cleanStalePartials cacheDir)

/-- Any number of processes on one cache directory, which may hold anything to begin with.  They
acquire models of the mix and clean up. -/
def cacheMachine (mix : PrepareRequest → Bool) (cache : Files) :
    Machine prepareSig PrepareJob PrepareResult where
  State := Files
  init := cache.atRest
  main := PrepareJob.program sha256 cacheDir
  start _ job s :=
    match job with
    | .acquire request => if mix request then some s else none
    | .clean => some s
  exec pid s o r :=
    match o, r with
    | .file o, r => s.exec pid o r
    | .readBody limit, .ok bytes => if bytes.length ≤ limit then some s else none
    | _, _ => some s
  leave pid s := s.exit pid
  kill pid s := some (s.exit pid)

end

end SemanticSidecar
