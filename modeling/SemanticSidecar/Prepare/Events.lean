import SemanticSidecar.Prepare.Leftovers
import Mathlib.Algebra.Group.Nat.Defs

/-!
# What an acquisition reports

The events of one call of `acquire`, whatever its surroundings do.  `Streams` is what the events of
a download look like at any moment, and `Reported` what those of the whole call do in the end.

The counter of the copy loop is a `u64`.  `Filling` ties it to the bytes the server has sent, so
it cannot have wrapped around: it has not passed the pinned size, and a chunk is at most
`COPY_CHUNK_BYTES`.  The progress events are noted with the number of bytes that have been sent by
then, which is what they have to show.

What is promised of the events, for any answers of the surroundings:

* there is at most one `waiting`, in front of everything else;
* then come the progress events of one download at most, the first of them with a count of zero,
  none with a lower count than the one before, none above the pinned size;
* the last event is a `done` or an `error`, and there is only one of these;
* the disk takes no more bytes than the pinned size, whatever the server sends.
-/

set_option autoImplicit false

namespace SemanticSidecar

open Prog (Ensures Called)

/-! ## The events of a download -/

/-- The progress event for a count, noted with that count. -/
def progressOf (request : PrepareRequest) (n : UInt64) : PrepareEvent × ℕ :=
  (.progress request.modelId n request.sizeBytes, n.toNat)

/-- The counts a download reports start at zero, never fall and stay within the pinned size. -/
structure Rising (request : PrepareRequest) (counts : List UInt64) : Prop where
  /-- The first one is zero. -/
  fromZero : ∀ n ∈ counts.head?, n = 0
  /-- No count is below an earlier one. -/
  sorted : counts.Pairwise (· ≤ ·)
  /-- None is above the pinned size. -/
  within : ∀ n ∈ counts, n ≤ request.sizeBytes

/-- What a download has reported after `start`, and what it has taken of the disk. -/
structure Streams (request : PrepareRequest) (start : List (PrepareEvent × ℕ))
    (counts : List UInt64) (acc : CallAccount) : Prop where
  /-- The counts have been reported, and nothing else since. -/
  events : acc.events = start ++ counts.map (progressOf request)
  /-- They rise. -/
  rising : Rising request counts
  /-- The server has sent fewer bytes than a `u64` counts. -/
  body_lt : acc.body.length < 2 ^ 64
  /-- No more than the pinned size is on the disk. -/
  written_le : acc.written ≤ request.sizeBytes.toNat

/-- The copy loop between two turns: the counter is what the server has sent, all of it is on the
disk, and it is within the pinned size. -/
structure Filling (request : PrepareRequest) (start : List (PrepareEvent × ℕ))
    (received : UInt64) (counts : List UInt64) (acc : CallAccount) : Prop where
  /-- What has been reported is in order. -/
  streams : Streams request start counts acc
  /-- The counter counts what the server has sent. -/
  counter : received.toNat = acc.body.length
  /-- All of it has been written. -/
  onDisk : acc.written = acc.body.length
  /-- It is within the pinned size. -/
  within : received ≤ request.sizeBytes
  /-- No count that was reported is above the counter. -/
  latest : ∀ n ∈ counts, n ≤ received

theorem rising_nil (request : PrepareRequest) : Rising request [] where
  fromZero := by simp
  sorted := List.Pairwise.nil
  within := by simp

/-- One more count. -/
theorem Rising.concat {request : PrepareRequest} {counts : List UInt64}
    (h : Rising request counts) {n : UInt64} (hzero : counts = [] → n = 0)
    (hlatest : ∀ m ∈ counts, m ≤ n) (hn : n ≤ request.sizeBytes) :
    Rising request (counts ++ [n]) where
  fromZero := by
    rcases counts with _ | ⟨first, rest⟩
    · simpa using hzero rfl
    · simpa using h.fromZero
  sorted := by
    refine List.pairwise_append.mpr ⟨h.sorted, List.pairwise_singleton _ _, fun m hm n' hn' => ?_⟩
    rw [List.mem_singleton.mp hn']
    exact hlatest m hm
  within := by
    intro m hm
    rcases List.mem_append.mp hm with hm | hm
    · exact h.within m hm
    · rw [List.mem_singleton.mp hm]
      exact hn

/-- A progress event that shows the counter. -/
theorem Filling.report {request : PrepareRequest} {start : List (PrepareEvent × ℕ)}
    {received : UInt64} {counts : List UInt64} {acc : CallAccount}
    (h : Filling request start received counts acc) (hzero : counts = [] → received = 0) :
    Filling request start received (counts ++ [received])
      (acc.emitted (.progress request.modelId received request.sizeBytes)) where
  streams := by
    refine ⟨?_, h.streams.rising.concat hzero h.latest h.within, h.streams.body_lt,
      h.streams.written_le⟩
    rw [CallAccount.emitted, h.streams.events, ← h.counter, List.map_append, List.append_assoc]
    rfl
  counter := h.counter
  onDisk := h.onDisk
  within := h.within
  latest := by
    intro n hn
    rcases List.mem_append.mp hn with hn | hn
    · exact h.latest n hn
    · rw [List.mem_singleton.mp hn]
      exact UInt64.le_refl received

/-! ## The copy loop -/

section

variable {request : PrepareRequest} {start : List (PrepareEvent × ℕ)} {received : UInt64}
  {counts : List UInt64} {acc : CallAccount} {chunk : List UInt8}

/-- **The counter does not wrap around** when a chunk is added to it. -/
theorem Filling.counter_add (h : Filling request start received counts acc)
    (hsize : request.sizeBytes.toNat + copyChunkBytes < 2 ^ 64)
    (hchunk : chunk.length ≤ copyChunkBytes) :
    (received + UInt64.ofNat chunk.length).toNat = (acc.sent chunk).body.length ∧
      (acc.sent chunk).body.length < 2 ^ 64 := by
  have hwithin := UInt64.le_iff_toNat_le.mp h.within
  have hcounter := h.counter
  have hlength : (acc.sent chunk).body.length = acc.body.length + chunk.length :=
    List.length_append
  rw [UInt64.toNat_add, UInt64.toNat_ofNat', hlength]
  omega

/-- A chunk that fits is counted and written. -/
theorem Filling.grown (h : Filling request start received counts acc)
    (hsize : request.sizeBytes.toNat + copyChunkBytes < 2 ^ 64)
    (hchunk : chunk.length ≤ copyChunkBytes)
    (hfits : received + UInt64.ofNat chunk.length ≤ request.sizeBytes) :
    Filling request start (received + UInt64.ofNat chunk.length) counts
      ((acc.sent chunk).wrote chunk.length) := by
  obtain ⟨hcounter, hlt⟩ := h.counter_add hsize hchunk
  have hwithin := UInt64.le_iff_toNat_le.mp hfits
  have hlength : (acc.sent chunk).body.length = acc.body.length + chunk.length :=
    List.length_append
  have hdisk : ((acc.sent chunk).wrote chunk.length).written = acc.written + chunk.length := rfl
  refine ⟨⟨h.streams.events, h.streams.rising, hlt, ?_⟩, hcounter, ?_, hfits, fun n hn => ?_⟩
  · rw [hdisk, h.onDisk]
    omega
  · rw [hdisk, h.onDisk]
    exact hlength.symm
  · have hn := UInt64.le_iff_toNat_le.mp (h.latest n hn)
    have hold := h.counter
    rw [UInt64.le_iff_toNat_le]
    omega

/-- A write that fails has written some of a chunk that fits. -/
theorem Filling.failedWrite (h : Filling request start received counts acc)
    (hsize : request.sizeBytes.toNat + copyChunkBytes < 2 ^ 64)
    (hchunk : chunk.length ≤ copyChunkBytes)
    (hfits : received + UInt64.ofNat chunk.length ≤ request.sizeBytes) (written : ℕ) :
    Streams request start counts ((acc.sent chunk).wrote (chunk.take written).length) := by
  obtain ⟨hcounter, hlt⟩ := h.counter_add hsize hchunk
  have hwithin := UInt64.le_iff_toNat_le.mp hfits
  have hlength : (acc.sent chunk).body.length = acc.body.length + chunk.length :=
    List.length_append
  have htake : (chunk.take written).length ≤ chunk.length := List.length_take_le' _ _
  refine ⟨h.streams.events, h.streams.rising, hlt, ?_⟩
  show acc.written + (chunk.take written).length ≤ _
  rw [h.onDisk]
  omega

/-- The copy loop has come to its end. -/
def Copied (request : PrepareRequest) (start : List (PrepareEvent × ℕ))
    (result : Except String (List UInt8 × UInt64)) (acc : CallAccount) : Prop :=
  match result with
  | .ok (_, received) => ∃ counts, counts ≠ [] ∧ Filling request start received counts acc
  | .error _ => ∃ counts, Streams request start counts acc

/-- A turn of the copy loop. -/
theorem copyTurn_streams (h : Filling request start received counts acc) (hne : counts ≠ [])
    (hsize : request.sizeBytes.toNat + copyChunkBytes < 2 ^ 64) (temp : TempFile)
    (bytes : List UInt8) :
    Ensures anything (copyTurn request temp bytes received) acc fun turn acc =>
      match turn with
      | .inl (_, received) => ∃ counts, counts ≠ [] ∧ Filling request start received counts acc
      | .inr result => Copied request start result acc := by
  simp only [copyTurn, Prog.bind_eq, Prog.perform, Prog.call_bind, Prog.ret_bind]
  rintro answer _ ⟨hchunk, rfl⟩
  rcases answer with err | chunk
  · exact ⟨counts, h.streams⟩
  · show Ensures anything _ (acc.sent chunk) _
    dsimp only
    split
    · rename_i hempty
      rw [List.isEmpty_iff.mp hempty, CallAccount.sent, List.append_nil]
      exact ⟨counts, hne, h⟩
    · split
      · exact ⟨counts, h.streams.events, h.streams.rising, (h.counter_add hsize hchunk).2,
          h.streams.written_le⟩
      · rename_i hover
        have hfits : received + UInt64.ofNat chunk.length ≤ request.sizeBytes :=
          UInt64.not_lt.mp hover
        rintro written _ ⟨-, rfl⟩
        rcases written with err | ⟨⟩
        · exact ⟨counts, h.failedWrite hsize hchunk hfits err.written⟩
        · have hgrown := h.grown hsize hchunk hfits
          rintro due _ ⟨-, rfl⟩
          rcases due with _ | _
          · exact ⟨counts, hne, hgrown⟩
          · rintro _ _ ⟨-, rfl⟩
            exact ⟨_, List.concat_ne_nil _ _, hgrown.report fun hnil => absurd hnil hne⟩

/-! ## A download -/

/-- A call that has reported `start` so far and has not begun to download. -/
structure Fresh (start : List (PrepareEvent × ℕ)) (acc : CallAccount) : Prop where
  /-- Nothing else has been reported. -/
  events : acc.events = start
  /-- The server has sent nothing. -/
  body : acc.body = []
  /-- Nothing has been written. -/
  written : acc.written = 0

theorem Fresh.streams (h : Fresh start acc) : Streams request start [] acc where
  events := by rw [h.events, List.map_nil, List.append_nil]
  rising := rising_nil request
  body_lt := by simp [h.body]
  written_le := by simp [h.written]

theorem Fresh.filling (h : Fresh start acc) : Filling request start 0 [] acc where
  streams := h.streams
  counter := by simp [h.body]
  onDisk := by simp [h.body, h.written]
  within := by simp
  latest := by simp

/-- What a download has come to; the last count of a successful one is all the server has sent. -/
def Downloaded (request : PrepareRequest) (start : List (PrepareEvent × ℕ))
    (result : Except String Unit) (acc : CallAccount) : Prop :=
  ∃ counts, Streams request start counts acc ∧
    (result = .ok () → ∃ n, counts.getLast? = some n ∧ n.toNat = acc.body.length)

variable {sha256 : List UInt8 → List UInt8} {cacheDir : String}

theorem tempDrop_silent (temp : TempFile) (acc : CallAccount) :
    Ensures anything temp.drop acc fun _ acc' => acc' = acc := by
  rintro removed acc ⟨-, rfl⟩
  rintro ⟨⟩ acc ⟨-, rfl⟩
  exact rfl

theorem placeVerified_silent (temp : TempFile) (bytes : List UInt8) (acc : CallAccount) :
    Ensures anything (placeVerified sha256 cacheDir request temp bytes) acc
      fun _ acc' => acc' = acc := by
  simp only [placeVerified, Prog.bind_eq, Prog.perform, Prog.call_bind, Prog.ret_bind]
  split
  · refine (tempDrop_silent temp acc).andThen ?_
    rintro _ _ rfl
    exact rfl
  · rintro placed acc ⟨-, rfl⟩
    rcases placed with err | ⟨⟩
    · refine (tempDrop_silent temp acc).andThen ?_
      rintro _ _ rfl
      exact rfl
    · rintro ⟨⟩ acc ⟨-, rfl⟩
      exact rfl

theorem copyBody_reports (h : Fresh start acc)
    (hsize : request.sizeBytes.toNat + copyChunkBytes < 2 ^ 64) (temp : TempFile) :
    Ensures anything (copyBody sha256 cacheDir request temp) acc
      (Downloaded request start) := by
  rintro _ acc ⟨-, rfl⟩
  have hbegun : Filling request start 0 [0]
      (acc.emitted (.progress request.modelId 0 request.sizeBytes)) :=
    h.filling.report fun _ => rfl
  have hloop : Ensures anything
      (Prog.iterate (fun state => copyTurn request temp state.1 state.2) ([], 0))
      (acc.emitted (.progress request.modelId 0 request.sizeBytes)) (Copied request start) := by
    refine Ensures.iterate
      (fun state acc => ∃ counts, counts ≠ [] ∧ Filling request start state.2 counts acc)
      ⟨[0], List.cons_ne_nil _ _, hbegun⟩ ?_
    rintro ⟨bytes, received⟩ acc ⟨counts, hne, hfilling⟩
    refine (copyTurn_streams hfilling hne hsize temp bytes).mono ?_
    rintro (⟨bytes, received⟩ | result) acc hturn
    · exact hturn
    · exact hturn
  refine hloop.andThen ?_
  rintro (message | ⟨bytes, received⟩) acc hend
  · obtain ⟨counts, hstreams⟩ := hend
    refine (tempDrop_silent temp acc).andThen ?_
    rintro _ _ rfl
    exact ⟨counts, hstreams, fun hok => nomatch hok⟩
  · obtain ⟨counts, hne, hfilling⟩ := hend
    rintro flushed acc ⟨-, rfl⟩
    rcases flushed with err | ⟨⟩
    · simp only [Prog.ret_bind]
      refine (tempDrop_silent temp acc).andThen ?_
      rintro _ _ rfl
      exact ⟨counts, hfilling.streams, fun hok => nomatch hok⟩
    · rintro _ acc ⟨-, rfl⟩
      have hreported := hfilling.report fun hnil => absurd hnil hne
      refine (placeVerified_silent temp bytes _).mono ?_
      rintro result _ rfl
      exact ⟨_, hreported.streams, fun _ =>
        ⟨received, List.getLast?_concat, hreported.counter⟩⟩

theorem downloadVerified_reports (h : Fresh start acc)
    (hsize : request.sizeBytes.toNat + copyChunkBytes < 2 ^ 64) (timeouts : DownloadTimeouts) :
    Ensures anything (downloadVerified sha256 cacheDir request timeouts) acc
      (Downloaded request start) := by
  have hnothing : ∀ message, Downloaded request start (.error message) acc :=
    fun message => ⟨[], h.streams, fun hok => nomatch hok⟩
  rintro ⟨⟩ acc ⟨-, rfl⟩
  rintro response acc ⟨-, rfl⟩
  rcases response with err | offered
  · exact hnothing _
  · simp only [Prog.ret_bind]
    split
    · exact hnothing _
    · rintro made acc ⟨-, rfl⟩
      rcases made with err | ⟨random, file⟩
      · exact hnothing _
      · have hcreated : Fresh start (acc.created
            (Files.tempName (partialPrefix request.modelId) random partialSuffix)) :=
          ⟨h.events, h.body, h.written⟩
        exact copyBody_reports hcreated hsize _

/-! ## The whole call -/

/-- The event that closes the stream. -/
def terminalOf (cacheDir : String) (request : PrepareRequest) :
    Except String Prepared → PrepareEvent
  | .ok _ => .done request.modelId (finalPath cacheDir request) request.sha256
  | .error message => .error request.modelId message (some (finalPath cacheDir request))
      (some request.sourceUrl)

/-- What is done under the lock: a success has been reported, a failure not yet. -/
def Concludes (cacheDir : String) (request : PrepareRequest) (start : List (PrepareEvent × ℕ))
    (result : Except String Prepared) (acc : CallAccount) : Prop :=
  ∃ counts acc', Streams request start counts acc' ∧
    (∀ prepared, result = .ok prepared → prepared.alreadyCached = false →
      ∃ n, counts.getLast? = some n ∧ n.toNat = acc'.body.length) ∧
    match result with
    | .ok _ => acc = acc'.emitted (terminalOf cacheDir request result)
    | .error _ => acc = acc'

theorem acquireMissing_reports (h : Fresh start acc)
    (hsize : request.sizeBytes.toNat + copyChunkBytes < 2 ^ 64) (timeouts : DownloadTimeouts) :
    Ensures anything (acquireMissing sha256 cacheDir request timeouts) acc
      (Concludes cacheDir request start) := by
  have hnothing : ∀ message, Concludes cacheDir request start (.error message) acc :=
    fun message => ⟨[], acc, h.streams, fun _ hok => (nomatch hok), rfl⟩
  rintro space acc ⟨-, rfl⟩
  rcases space with err | available
  · exact hnothing _
  · simp only [Prog.ret_bind]
    split
    · exact hnothing _
    · simp only [Prog.pure_eq, Prog.bind_eq, Prog.ret_bind]
      refine (downloadVerified_reports h hsize timeouts).andThen ?_
      rintro (message | ⟨⟩) acc ⟨counts, hstreams, hlast⟩
      · exact ⟨counts, acc, hstreams, fun _ hok => (nomatch hok), rfl⟩
      · rintro _ acc ⟨-, rfl⟩
        exact ⟨counts, acc, hstreams, fun _ _ _ => hlast rfl, rfl⟩

theorem fileDigest_silent (name : String) (acc : CallAccount) :
    Ensures anything (fileDigest sha256 name) acc fun _ acc' => acc' = acc := by
  rintro opened acc ⟨-, rfl⟩
  rcases opened with err | file
  · exact rfl
  · refine (Ensures.iterate (Q := fun _ acc' => acc' = acc) (fun _ acc' => acc' = acc) rfl
      ?_).andThen ?_
    · rintro bytes _ rfl answer acc ⟨-, rfl⟩
      rcases answer with err | chunk
      · exact rfl
      · simp only [Prog.ret_bind]
        split
        · exact rfl
        · exact rfl
    · rintro digest _ rfl ⟨⟩ acc ⟨-, rfl⟩
      exact rfl

theorem acquireLocked_reports (h : Fresh start acc)
    (hsize : request.sizeBytes.toNat + copyChunkBytes < 2 ^ 64) (timeouts : DownloadTimeouts) :
    Ensures anything (acquireLocked sha256 cacheDir request timeouts) acc
      (Concludes cacheDir request start) := by
  have hnothing : ∀ message, Concludes cacheDir request start (.error message) acc :=
    fun message => ⟨[], acc, h.streams, fun _ hok => (nomatch hok), rfl⟩
  rintro there acc ⟨-, rfl⟩
  rcases there with err | (_ | _)
  · exact acquireMissing_reports h hsize timeouts
  · exact acquireMissing_reports h hsize timeouts
  · simp only [Prog.ret_bind, Prog.pure_eq, if_true]
    refine (fileDigest_silent request.fileName acc).andThen ?_
    rintro (err | digest) acc rfl
    · exact hnothing _
    · simp only [Prog.bind_eq, Prog.perform, Prog.call_bind, Prog.ret_bind]
      split
      · rintro _ acc ⟨-, rfl⟩
        refine ⟨[], acc, h.streams, fun prepared hok hfresh => ?_, rfl⟩
        rw [← Except.ok.inj hok] at hfresh
        exact absurd hfresh (by simp)
      · rintro removed acc ⟨-, rfl⟩
        rcases removed with err | ⟨⟩
        · exact hnothing _
        · exact acquireMissing_reports h hsize timeouts

/-- What may come before a download: word that the lock is taken. -/
def MayWait (request : PrepareRequest) (start : List (PrepareEvent × ℕ)) : Prop :=
  start = [] ∨ start = [(.waiting request.modelId, 0)]

theorem holdCacheLock_reports (request : PrepareRequest) :
    Ensures anything (holdCacheLock cacheDir request) .start fun _ acc =>
      ∃ start, MayWait request start ∧ Fresh start acc := by
  have hnothing : ∃ start, MayWait request start ∧ Fresh start .start :=
    ⟨[], .inl rfl, rfl, rfl, rfl⟩
  have hwaiting : ∃ start, MayWait request start ∧
      Fresh start (CallAccount.start.emitted (.waiting request.modelId)) :=
    ⟨_, .inr rfl, rfl, rfl, rfl⟩
  rintro opened _ ⟨-, rfl⟩
  rcases opened with err | lock
  · exact hnothing
  · rintro tried _ ⟨-, rfl⟩
    rcases tried with err | ⟨⟩
    · rintro _ _ ⟨-, rfl⟩
      rintro taken _ ⟨-, rfl⟩
      rcases taken with err | ⟨⟩
      · rintro _ _ ⟨-, rfl⟩
        exact hwaiting
      · exact hwaiting
    · exact hnothing

/-- What the call has reported once it has returned. -/
def Reported (cacheDir : String) (request : PrepareRequest)
    (result : Except PrepareError Prepared) (acc : CallAccount) : Prop :=
  ∃ start counts acc', MayWait request start ∧ Streams request start counts acc' ∧
    (∀ prepared, result = .ok prepared → prepared.alreadyCached = false →
      ∃ n, counts.getLast? = some n ∧ n.toNat = acc'.body.length) ∧
    acc = acc'.emitted (terminalOf cacheDir request (Prepared.ofCall result))

/-- **A call reports what it should**, whatever its surroundings do. -/
theorem acquireWithTimeouts_reports
    (hsize : request.sizeBytes.toNat + copyChunkBytes < 2 ^ 64) (timeouts : DownloadTimeouts) :
    Ensures anything (acquireWithTimeouts sha256 cacheDir request timeouts) .start
      (Reported cacheDir request) := by
  have hfailed : ∀ {start acc}, MayWait request start → Fresh start acc → ∀ message,
      Reported cacheDir request (.error ⟨message⟩) (acc.emitted (terminalOf cacheDir request
        (.error message))) :=
    fun hwaits hfresh _ => ⟨_, [], _, hwaits, hfresh.streams, fun _ hok => (nomatch hok), rfl⟩
  rintro made _ ⟨-, rfl⟩
  rcases made with err | ⟨⟩
  · rintro _ _ ⟨-, rfl⟩
    exact hfailed (.inl rfl) ⟨rfl, rfl, rfl⟩ _
  · simp only [Prog.ret_bind]
    refine (holdCacheLock_reports request).andThen ?_
    rintro (message | lock) acc ⟨start, hwaits, hfresh⟩
    · rintro _ _ ⟨-, rfl⟩
      exact hfailed hwaits hfresh message
    · simp only [Prog.bind_eq]
      refine (acquireLocked_reports hfresh hsize timeouts).andThen ?_
      rintro outcome acc ⟨counts, acc', hstreams, hlast, hacc⟩ unlocked acc ⟨-, rfl⟩
      rcases outcome with message | prepared
      · subst hacc
        rintro _ _ ⟨-, rfl⟩ ⟨⟩ _ ⟨-, rfl⟩
        exact ⟨start, counts, acc, hwaits, hstreams, fun _ hok => (nomatch hok), rfl⟩
      · subst hacc
        rintro ⟨⟩ _ ⟨-, rfl⟩
        refine ⟨start, counts, acc', hwaits, hstreams, ?_, rfl⟩
        rintro _ ⟨⟩
        exact hlast prepared rfl

/-! ## The stream of events -/

/-- A successful download is in the final file once the call has returned. -/
theorem acquire_places {pid : ℕ} {s s' : Files} {t : List (Called prepareSig)}
    {prepared : Prepared}
    (hrun : Prog.Run (acquire sha256 cacheDir request) t (.ok prepared))
    (hfresh : prepared.alreadyCached = false)
    (hsteps : Prog.Steps (undisturbed sha256 cacheDir pid) s t s') :
    s'.content request.fileName = some (accountOf t).body := by
  obtain ⟨base, -, hsettles⟩ := (acquireWithTimeouts_settles (v := s.view pid)
    { downloadTimeouts with total := downloadTotalTimeout request.sizeBytes }).sound hrun
    (steps_alone False hsteps False.elim)
  exact hsettles.2 hfresh

/-- **The events of a call** are at most one `waiting`, the progress of at most one download, and
one terminal event, which is `done` if the call succeeds and `error` if it fails.  Each progress
event shows the bytes that have been received by then, so the counter has not wrapped around, and
the last one of a successful download those of the final file. -/
theorem acquire_eventStream (sha256 : List UInt8 → List UInt8) (cacheDir : String)
    (request : PrepareRequest) (hsize : request.sizeBytes.toNat ≤ 2 ^ 64 - 1 - 65536)
    (t : List (Called prepareSig)) (result : Except PrepareError Prepared)
    (hrun : Prog.Run (acquire sha256 cacheDir request) t result)
    (hfits : ∀ call ∈ t, Fits call.op call.ret) :
    ∃ (waiting : List PrepareEvent) (counts : List UInt64),
      (waiting = [] ∨ waiting = [.waiting request.modelId]) ∧
      (accountOf t).events.map Prod.fst = waiting ++
        counts.map (fun n => .progress request.modelId n request.sizeBytes) ++
          [terminalOf cacheDir request (Prepared.ofCall result)] ∧
      Rising request counts ∧
      (∀ n received, (.progress request.modelId n request.sizeBytes, received) ∈
        (accountOf t).events → n.toNat = received) ∧
      (accountOf t).body.length < 2 ^ 64 ∧
      (accountOf t).written ≤ request.sizeBytes.toNat ∧
      ∀ prepared, result = .ok prepared → prepared.alreadyCached = false →
        ∃ n, counts.getLast? = some n ∧ n.toNat = (accountOf t).body.length ∧
          ∀ pid s s', Prog.Steps (undisturbed sha256 cacheDir pid) s t s' →
            ∃ bytes, s'.content request.fileName = some bytes ∧ n.toNat = bytes.length := by
  have hbound : request.sizeBytes.toNat + copyChunkBytes < 2 ^ 64 := by
    rw [copyChunkBytes]
    omega
  obtain ⟨start, counts, acc, hstart, hstreams, hlast, hacc⟩ :=
    (acquireWithTimeouts_reports hbound
      { downloadTimeouts with total := downloadTotalTimeout request.sizeBytes }).sound hrun
      (steps_anything hfits [])
  change accountOf t = _ at hacc
  refine ⟨start.map Prod.fst, counts, ?_, ?_, hstreams.rising, fun n received hmem => ?_, ?_, ?_,
    fun prepared hok hfresh => ?_⟩
  · rcases hstart with rfl | rfl
    · exact .inl rfl
    · exact .inr rfl
  · rw [hacc, CallAccount.emitted, hstreams.events, List.map_append, List.map_append,
      List.map_map]
    rfl
  · rw [hacc, CallAccount.emitted, hstreams.events, List.mem_append, List.mem_append] at hmem
    rcases hmem with (hmem | hmem) | hmem
    · rcases hstart with rfl | rfl
      · exact absurd hmem List.not_mem_nil
      · exact absurd hmem (by simp)
    · obtain ⟨m, -, hm⟩ := List.mem_map.mp hmem
      simp only [progressOf, Prod.mk.injEq, PrepareEvent.progress.injEq] at hm
      rw [← hm.2, hm.1.2.1]
    · rcases result with err | prepared
      · exact absurd hmem (by simp [terminalOf, Prepared.ofCall, Except.mapError])
      · exact absurd hmem (by simp [terminalOf, Prepared.ofCall, Except.mapError])
  · rw [hacc]
    exact hstreams.body_lt
  · rw [hacc]
    exact hstreams.written_le
  · obtain ⟨n, hn, hcount⟩ := hlast prepared hok hfresh
    have hbody : n.toNat = (accountOf t).body.length := by
      rw [hacc]
      exact hcount
    subst hok
    exact ⟨n, hn, hbody, fun pid s s' hsteps => ⟨_, acquire_places hrun hfresh hsteps, hbody⟩⟩

end

/-! ## A download of one byte -/

/-- The server sends the byte and no more. -/
def servedCalls : List (Called prepareSig) :=
  [⟨.file .createDirAll, .ok ()⟩, ⟨.file (.openOrCreate (lockName "m")), .ok 0⟩,
    ⟨.file (.tryLock 0), .ok ()⟩, ⟨.file (.pathExists "m.gguf"), .ok false⟩,
    ⟨.file .availableSpace, .ok 1⟩,
    ⟨.openRequest "u" { downloadTimeouts with total := downloadTotalTimeout 1 }, ()⟩,
    ⟨.awaitResponse, .ok (some 1)⟩,
    ⟨.file (.createTemp (partialPrefix "m") partialSuffix), .ok ("abcdef", 1)⟩,
    ⟨.emit (.progress "m" 0 1), ()⟩, ⟨.readBody copyChunkBytes, .ok [0]⟩,
    ⟨.file (.write 1 [0]), .ok ()⟩, ⟨.progressDue, false⟩, ⟨.readBody copyChunkBytes, .ok []⟩,
    ⟨.file (.flush 1), .ok ()⟩, ⟨.emit (.progress "m" 1 1), ()⟩,
    ⟨.file (.rename (Files.tempName (partialPrefix "m") "abcdef" partialSuffix) "m.gguf"), .ok ()⟩,
    ⟨.file (.close 1), ()⟩, ⟨.emit (.done "m" (finalPath "c" oneByteModel) ""), ()⟩,
    ⟨.file (.unlock 0), .ok ()⟩, ⟨.file (.close 0), ()⟩]

theorem servedCalls_run : Prog.Run (acquire (fun _ => []) "c" oneByteModel) servedCalls
    (.ok ⟨finalPath "c" oneByteModel, false⟩) :=
  .call <| .call <| .call <| .call <| .call <| .call <| .call <| .call <| .call <| .loop <| .call <|
    .call <| .call <| .loop <| .call <| .call <| .call <| .call <| .call <| .call <| .call <|
    .call <| .ret _

theorem servedCalls_steps :
    ∃ s', Prog.Steps (undisturbed (fun _ => []) "c" 0) .empty servedCalls s' :=
  ⟨_, .cons ⟨_, rfl, rfl⟩ <| .cons ⟨_, rfl, rfl⟩ <| .cons ⟨_, rfl, rfl⟩ <|
    .cons ⟨_, rfl, rfl⟩ <| .cons ⟨_, rfl, rfl⟩ <| .cons ⟨_, rfl, rfl⟩ <| .cons ⟨_, rfl, rfl⟩ <|
    .cons ⟨_, rfl, rfl⟩ <| .cons ⟨_, rfl, rfl⟩ <| .cons ⟨_, rfl, rfl⟩ <| .cons ⟨_, rfl, rfl⟩ <|
    .cons ⟨_, rfl, rfl⟩ <| .cons ⟨_, rfl, rfl⟩ <| .cons ⟨_, rfl, rfl⟩ <| .cons ⟨_, rfl, rfl⟩ <|
    .cons ⟨_, rfl, rfl⟩ <| .cons ⟨_, rfl, rfl⟩ <| .cons ⟨_, rfl, rfl⟩ <| .cons ⟨_, rfl, rfl⟩ <|
    .cons ⟨_, rfl, rfl⟩ <| .nil _⟩

/-- The last progress event shows the length of the final file. -/
theorem acquire_eventStream_servedCalls :
    ∃ (s' : Files) (waiting : List PrepareEvent) (counts : List UInt64) (n : UInt64)
      (bytes : List UInt8),
      Prog.Steps (undisturbed (fun _ => []) "c" 0) .empty servedCalls s' ∧
      (accountOf servedCalls).events.map Prod.fst = waiting ++
        counts.map (fun n => .progress "m" n 1) ++ [.done "m" (finalPath "c" oneByteModel) ""] ∧
      counts.getLast? = some n ∧ s'.content "m.gguf" = some bytes ∧ n.toNat = bytes.length := by
  obtain ⟨s', hsteps⟩ := servedCalls_steps
  obtain ⟨waiting, counts, -, hevents, -, -, -, -, hplaced⟩ :=
    acquire_eventStream (fun _ => []) "c" oneByteModel (by decide) servedCalls _ servedCalls_run
      (by simp [servedCalls, Fits, copyChunkBytes])
  obtain ⟨n, hn, -, hfinal⟩ := hplaced _ rfl rfl
  obtain ⟨bytes, hcontent, hlength⟩ := hfinal 0 .empty s' hsteps
  exact ⟨s', waiting, counts, n, bytes, hsteps, hevents, hn, hcontent, hlength⟩

end SemanticSidecar
