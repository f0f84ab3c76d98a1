import SemanticSidecar.Lib.Ensures
import SemanticSidecar.Prepare.Names

/-!
# Whose partial file it is

A cleanup decides about a partial file by the lock of its model, and finds both from names alone:
the model is cut out of the name of the partial file, and it is the stem of the name of the lock.
Both readings are exact whatever the model is called.

`Sweep` is what a cleanup has seen and asked for, in surroundings that answer as they like.
`partials_areAttributed` says that the locks of other models do not matter to a partial file:
neither do they keep it from being removed, nor does it go because of them.

In the name of a partial file the model is what stands between a fixed prefix and the last dot
before the random part, so that a model with dots in its id is read back as well; in the name of a
lock it is all but the suffix.  A name in which no model can be found is of an older kind, and goes
only if no lock at all was refused.

`Removing` is the state that a cleanup ends in.  Its attempts are the beginning of the list it has
settled on after the last lock, and all of this list where it succeeds.  The run of the last part
has a lock that is held, of another model than the partial file that is removed.
-/

set_option autoImplicit false

namespace SemanticSidecar

open Prog (Ensures Called)

/-! ## What a cleanup sees and asks for -/

/-- What a cleanup has seen and asked for so far. -/
structure Sweep where
  /-- The names of the entries. -/
  listed : List String
  /-- A lock that is open, to be tried. -/
  opened : Option String
  /-- The locks that were tried, and whether they were held. -/
  tried : List (String × Bool)
  /-- The names that were to be removed, whether or not they were. -/
  attempted : List String

namespace Sweep

variable (s : Sweep)

/-- With the outcome of one more lock. -/
def noted (locks : List String) (held : Bool) : Sweep :=
  { s with opened := none, tried := s.tried ++ locks.map fun lock => (lock, held) }

/-- With one more call. -/
def next (o : PrepareOp) (r : o.Ret) : Sweep :=
  match o, r with
  | .file .nextEntry, .ok (some name) => { s with listed := s.listed ++ [name] }
  | .file (.openReadWrite name), .ok _ => { s with opened := some name }
  | .file (.openReadWrite name), .error _ => s.noted [name] true
  | .file (.tryLock _), .ok () => s.noted s.opened.toList false
  | .file (.tryLock _), .error _ => s.noted s.opened.toList true
  | .file (.remove name), _ => { s with attempted := s.attempted ++ [name] }
  | _, _ => s

end Sweep

/-- What the calls come to. -/
def sweepOf (t : List (Called prepareSig)) : Sweep :=
  t.foldl (fun s call => s.next call.op call.ret) ⟨[], none, [], []⟩

/-- Surroundings that answer as they like. -/
def watched : Prog.Env prepareSig Sweep := fun s o r s' => s' = s.next o r

theorem steps_watched (t : List (Called prepareSig)) (s : Sweep) :
    Prog.Steps watched s t (t.foldl (fun s call => s.next call.op call.ret) s) := by
  induction t generalizing s with
  | nil => exact .nil s
  | cons call rest ih => exact .cons rfl (ih _)

/-! ## The listing -/

/-- The listing of some names. -/
def listingOf (names : List String) : Listing := names.foldl Listing.add ⟨[], [], []⟩

theorem listingOf_concat (names : List String) (name : String) :
    listingOf (names ++ [name]) = (listingOf names).add name := by
  rw [listingOf, List.foldl_append]
  rfl

/-- What a name adds to a listing. -/
theorem add_eq (listing : Listing) (name : String) :
    listing.add name =
      if isLockName name then { listing with lockPaths := listing.lockPaths ++ [name] }
      else if isPartialName name then
        match modelOfPartial name with
        | some modelId => { listing with attributed := listing.attributed ++ [(modelId, name)] }
        | none => { listing with unattributed := listing.unattributed ++ [name] }
      else listing := rfl

/-- The locks of a listing are the names that look like locks. -/
theorem lockPaths_listingOf (names : List String) :
    (listingOf names).lockPaths = names.filter isLockName := by
  induction names using List.reverseRecOn with
  | nil => rfl
  | append_singleton names name ih =>
    rw [listingOf_concat, List.filter_append, ← ih, add_eq]
    by_cases hlock : isLockName name = true
    · rw [if_pos hlock, List.filter_cons_of_pos hlock]
      rfl
    · rw [if_neg hlock, List.filter_cons_of_neg hlock, List.filter_nil, List.append_nil]
      split
      · split
        · rfl
        · rfl
      · rfl

/-- A name that looks like that of a partial file of a model. -/
def IsPartialOf (modelId name : String) : Prop :=
  isLockName name = false ∧ isPartialName name = true ∧ modelOfPartial name = some modelId

/-- What a name adds to the attributed partial files. -/
theorem mem_attributed_add {listing : Listing} {name : String} {entry : String × String} :
    entry ∈ (listing.add name).attributed ↔
      entry ∈ listing.attributed ∨ entry.2 = name ∧ IsPartialOf entry.1 name := by
  rw [add_eq, IsPartialOf]
  by_cases hlock : isLockName name = true
  · rw [if_pos hlock, hlock]
    simp
  · rw [if_neg hlock, Bool.eq_false_iff.mpr hlock]
    by_cases hpart : isPartialName name = true
    · rw [if_pos hpart, hpart]
      cases hmodel : modelOfPartial name with
      | none => simp
      | some modelId =>
        obtain ⟨entryModel, entryName⟩ := entry
        simp only [List.mem_append, List.mem_singleton, Prod.mk.injEq, Option.some.injEq, true_and]
        exact or_congr_right ⟨fun h => ⟨h.2, h.1.symm⟩, fun h => ⟨h.2.symm, h.1⟩⟩
    · rw [if_neg hpart]
      simp [hpart]

theorem mem_attributed_listingOf {names : List String} {entry : String × String} :
    entry ∈ (listingOf names).attributed ↔ entry.2 ∈ names ∧ IsPartialOf entry.1 entry.2 := by
  induction names using List.reverseRecOn with
  | nil => simp [listingOf]
  | append_singleton names name ih =>
    rw [listingOf_concat, mem_attributed_add, ih, List.mem_append, List.mem_singleton]
    constructor
    · rintro (⟨hmem, hpart⟩ | ⟨rfl, hpart⟩)
      · exact ⟨.inl hmem, hpart⟩
      · exact ⟨.inr rfl, hpart⟩
    · rintro ⟨hmem | rfl, hpart⟩
      · exact .inl ⟨hmem, hpart⟩
      · exact .inr ⟨rfl, hpart⟩

/-- An unattributed partial file has no model. -/
theorem unattributed_listingOf {names : List String} {name : String}
    (h : name ∈ (listingOf names).unattributed) : modelOfPartial name = none := by
  induction names using List.reverseRecOn with
  | nil => cases h
  | append_singleton names other ih =>
    rw [listingOf_concat, add_eq] at h
    split at h
    · exact ih h
    · split at h
      · split at h
        · exact ih h
        · rename_i hnone
          rcases List.mem_append.mp h with h | h
          · exact ih h
          · rw [List.mem_singleton.mp h]
            exact hnone
      · exact ih h

/-! ## The locks -/

/-- The probe that the outcomes come to. -/
structure Probe.Notes (probe : Probe) (tried : List (String × Bool)) : Prop where
  /-- A model counts as held if a lock with its name was. -/
  held : ∀ modelId, modelId ∈ probe.heldModels ↔ ∃ lock, (lock, true) ∈ tried ∧ fileStem lock = modelId

theorem Probe.Notes.free {probe : Probe} {tried : List (String × Bool)} (h : probe.Notes tried)
    (lock : String) (freeLocks : List Handle) :
    Probe.Notes { probe with freeLocks := freeLocks } (tried ++ [(lock, false)]) where
  held modelId := by
    simp only [h.held, List.mem_append, List.mem_singleton, Prod.mk.injEq, Bool.true_eq_false,
      and_false, or_false]

theorem Probe.Notes.taken {probe : Probe} {tried : List (String × Bool)} (h : probe.Notes tried)
    (lock : String) :
    Probe.Notes
      { probe with heldModels := probe.heldModels ++ [fileStem lock], anyLockHeld := true }
      (tried ++ [(lock, true)]) where
  held modelId := by
    simp only [h.held, List.mem_append, List.mem_singleton, Prod.mk.injEq, and_true]
    constructor
    · rintro (⟨other, hmem, hstem⟩ | rfl)
      · exact ⟨other, .inl hmem, hstem⟩
      · exact ⟨lock, .inr rfl, rfl⟩
    · rintro ⟨other, hmem | rfl, hstem⟩
      · exact .inl ⟨other, hmem, hstem⟩
      · exact .inr hstem.symm

/-- A lock is tried, and the outcome noted. -/
theorem tryHold_sweeps (lock : String) (s : Sweep) :
    Ensures watched (tryHold lock) s fun result s' => s' = s.noted [lock] result.isNone := by
  rintro opened s' rfl
  rcases opened with err | file
  · exact rfl
  · rintro taken s' rfl
    rcases taken with err | ⟨⟩
    · rintro ⟨⟩ s' rfl
      exact rfl
    · exact rfl

/-- Only the outcomes of locks are new. -/
structure Probed (probe : Probe) (paths : List String) (s s' : Sweep) : Prop where
  /-- The locks in question have been tried, in order. -/
  tried : ∃ tried, s'.tried = s.tried ++ tried ∧ tried.map Prod.fst = paths
  /-- The probe is what all outcomes come to. -/
  notes : probe.Notes s'.tried
  /-- The listing is as it was. -/
  listed : s'.listed = s.listed
  /-- No name has been removed. -/
  attempted : s'.attempted = s.attempted

/-- The outcome of one lock before those of the rest. -/
theorem Probed.cons {probe : Probe} {lock : String} {held : Bool} {rest : List String}
    {s s' : Sweep} (h : Probed probe rest (s.noted [lock] held) s') :
    Probed probe (lock :: rest) s s' := by
  obtain ⟨tried, htried, hpaths⟩ := h.tried
  refine ⟨⟨(lock, held) :: tried, ?_, congrArg _ hpaths⟩, h.notes, h.listed, h.attempted⟩
  rw [htried, Sweep.noted, List.append_assoc]
  rfl

theorem probeLocks_sweeps (paths : List String) {probe : Probe} {s : Sweep}
    (hnotes : probe.Notes s.tried) :
    Ensures watched (probeLocks paths probe) s fun probe s' => Probed probe paths s s' := by
  induction paths generalizing probe s with
  | nil => exact ⟨⟨[], (List.append_nil _).symm, rfl⟩, hnotes, rfl, rfl⟩
  | cons lock rest ih =>
    refine (tryHold_sweeps lock s).andThen ?_
    rintro (_ | file) s' rfl
    · exact (ih (hnotes.taken lock)).mono fun _ _ h => h.cons
    · exact (ih (hnotes.free lock _)).mono fun _ _ h => h.cons

/-! ## The whole cleanup -/

/-- The names are tried one after the other, all of them if nothing goes wrong. -/
theorem removePartials_sweeps (names removed : List String) (s : Sweep) :
    Ensures watched (removePartials names removed) s fun result s' =>
      ∃ done rest, names = done ++ rest ∧
        s' = { s with attempted := s.attempted ++ done } ∧
        ∀ out, result = .ok out → rest = [] := by
  induction names generalizing removed s with
  | nil => exact ⟨[], [], rfl, by rw [List.append_nil], fun _ _ => rfl⟩
  | cons name names ih =>
    have hrest : ∀ removed, Ensures watched (removePartials names removed)
        { s with attempted := s.attempted ++ [name] } fun result s' =>
          ∃ done rest, name :: names = done ++ rest ∧
            s' = { s with attempted := s.attempted ++ done } ∧
            ∀ out, result = .ok out → rest = [] := by
      intro removed
      refine (ih removed _).mono ?_
      rintro result _ ⟨done, rest, rfl, rfl, hall⟩
      exact ⟨name :: done, rest, rfl, by rw [List.append_assoc, List.singleton_append], hall⟩
    rintro answer _ rfl
    rcases answer with err | ⟨⟩
    · simp only [Prog.ret_bind]
      split
      · exact hrest removed
      · exact ⟨[name], names, rfl, rfl, fun _ hok => nomatch hok⟩
    · exact hrest (removed ++ [name])

theorem closeAll_sweeps (handles : List Handle) (s : Sweep) :
    Ensures watched (closeAll handles) s fun _ s' => s' = s := by
  induction handles with
  | nil => exact rfl
  | cons file rest ih =>
    rintro ⟨⟩ _ rfl
    exact ih

theorem unlockAll_sweeps (handles : List Handle) (s : Sweep) :
    Ensures watched (unlockAll handles) s fun _ s' => s' = s := by
  induction handles with
  | nil => exact rfl
  | cons file rest ih =>
    rintro unlocked _ rfl ⟨⟩ _ rfl
    exact ih

/-- A cleanup that has tried every lock it has listed, and has turned to what is condemned then. -/
structure Removing (result : Except IoError (List String)) (s : Sweep) : Prop where
  /-- Every lock of the listing has been tried, and no other. -/
  locks : s.tried.map Prod.fst = s.listed.filter isLockName
  /-- What has been attempted is the beginning of what the probe leaves; all of it where the cleanup
  succeeds. -/
  condemned : ∃ probe rest, probe.Notes s.tried ∧
    condemned (listingOf s.listed) probe = s.attempted ++ rest ∧
    ∀ out, result = .ok out → rest = []

/-- How a cleanup ends.  One that does not get there fails, or has nothing to clean up. -/
def Swept (result : Except IoError (List String)) (s : Sweep) : Prop :=
  (s.attempted = [] ∧ ∀ out, result = .ok out → s.listed = []) ∨ Removing result s

/-- A cleanup that has listed some names and done nothing else. -/
def Sweep.listing (names : List String) : Sweep := ⟨names, none, [], []⟩

theorem listEntries_sweeps :
    Ensures watched (Prog.iterate listTurn ⟨[], [], []⟩) (Sweep.listing []) fun result s =>
      ∃ names, s = Sweep.listing names ∧
        ∀ listing, result = .ok listing → listing = listingOf names := by
  refine Ensures.iterate
    (fun listing s => ∃ names, s = Sweep.listing names ∧ listing = listingOf names)
    ⟨[], rfl, rfl⟩ ?_
  rintro _ _ ⟨names, rfl, rfl⟩ entry _ rfl
  rcases entry with err | (_ | name)
  · exact ⟨names, rfl, fun _ hok => nomatch hok⟩
  · exact ⟨names, rfl, fun _ hok => (Except.ok.inj hok).symm⟩
  · exact ⟨names ++ [name], rfl, (listingOf_concat names name).symm⟩

theorem cleanStalePartials_sweeps (cacheDir : String) :
    Ensures watched (cleanStalePartials cacheDir) (Sweep.listing []) Swept := by
  rintro opened _ rfl
  rcases opened with err | ⟨⟩
  · simp only [Prog.ret_bind]
    split
    · exact .inl ⟨rfl, fun _ _ => rfl⟩
    · exact .inl ⟨rfl, fun _ hok => nomatch hok⟩
  · refine listEntries_sweeps.andThen ?_
    rintro (err | listing) _ ⟨names, rfl, hlisting⟩
    · exact .inl ⟨rfl, fun _ hok => nomatch hok⟩
    · obtain rfl := hlisting listing rfl
      have hnotes : Probe.Notes ⟨[], [], false⟩ (Sweep.listing names).tried :=
        ⟨fun modelId => by simp [Sweep.listing]⟩
      refine (probeLocks_sweeps (listingOf names).lockPaths hnotes).andThen ?_
      rintro probe s ⟨⟨tried, htried, hpaths⟩, hnotes, hlisted, hattempted⟩
      have hlocks : s.tried.map Prod.fst = s.listed.filter isLockName := by
        rw [htried, hlisted, ← lockPaths_listingOf]
        exact hpaths
      have hstart : s.attempted = [] := hattempted
      have hnames : s.listed = names := hlisted
      refine (removePartials_sweeps _ [] s).andThen ?_
      rintro result _ ⟨done, rest, hcondemned, rfl, hall⟩
      have hremoving : ∀ result', (∀ out, result' = .ok out → rest = []) →
          Swept result' { s with attempted := s.attempted ++ done } := by
        refine fun result' hall' => .inr ⟨hlocks, probe, rest, hnotes, ?_, hall'⟩
        rw [hstart, hnames]
        exact hcondemned
      rcases result with err | removed
      · refine (closeAll_sweeps probe.freeLocks _).andThen ?_
        rintro ⟨⟩ _ rfl
        exact hremoving _ fun _ hok => nomatch hok
      · refine (unlockAll_sweeps probe.freeLocks _).andThen ?_
        rintro ⟨⟩ _ rfl
        exact hremoving _ fun _ _ => hall removed rfl

/-! ## Attribution -/

variable {modelId other random : String}

theorem isPartialOf_partialName (hmodel : modelId ≠ "") (hrandom : random ≠ "")
    (hdot : '.' ∉ random.toList) : IsPartialOf modelId (partialName modelId random) := by
  have hpart := isPartialName_partialName modelId random
  refine ⟨?_, hpart, ?_⟩
  · rw [← Bool.not_eq_true]
    intro hlock
    exact Bool.false_ne_true ((isPartialName_of_isLockName hlock).symm.trans hpart)
  · rw [modelOfPartial_partialName modelId hdot, if_pos]
    exact ⟨String.toList_eq_nil_iff.not.mpr hmodel, String.toList_eq_nil_iff.not.mpr hrandom⟩

/-- A partial file of a model is condemned if no lock with the model's name is held. -/
theorem mem_condemned_iff {names : List String} {probe : Probe} {tried : List (String × Bool)}
    (hnotes : probe.Notes tried) {name : String} (hpart : IsPartialOf modelId name) :
    name ∈ condemned (listingOf names) probe ↔
      name ∈ names ∧ ∀ lock, (lock, true) ∈ tried → fileStem lock ≠ modelId := by
  have hunattributed : name ∉ (listingOf names).unattributed := fun hmem =>
    absurd (hpart.2.2.symm.trans (unattributed_listingOf hmem)) (Option.some_ne_none _)
  have hspared : (!probe.heldModels.contains modelId) = true ↔
      ∀ lock, (lock, true) ∈ tried → fileStem lock ≠ modelId := by
    rw [Bool.not_eq_true', List.contains_eq_mem, decide_eq_false_iff_not, hnotes.held]
    exact ⟨fun h lock hlock hstem => h ⟨lock, hlock, hstem⟩,
      fun h ⟨lock, hlock, hstem⟩ => h lock hlock hstem⟩
  rw [condemned, List.mem_append, List.mem_map]
  constructor
  · rintro (⟨⟨entryModel, entryName⟩, hentry, rfl⟩ | hmem)
    · obtain ⟨hattributed, hfree⟩ := List.mem_filter.mp hentry
      obtain ⟨hmem, hentryPart⟩ := mem_attributed_listingOf.mp hattributed
      obtain rfl : entryModel = modelId :=
        Option.some.inj (hentryPart.2.2.symm.trans hpart.2.2)
      exact ⟨hmem, hspared.mp hfree⟩
    · split at hmem
      · cases hmem
      · exact absurd hmem hunattributed
  · rintro ⟨hmem, hfree⟩
    exact .inl ⟨(modelId, name), List.mem_filter.mpr
      ⟨mem_attributed_listingOf.mpr ⟨hmem, hpart⟩, hspared.mpr hfree⟩, rfl⟩

/-- What a cleanup does to a partial file, as far as it gets to it. -/
theorem attempted_of_removing {result : Except IoError (List String)} {s : Sweep}
    (h : Removing result s) {name : String} (hpart : IsPartialOf modelId name) :
    (name ∈ s.attempted → ∀ lock, (lock, true) ∈ s.tried → fileStem lock ≠ modelId) ∧
      ((∀ lock, (lock, true) ∈ s.tried → fileStem lock ≠ modelId) → name ∈ s.listed →
        ∀ out, result = .ok out → name ∈ s.attempted) := by
  obtain ⟨probe, rest, hnotes, hcondemned, hall⟩ := h.condemned
  have hmem : name ∈ condemned (listingOf s.listed) probe ↔ _ := mem_condemned_iff hnotes hpart
  rw [hcondemned] at hmem
  refine ⟨fun hattempted => (hmem.mp (List.mem_append_left _ hattempted)).2,
    fun hfree hlisted out hok => ?_⟩
  have hname := hmem.mpr ⟨hlisted, hfree⟩
  rwa [hall out hok, List.append_nil] at hname

/-- **Names are read back exactly**, so the locks of other models do not matter to a partial file:
a cleanup that gets through removes it just as long as no other lock than theirs is held that has
the name of its own model, and it never touches one whose model's lock is held. -/
theorem partials_areAttributed :
    (∀ modelId random, modelId ≠ "" → random ≠ "" → '.' ∉ random.toList →
      modelOfPartial (partialPrefix modelId ++ random ++ partialSuffix) = some modelId ∧
        fileStem (modelId ++ ".lock") = modelId) ∧
    ∀ cacheDir t result, Prog.Run (cleanStalePartials cacheDir) t result →
      ∀ modelId other random, modelId ≠ "" → other ≠ "" → modelId ≠ other → random ≠ "" →
        '.' ∉ random.toList →
        let name := partialPrefix other ++ random ++ partialSuffix
        let s := sweepOf t
        (name ∈ s.attempted → (lockName other, true) ∉ s.tried ∧
          ∀ lock ∈ s.listed, isLockName lock = true → lock ∈ s.tried.map Prod.fst) ∧
        ∀ removed, result = .ok removed → name ∈ s.listed →
          (name ∈ s.attempted ↔ ∀ lock, (lock, true) ∈ s.tried → lock ≠ lockName modelId →
            fileStem lock ≠ other) := by
  have hstem : ∀ {modelId}, modelId ≠ "" → fileStem (lockName modelId) = modelId :=
    fun hmodel => fileStem_lockName (String.toList_eq_nil_iff.not.mpr hmodel)
  refine ⟨fun modelId random hmodel hrandom hdot => ?_, ?_⟩
  · exact ⟨(isPartialOf_partialName hmodel hrandom hdot).2.2, hstem hmodel⟩
  intro cacheDir t result hrun modelId other random hmodel hother hne hrandom hdot name s
  have hpart : IsPartialOf other name := isPartialOf_partialName hother hrandom hdot
  have hswept : Swept result s :=
    (cleanStalePartials_sweeps cacheDir).sound hrun (steps_watched t _)
  rcases hswept with ⟨hnone, hempty⟩ | hremoving
  · refine ⟨fun hmem => ?_, fun removed hok hlisted => ?_⟩
    · rw [hnone] at hmem
      cases hmem
    · rw [hempty removed hok] at hlisted
      cases hlisted
  · obtain ⟨hspares, hremoves⟩ := attempted_of_removing hremoving hpart
    refine ⟨fun hmem => ⟨fun hheld => hspares hmem _ hheld (hstem hother), fun lock hlock his => ?_⟩,
      fun removed hok hlisted => ⟨fun hmem lock hlock _ => hspares hmem lock hlock, fun h => ?_⟩⟩
    · rw [hremoving.locks]
      exact List.mem_filter.mpr ⟨hlock, his⟩
    · refine hremoves (fun lock hlock => ?_) hlisted removed hok
      rcases eq_or_ne lock (lockName modelId) with rfl | hlockNe
      · rw [hstem hmodel]
        exact hne
      · exact h lock hlock hlockNe

/-! ## A lock that is held, of another model -/

/-- The partial file's model looks like the name of a lock. -/
def heldCalls : List (Called prepareSig) :=
  [⟨.file .readDir, .ok ()⟩, ⟨.file .nextEntry, .ok (some (partialName "n.lock" "abcdef"))⟩,
    ⟨.file .nextEntry, .ok (some "m.lock")⟩, ⟨.file .nextEntry, .ok none⟩,
    ⟨.file (.openReadWrite "m.lock"), .ok 0⟩,
    ⟨.file (.tryLock 0), .error ⟨false, "lock would block"⟩⟩, ⟨.file (.close 0), ()⟩,
    ⟨.file (.remove (partialName "n.lock" "abcdef")), .ok ()⟩]

theorem heldCalls_run : Prog.Run (cleanStalePartials "c") heldCalls
    (.ok ([partialName "n.lock" "abcdef"].mergeSort.map (join "c"))) :=
  .call <| .loop <| .call <| .loop <| .call <| .loop <| .call <| .call <| .call <| .call <|
    .call <| .ret _

/-- The partial file is removed, and the model is read back from its name. -/
theorem partials_areAttributed_heldCalls :
    modelOfPartial (partialName "n.lock" "abcdef") = some "n.lock" ∧
      partialName "n.lock" "abcdef" ∈ (sweepOf heldCalls).attempted := by
  refine ⟨(partials_areAttributed.1 "n.lock" "abcdef" (by decide) (by decide) (by decide)).1, ?_⟩
  refine ((partials_areAttributed.2 "c" heldCalls _ heldCalls_run "m" "n.lock" "abcdef" (by decide)
    (by decide) (by decide) (by decide) (by decide)).2 _ rfl (by decide)).mpr ?_
  intro lock hlock hne
  have hmem : (sweepOf heldCalls).tried = [("m.lock", true)] := rfl
  rw [hmem, List.mem_singleton] at hlock
  exact absurd (Prod.mk.inj hlock).1 hne

end SemanticSidecar
