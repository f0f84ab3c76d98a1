import SemanticSidecar.Engine.BackendSelect
import SemanticSidecar.Lib.Encoding
import SemanticSidecar.Lib.Sha256

/-!
# The identity of a machine

The key of a cached verdict has two texts about the accelerators of the machine: one of what they
are and one of their drivers.  Each of them joins the accelerators with commas, and what is said of
one with colons.  The device descriptions and the drivers are texts from elsewhere, and may have
colons themselves.

`machine_tellsApart` says how far the two texts tell machines apart.  A machine of one accelerator
is told apart from every other one, unless its name or its description has a colon.  A machine of
more never is: there is always one accelerator with a description and a driver that look like all
of them.  As long as there are no colons, any two machines are told apart.

It is also here that the bytes behind a key are taken apart again.  `keyBytes_eq_iff` says that they
determine the components, because each of them has its length in front; so two contexts and machines
share a key only if they agree in every component or if SHA-256 has a collision.
-/

set_option autoImplicit false

namespace SemanticSidecar

open Encoding

/-! ## What there is to tell -/

/-- What an accelerator is. -/
def identityFacts : String × RuntimeDevice → String × ℕ × String × String × ℕ
  | (backend, device) =>
    (backend, device.index, device.name, device.description, device.memoryTotal)

/-- What the second text has of an accelerator: its driver. -/
def driverFacts : String × RuntimeDevice → String × ℕ × String
  | (backend, device) => (backend, device.index, device.driver)

variable (declared : DeclaredBackends) (devices devices' : List RuntimeDevice)

/-- The identity of a machine with these devices. -/
def machineOf : MachineIdentity := (discoverCandidates declared devices []).machine

/-- Two machines with other accelerators or other drivers. -/
def Differ : Prop :=
  (acceleratorDevices declared devices).map identityFacts ≠
      (acceleratorDevices declared devices').map identityFacts ∨
    (acceleratorDevices declared devices).map driverFacts ≠
      (acceleratorDevices declared devices').map driverFacts

/-- What is hashed for the key of a verdict. -/
def keyBytes (context : SelectionContext) (machine : MachineIdentity) : List UInt8 :=
  [context.sidecarVersion, context.modelSha256, context.nativeBuildIdentity,
    context.packagedBackendIdentity, machine.gpu, machine.driver].flatMap fun component =>
      lengthBytes (Text.toUtf8 component).length ++ Text.toUtf8 component

/-- The two texts of a machine, as long as they have a length. -/
def MachineIdentity.Bounded (machine : MachineIdentity) : Prop :=
  (Text.toUtf8 machine.gpu).length < 2 ^ 64 ∧ (Text.toUtf8 machine.driver).length < 2 ^ 64

/-- Two machines have two identities, and their verdicts two keys, as far as SHA-256 does not fail
on them. -/
def TellsApart (sha256 : List UInt8 → List UInt8) : Prop :=
  Differ declared devices devices' →
    ((machineOf declared devices).gpu, (machineOf declared devices).driver) ≠
        ((machineOf declared devices').gpu, (machineOf declared devices').driver) ∧
      ∀ context, (machineOf declared devices).Bounded → (machineOf declared devices').Bounded →
        (sha256 (keyBytes context (machineOf declared devices)) =
            sha256 (keyBytes context (machineOf declared devices')) →
          keyBytes context (machineOf declared devices) =
            keyBytes context (machineOf declared devices')) →
        runtimeCacheKey sha256 context (machineOf declared devices) ≠
          runtimeCacheKey sha256 context (machineOf declared devices')

variable {declared devices devices'}

/-! ## The parts of an identity -/

theorem mem_acceleratorDevices {entry : String × RuntimeDevice} :
    entry ∈ acceleratorDevices declared devices ↔
      entry.1 ∈ declared.stableAccelerators ∧ entry.2 ∈ devices ∧
        normalizeBackend entry.2.backend = some entry.1 := by
  obtain ⟨backend, device⟩ := entry
  rw [acceleratorDevices, List.mem_flatMap]
  refine ⟨?_, ?_⟩
  · rintro ⟨other, hother, hmem⟩
    obtain ⟨found, hfound, heq⟩ := List.mem_map.mp hmem
    obtain ⟨rfl, rfl⟩ := Prod.mk.inj heq
    obtain ⟨hdevice, hbackend⟩ := List.mem_filter.mp hfound
    exact ⟨hother, hdevice, of_decide_eq_true hbackend⟩
  · rintro ⟨hbackend, hdevice, hnormal⟩
    exact ⟨backend, hbackend, List.mem_map_of_mem
      (List.mem_filter.mpr ⟨hdevice, decide_eq_true hnormal⟩)⟩

/-- The digits of a number. -/
def digits (n : ℕ) : List Char := (toString n).toList

theorem digits_eq (n : ℕ) : digits n = Nat.toDigits 10 n := Nat.toList_repr

theorem digits_inj {n n' : ℕ} (h : digits n = digits n') : n = n' := by
  rw [digits_eq, digits_eq] at h
  rw [← Nat.ofDigitChars_ten_toDigits (n := n), h, Nat.ofDigitChars_ten_toDigits]

theorem notMem_digits {c : Char} (hc : c.isDigit = false) (n : ℕ) : c ∉ digits n := by
  intro hmem
  rw [digits_eq] at hmem
  exact Bool.false_ne_true
    (hc.symm.trans (Nat.isDigit_of_mem_toDigits (by decide) (by decide) hmem))

theorem backend_plain {backend : String} (h : backend ∈ declared.stableAccelerators) :
    ':' ∉ backend.toList ∧ ',' ∉ backend.toList := by
  have hall : ∀ backend ∈ stableBackends, ':' ∉ backend.toList ∧ ',' ∉ backend.toList := by decide
  exact hall backend (List.mem_filter.mp h).1

/-- The part of an accelerator in the first text. -/
def identityChars (entry : String × RuntimeDevice) : List Char :=
  entry.1.toList ++ ':' :: (digits entry.2.index ++ ':' :: (entry.2.name.toList ++
    ':' :: (entry.2.description.toList ++ ':' :: digits entry.2.memoryTotal)))

/-- The part of an accelerator in the second text. -/
def driverChars (entry : String × RuntimeDevice) : List Char :=
  entry.1.toList ++ ':' :: (digits entry.2.index ++ ':' :: entry.2.driver.toList)

theorem toList_identityPart (entry : String × RuntimeDevice) :
    (identityPart entry).toList = identityChars entry := by
  simp only [identityPart, identityChars, digits, String.toList_append, List.append_assoc]
  rfl

theorem toList_driverPart (entry : String × RuntimeDevice) :
    (driverPart entry).toList = driverChars entry := by
  simp only [driverPart, driverChars, digits, String.toList_append, List.append_assoc]
  rfl

theorem toList_join (entry : String × RuntimeDevice) (rest : List (String × RuntimeDevice))
    (part : String × RuntimeDevice → String) (chars : String × RuntimeDevice → List Char)
    (hchars : ∀ entry, (part entry).toList = chars entry) :
    ',' :: (String.intercalate "," ((entry :: rest).map part)).toList =
      separated ',' ((entry :: rest).map chars) := by
  have hparts : ((entry :: rest).map part).map String.toList = (entry :: rest).map chars := by
    rw [List.map_map]
    exact List.map_congr_left fun entry _ => hchars entry
  have hsep : ",".toList = [','] := rfl
  rw [String.toList_intercalate, hparts, hsep, List.map_cons, intercalate_cons, separated_cons]

/-! ## Without colons -/

/-- An accelerator of a declared backend. -/
def Stable (entry : String × RuntimeDevice) : Prop := ':' ∉ entry.1.toList ∧ ',' ∉ entry.1.toList

/-- An accelerator of a declared backend whose description can be told from the rest of its part. -/
def Described (entry : String × RuntimeDevice) : Prop :=
  Stable entry ∧ ':' ∉ entry.2.name.toList ∧ ':' ∉ entry.2.description.toList

variable {found found' : List (String × RuntimeDevice)}

/-- Without colons in them, the accelerators can be read off the first text. -/
theorem identity_inj (hfound : ∀ entry ∈ found, Described entry)
    (hfound' : ∀ entry ∈ found', Described entry)
    (h : separated ',' (found.map identityChars) = separated ',' (found'.map identityChars)) :
    found.map identityFacts = found'.map identityFacts := by
  induction found generalizing found' with
  | nil =>
    rcases found' with _ | ⟨entry', rest'⟩
    · rfl
    · exact absurd h (List.cons_ne_nil _ _).symm
  | cons entry rest ih =>
    rcases found' with _ | ⟨entry', rest'⟩
    · exact absurd h (List.cons_ne_nil _ _)
    obtain ⟨hentry, hrest⟩ := List.forall_mem_cons.mp hfound
    obtain ⟨hentry', hrest'⟩ := List.forall_mem_cons.mp hfound'
    rw [List.map_cons, List.map_cons, separated_cons, separated_cons] at h
    have hparts := (List.cons.inj h).2
    simp only [identityChars, List.append_assoc, List.cons_append] at hparts
    obtain ⟨hbackend, hparts⟩ := append_sep_inj hentry.1.1 hentry'.1.1 hparts
    obtain ⟨hindex, hparts⟩ := append_sep_inj (notMem_digits rfl _) (notMem_digits rfl _) hparts
    obtain ⟨hname, hparts⟩ := append_sep_inj hentry.2.1 hentry'.2.1 hparts
    obtain ⟨hdescription, hparts⟩ := append_sep_inj hentry.2.2 hentry'.2.2 hparts
    obtain ⟨hmemory, hparts⟩ :=
      append_separated_inj (notMem_digits rfl _) (notMem_digits rfl _) hparts
    have hfacts : identityFacts entry = identityFacts entry' := by
      rw [identityFacts, identityFacts, String.toList_inj.mp hbackend, digits_inj hindex,
        String.toList_inj.mp hname, String.toList_inj.mp hdescription, digits_inj hmemory]
    rw [List.map_cons, List.map_cons, hfacts, ih hrest hrest' hparts]

/-- A driver without colons ends before the next accelerator, whose backend is known. -/
theorem driver_ends (hfound : ∀ entry ∈ found, Stable entry) (hfound' : ∀ entry ∈ found', Stable entry)
    (hsame : found.map identityFacts = found'.map identityFacts) {driver driver' : List Char}
    (hdriver : ':' ∉ driver) (hdriver' : ':' ∉ driver')
    (h : driver ++ separated ',' (found.map driverChars) =
      driver' ++ separated ',' (found'.map driverChars)) : driver = driver' := by
  rcases found with _ | ⟨entry, rest⟩
  · rw [List.map_nil, eq_comm, List.map_eq_nil_iff] at hsame
    rw [hsame] at h
    exact List.append_cancel_right h
  · rcases found' with _ | ⟨entry', rest'⟩
    · exact absurd hsame (List.cons_ne_nil _ _)
    have hentry := hfound entry List.mem_cons_self
    have hentry' := hfound' entry' List.mem_cons_self
    have hbackend : entry.1 = entry'.1 := (Prod.mk.inj (List.cons.inj hsame).1).1
    have hnotMem : ∀ {driver : List Char} {backend : String}, ':' ∉ driver → ':' ∉ backend.toList →
        ':' ∉ driver ++ ',' :: backend.toList := by
      intro driver backend hdriver hbackend hmem
      rcases List.mem_append.mp hmem with hmem | hmem
      · exact hdriver hmem
      · exact hbackend ((List.mem_cons.mp hmem).resolve_left (by decide))
    have hparts : (driver ++ ',' :: entry.1.toList) ++ ':' :: (digits entry.2.index ++
          ':' :: (entry.2.driver.toList ++ separated ',' (rest.map driverChars))) =
        (driver' ++ ',' :: entry'.1.toList) ++ ':' :: (digits entry'.2.index ++
          ':' :: (entry'.2.driver.toList ++ separated ',' (rest'.map driverChars))) := by
      simpa only [List.map_cons, separated_cons, driverChars, List.append_assoc, List.cons_append]
        using h
    obtain ⟨hstart, -⟩ := append_sep_inj (hnotMem hdriver hentry.1) (hnotMem hdriver' hentry'.1)
      hparts
    rw [hbackend] at hstart
    exact List.append_cancel_right hstart

/-- Where no driver has a colon, the drivers can be read off the second text. -/
theorem driver_inj (hfound : ∀ entry ∈ found, Stable entry ∧ ':' ∉ entry.2.driver.toList)
    (hfound' : ∀ entry ∈ found', Stable entry ∧ ':' ∉ entry.2.driver.toList)
    (hsame : found.map identityFacts = found'.map identityFacts)
    (h : separated ',' (found.map driverChars) = separated ',' (found'.map driverChars)) :
    found.map driverFacts = found'.map driverFacts := by
  induction found generalizing found' with
  | nil =>
    rw [List.map_nil, eq_comm, List.map_eq_nil_iff] at hsame
    rw [hsame]
  | cons entry rest ih =>
    rcases found' with _ | ⟨entry', rest'⟩
    · exact absurd hsame (List.cons_ne_nil _ _)
    obtain ⟨hentry, hrest⟩ := List.forall_mem_cons.mp hfound
    obtain ⟨hentry', hrest'⟩ := List.forall_mem_cons.mp hfound'
    obtain ⟨backend, device⟩ := entry
    obtain ⟨backend', device'⟩ := entry'
    obtain ⟨hhead, htail⟩ := List.cons.inj hsame
    obtain ⟨rfl, hfacts⟩ := Prod.mk.inj hhead
    obtain ⟨hindex, -⟩ := Prod.mk.inj hfacts
    have hparts : device.driver.toList ++ separated ',' (rest.map driverChars) =
        device'.driver.toList ++ separated ',' (rest'.map driverChars) := by
      simpa only [List.map_cons, separated_cons, driverChars, hindex, List.append_assoc,
        List.cons_append, List.append_cancel_left_eq, List.cons.injEq, true_and] using h
    have hdriver := driver_ends (fun entry hmem => (hrest entry hmem).1)
      (fun entry hmem => (hrest' entry hmem).1) htail hentry.2 hentry'.2 hparts
    rw [hdriver] at hparts
    rw [List.map_cons, List.map_cons, driverFacts, driverFacts, hindex, String.toList_inj.mp hdriver,
      ih hrest hrest' htail (List.append_cancel_left hparts)]

/-! ## One accelerator -/

theorem colon_mem_separated (entry : String × RuntimeDevice) (rest : List (String × RuntimeDevice)) :
    ':' ∈ separated ',' ((entry :: rest).map identityChars) := by
  rw [List.map_cons, separated_cons, identityChars]
  simp

/-- One accelerator whose name and description have no colon can be read off the first text, whatever
the other machine has. -/
theorem identity_single {entry entry' : String × RuntimeDevice} {rest' : List (String × RuntimeDevice)}
    (hentry : Described entry) (hentry' : Stable entry')
    (h : identityChars entry = identityChars entry' ++ separated ',' (rest'.map identityChars)) :
    identityFacts entry = identityFacts entry' ∧ rest' = [] := by
  simp only [identityChars, List.append_assoc, List.cons_append] at h
  obtain ⟨hbackend, h⟩ := append_sep_inj hentry.1.1 hentry'.1 h
  obtain ⟨hindex, h⟩ := append_sep_inj (notMem_digits rfl _) (notMem_digits rfl _) h
  have hdigits : ∀ n, (digits n).count ':' = 0 := fun n =>
    List.count_eq_zero.mpr (notMem_digits rfl n)
  -- The rest of the text has two colons, and they separate the three parts.
  have hcount := congrArg (List.count ':') h
  simp only [List.count_append, List.count_cons_self, List.count_eq_zero.mpr hentry.2.1,
    List.count_eq_zero.mpr hentry.2.2, hdigits] at hcount
  have hname' : ':' ∉ entry'.2.name.toList := List.count_eq_zero.mp (by omega)
  have hdescription' : ':' ∉ entry'.2.description.toList := List.count_eq_zero.mp (by omega)
  have hrest' : rest' = [] := by
    rcases rest' with _ | ⟨next, rest'⟩
    · rfl
    · have hmem := List.count_pos_iff.mpr (colon_mem_separated next rest')
      omega
  subst hrest'
  obtain ⟨hname, h⟩ := append_sep_inj hentry.2.1 hname' h
  obtain ⟨hdescription, h⟩ := append_sep_inj hentry.2.2 hdescription' h
  have hmemory := digits_inj (h.trans (List.append_nil _))
  refine ⟨?_, rfl⟩
  rw [identityFacts, identityFacts, String.toList_inj.mp hbackend, digits_inj hindex,
    String.toList_inj.mp hname, String.toList_inj.mp hdescription, hmemory]

/-! ## What the identity tells -/

theorem stable_of_mem {entry : String × RuntimeDevice}
    (h : entry ∈ acceleratorDevices declared devices) : Stable entry :=
  backend_plain (mem_acceleratorDevices.mp h).1

theorem machineOf_nil (h : acceleratorDevices declared devices = []) :
    machineOf declared devices = .none := by
  rw [machineOf, discoverCandidates]
  exact if_pos (List.isEmpty_iff.mpr h)

theorem machineOf_cons (h : acceleratorDevices declared devices ≠ []) :
    machineOf declared devices =
      ⟨String.intercalate "," ((acceleratorDevices declared devices).map identityPart),
        String.intercalate "," ((acceleratorDevices declared devices).map driverPart),
        (acceleratorDevices declared devices).all fun entry => entry.2.driverCacheable⟩ := by
  rw [machineOf, discoverCandidates]
  exact if_neg (mt List.isEmpty_iff.mp h)

theorem gpu_toList (h : acceleratorDevices declared devices ≠ []) :
    ',' :: (machineOf declared devices).gpu.toList =
      separated ',' ((acceleratorDevices declared devices).map identityChars) := by
  rw [machineOf_cons h]
  obtain ⟨entry, rest, hfound⟩ := List.exists_cons_of_ne_nil h
  rw [hfound]
  exact toList_join entry rest identityPart identityChars toList_identityPart

theorem driver_toList (h : acceleratorDevices declared devices ≠ []) :
    ',' :: (machineOf declared devices).driver.toList =
      separated ',' ((acceleratorDevices declared devices).map driverChars) := by
  rw [machineOf_cons h]
  obtain ⟨entry, rest, hfound⟩ := List.exists_cons_of_ne_nil h
  rw [hfound]
  exact toList_join entry rest driverPart driverChars toList_driverPart

/-- A machine without accelerators has no colon in its identity, and the others have one. -/
theorem gpu_none_iff :
    ':' ∉ (machineOf declared devices).gpu.toList ↔ acceleratorDevices declared devices = [] := by
  refine ⟨fun h => ?_, fun h => ?_⟩
  · by_contra hne
    obtain ⟨entry, rest, hfound⟩ := List.exists_cons_of_ne_nil hne
    have hmem := gpu_toList hne ▸ hfound.symm ▸ colon_mem_separated entry rest
    exact h ((List.mem_cons.mp hmem).resolve_left (by decide))
  · rw [machineOf_nil h]
    decide

/-- The two texts are the same. -/
def SameIdentity (machine machine' : MachineIdentity) : Prop :=
  machine.gpu = machine'.gpu ∧ machine.driver = machine'.driver

theorem nil_iff_of_same (h : SameIdentity (machineOf declared devices) (machineOf declared devices')) :
    acceleratorDevices declared devices = [] ↔ acceleratorDevices declared devices' = [] := by
  rw [← gpu_none_iff, h.1, gpu_none_iff]

/-- The texts of two machines with accelerators, without the join. -/
theorem separated_of_same
    (h : SameIdentity (machineOf declared devices) (machineOf declared devices')) :
    separated ',' ((acceleratorDevices declared devices).map identityChars) =
        separated ',' ((acceleratorDevices declared devices').map identityChars) ∧
      separated ',' ((acceleratorDevices declared devices).map driverChars) =
        separated ',' ((acceleratorDevices declared devices').map driverChars) := by
  by_cases hnil : acceleratorDevices declared devices = []
  · rw [hnil, (nil_iff_of_same h).mp hnil]
    exact ⟨rfl, rfl⟩
  · have hnil' := mt (nil_iff_of_same h).mpr hnil
    rw [← gpu_toList hnil, ← gpu_toList hnil', ← driver_toList hnil, ← driver_toList hnil', h.1, h.2]
    exact ⟨rfl, rfl⟩

/-- No accelerator of the machine has a text with a colon. -/
def WithoutColons (declared : DeclaredBackends) (devices : List RuntimeDevice) : Prop :=
  ∀ entry ∈ acceleratorDevices declared devices,
    ':' ∉ entry.2.name.toList ∧ ':' ∉ entry.2.description.toList ∧ ':' ∉ entry.2.driver.toList

/-- At most one accelerator, whose name and description have no colon. -/
def Unmistakable (declared : DeclaredBackends) (devices : List RuntimeDevice) : Prop :=
  (acceleratorDevices declared devices).length ≤ 1 ∧
    ∀ entry ∈ acceleratorDevices declared devices,
      ':' ∉ entry.2.name.toList ∧ ':' ∉ entry.2.description.toList

theorem not_differ_of_withoutColons (hcolons : WithoutColons declared devices)
    (hcolons' : WithoutColons declared devices')
    (h : SameIdentity (machineOf declared devices) (machineOf declared devices')) :
    ¬ Differ declared devices devices' := by
  obtain ⟨hidentity, hdriver⟩ := separated_of_same h
  have hfacts := identity_inj
    (fun entry hmem => ⟨stable_of_mem hmem, (hcolons entry hmem).1, (hcolons entry hmem).2.1⟩)
    (fun entry hmem => ⟨stable_of_mem hmem, (hcolons' entry hmem).1, (hcolons' entry hmem).2.1⟩)
    hidentity
  have hdrivers := driver_inj (fun entry hmem => ⟨stable_of_mem hmem, (hcolons entry hmem).2.2⟩)
    (fun entry hmem => ⟨stable_of_mem hmem, (hcolons' entry hmem).2.2⟩) hfacts hdriver
  exact not_or.mpr ⟨not_not.mpr hfacts, not_not.mpr hdrivers⟩

theorem not_differ_of_unmistakable (hsingle : Unmistakable declared devices)
    (h : SameIdentity (machineOf declared devices) (machineOf declared devices')) :
    ¬ Differ declared devices devices' := by
  obtain ⟨hidentity, hdriver⟩ := separated_of_same h
  obtain ⟨hlength, hcolons⟩ := hsingle
  have hnil := nil_iff_of_same h
  have hstable : ∀ entry ∈ acceleratorDevices declared devices', Stable entry := fun entry hmem =>
    stable_of_mem hmem
  have hdescribed : ∀ entry ∈ acceleratorDevices declared devices, Described entry :=
    fun entry hmem => ⟨stable_of_mem hmem, hcolons entry hmem⟩
  rw [Differ]
  rcases hfound : acceleratorDevices declared devices with _ | ⟨entry, rest⟩
  · rw [hnil.mp hfound]
    exact not_or.mpr ⟨not_not.mpr rfl, not_not.mpr rfl⟩
  rw [hfound] at hidentity hdriver hlength hdescribed
  obtain rfl := List.eq_nil_of_length_eq_zero (Nat.le_zero.mp (Nat.le_of_succ_le_succ hlength))
  rcases hfound' : acceleratorDevices declared devices' with _ | ⟨entry', rest'⟩
  · exact absurd (hfound.symm.trans (hnil.mpr hfound')) (List.cons_ne_nil _ _)
  rw [hfound'] at hidentity hdriver hstable
  rw [List.map_cons, List.map_cons, separated_cons, separated_cons] at hidentity hdriver
  obtain ⟨hfacts, rfl⟩ := identity_single (hdescribed entry List.mem_cons_self)
    (hstable entry' List.mem_cons_self)
    ((List.append_nil _).symm.trans (List.cons.inj hidentity).2)
  have hchars : driverChars entry = driverChars entry' :=
    List.append_cancel_right (List.cons.inj hdriver).2
  obtain ⟨backend, device⟩ := entry
  obtain ⟨backend', device'⟩ := entry'
  obtain ⟨rfl, hdevice⟩ := Prod.mk.inj hfacts
  obtain ⟨hindex, -⟩ := Prod.mk.inj hdevice
  have hdriver' : device.driver = device'.driver := by
    simp only [driverChars, hindex, List.append_cancel_left_eq, List.cons.injEq, true_and,
      String.toList_inj] at hchars
    exact hchars
  rw [List.map_singleton, List.map_singleton, List.map_singleton, List.map_singleton, hfacts,
    driverFacts, driverFacts, hindex, hdriver']
  exact not_or.mpr ⟨not_not.mpr rfl, not_not.mpr rfl⟩

/-! ## The keys -/

/-- What a verdict depends on. -/
def keyComponents (context : SelectionContext) (machine : MachineIdentity) : List String :=
  [context.sidecarVersion, context.modelSha256, context.nativeBuildIdentity,
    context.packagedBackendIdentity, machine.gpu, machine.driver]

theorem keyBytes_eq (context : SelectionContext) (machine : MachineIdentity) :
    keyBytes context machine =
      ((keyComponents context machine).map Text.toUtf8).flatMap (lengthPrefixed 8) := by
  rw [List.flatMap_map]
  rfl

/-- **What is hashed can be taken apart.**  A string has fewer than `2 ^ 64` bytes. -/
theorem keyBytes_eq_iff {context context' : SelectionContext} {machine machine' : MachineIdentity}
    (hshort : ∀ component ∈ keyComponents context machine,
      (Text.toUtf8 component).length < 2 ^ 64)
    (hshort' : ∀ component ∈ keyComponents context' machine',
      (Text.toUtf8 component).length < 2 ^ 64) :
    (∀ sha256, runtimeCacheKey sha256 context machine = hex (sha256 (keyBytes context machine))) ∧
      (keyBytes context machine = keyBytes context' machine' ↔
        context.sidecarVersion = context'.sidecarVersion ∧
          context.modelSha256 = context'.modelSha256 ∧
          context.nativeBuildIdentity = context'.nativeBuildIdentity ∧
          context.packagedBackendIdentity = context'.packagedBackendIdentity ∧
          machine.gpu = machine'.gpu ∧ machine.driver = machine'.driver) := by
  refine ⟨fun sha256 => rfl, fun h => ?_, ?_⟩
  · rw [keyBytes_eq, keyBytes_eq] at h
    have hparts : (keyComponents context machine).map Text.toUtf8 =
        (keyComponents context' machine').map Text.toUtf8 :=
      flatMap_lengthPrefixed_inj rfl (List.forall_mem_map.mpr hshort)
        (List.forall_mem_map.mpr hshort') h
    have hinj : Function.Injective Text.toUtf8 := fun _ _ => Text.toUtf8_inj
    have hcomponents := List.map_injective_iff.mpr hinj hparts
    simpa only [keyComponents, List.cons.injEq, and_true] using hcomponents
  · rintro ⟨hversion, hmodel, hnative, hpackaged, hgpu, hdriver⟩
    rw [keyBytes, keyBytes, hversion, hmodel, hnative, hpackaged, hgpu, hdriver]

/-- Bytes that move from one component to the next, and an empty component. -/
theorem keyBytes_eq_iff_shifted :
    keyBytes ⟨"0.1.0", "ab", "c", ""⟩ ⟨"", "none", true⟩ ≠
      keyBytes ⟨"0.1.0", "a", "bc", ""⟩ ⟨"", "none", true⟩ := by
  intro h
  have hparts := (keyBytes_eq_iff (by decide) (by decide)).2.mp h
  exact absurd hparts.2.1 (by decide)

/-- With another identity, the key is another one. -/
theorem runtimeCacheKey_ne {sha256 : List UInt8 → List UInt8} {context : SelectionContext}
    {machine machine' : MachineIdentity} (hbounded : machine.Bounded)
    (hbounded' : machine'.Bounded)
    (hcollision : sha256 (keyBytes context machine) = sha256 (keyBytes context machine') →
      keyBytes context machine = keyBytes context machine')
    (hne : ¬ SameIdentity machine machine') :
    runtimeCacheKey sha256 context machine ≠ runtimeCacheKey sha256 context machine' := by
  intro hkey
  have hbytes := hcollision (hex_injective hkey)
  let components := [context.sidecarVersion, context.modelSha256, context.nativeBuildIdentity,
    context.packagedBackendIdentity]
  have hsplit : ∀ machine : MachineIdentity, keyBytes context machine =
      components.flatMap (fun component => lengthPrefixed 8 (Text.toUtf8 component)) ++
        [Text.toUtf8 machine.gpu, Text.toUtf8 machine.driver].flatMap (lengthPrefixed 8) := by
    intro machine
    have happend : keyBytes context machine = (components ++ [machine.gpu, machine.driver]).flatMap
        fun component => lengthPrefixed 8 (Text.toUtf8 component) := rfl
    rw [happend, List.flatMap_append]
    rfl
  rw [hsplit, hsplit, List.append_cancel_left_eq] at hbytes
  have hshort : ∀ machine : MachineIdentity, machine.Bounded →
      ∀ part ∈ [Text.toUtf8 machine.gpu, Text.toUtf8 machine.driver], part.length < 256 ^ 8 := by
    rintro machine ⟨hgpu, hdriver⟩ part hmem
    rcases List.mem_pair.mp hmem with rfl | rfl
    · exact hgpu
    · exact hdriver
  have hparts : [Text.toUtf8 machine.gpu, Text.toUtf8 machine.driver] =
      [Text.toUtf8 machine'.gpu, Text.toUtf8 machine'.driver] :=
    flatMap_lengthPrefixed_inj rfl (hshort machine hbounded) (hshort machine' hbounded') hbytes
  obtain ⟨hgpu, hrest⟩ := List.cons.inj hparts
  exact hne ⟨Text.toUtf8_inj hgpu, Text.toUtf8_inj (List.cons.inj hrest).1⟩

/-- Telling apart is a matter of the two texts. -/
theorem tellsApart_iff (sha256 : List UInt8 → List UInt8) :
    TellsApart declared devices devices' sha256 ↔
      (SameIdentity (machineOf declared devices) (machineOf declared devices') →
        ¬ Differ declared devices devices') := by
  refine ⟨fun h hsame hdiffer => (h hdiffer).1 (Prod.ext hsame.1 hsame.2), fun h hdiffer => ?_⟩
  have hne : ¬ SameIdentity (machineOf declared devices) (machineOf declared devices') :=
    fun hsame => h hsame hdiffer
  exact ⟨fun heq => hne ⟨(Prod.mk.inj heq).1, (Prod.mk.inj heq).2⟩,
    fun context hbounded hbounded' hcollision =>
      runtimeCacheKey_ne hbounded hbounded' hcollision hne⟩

/-! ## Machines that look the same -/

theorem flatMap_only {α β : Type*} {l : List α} (hnodup : l.Nodup) {a : α} (hmem : a ∈ l)
    {f : α → List β} (hnone : ∀ b, b ≠ a → f b = []) : l.flatMap f = f a := by
  induction l with
  | nil => exact absurd hmem List.not_mem_nil
  | cons b l ih =>
    obtain ⟨hb, hl⟩ := List.nodup_cons.mp hnodup
    rw [List.flatMap_cons]
    rcases List.mem_cons.mp hmem with rfl | hmem
    · have hrest : l.flatMap f = [] :=
        List.flatMap_eq_nil_iff.mpr fun c hc => hnone c fun heq => hb (heq ▸ hc)
      rw [hrest, List.append_nil]
    · rw [hnone b fun heq => hb (heq ▸ hmem), List.nil_append, ih hl hmem]

/-- A machine of one accelerator. -/
theorem acceleratorDevices_single {backend : String} {device : RuntimeDevice}
    (hbackend : backend ∈ declared.stableAccelerators)
    (hnormal : normalizeBackend device.backend = some backend) :
    acceleratorDevices declared [device] = [(backend, device)] := by
  have hnodup : declared.stableAccelerators.Nodup :=
    List.Nodup.filter _ (show stableBackends.Nodup by decide)
  have hdevices : ∀ other, devicesOf [device] other =
      if some backend = some other then [device] else [] := by
    intro other
    rw [devicesOf, List.filter_singleton, hnormal, Bool.cond_decide]
  rw [acceleratorDevices, flatMap_only hnodup hbackend]
  · rw [hdevices, if_pos rfl]
    rfl
  · intro other hother
    rw [hdevices, if_neg fun heq => hother (Option.some.inj heq).symm]
    rfl

theorem machineOf_single {backend : String} {device : RuntimeDevice}
    (hbackend : backend ∈ declared.stableAccelerators)
    (hnormal : normalizeBackend device.backend = some backend) :
    (machineOf declared [device]).gpu = identityPart (backend, device) ∧
      (machineOf declared [device]).driver = driverPart (backend, device) := by
  have hfound := acceleratorDevices_single hbackend hnormal
  rw [machineOf_cons (hfound ▸ List.cons_ne_nil _ _), hfound]
  exact ⟨String.intercalate_singleton (s := ","), String.intercalate_singleton (s := ",")⟩

theorem intercalate_map (part : String × RuntimeDevice → String)
    (entry next : String × RuntimeDevice) (rest : List (String × RuntimeDevice)) :
    String.intercalate "," ((entry :: next :: rest).map part) =
      part entry ++ "," ++ String.intercalate "," ((next :: rest).map part) :=
  String.intercalate_cons_cons

/-- A joined text ends with the memory of an accelerator. -/
theorem identity_ends (entry : String × RuntimeDevice) (rest : List (String × RuntimeDevice)) :
    ∃ start memory, String.intercalate "," ((entry :: rest).map identityPart) =
      start ++ ":" ++ toString (memory : ℕ) := by
  induction rest generalizing entry with
  | nil => exact ⟨_, entry.2.memoryTotal, String.intercalate_singleton (s := ",")⟩
  | cons next rest ih =>
    obtain ⟨start, memory, hrest⟩ := ih next
    refine ⟨identityPart entry ++ "," ++ start, memory, ?_⟩
    rw [intercalate_map, hrest]
    simp only [String.append_assoc]

/-- The identity of a machine of several accelerators is that of one accelerator as well. -/
theorem merged (hlength : 1 < (acceleratorDevices declared devices).length) :
    ∃ devices', Differ declared devices devices' ∧
      SameIdentity (machineOf declared devices) (machineOf declared devices') := by
  rcases hfound : acceleratorDevices declared devices with _ | ⟨⟨backend, device⟩, _ | ⟨next, rest⟩⟩
  · exact absurd (hfound ▸ hlength) (by decide)
  · exact absurd (hfound ▸ hlength) (by simp)
  have hmem : (backend, device) ∈ acceleratorDevices declared devices :=
    hfound ▸ List.mem_cons_self
  obtain ⟨hbackend, -, hnormal⟩ := mem_acceleratorDevices.mp hmem
  obtain ⟨start, memory, hends⟩ := identity_ends next rest
  let device' : RuntimeDevice :=
    { device with
      description := device.description ++ ":" ++ toString device.memoryTotal ++ "," ++ start
      memoryTotal := memory
      driver := device.driver ++ "," ++ String.intercalate "," ((next :: rest).map driverPart) }
  have hfound' : acceleratorDevices declared [device'] = [(backend, device')] :=
    acceleratorDevices_single hbackend hnormal
  have hnormal' : normalizeBackend device'.backend = some backend := hnormal
  obtain ⟨hgpu', hdriver'⟩ := machineOf_single hbackend hnormal'
  refine ⟨[device'], Or.inl fun heq => ?_, ?_, ?_⟩
  · rw [hfound, hfound'] at heq
    exact absurd (congrArg List.length heq) (by simp)
  · rw [hgpu', machineOf_cons (hfound ▸ List.cons_ne_nil _ _), hfound, intercalate_map, hends]
    simp only [identityPart, String.append_assoc, device']
  · rw [hdriver', machineOf_cons (hfound ▸ List.cons_ne_nil _ _), hfound,
      intercalate_map driverPart]
    simp only [driverPart, String.append_assoc, device']

theorem split_colon {text : String} (h : ':' ∈ text.toList) :
    ∃ before after, text = before ++ ":" ++ after := by
  obtain ⟨before, after, hsplit⟩ := List.append_of_mem h
  refine ⟨.ofList before, .ofList after, String.toList_inj.mp ?_⟩
  rw [String.toList_append, String.toList_append, String.toList_ofList (l := before),
    String.toList_ofList (l := after), List.append_assoc]
  exact hsplit

/-- A part of a text is not the text. -/
theorem ne_append_colon (before after : String) : before ≠ before ++ ":" ++ after := by
  intro heq
  have hlength := congrArg String.length heq
  rw [String.length_append, String.length_append] at hlength
  have hcolon : ":".length = 1 := rfl
  omega

theorem identityPart_middle (entry : String × RuntimeDevice) :
    identityPart entry = entry.1 ++ ":" ++ toString entry.2.index ++ ":" ++
      (entry.2.name ++ ":" ++ entry.2.description) ++ (":" ++ toString entry.2.memoryTotal) := by
  simp only [identityPart, String.append_assoc]

/-- A colon in the name or the description of the only accelerator can be moved. -/
theorem shifted {backend : String} {device : RuntimeDevice}
    (hfound : acceleratorDevices declared devices = [(backend, device)])
    (hcolon : ':' ∈ device.name.toList ∨ ':' ∈ device.description.toList) :
    ∃ devices', Differ declared devices devices' ∧
      SameIdentity (machineOf declared devices) (machineOf declared devices') := by
  have hmem : (backend, device) ∈ acceleratorDevices declared devices :=
    hfound ▸ List.mem_cons_self
  obtain ⟨hbackend, -, hnormal⟩ := mem_acceleratorDevices.mp hmem
  have hsplit : ∃ name description, device.name ≠ name ∧
      device.name ++ ":" ++ device.description = name ++ ":" ++ description := by
    rcases hcolon with hcolon | hcolon
    · obtain ⟨before, after, hname⟩ := split_colon hcolon
      refine ⟨before, after ++ ":" ++ device.description,
        hname ▸ (ne_append_colon before after).symm, ?_⟩
      simp only [hname, String.append_assoc]
    · obtain ⟨before, after, hdescription⟩ := split_colon hcolon
      refine ⟨device.name ++ ":" ++ before, after, ne_append_colon device.name before, ?_⟩
      simp only [hdescription, String.append_assoc]
  obtain ⟨name, description, hname, htext⟩ := hsplit
  let device' : RuntimeDevice := { device with name := name, description := description }
  have hfound' : acceleratorDevices declared [device'] = [(backend, device')] :=
    acceleratorDevices_single hbackend hnormal
  refine ⟨[device'], Or.inl fun heq => ?_, ?_⟩
  · rw [hfound, hfound'] at heq
    obtain ⟨-, hfacts⟩ := Prod.mk.inj (List.cons.inj heq).1
    obtain ⟨-, hfacts⟩ := Prod.mk.inj hfacts
    exact hname (Prod.mk.inj hfacts).1
  · have hpart : identityPart (backend, device) = identityPart (backend, device') := by
      rw [identityPart_middle, identityPart_middle, htext]
    rw [machineOf_cons (hfound ▸ List.cons_ne_nil _ _), hfound,
      machineOf_cons (hfound' ▸ List.cons_ne_nil _ _), hfound']
    exact ⟨congrArg (fun part => String.intercalate "," [part]) hpart, rfl⟩

/-- **How far the identity tells machines apart.**  A machine is told apart from every other one
exactly if it has at most one accelerator, without a colon in its name or its description.  Two
machines without colons are always told apart. -/
theorem machine_tellsApart (sha256 : List UInt8 → List UInt8) (declared : DeclaredBackends)
    (devices : List RuntimeDevice) :
    ((∀ devices', TellsApart declared devices devices' sha256) ↔ Unmistakable declared devices) ∧
      ∀ devices', WithoutColons declared devices → WithoutColons declared devices' →
        TellsApart declared devices devices' sha256 := by
  refine ⟨⟨fun h => ?_, fun h devices' => ?_⟩, fun devices' hcolons hcolons' => ?_⟩
  · have hnone : ¬ ∃ devices', Differ declared devices devices' ∧
        SameIdentity (machineOf declared devices) (machineOf declared devices') := by
      rintro ⟨devices', hdiffer, hsame⟩
      exact (tellsApart_iff sha256).mp (h devices') hsame hdiffer
    have hlength : (acceleratorDevices declared devices).length ≤ 1 :=
      not_lt.mp fun hlength => hnone (merged hlength)
    refine ⟨hlength, fun entry hmem => ?_⟩
    have hfound : acceleratorDevices declared devices = [entry] := by
      obtain ⟨only, hfound⟩ := List.length_eq_one_iff.mp
        (le_antisymm hlength (List.length_pos_of_mem hmem))
      rw [hfound] at hmem ⊢
      rw [List.mem_singleton.mp hmem]
    exact not_or.mp fun hcolon => hnone (shifted hfound hcolon)
  · exact (tellsApart_iff sha256).mpr (not_differ_of_unmistakable h)
  · exact (tellsApart_iff sha256).mpr (not_differ_of_withoutColons hcolons hcolons')

/-- A Vulkan device. -/
def vulkanDevice (name description driver : String) : RuntimeDevice :=
  ⟨"Vulkan", 0, name, description, 8589934592, driver, true⟩

/-- A new driver is noticed. -/
theorem machine_tellsApart_driver :
    (∀ devices', TellsApart ⟨false, true, false, false, true⟩
      [vulkanDevice "Vulkan0" "Intel Arc A380" "driver-a"] devices' Sha256.digest) ∧
    TellsApart ⟨false, true, false, false, true⟩
      [vulkanDevice "Vulkan0" "Intel Arc A380" "driver-a"]
      [vulkanDevice "Vulkan0" "Intel Arc A380" "driver-b"] Sha256.digest := by
  have hfound : ∀ driver, acceleratorDevices ⟨false, true, false, false, true⟩
      [vulkanDevice "Vulkan0" "Intel Arc A380" driver] =
        [(vulkan, vulkanDevice "Vulkan0" "Intel Arc A380" driver)] := fun driver =>
    acceleratorDevices_single (by decide)
      (show normalizeBackend "Vulkan" = some vulkan by decide)
  obtain ⟨hsingle, hpair⟩ := machine_tellsApart Sha256.digest ⟨false, true, false, false, true⟩
    [vulkanDevice "Vulkan0" "Intel Arc A380" "driver-a"]
  have hcolons : ∀ driver ∈ ["driver-a", "driver-b"],
      WithoutColons ⟨false, true, false, false, true⟩
        [vulkanDevice "Vulkan0" "Intel Arc A380" driver] := by
    intro driver hdriver entry hmem
    rw [hfound, List.mem_singleton] at hmem
    rw [hmem]
    clear hmem
    revert driver
    decide
  refine ⟨hsingle.mpr ⟨by rw [hfound]; decide, ?_⟩, hpair _ (hcolons _ (by decide))
    (hcolons _ (by decide))⟩
  intro entry hmem
  exact ⟨(hcolons _ (by decide) entry hmem).1, (hcolons _ (by decide) entry hmem).2.1⟩

/-- Two descriptions with a colon are confused. -/
theorem machine_confused :
    Differ ⟨false, true, false, false, true⟩ [vulkanDevice "Vulkan0" "llvmpipe:LLVM" "driver-a"]
      [vulkanDevice "Vulkan0:llvmpipe" "LLVM" "driver-a"] ∧
    SameIdentity
      (machineOf ⟨false, true, false, false, true⟩
        [vulkanDevice "Vulkan0" "llvmpipe:LLVM" "driver-a"])
      (machineOf ⟨false, true, false, false, true⟩
        [vulkanDevice "Vulkan0:llvmpipe" "LLVM" "driver-a"]) := by
  refine ⟨Or.inl ?_, ?_, ?_⟩
  · decide
  · decide
  · decide

end SemanticSidecar
