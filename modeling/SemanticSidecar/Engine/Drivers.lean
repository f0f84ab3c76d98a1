import SemanticSidecar.Engine.BackendSelect
import SemanticSidecar.Package.Inventory
import SemanticSidecar.Lib.Memo
import Mathlib.Data.List.Forall2

/-!
# Whose driver a device has

A cached verdict holds for a machine, and a machine is told by its devices and their drivers.  The
driver of a device is what a vendor's tool says of it; where there is no tool that answers, a
description takes its place, and the machine is not cacheable.  Starting a tool is slow, so
`runtimeDevices` asks about every backend once and remembers the answer.

What it remembers is the identity of the *first* device of a backend, and a description names the
device.  `runtimeDevices_asksOnce` says what is asked, and in which order;
`machine_runtimeDevices` says that remembering makes no difference where it matters: as long as the
tools say the same thing twice, the candidates and the capabilities are the same without it, the
machine is cacheable just the same, and where it is, it is the same machine.
-/

set_option autoImplicit false

namespace SemanticSidecar

/-- `cfg!(target_os)`, as far as it is asked for. -/
inductive TargetOs where
  /-- Windows. -/
  | windows
  /-- macOS. -/
  | macos
  /-- Another Unix. -/
  | unix
  /-- Any other system. -/
  | other
  deriving DecidableEq, Repr

/-- `DriverIdentity`. -/
structure DriverIdentity where
  /-- The text that stands for the driver. -/
  value : String
  /-- The text was found out, and is no placeholder. -/
  cacheable : Bool
  deriving DecidableEq, Repr

/-- A device as llama.cpp lists it. -/
structure GgmlBackendDevice where
  /-- The backend the device belongs to. -/
  backend : String
  /-- The number llama.cpp gives the device. -/
  index : ℕ
  /-- The name of the device. -/
  name : String
  /-- The description of the device. -/
  description : String
  /-- Its memory, in bytes. -/
  memoryTotal : ℕ
  deriving DecidableEq, Repr

/-- How a program ended: whether it succeeded, and what it wrote. -/
structure CommandEnd where
  /-- The exit code was 0. -/
  success : Bool
  /-- What was printed. -/
  stdout : List UInt8

section

variable {m : Type → Type} [Monad m] (os : TargetOs)

/-- What a program says when it is run; nothing where it fails or says nothing. -/
def commandOutput (spawn : String → List String → m (Option CommandEnd)) (program : String)
    (args : List String) : m (Option String) := do
  let output ← spawn program args
  pure ((((output.filter CommandEnd.success).bind fun output =>
    Text.fromUtf8 output.stdout).map Text.trim).filter fun text => !text.isEmpty)

variable (output : String → List String → m (Option String))

/-- What a tool says, where it is the one to ask and says something; else whatever comes next. -/
def verified (applies : Bool) (program : String) (args : List String) (label : String)
    (next : m DriverIdentity) : m DriverIdentity :=
  if applies then do
    match ← output program args with
    | some value => pure ⟨label ++ value, true⟩
    | none => next
  else next

/-- The release of the platform. -/
def platformOutput : m (Option String) :=
  match os with
  | .macos => output "sysctl" ["-n", "kern.osversion"]
  | .unix => output "uname" ["-r"]
  | .windows => output "cmd" ["/C", "ver"]
  | .other => pure none

/-- The identity of a driver nothing is known about. -/
def unverified (backend name description : String) : m DriverIdentity := do
  let platform ← platformOutput os output
  pure ⟨"backend=" ++ backend ++ ";name=" ++ name ++ ";description=" ++ description ++
    ";platform=" ++ platform.getD "unknown" ++ ";driver=unverified", false⟩

/-- `driver_identity_with`: the tool of the vendor is asked, or the device speaks for itself. -/
def driverIdentityWith (backend name description : String) : m DriverIdentity :=
  verified output (eqIgnoreAsciiCase backend cuda) "nvidia-smi"
    ["--query-gpu=driver_version", "--format=csv,noheader"] "cuda:" <|
  verified output (eqIgnoreAsciiCase backend vulkan) "vulkaninfo" ["--summary"] "vulkan:" <|
  verified output (os == .windows) "powershell.exe" ["-NoProfile", "-Command",
    "Get-CimInstance Win32_VideoController | Select-Object Name,DriverVersion " ++
      "| ConvertTo-Json -Compress"]
    "windows-gpu:" <|
  verified output (os == .macos &&
      (eqIgnoreAsciiCase backend metal || eqIgnoreAsciiCase backend "MTL")) "sysctl"
    ["-n", "kern.osversion"] "metal:" <|
  unverified os output backend name description

/-- The identities by backend, in lower case. -/
abbrev DriverIdentities := Memo.Table String DriverIdentity

/-- `cached_driver_identity_with`: the tool is asked once for each backend. -/
def cachedDriverIdentityWith (identities : DriverIdentities) (backend name description : String) :
    m (DriverIdentity × DriverIdentities) :=
  if eqIgnoreAsciiCase backend cpu then pure (⟨cpu, true⟩, identities)
  else
    match identities (toAsciiLowercase backend) with
    | some identity => pure (identity, identities)
    | none => do
      let identity ← driverIdentityWith os output backend name description
      pure (identity, identities.learn (toAsciiLowercase backend) identity)

/-- A device with its driver. -/
def GgmlBackendDevice.withDriver (device : GgmlBackendDevice) (identity : DriverIdentity) :
    RuntimeDevice :=
  ⟨device.backend, device.index, device.name, device.description, device.memoryTotal,
    identity.value, identity.cacheable⟩

/-- The loop of `runtime_devices`. -/
def identifyDevices : List GgmlBackendDevice → DriverIdentities → m (List RuntimeDevice)
  | [], _ => pure []
  | device :: rest, identities => do
    let (identity, identities) ←
      cachedDriverIdentityWith os output identities device.backend device.name device.description
    let devices ← identifyDevices rest identities
    pure (device.withDriver identity :: devices)

/-- `runtime_devices`. -/
def runtimeDevices (list : m (List GgmlBackendDevice)) : m (List RuntimeDevice) := do
  let devices ← list
  identifyDevices os output devices fun _ => none

end

/-! ## One question for each backend -/

/-- The CPU has no driver to ask about. -/
def GgmlBackendDevice.ownIdentity (device : GgmlBackendDevice) : Option DriverIdentity :=
  if eqIgnoreAsciiCase device.backend cpu then some ⟨cpu, true⟩ else none

/-- What driver identities are remembered under. -/
def GgmlBackendDevice.key (device : GgmlBackendDevice) : String := toAsciiLowercase device.backend

/-- The devices whose drivers are asked about. -/
def askedDevices (listed : List GgmlBackendDevice) : List GgmlBackendDevice :=
  Memo.firsts GgmlBackendDevice.ownIdentity GgmlBackendDevice.key listed fun _ => false

section

variable {m : Type → Type} [Monad m] (os : TargetOs)
  (output : String → List String → m (Option String))

/-- What is asked about a device. -/
def GgmlBackendDevice.identify (device : GgmlBackendDevice) : m DriverIdentity :=
  driverIdentityWith os output device.backend device.name device.description

theorem cachedDriverIdentityWith_eq (identities : DriverIdentities) (device : GgmlBackendDevice) :
    cachedDriverIdentityWith os output identities device.backend device.name device.description =
      Memo.answer GgmlBackendDevice.ownIdentity GgmlBackendDevice.key
        (GgmlBackendDevice.identify os output) identities device := by
  rw [cachedDriverIdentityWith, Memo.answer, GgmlBackendDevice.ownIdentity,
    GgmlBackendDevice.key]
  split
  · rfl
  · rcases identities (toAsciiLowercase device.backend) with _ | identity
    · rfl
    · rfl

variable [LawfulMonad m]

theorem identifyDevices_eq (listed : List GgmlBackendDevice) (identities : DriverIdentities) :
    identifyDevices os output listed identities =
      List.zipWith GgmlBackendDevice.withDriver listed <$>
        Memo.answerAll GgmlBackendDevice.ownIdentity GgmlBackendDevice.key
          (GgmlBackendDevice.identify os output) listed identities := by
  induction listed generalizing identities with
  | nil =>
    rw [identifyDevices, Memo.answerAll, map_pure]
    rfl
  | cons device rest ih =>
    rw [identifyDevices, Memo.answerAll, map_bind, cachedDriverIdentityWith_eq]
    refine congrArg (_ >>= ·) (funext fun answered => ?_)
    obtain ⟨identity, identities⟩ := answered
    simp only [ih identities, map_bind, bind_map_left]
    refine congrArg (_ >>= ·) (funext fun identities => ?_)
    rw [map_pure]
    rfl

/-- **One question for each backend.**  Whatever effects asking has, `runtimeDevices` asks about
the first device of each backend, in the order of the list, and gives every device the answer for
its backend.  No two of those it asks about have the same backend, up to case, and none is the
CPU. -/
theorem runtimeDevices_asksOnce (list : m (List GgmlBackendDevice)) :
    (List.map some <$> runtimeDevices os output list = do
      let listed ← list
      let identities ← Memo.askAll GgmlBackendDevice.key (GgmlBackendDevice.identify os output)
        (askedDevices listed) fun _ => none
      pure (listed.map fun device =>
        (Memo.look GgmlBackendDevice.ownIdentity GgmlBackendDevice.key identities device).map
          device.withDriver)) ∧
      ∀ listed, (askedDevices listed).Sublist listed ∧
        ((askedDevices listed).map GgmlBackendDevice.key).Nodup ∧
        (∀ device ∈ askedDevices listed, eqIgnoreAsciiCase device.backend cpu = false) ∧
        ∀ device ∈ listed, eqIgnoreAsciiCase device.backend cpu = true ∨
          ∃ asked ∈ askedDevices listed, asked.key = device.key := by
  refine ⟨?_, fun listed => ⟨Memo.firsts_sublist _ _, Memo.firsts_nodup _ _, ?_, ?_⟩⟩
  · rw [runtimeDevices, map_bind]
    refine congrArg (_ >>= ·) (funext fun listed => ?_)
    have hlook : ∀ identities : DriverIdentities,
        (listed.map fun device => (Memo.look GgmlBackendDevice.ownIdentity GgmlBackendDevice.key
          identities device).map device.withDriver) =
        List.zipWith (fun device identity => identity.map device.withDriver) listed
          (listed.map (Memo.look GgmlBackendDevice.ownIdentity GgmlBackendDevice.key
            identities)) := by
      intro identities
      rw [List.zipWith_map_right, List.zipWith_self]
    have hanswers : List.map some <$> Memo.answerAll GgmlBackendDevice.ownIdentity
          GgmlBackendDevice.key (GgmlBackendDevice.identify os output) listed (fun _ => none) =
        (fun identities : DriverIdentities => listed.map (Memo.look GgmlBackendDevice.ownIdentity
          GgmlBackendDevice.key identities)) <$> Memo.askAll GgmlBackendDevice.key
            (GgmlBackendDevice.identify os output) (askedDevices listed) fun _ => none :=
      Memo.answerAll_eq listed fun _ => none
    have hsome : ∀ identities : List DriverIdentity,
        (List.zipWith GgmlBackendDevice.withDriver listed identities).map some =
          List.zipWith (fun device identity => identity.map device.withDriver) listed
            (identities.map some) := by
      intro identities
      rw [List.map_zipWith, List.zipWith_map_right]
      rfl
    simp only [hlook, bind_pure_comp]
    rw [identifyDevices_eq, Functor.map_map]
    simp only [hsome]
    rw [← Functor.map_map (List.map some), hanswers, Functor.map_map]
  · intro device hdevice
    have hown := (Memo.known_of_mem_firsts hdevice).1
    rw [GgmlBackendDevice.ownIdentity] at hown
    split at hown
    · cases hown
    · rename_i hcpu
      exact Bool.eq_false_iff.mpr hcpu
  · intro device hdevice
    rcases hcpu : eqIgnoreAsciiCase device.backend cpu with _ | _
    · have hown : device.ownIdentity = none := by
        rw [GgmlBackendDevice.ownIdentity, hcpu, if_neg Bool.false_ne_true]
      exact Or.inr ((Memo.exists_first hdevice hown).resolve_left Bool.false_ne_true)
    · exact Or.inl rfl

end

/-! ## What remembering changes -/

/-- Two identities of a driver that differ only where nothing is known about it. -/
structure DriverIdentity.Agrees (identity identity' : DriverIdentity) : Prop where
  /-- Both were found out, or neither was. -/
  cacheable : identity.cacheable = identity'.cacheable
  /-- If they were found out they are the same. -/
  value : identity.cacheable = true → identity = identity'

/-- The same device, with identities of its driver that agree. -/
structure RuntimeDevice.Agrees (device device' : RuntimeDevice) : Prop where
  /-- What llama.cpp says of the device is the same. -/
  facts : (device.backend, device.index, device.name, device.description, device.memoryTotal) =
    (device'.backend, device'.index, device'.name, device'.description, device'.memoryTotal)
  /-- Both drivers were found out, or neither was. -/
  cacheable : device.driverCacheable = device'.driverCacheable
  /-- If they were found out they are the same. -/
  driver : device.driverCacheable = true → device.driver = device'.driver

section

variable (os : TargetOs) (output : String → List String → Id (Option String))

/-- The identity of a device's driver when nothing is remembered. -/
def GgmlBackendDevice.plainIdentity (device : GgmlBackendDevice) : DriverIdentity :=
  device.ownIdentity.getD (device.identify os output)

/-- The devices when nothing is remembered. -/
def plainDevices (listed : List GgmlBackendDevice) : List RuntimeDevice :=
  listed.map fun device => device.withDriver (device.plainIdentity os output)

variable {os output}

theorem eqIgnoreAsciiCase_congr {backend backend' : String}
    (h : toAsciiLowercase backend = toAsciiLowercase backend') (other : String) :
    eqIgnoreAsciiCase backend other = eqIgnoreAsciiCase backend' other := by
  have hlist := congrArg String.toList h
  rw [toAsciiLowercase, toAsciiLowercase, String.toList_ofList, String.toList_ofList] at hlist
  rw [eqIgnoreAsciiCase, eqIgnoreAsciiCase, hlist]

theorem verified_agrees {applies : Bool} {program label : String} {args : List String}
    {next next' : DriverIdentity} (h : next.Agrees next') :
    DriverIdentity.Agrees (verified (m := Id) output applies program args label next)
      (verified (m := Id) output applies program args label next') := by
  rw [verified, verified]
  rcases applies with _ | _
  · exact h
  · simp only [if_true]
    change DriverIdentity.Agrees
      (match output program args with
        | some value => ⟨label ++ value, true⟩
        | none => next)
      (match output program args with
        | some value => ⟨label ++ value, true⟩
        | none => next')
    rcases output program args with _ | value
    · exact h
    · exact ⟨rfl, fun _ => rfl⟩

/-- What a tool says is the same for all devices of a backend. -/
theorem identify_agrees {device device' : GgmlBackendDevice} (h : device.key = device'.key) :
    DriverIdentity.Agrees (device.identify os output) (device'.identify os output) := by
  rw [GgmlBackendDevice.identify, GgmlBackendDevice.identify, driverIdentityWith,
    driverIdentityWith]
  simp only [eqIgnoreAsciiCase_congr h]
  have hunverified : DriverIdentity.Agrees
      (unverified (m := Id) os output device.backend device.name device.description)
      (unverified (m := Id) os output device'.backend device'.name device'.description) :=
    ⟨rfl, fun hcacheable => by cases hcacheable⟩
  exact verified_agrees (verified_agrees (verified_agrees (verified_agrees hunverified)))

theorem withDriver_agrees {device : GgmlBackendDevice} {identity identity' : DriverIdentity}
    (h : identity.Agrees identity') :
    (device.withDriver identity).Agrees (device.withDriver identity') where
  facts := rfl
  cacheable := h.cacheable
  driver hcacheable := congrArg DriverIdentity.value (h.value hcacheable)

/-- A device that is told what the first of its backend is told. -/
theorem told_agrees {all : List GgmlBackendDevice} {device : GgmlBackendDevice}
    {identity : DriverIdentity} (h : Memo.Told GgmlBackendDevice.ownIdentity GgmlBackendDevice.key
      (GgmlBackendDevice.identify os output) all device identity) :
    (device.withDriver identity).Agrees
      (device.withDriver (device.plainIdentity os output)) := by
  refine withDriver_agrees ?_
  rw [GgmlBackendDevice.plainIdentity]
  rcases h with hown | ⟨hown, first, -, -, hkey, rfl⟩
  · rw [hown]
    exact ⟨rfl, fun _ => rfl⟩
  · rw [hown]
    exact identify_agrees hkey

theorem zipWith_agrees {all listed : List GgmlBackendDevice} {identities : List DriverIdentity}
    (h : List.Forall₂ (Memo.Told GgmlBackendDevice.ownIdentity GgmlBackendDevice.key
      (GgmlBackendDevice.identify os output) all) listed identities) :
    List.Forall₂ RuntimeDevice.Agrees (List.zipWith GgmlBackendDevice.withDriver listed identities)
      (plainDevices os output listed) := by
  induction h with
  | nil => exact .nil
  | cons htold _ ih => exact .cons (told_agrees htold) ih

/-- Remembering changes a device only where nothing is known of its driver. -/
theorem runtimeDevices_agrees (listed : List GgmlBackendDevice) :
    List.Forall₂ RuntimeDevice.Agrees (runtimeDevices (m := Id) os output listed)
      (plainDevices os output listed) := by
  have hdevices : runtimeDevices (m := Id) os output listed =
      List.zipWith GgmlBackendDevice.withDriver listed
        (Memo.answerAll (m := Id) GgmlBackendDevice.ownIdentity GgmlBackendDevice.key
          (GgmlBackendDevice.identify os output) listed fun _ => none) :=
    identifyDevices_eq (m := Id) os output listed fun _ => none
  rw [hdevices]
  exact zipWith_agrees (Memo.answerAll_told listed (fun _ h => h) _ fun _ _ h => by cases h)

/-! ### The machine -/

/-- The devices of accelerators, with theirs. -/
def AgreeAsFound (entry entry' : String × RuntimeDevice) : Prop :=
  entry.1 = entry'.1 ∧ entry.2.Agrees entry'.2

theorem acceleratorDevices_agree {devices devices' : List RuntimeDevice}
    (h : List.Forall₂ RuntimeDevice.Agrees devices devices') (declared : DeclaredBackends) :
    List.Forall₂ AgreeAsFound (acceleratorDevices declared devices)
      (acceleratorDevices declared devices') := by
  rw [acceleratorDevices, acceleratorDevices]
  induction declared.stableAccelerators with
  | nil => exact .nil
  | cons backend rest ih =>
    rw [List.flatMap_cons, List.flatMap_cons]
    refine List.rel_append ?_ ih
    have hfilter : List.Forall₂ RuntimeDevice.Agrees (devicesOf devices backend)
        (devicesOf devices' backend) := by
      refine List.rel_filter (fun device device' hagrees => ?_) h
      have hbackend : device.backend = device'.backend := congrArg Prod.fst hagrees.facts
      change decide (normalizeBackend device.backend = some backend) = true ↔
        decide (normalizeBackend device'.backend = some backend) = true
      rw [hbackend]
    exact List.rel_map (fun _ _ hagrees => ⟨rfl, hagrees⟩) hfilter

variable {found found' : List (String × RuntimeDevice)}

theorem map_eq_of_agree {γ : Type} {f : String × RuntimeDevice → γ}
    (h : List.Forall₂ AgreeAsFound found found')
    (hf : ∀ entry entry', AgreeAsFound entry entry' → f entry = f entry') :
    found.map f = found'.map f := by
  induction h with
  | nil => rfl
  | cons hagree _ ih => rw [List.map_cons, List.map_cons, hf _ _ hagree, ih]

theorem driverParts_eq (h : List.Forall₂ AgreeAsFound found found')
    (hcacheable : (found.all fun entry => entry.2.driverCacheable) = true) :
    found.map driverPart = found'.map driverPart := by
  induction h with
  | nil => rfl
  | @cons entry entry' rest rest' hagree _ ih =>
    rw [List.all_cons, Bool.and_eq_true] at hcacheable
    have hindex : entry.2.index = entry'.2.index :=
      congrArg (fun facts => facts.2.1) hagree.2.facts
    rw [List.map_cons, List.map_cons, ih hcacheable.2, driverPart, driverPart, hagree.1, hindex,
      hagree.2.driver hcacheable.1]

/-- **Remembering makes no difference where it matters.**  If the tools say the same thing
whenever they are asked, then with the answers remembered the discovery has the candidates and the
capabilities that it has without, its machine is cacheable just the same, and it is the same
machine if it is cacheable. -/
theorem machine_runtimeDevices (os : TargetOs) (output : String → List String → Id (Option String))
    (declared : DeclaredBackends) (listed : List GgmlBackendDevice) (failures : List String) :
    let found := discoverCandidates declared (runtimeDevices (m := Id) os output listed) failures
    let plain := discoverCandidates declared (plainDevices os output listed) failures
    found.candidates = plain.candidates ∧ found.capabilities = plain.capabilities ∧
      found.machine.cacheable = plain.machine.cacheable ∧
      (found.machine.cacheable = true → found.machine = plain.machine) := by
  have hagrees : List.Forall₂ RuntimeDevice.Agrees (runtimeDevices (m := Id) os output listed)
      (plainDevices os output listed) := runtimeDevices_agrees listed
  have hfound := acceleratorDevices_agree hagrees declared
  simp only [discoverCandidates]
  generalize acceleratorDevices declared (runtimeDevices (m := Id) os output listed) = found at *
  generalize acceleratorDevices declared (plainDevices os output listed) = plain at *
  have hcandidates : found.map candidateOf = plain.map candidateOf := by
    refine map_eq_of_agree hfound fun entry entry' hagree => ?_
    obtain ⟨hbackend, ⟨hfacts, -, -⟩⟩ := hagree
    simp only [Prod.mk.injEq] at hfacts
    obtain ⟨-, hindex, hname, hdescription, -⟩ := hfacts
    rw [candidateOf, candidateOf, hbackend, hindex, hname, hdescription]
  have hbackends : found.map Prod.fst = plain.map Prod.fst :=
    map_eq_of_agree hfound fun _ _ hagree => hagree.1
  have hidentity : found.map identityPart = plain.map identityPart := by
    refine map_eq_of_agree hfound fun entry entry' hagree => ?_
    obtain ⟨hbackend, ⟨hfacts, -, -⟩⟩ := hagree
    simp only [Prod.mk.injEq] at hfacts
    obtain ⟨-, hindex, hname, hdescription, hmemory⟩ := hfacts
    rw [identityPart, identityPart, hbackend, hindex, hname, hdescription, hmemory]
  have hcacheable : (found.all fun entry => entry.2.driverCacheable) =
      plain.all fun entry => entry.2.driverCacheable := by
    have hflags : found.map (fun entry => entry.2.driverCacheable) =
        plain.map fun entry => entry.2.driverCacheable :=
      map_eq_of_agree hfound fun _ _ hagree => hagree.2.cacheable
    have hall := congrArg (List.all · id) hflags
    rw [List.all_map, List.all_map] at hall
    exact hall
  have hempty : found.isEmpty = plain.isEmpty := by
    have hmap := congrArg List.isEmpty hbackends
    rwa [List.isEmpty_map, List.isEmpty_map] at hmap
  refine ⟨by rw [hcandidates], ?_, ?_, ?_⟩
  · have hfold := congrArg (List.foldl (fun capabilities backend =>
      setCapability capabilities backend true) .cpuOnly) hbackends
    rw [List.foldl_map, List.foldl_map] at hfold
    exact hfold
  · rw [hempty]
    split
    · rfl
    · exact hcacheable
  · rw [hempty]
    split
    · exact fun _ => rfl
    · intro hcache
      simp only [hidentity, hcacheable, driverParts_eq hfound hcache]

end

/-- Two cards of one backend beside the CPU. -/
def twoCards : List GgmlBackendDevice :=
  [⟨"CPU", 0, "CPU", "", 1⟩, ⟨"Vulkan", 1, "Vulkan0", "first", 1⟩,
    ⟨"vulkan", 2, "Vulkan1", "second", 1⟩]

/-- Nobody answers. -/
def silentTools : String → List String → Id (Option String) := fun _ _ => none

theorem runtimeDevices_asksOnce_twoCards :
    askedDevices twoCards = [⟨"Vulkan", 1, "Vulkan0", "first", 1⟩] ∧
      ((askedDevices twoCards).map GgmlBackendDevice.key).Nodup := by
  refine ⟨by decide, ?_⟩
  exact ((runtimeDevices_asksOnce (m := Id) .unix silentTools twoCards).2 twoCards).2.1

/-- The second card goes by the description of the first. -/
example : (runtimeDevices (m := Id) .unix silentTools twoCards).run ≠
    plainDevices .unix silentTools twoCards := by decide

end SemanticSidecar
