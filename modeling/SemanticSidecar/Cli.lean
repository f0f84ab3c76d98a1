import SemanticSidecar.Package.Inventory
import Mathlib.Data.List.Perm.Basic
import Mathlib.Logic.Function.Basic

/-!
# The command line

`Cli.parse` turns the arguments into what is to be done, or into the text of a complaint.  A broker
takes four paths and names, each behind a flag of its own, and all of the work is in `parseBroker`:
it goes over flags and values in pairs, with one variable for each flag.

`parseBroker_eq_ok_iff` is its grammar.  The four pairs stand in any order, which the result does
not show, and a value can be any text but the empty one, even that of a flag.

The other verbs are short.  `serve` and `prepare` take one flag, which `prepare` can do without, and
`--version` takes nothing; an argument too many is an error that names it.  The complaints are those
of the source, text by text, since a test of the source or a script around it may look at them.

The grammar is an `iff` in both directions.  Read from right to left it says that every spelling is
taken, whatever the order of the pairs; read from left to right, that nothing else is: no flag
twice, none missing, no value empty, no word left over.  `Cli.parse_eq_broker` adds that no other
verb leads to a broker.
-/

set_option autoImplicit false

namespace SemanticSidecar

/-- What the command line asks for. -/
inductive Cli where
  /-- `serve` of a model. -/
  | serve (model : String)
  /-- `prepare` of a model, or of the default one. -/
  | prepare (model : Option String)
  /-- `broker` of a model, with its endpoint and its two locks. -/
  | broker (model endpoint serviceLock acceleratorLock : String)
  /-- `--version`. -/
  | version
  deriving DecidableEq, Repr

/-! ## Flags and values -/

/-- The flags of a broker. -/
inductive BrokerFlag where
  /-- `--model`. -/
  | model
  /-- `--endpoint`. -/
  | endpoint
  /-- `--lock`. -/
  | serviceLock
  /-- `--accelerator-lock`. -/
  | acceleratorLock
  deriving DecidableEq, Repr

namespace BrokerFlag

/-- A flag as it is written. -/
def text : BrokerFlag → String
  | .model => "--model"
  | .endpoint => "--endpoint"
  | .serviceLock => "--lock"
  | .acceleratorLock => "--accelerator-lock"

/-- The flag that an argument is. -/
def ofText : String → Option BrokerFlag
  | "--model" => some .model
  | "--endpoint" => some .endpoint
  | "--lock" => some .serviceLock
  | "--accelerator-lock" => some .acceleratorLock
  | _ => none

theorem ofText_text (flag : BrokerFlag) : ofText flag.text = some flag := by
  cases flag <;> rfl

theorem text_of_ofText {argument : String} {flag : BrokerFlag}
    (h : ofText argument = some flag) : flag.text = argument := by
  unfold ofText at h
  split at h
  all_goals first | (obtain rfl := Option.some.inj h; rfl) | cases h

end BrokerFlag

/-- The variables that the values go to. -/
abbrev BrokerTargets := BrokerFlag → Option String

/-- The loop over the arguments of a broker. -/
def parseBrokerLoop : List String → BrokerTargets → Except String BrokerTargets
  | [], targets => .ok targets
  | [argument], _ => .error (argument ++ " requires a value")
  | argument :: value :: rest, targets =>
    if value = "" then .error (argument ++ " requires a value")
    else
      match BrokerFlag.ofText argument with
      | none => .error ("unexpected argument: " ++ argument)
      | some flag =>
        match targets flag with
        | some _ => .error ("duplicate argument: " ++ argument)
        | none => parseBrokerLoop rest (Function.update targets flag (some value))

/-- The value of a flag, which has to be there. -/
def requireFlag (targets : BrokerTargets) (flag : BrokerFlag) : Except String String :=
  match targets flag with
  | some value => .ok value
  | none => .error ("broker requires " ++ flag.text)

/-- `parse_broker`: every flag once, each with a value. -/
def parseBroker (args : List String) : Except String Cli := do
  let targets ← parseBrokerLoop args fun _ => none
  let model ← requireFlag targets .model
  let endpoint ← requireFlag targets .endpoint
  let serviceLock ← requireFlag targets .serviceLock
  let acceleratorLock ← requireFlag targets .acceleratorLock
  pure (.broker model endpoint serviceLock acceleratorLock)

/-- `parse_model`: nothing, or `--model` with a value. -/
def parseModel : List String → Except String (Option String)
  | [] => .ok none
  | [flag, value] =>
    if flag = "--model" then
      if value = "" then .error "--model requires a manifest model id" else .ok (some value)
    else .error ("unexpected argument: " ++ flag)
  | flag :: rest =>
    if flag = "--model" ∧ rest = [] then .error "--model requires a manifest model id"
    else .error ("unexpected argument: " ++ flag)

/-- `Cli::parse`. -/
def Cli.parse : List String → Except String Cli
  | [] => .ok (.serve defaultModelId)
  | verb :: rest =>
    match verb with
    | "--version" | "-V" | "version" =>
      match rest with
      | [] => .ok .version
      | argument :: _ => .error ("unexpected argument: " ++ argument)
    | "serve" => do
      let model ← parseModel rest
      pure (.serve (model.getD defaultModelId))
    | "prepare" => do
      let model ← parseModel rest
      pure (.prepare model)
    | "broker" => parseBroker rest
    | other => .error ("unknown verb: " ++ other)

/-! ## The grammar of a broker -/

/-- Flags and values, as arguments. -/
def spelled (pairs : List (BrokerFlag × String)) : List String :=
  pairs.flatMap fun pair => [pair.1.text, pair.2]

/-- The pairs can go to the variables: none of them is taken, and no two go to the same. -/
structure Assignable (targets : BrokerTargets) (pairs : List (BrokerFlag × String)) : Prop where
  /-- No flag has a value already. -/
  free : ∀ pair ∈ pairs, targets pair.1 = none
  /-- No flag comes twice. -/
  nodup : (pairs.map Prod.fst).Nodup
  /-- No value is empty. -/
  nonempty : ∀ pair ∈ pairs, pair.2 ≠ ""

variable {targets targets' : BrokerTargets} {flag : BrokerFlag} {value : String}
  {pairs : List (BrokerFlag × String)}

theorem Assignable.cons (hfree : targets flag = none) (hvalue : value ≠ "")
    (h : Assignable (Function.update targets flag (some value)) pairs) :
    Assignable targets ((flag, value) :: pairs) := by
  have hother : ∀ pair ∈ pairs, pair.1 ≠ flag ∧ targets pair.1 = none := by
    intro pair hpair
    have hnone := h.free pair hpair
    rcases eq_or_ne pair.1 flag with heq | hne
    · rw [heq, Function.update_self] at hnone
      cases hnone
    · rw [Function.update_of_ne hne] at hnone
      exact ⟨hne, hnone⟩
  refine ⟨?_, ?_, ?_⟩
  · exact List.forall_mem_cons.mpr ⟨hfree, fun pair hpair => (hother pair hpair).2⟩
  · refine List.nodup_cons.mpr ⟨fun hmem => ?_, h.nodup⟩
    obtain ⟨pair, hpair, heq⟩ := List.mem_map.mp hmem
    exact (hother pair hpair).1 heq
  · exact List.forall_mem_cons.mpr ⟨hvalue, h.nonempty⟩

theorem Assignable.of_cons (h : Assignable targets ((flag, value) :: pairs)) :
    targets flag = none ∧ value ≠ "" ∧
      Assignable (Function.update targets flag (some value)) pairs := by
  obtain ⟨hfree, hrest⟩ := List.forall_mem_cons.mp h.free
  obtain ⟨hflag, hnodup⟩ := List.nodup_cons.mp h.nodup
  obtain ⟨hvalue, hnonempty⟩ := List.forall_mem_cons.mp h.nonempty
  refine ⟨hfree, hvalue, fun pair hpair => ?_, hnodup, hnonempty⟩
  have hne : pair.1 ≠ flag := fun heq => hflag (List.mem_map.mpr ⟨pair, hpair, heq⟩)
  rw [Function.update_of_ne hne]
  exact hrest pair hpair

/-- The variables after the pairs. -/
def assigned (targets : BrokerTargets) (pairs : List (BrokerFlag × String)) : BrokerTargets :=
  pairs.foldl (fun targets pair => Function.update targets pair.1 (some pair.2)) targets

theorem assigned_eq_some_iff (h : Assignable targets pairs) :
    assigned targets pairs flag = some value ↔
      targets flag = some value ∨ (flag, value) ∈ pairs := by
  induction pairs generalizing targets with
  | nil => simp [assigned]
  | cons pair rest ih =>
    obtain ⟨hfree, -, hrest⟩ := Assignable.of_cons h
    have hassigned : assigned targets (pair :: rest) =
        assigned (Function.update targets pair.1 (some pair.2)) rest := rfl
    rw [hassigned, ih hrest, List.mem_cons, Prod.ext_iff]
    rcases eq_or_ne flag pair.1 with rfl | hne
    · rw [Function.update_self, hfree]
      simp only [Option.some.injEq, reduceCtorEq, false_or, true_and, eq_comm]
    · rw [Function.update_of_ne hne]
      simp only [hne, false_and, false_or]

/-- **The loop takes pairs of a flag and a value**, as long as they can be assigned. -/
theorem parseBrokerLoop_eq_ok_iff {args : List String} :
    parseBrokerLoop args targets = .ok targets' ↔
      ∃ pairs, args = spelled pairs ∧ Assignable targets pairs ∧
        targets' = assigned targets pairs := by
  constructor
  · intro h
    fun_induction parseBrokerLoop args targets with
    | case1 =>
      exact ⟨[], rfl, ⟨by simp, List.nodup_nil, by simp⟩, (Except.ok.inj h).symm⟩
    | case2 => cases h
    | case3 => cases h
    | case4 => cases h
    | case5 => cases h
    | case6 argument value rest targets hvalue flag hflag hfree ih =>
      obtain ⟨pairs, rfl, hassignable, rfl⟩ := ih h
      refine ⟨(flag, value) :: pairs, ?_, .cons hfree hvalue hassignable, rfl⟩
      rw [← BrokerFlag.text_of_ofText hflag]
      rfl
  · rintro ⟨pairs, rfl, hassignable, rfl⟩
    induction pairs generalizing targets with
    | nil => rfl
    | cons pair rest ih =>
      obtain ⟨hfree, hvalue, hrest⟩ := hassignable.of_cons
      have hspelled : spelled (pair :: rest) = pair.1.text :: pair.2 :: spelled rest := rfl
      rw [hspelled, parseBrokerLoop, if_neg hvalue, BrokerFlag.ofText_text]
      dsimp only
      rw [hfree]
      exact ih hrest

theorem requireFlag_eq_ok : requireFlag targets flag = .ok value ↔ targets flag = some value := by
  rw [requireFlag]
  cases targets flag with
  | none => simp
  | some found => simp

theorem parseBroker_eq_ok {args : List String} {cli : Cli} :
    parseBroker args = .ok cli ↔
      ∃ targets, parseBrokerLoop args (fun _ => none) = .ok targets ∧
        ∃ model, targets .model = some model ∧
        ∃ endpoint, targets .endpoint = some endpoint ∧
        ∃ serviceLock, targets .serviceLock = some serviceLock ∧
        ∃ acceleratorLock, targets .acceleratorLock = some acceleratorLock ∧
          .broker model endpoint serviceLock acceleratorLock = cli := by
  simp only [parseBroker, Fallible.bind_eq_ok, requireFlag_eq_ok, pure, Except.pure,
    Except.ok.injEq]

/-- The four pairs of a broker. -/
def brokerPairs (model endpoint serviceLock acceleratorLock : String) :
    List (BrokerFlag × String) :=
  [(.model, model), (.endpoint, endpoint), (.serviceLock, serviceLock),
    (.acceleratorLock, acceleratorLock)]

section

variable {model endpoint serviceLock acceleratorLock : String}

/-- Pairs that give every variable its value are the four, in some order. -/
theorem perm_brokerPairs (h : Assignable (fun _ => none) pairs)
    (hmodel : assigned (fun _ => none) pairs .model = some model)
    (hendpoint : assigned (fun _ => none) pairs .endpoint = some endpoint)
    (hserviceLock : assigned (fun _ => none) pairs .serviceLock = some serviceLock)
    (hacceleratorLock : assigned (fun _ => none) pairs .acceleratorLock = some acceleratorLock) :
    pairs.Perm (brokerPairs model endpoint serviceLock acceleratorLock) := by
  refine (List.perm_ext_iff_of_nodup h.nodup.of_map ?_).mpr ?_
  · simp [brokerPairs]
  · rintro ⟨flag, value⟩
    have hmem : (flag, value) ∈ pairs ↔ assigned (fun _ => none) pairs flag = some value := by
      rw [assigned_eq_some_iff h]
      simp
    rw [hmem]
    cases flag with
    | model => simp [hmodel, brokerPairs, eq_comm]
    | endpoint => simp [hendpoint, brokerPairs, eq_comm]
    | serviceLock => simp [hserviceLock, brokerPairs, eq_comm]
    | acceleratorLock => simp [hacceleratorLock, brokerPairs, eq_comm]

theorem assignable_of_perm
    (h : pairs.Perm (brokerPairs model endpoint serviceLock acceleratorLock))
    (hnonempty : ∀ pair ∈ brokerPairs model endpoint serviceLock acceleratorLock, pair.2 ≠ "") :
    Assignable (fun _ => none) pairs where
  free _ _ := rfl
  nodup := (h.map Prod.fst).nodup_iff.mpr (by simp [brokerPairs])
  nonempty pair hpair := hnonempty pair (h.mem_iff.mp hpair)

/-- The values of the four pairs, in any order, come to their variables. -/
theorem assigned_of_perm
    (h : pairs.Perm (brokerPairs model endpoint serviceLock acceleratorLock))
    (hassignable : Assignable (fun _ => none) pairs)
    (hmem : (flag, value) ∈ brokerPairs model endpoint serviceLock acceleratorLock) :
    assigned (fun _ => none) pairs flag = some value :=
  (assigned_eq_some_iff hassignable).mpr (.inr (h.mem_iff.mpr hmem))

end

/-- **The grammar of a broker's arguments.**  They are the four flags, each with a value behind it
that is not empty, in any order. -/
theorem parseBroker_eq_ok_iff (args : List String) (cli : Cli) :
    parseBroker args = .ok cli ↔
      ∃ model endpoint serviceLock acceleratorLock : String,
        cli = .broker model endpoint serviceLock acceleratorLock ∧
        (∀ value ∈ [model, endpoint, serviceLock, acceleratorLock], value ≠ "") ∧
        ∃ pairs : List (BrokerFlag × String),
          pairs.Perm [(.model, model), (.endpoint, endpoint), (.serviceLock, serviceLock),
            (.acceleratorLock, acceleratorLock)] ∧
          args = pairs.flatMap fun pair => [pair.1.text, pair.2] := by
  rw [parseBroker_eq_ok]
  constructor
  · rintro ⟨targets, hloop, model, hmodel, endpoint, hendpoint, serviceLock, hserviceLock,
      acceleratorLock, hacceleratorLock, rfl⟩
    obtain ⟨pairs, hargs, hassignable, rfl⟩ := parseBrokerLoop_eq_ok_iff.mp hloop
    have hperm := perm_brokerPairs hassignable hmodel hendpoint hserviceLock hacceleratorLock
    refine ⟨model, endpoint, serviceLock, acceleratorLock, rfl, fun value hvalue => ?_, pairs,
      hperm, hargs⟩
    have hvalues : value ∈ pairs.map Prod.snd := (hperm.map Prod.snd).mem_iff.mpr hvalue
    obtain ⟨pair, hpair, rfl⟩ := List.mem_map.mp hvalues
    exact hassignable.nonempty pair hpair
  · rintro ⟨model, endpoint, serviceLock, acceleratorLock, rfl, hnonempty, pairs, hperm, rfl⟩
    have hassignable : Assignable (fun _ => none) pairs :=
      assignable_of_perm hperm fun pair hpair => hnonempty pair.2 (List.mem_map_of_mem hpair)
    refine ⟨_, parseBrokerLoop_eq_ok_iff.mpr ⟨pairs, rfl, hassignable, rfl⟩, model, ?_, endpoint,
      ?_, serviceLock, ?_, acceleratorLock, ?_, rfl⟩
    · exact assigned_of_perm hperm hassignable (by simp [brokerPairs])
    · exact assigned_of_perm hperm hassignable (by simp [brokerPairs])
    · exact assigned_of_perm hperm hassignable (by simp [brokerPairs])
    · exact assigned_of_perm hperm hassignable (by simp [brokerPairs])

/-- **Only the verb for it makes a broker**, from the arguments behind it. -/
theorem Cli.parse_eq_broker {args : List String}
    {model endpoint serviceLock acceleratorLock : String}
    (h : Cli.parse args = .ok (.broker model endpoint serviceLock acceleratorLock)) :
    ∃ rest, args = "broker" :: rest ∧
      parseBroker rest = .ok (.broker model endpoint serviceLock acceleratorLock) := by
  rcases args with _ | ⟨verb, rest⟩
  · cases h
  · unfold Cli.parse at h
    dsimp only at h
    split at h
    · cases rest <;> cases h
    · cases rest <;> cases h
    · cases rest <;> cases h
    · obtain ⟨_, -, hserve⟩ := Fallible.bind_eq_ok.mp h
      cases hserve
    · obtain ⟨_, -, hprepare⟩ := Fallible.bind_eq_ok.mp h
      cases hprepare
    · exact ⟨rest, rfl, h⟩
    · cases h

end SemanticSidecar
