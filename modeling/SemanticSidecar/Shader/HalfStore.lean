import SemanticSidecar.Shader.Instructions
import SemanticSidecar.Lib.Fallible
import SemanticSidecar.Lib.Json
import Mathlib.Logic.Function.Basic

/-!
# The half-float store of a shader

Two shaders of the Vulkan backend store a half float, and the release check makes sure that it is a
zero.  `constantHalfStore` goes over the instructions twice.  The first pass fills four tables, of
the float types, the constants, the null constants and the conversions to half floats; the second
looks the stored values up in them.  A value that it cannot read is passed over.

What an instruction means is said of `Instruction`, where its words have names.  `StoresHalf` is the
value that a store of a constant, or of a converted one, has in the end.  How a float is converted
is the business of the device: it enters as `convert`, of which only zero matters.

`constantHalfStore_isSound_iff` says how far a result of zero can be relied on.

A half float can come about in two ways, as a constant of a half-float type or by a conversion, and
from a constant that is given or from one that is null.  The tables have an entry for each of these,
and the pass over the stores goes by the tables alone.  A module that is `WellFormed` declares a
type before it is used, so that the first pass has every entry in time.

Nothing is said about a store whose value is computed in another way; the release check cannot see
these, and its result is about the constants.
-/

set_option autoImplicit false

namespace SemanticSidecar

namespace Shader

open Fallible

/-- `OP_TYPE_FLOAT`, which declares a float type. -/
def opTypeFloat : Word := 22

/-- `OP_CONSTANT`, which declares a constant with a value. -/
def opConstant : Word := 43

/-- `OP_CONSTANT_NULL`, which declares a constant that is zero. -/
def opConstantNull : Word := 46

/-- `OP_STORE`, which stores a value. -/
def opStore : Word := 62

/-- `OP_FCONVERT`, which converts a float to another width. -/
def opFConvert : Word := 115

/-- The operation of an instruction, in the lower half of its first word. -/
def opcode (item : List Word) : Word := item.headD 0 &&& 0xFFFF

/-! ## The two passes -/

/-- The tables, by the ids of results. -/
structure Tables where
  /-- The width of a float type. -/
  floatWidths : Word → Option Word
  /-- The type and the first word of the value. -/
  constants : Word → Option (Word × Word)
  /-- The type of a constant that is zero. -/
  nullConstants : Word → Option Word
  /-- What has been converted to a half float. -/
  halfConversions : Word → Option Word

namespace Tables

/-- The tables before the first pass. -/
def empty : Tables := ⟨fun _ => none, fun _ => none, fun _ => none, fun _ => none⟩

/-- A float type is noted. -/
def addFloat (t : Tables) (id width : Word) : Tables :=
  { t with floatWidths := Function.update t.floatWidths id (some width) }

/-- A constant is noted. -/
def addConstant (t : Tables) (type id bits : Word) : Tables :=
  { t with constants := Function.update t.constants id (some (type, bits)) }

/-- A constant that is zero is noted. -/
def addNull (t : Tables) (type id : Word) : Tables :=
  { t with nullConstants := Function.update t.nullConstants id (some type) }

/-- A conversion counts if its type is known to be a half float. -/
def addConversion (t : Tables) (type id source : Word) : Tables :=
  if t.floatWidths type = some 16 then
    { t with halfConversions := Function.update t.halfConversions id (some source) }
  else t

/-- What the first pass does with an instruction. -/
def note (t : Tables) (item : List Word) : Tables :=
  if opcode item = opTypeFloat then
    match item with
    | [_, id, width] => t.addFloat id width
    | _ => t
  else if opcode item = opConstant then
    match item with
    | _ :: type :: id :: bits :: _ => t.addConstant type id bits
    | _ => t
  else if opcode item = opConstantNull then
    match item with
    | [_, type, id] => t.addNull type id
    | _ => t
  else if opcode item = opFConvert then
    match item with
    | [_, type, id, source] => t.addConversion type id source
    | _ => t
  else t

variable (t : Tables)

/-- A null constant of a type with this width. -/
def isNull (id width : Word) : Bool := (t.nullConstants id).bind t.floatWidths = some width

/-- The value of a constant of a type with this width. -/
def constantOf (id width : Word) : Option Word :=
  match t.constants id with
  | some (type, bits) => if t.floatWidths type = some width then some bits else none
  | none => none

/-- The value before a conversion. -/
def convertedValue (value : Word) : Option Word :=
  match t.halfConversions value with
  | some source =>
    match t.constantOf source 32 with
    | some bits => some bits
    | none => if t.isNull source 32 then some 0 else none
  | none => none

/-- A half float that can be read off the tables. -/
def halfValue (value : Word) : Option Word :=
  if t.isNull value 16 then some 0
  else
    match t.constantOf value 16 with
    | some bits => some (bits &&& 0xFFFF)
    | none => t.convertedValue value

/-- What the second pass takes from an instruction. -/
def storedValue (item : List Word) : Option Word :=
  if opcode item ≠ opStore then none
  else
    match item with
    | _ :: _ :: value :: _ => t.halfValue value
    | _ => none

end Tables

/-- `constant_half_store`: the one half float that a shader stores, as far as that is known. -/
def constantHalfStore (name : String) (data : List UInt8) : Except String Word := do
  let parsed ← instructions data
  let tables := parsed.foldl Tables.note .empty
  match parsed.filterMap tables.storedValue with
  | [value] => .ok value
  | values => .error (name ++ ": expected one constant-derived half-float store, found " ++
      toString values.length)

/-! ## The release check -/

/-- The shaders that are checked. -/
def shaders : List String := ["diag_f16.spv", "tri_f16.spv"]

/-- Eight hexadecimal digits. -/
def hexWord (word : Word) : String :=
  String.ofList ((List.range 8).reverse.map fun i => Json.hexDigit (word.toNat / 16 ^ i % 16))

/-- One shader, of which `found` are the files. -/
def verifyShader (found : String → List (List UInt8)) (name : String) : Except String Unit :=
  match found name with
  | [data] => do
    let value ← constantHalfStore name data
    check (value = 0) (name ++ ": expected zero before the half-float store, found 0x" ++
      hexWord value)
  | others => .error ("expected one " ++ name ++ ", found " ++ toString others.length)

/-- The check of a release: all of the shaders, one after the other. -/
def verify (found : String → List (List UInt8)) : Except String Unit :=
  shaders.forM (verifyShader found)

/-! ## Instructions by name -/

/-- The instructions that matter, with the names of their words. -/
inductive Instruction where
  /-- The encoding is there for formats other than those of IEEE 754. -/
  | typeFloat (id width : Word) (encoding : List Word)
  /-- The value comes in as many words as its type takes, the low-order word first. -/
  | constant (type id bits : Word) (more : List Word)
  /-- A constant of the type that is zero. -/
  | constantNull (type id : Word)
  /-- The access is as the memory operands say, if there are any. -/
  | store (pointer value : Word) (access : List Word)
  /-- The source is converted to the type. -/
  | fConvert (type id source : Word)
  /-- Every other instruction. -/
  | other
  deriving DecidableEq

namespace Instruction

/-- The id of the result. -/
def result : Instruction → Option Word
  | .typeFloat id _ _ | .constant _ id _ _ | .constantNull _ id | .fConvert _ id _ => some id
  | .store _ _ _ | .other => none

/-- The type of the result. -/
def type : Instruction → Option Word
  | .constant type _ _ _ | .constantNull type _ | .fConvert type _ _ => some type
  | .typeFloat _ _ _ | .store _ _ _ | .other => none

/-- The type that is declared. -/
def declared : Instruction → Option Word
  | .typeFloat id _ _ => some id
  | _ => none

end Instruction

/-- The instruction that some words are. -/
def decode (item : List Word) : Instruction :=
  if opcode item = opTypeFloat then
    match item with
    | _ :: id :: width :: encoding => .typeFloat id width encoding
    | _ => .other
  else if opcode item = opConstant then
    match item with
    | _ :: type :: id :: bits :: more => .constant type id bits more
    | _ => .other
  else if opcode item = opConstantNull then
    match item with
    | [_, type, id] => .constantNull type id
    | _ => .other
  else if opcode item = opFConvert then
    match item with
    | [_, type, id, source] => .fConvert type id source
    | _ => .other
  else if opcode item = opStore then
    match item with
    | _ :: pointer :: value :: access => .store pointer value access
    | _ => .other
  else .other

/-- A module as it should be: an id is the result of one instruction, and a type is declared before
there are results of it. -/
structure WellFormed (m : List Instruction) : Prop where
  /-- No id is the result of two instructions. -/
  unique : (m.filterMap Instruction.result).Nodup
  /-- No type is declared after a result of it. -/
  typesFirst : m.Pairwise fun earlier later =>
    ∀ type ∈ earlier.type, later.declared ≠ some type

/-! ## What a store stores -/

/-- A float type, as it is declared. -/
structure FloatType where
  /-- How many bits it has. -/
  width : Word
  /-- Its encoding, none for one of IEEE 754. -/
  encoding : List Word
  deriving DecidableEq

/-- The number that the words of a value are. -/
def literal (words : List Word) : ℕ := words.foldr (fun word n => word.toNat + 2 ^ 32 * n) 0

/-- A constant of a float type, and its bits. -/
inductive FloatConstant (m : List Instruction) (id : Word) : FloatType → ℕ → Prop
  /-- The constant has a value, of which the type takes the low-order bits. -/
  | literal {typeId bits : Word} {more : List Word} {type : FloatType}
    (hconstant : .constant typeId id bits more ∈ m)
    (htype : .typeFloat typeId type.width type.encoding ∈ m) :
    FloatConstant m id type (literal (bits :: more) % 2 ^ type.width.toNat)
  /-- The constant is zero. -/
  | null {typeId : Word} {type : FloatType} (hconstant : .constantNull typeId id ∈ m)
    (htype : .typeFloat typeId type.width type.encoding ∈ m) : FloatConstant m id type 0

/-- The value is a constant of a half-float type, or converted to one from a constant of a float
type.  It has these bits. -/
inductive StoresHalf (convert : FloatType → FloatType → ℕ → ℕ) (m : List Instruction)
    (value : Word) : FloatType → Option FloatType → ℕ → Prop
  /-- A constant of a half-float type. -/
  | direct {type : FloatType} {bits : ℕ} (h : FloatConstant m value type bits)
    (hwidth : type.width = 16) : StoresHalf convert m value type none bits
  /-- A constant of a float type, converted to a half float. -/
  | converted {typeId source : Word} {type origin : FloatType} {bits : ℕ}
    (hconvert : .fConvert typeId value source ∈ m)
    (htype : .typeFloat typeId type.width type.encoding ∈ m) (hwidth : type.width = 16)
    (hsource : FloatConstant m source origin bits) :
    StoresHalf convert m value type (some origin) (convert origin type bits)

/-- What a result of zero is to mean: every such store stores zero, and there is one. -/
structure StoresZeroOnce (convert : FloatType → FloatType → ℕ → ℕ) (m : List Instruction) :
    Prop where
  /-- Whatever constant half float is stored is zero. -/
  zero : ∀ pointer value access, Instruction.store pointer value access ∈ m →
    ∀ type origin bits, StoresHalf convert m value type origin bits → bits = 0
  /-- One instruction of the module stores such a half float. -/
  once : ∃! position : ℕ, ∃ pointer value access,
    m[position]? = some (.store pointer value access) ∧
      ∃ type origin bits, StoresHalf convert m value type origin bits

/-- The types that the check reads: a half float, and before a conversion a float of 32 bits, both
of IEEE 754. -/
def Read (type : FloatType) (origin : Option FloatType) : Prop :=
  type.encoding = [] ∧ ∀ other ∈ origin, other.width = 32 ∧ other.encoding = []

/-! ## The passes by name -/

namespace Tables

/-- What the first pass does with a named instruction. -/
def record (t : Tables) : Instruction → Tables
  | .typeFloat id width [] => t.addFloat id width
  | .constant type id bits _ => t.addConstant type id bits
  | .constantNull type id => t.addNull type id
  | .fConvert type id source => t.addConversion type id source
  | .typeFloat _ _ (_ :: _) | .store _ _ _ | .other => t

theorem note_eq_record (t : Tables) (item : List Word) : t.note item = t.record (decode item) := by
  unfold note decode
  split_ifs
  · rcases item with _ | ⟨a, _ | ⟨b, _ | ⟨c, _ | ⟨d, rest⟩⟩⟩⟩ <;> rfl
  · rcases item with _ | ⟨a, _ | ⟨b, _ | ⟨c, _ | ⟨d, rest⟩⟩⟩⟩ <;> rfl
  · rcases item with _ | ⟨a, _ | ⟨b, _ | ⟨c, _ | ⟨d, rest⟩⟩⟩⟩ <;> rfl
  · rcases item with _ | ⟨a, _ | ⟨b, _ | ⟨c, _ | ⟨d, _ | ⟨e, rest⟩⟩⟩⟩⟩ <;> rfl
  · rcases item with _ | ⟨a, _ | ⟨b, _ | ⟨c, _ | ⟨d, rest⟩⟩⟩⟩ <;> rfl
  · rfl

/-- The value that an instruction has for the second pass. -/
def valueAt (t : Tables) : Instruction → Option Word
  | .store _ value _ => t.halfValue value
  | _ => none

theorem storedValue_eq_valueAt (t : Tables) (item : List Word) :
    t.storedValue item = t.valueAt (decode item) := by
  by_cases h : opcode item = opStore
  · unfold storedValue decode
    rw [h, if_neg (by decide), if_neg (by decide), if_neg (by decide), if_neg (by decide),
      if_neg (by decide), if_pos rfl]
    rcases item with _ | ⟨a, _ | ⟨b, _ | ⟨c, rest⟩⟩⟩ <;> rfl
  · unfold storedValue decode
    rw [if_pos h, if_neg h]
    split_ifs
    · split <;> rfl
    · split <;> rfl
    · split <;> rfl
    · split <;> rfl
    · rfl

end Tables

/-- The tables after the first pass. -/
def fill (m : List Instruction) : Tables := m.foldl Tables.record .empty

theorem constantHalfStore_eq_ok_iff {name : String} {data : List UInt8} {value : Word} :
    constantHalfStore name data = .ok value ↔ ∃ parsed, instructions data = .ok parsed ∧
      (parsed.map decode).filterMap (fill (parsed.map decode)).valueAt = [value] := by
  have htables : ∀ parsed : List (List Word),
      parsed.foldl Tables.note .empty = fill (parsed.map decode) := by
    intro parsed
    rw [fill, List.foldl_map]
    exact congrFun (congrFun (congrArg _ (funext₂ Tables.note_eq_record)) _) _
  have hvalues : ∀ (t : Tables) (parsed : List (List Word)),
      parsed.filterMap t.storedValue = (parsed.map decode).filterMap t.valueAt := by
    intro t parsed
    rw [List.filterMap_map]
    exact List.filterMap_congr fun item _ => t.storedValue_eq_valueAt item
  rw [constantHalfStore, bind_eq_ok]
  refine exists_congr fun parsed => and_congr_right fun _ => ?_
  rw [htables]
  dsimp only
  rw [hvalues]
  split
  · rename_i found heq
    rw [heq]
    exact ⟨fun h => congrArg ([·]) (Except.ok.inj h), fun h => congrArg _ (List.cons.inj h).1⟩
  · rename_i hmany
    exact iff_of_false nofun fun h => hmany value h

/-! ## What the tables hold -/

namespace WellFormed

variable {m : List Instruction} {i j : Instruction} {id type : Word}

theorem of_append (h : WellFormed (m ++ [i])) : WellFormed m where
  unique := by
    have hunique := h.unique
    rw [List.filterMap_append] at hunique
    exact hunique.of_append_left
  typesFirst := (List.pairwise_append.mp h.typesFirst).1

/-- An id is the result of one instruction. -/
theorem same (h : WellFormed m) (hi : i ∈ m) (hj : j ∈ m) (hiResult : i.result = some id)
    (hjResult : j.result = some id) : i = j := by
  have hdistinct := List.pairwise_filterMap.mp h.unique
  refine List.Pairwise.forall_of_forall_of_flip
    (R := fun i j : Instruction => ∀ id, i.result = some id → j.result = some id → i = j)
    (fun _ _ _ _ _ => rfl) (hdistinct.imp ?_) (hdistinct.imp ?_) hi hj id hiResult hjResult
  · exact fun hne id hi hj => absurd rfl (hne id hi id hj)
  · exact fun hne id hj hi => absurd rfl (hne id hi id hj)

/-- What comes last has a result of its own. -/
theorem fresh (h : WellFormed (m ++ [i])) (hresult : i.result = some id) (hj : j ∈ m) :
    j.result ≠ some id := by
  intro hj'
  have hunique := h.unique
  rw [List.filterMap_append, List.nodup_append'] at hunique
  exact hunique.2.2 (List.mem_filterMap.mpr ⟨j, hj, hj'⟩)
    (List.mem_filterMap.mpr ⟨i, List.mem_singleton_self i, hresult⟩)

/-- It does not declare a type that there are results of. -/
theorem declared_ne (h : WellFormed (m ++ [i])) (hj : j ∈ m) (htype : j.type = some type) :
    i.declared ≠ some type :=
  (List.pairwise_append.mp h.typesFirst).2.2 j hj i (List.mem_singleton_self i) type htype

end WellFormed

/-- The tables of a module. -/
structure Holds (m : List Instruction) (t : Tables) : Prop where
  /-- A width is that of a declared type of IEEE 754. -/
  floatWidths : ∀ {id width}, t.floatWidths id = some width ↔ .typeFloat id width [] ∈ m
  /-- An entry is a declared constant, with the first word of its value. -/
  constants : ∀ {id type bits},
    t.constants id = some (type, bits) ↔ ∃ more, .constant type id bits more ∈ m
  /-- An entry is a declared constant that is zero. -/
  nullConstants : ∀ {id type}, t.nullConstants id = some type ↔ .constantNull type id ∈ m
  /-- An entry is a conversion to a declared half-float type. -/
  halfConversions : ∀ {id source}, t.halfConversions id = some source ↔
    ∃ type, .fConvert type id source ∈ m ∧ .typeFloat type 16 [] ∈ m

/-- An entry for an id that had none. -/
theorem update_eq_some_iff {α : Type} {f : Word → Option α} {id other : Word} {a b : α}
    (h : f id = none) :
    Function.update f id (some a) other = some b ↔ f other = some b ∨ other = id ∧ a = b := by
  rcases eq_or_ne other id with rfl | hne
  · rw [Function.update_self, h]
    simp
  · rw [Function.update_of_ne hne]
    simp [hne]

theorem holds_empty : Holds [] .empty := by
  constructor <;> simp [Tables.empty]

section Record

variable {t : Tables} {i : Instruction} {id : Word}

theorem record_floatWidths {width : Word}
    (h : ∀ id, i.result = some id → t.floatWidths id = none) :
    (t.record i).floatWidths id = some width ↔
      t.floatWidths id = some width ∨ i = .typeFloat id width [] := by
  cases i with
  | typeFloat id' width' encoding =>
    rcases encoding with _ | ⟨first, rest⟩
    · rw [Tables.record, Tables.addFloat, update_eq_some_iff (h id' rfl)]
      simp [eq_comm]
    · simp [Tables.record]
  | fConvert => rw [Tables.record, Tables.addConversion]; split <;> simp
  | constant | constantNull | store | other => simp [Tables.record, Tables.addConstant, Tables.addNull]

theorem record_constants {type bits : Word}
    (h : ∀ id, i.result = some id → t.constants id = none) :
    (t.record i).constants id = some (type, bits) ↔
      t.constants id = some (type, bits) ∨ ∃ more, i = .constant type id bits more := by
  cases i with
  | constant type' id' bits' more =>
    rw [Tables.record, Tables.addConstant, update_eq_some_iff (h id' rfl)]
    simp [eq_comm, and_left_comm]
  | typeFloat _ _ encoding => rcases encoding with _ | _ <;> simp [Tables.record, Tables.addFloat]
  | fConvert => rw [Tables.record, Tables.addConversion]; split <;> simp
  | constantNull | store | other => simp [Tables.record, Tables.addNull]

theorem record_nullConstants {type : Word}
    (h : ∀ id, i.result = some id → t.nullConstants id = none) :
    (t.record i).nullConstants id = some type ↔
      t.nullConstants id = some type ∨ i = .constantNull type id := by
  cases i with
  | constantNull type' id' =>
    rw [Tables.record, Tables.addNull, update_eq_some_iff (h id' rfl)]
    simp [eq_comm, and_comm]
  | typeFloat _ _ encoding => rcases encoding with _ | _ <;> simp [Tables.record, Tables.addFloat]
  | fConvert => rw [Tables.record, Tables.addConversion]; split <;> simp
  | constant | store | other => simp [Tables.record, Tables.addConstant]

theorem record_halfConversions {source : Word}
    (h : ∀ id, i.result = some id → t.halfConversions id = none) :
    (t.record i).halfConversions id = some source ↔
      t.halfConversions id = some source ∨
        ∃ type, i = .fConvert type id source ∧ t.floatWidths type = some 16 := by
  cases i with
  | fConvert type' id' source' =>
    rw [Tables.record, Tables.addConversion]
    split
    · rename_i hwidth
      rw [update_eq_some_iff (h id' rfl)]
      simp [eq_comm, hwidth]
    · rename_i hwidth
      simp [hwidth]
  | typeFloat _ _ encoding => rcases encoding with _ | _ <;> simp [Tables.record, Tables.addFloat]
  | constant | constantNull | store | other => simp [Tables.record, Tables.addConstant, Tables.addNull]

end Record

theorem holds_record {m : List Instruction} {t : Tables} {i : Instruction} (h : Holds m t)
    (hwf : WellFormed (m ++ [i])) : Holds (m ++ [i]) (t.record i) where
  floatWidths := by
    intro id width
    rw [record_floatWidths fun id hid => Option.eq_none_iff_forall_ne_some.mpr fun width hsome =>
      hwf.fresh hid (h.floatWidths.mp hsome) rfl, h.floatWidths]
    simp [eq_comm]
  constants := by
    intro id type bits
    rw [record_constants fun id hid => Option.eq_none_iff_forall_ne_some.mpr fun value hsome =>
      (h.constants.mp hsome).elim fun more hmem => hwf.fresh hid hmem rfl, h.constants]
    simp [exists_or, eq_comm]
  nullConstants := by
    intro id type
    rw [record_nullConstants fun id hid => Option.eq_none_iff_forall_ne_some.mpr fun type hsome =>
      hwf.fresh hid (h.nullConstants.mp hsome) rfl, h.nullConstants]
    simp [eq_comm]
  halfConversions := by
    intro id source
    rw [record_halfConversions fun id hid => Option.eq_none_iff_forall_ne_some.mpr fun source hsome =>
      (h.halfConversions.mp hsome).elim fun type hmem => hwf.fresh hid hmem.1 rfl,
      h.halfConversions]
    simp only [h.floatWidths]
    constructor
    · rintro (⟨type, hmem, htype⟩ | ⟨type, rfl, htype⟩)
      · exact ⟨type, List.mem_append_left _ hmem, List.mem_append_left _ htype⟩
      · exact ⟨type, List.mem_concat_self, List.mem_append_left _ htype⟩
    · rintro ⟨type, hmem, htype⟩
      rcases List.mem_append.mp hmem with hmem | hlast
      · rcases List.mem_append.mp htype with htype | hlast
        · exact .inl ⟨type, hmem, htype⟩
        · rw [List.mem_singleton] at hlast
          exact absurd (hlast ▸ rfl) (hwf.declared_ne hmem rfl)
      · rw [List.mem_singleton] at hlast
        rcases List.mem_append.mp htype with htype | hlast'
        · exact .inr ⟨type, hlast.symm, htype⟩
        · rw [List.mem_singleton, ← hlast] at hlast'
          cases hlast'

/-- The first pass fills the tables with what there is. -/
theorem holds_fill (m : List Instruction) (hwf : WellFormed m) : Holds m (fill m) := by
  induction m using List.reverseRecOn with
  | nil => exact holds_empty
  | append_singleton m i ih =>
    rw [fill, List.foldl_concat]
    exact holds_record (ih hwf.of_append) hwf

/-! ## What a value is -/

section Values

variable {m : List Instruction} {t : Tables} {id width word : Word}

theorem literal_mod {bits : Word} {more : List Word} {k : ℕ} (hk : k ≤ 32) :
    literal (bits :: more) % 2 ^ k = bits.toNat % 2 ^ k := by
  obtain ⟨c, hc⟩ := Nat.pow_dvd_pow 2 hk
  rw [literal, List.foldr_cons, hc, Nat.mul_assoc, Nat.add_mul_mod_self_left]

theorem Holds.isNull_iff (h : Holds m t) :
    t.isNull id width = true ↔
      ∃ type, .constantNull type id ∈ m ∧ .typeFloat type width [] ∈ m := by
  rw [Tables.isNull, decide_eq_true_iff, Option.bind_eq_some_iff]
  simp only [h.nullConstants, h.floatWidths]

theorem Holds.constantOf_eq_some_iff (h : Holds m t) :
    t.constantOf id width = some word ↔
      ∃ type more, .constant type id word more ∈ m ∧ .typeFloat type width [] ∈ m := by
  rw [Tables.constantOf]
  constructor
  · intro hsome
    split at hsome
    · rename_i type bits hconstant
      split at hsome
      · rename_i hwidth
        obtain ⟨more, hmem⟩ := h.constants.mp hconstant
        exact ⟨type, more, Option.some.inj hsome ▸ hmem, h.floatWidths.mp hwidth⟩
      · cases hsome
    · cases hsome
  · rintro ⟨type, more, hmem, htype⟩
    rw [h.constants.mpr ⟨more, hmem⟩]
    exact if_pos (h.floatWidths.mpr htype)

namespace WellFormed

/-- A type is declared once. -/
theorem floatType_eq (hwf : WellFormed m) {typeId : Word} {type type' : FloatType}
    (h : .typeFloat typeId type.width type.encoding ∈ m)
    (h' : .typeFloat typeId type'.width type'.encoding ∈ m) : type = type' := by
  obtain ⟨width, encoding⟩ := type
  obtain ⟨width', encoding'⟩ := type'
  obtain ⟨-, rfl, rfl⟩ := Instruction.typeFloat.inj (hwf.same h h' rfl rfl)
  rfl

/-- A constant has one type and one value. -/
theorem floatConstant_eq (hwf : WellFormed m) {type type' : FloatType} {bits bits' : ℕ}
    (h : FloatConstant m id type bits) (h' : FloatConstant m id type' bits') :
    type = type' ∧ bits = bits' := by
  rcases h with ⟨hconstant, htype⟩ | ⟨hconstant, htype⟩ <;>
    rcases h' with ⟨hconstant', htype'⟩ | ⟨hconstant', htype'⟩
  · obtain ⟨rfl, -, rfl, rfl⟩ := Instruction.constant.inj (hwf.same hconstant hconstant' rfl rfl)
    obtain rfl := hwf.floatType_eq htype htype'
    exact ⟨rfl, rfl⟩
  · cases hwf.same hconstant hconstant' rfl rfl
  · cases hwf.same hconstant hconstant' rfl rfl
  · obtain ⟨rfl, -⟩ := Instruction.constantNull.inj (hwf.same hconstant hconstant' rfl rfl)
    exact ⟨hwf.floatType_eq htype htype', rfl⟩

/-- A constant is not the result of a conversion. -/
theorem not_floatConstant (hwf : WellFormed m) {typeId source : Word} {type : FloatType} {bits : ℕ}
    (h : .fConvert typeId id source ∈ m) : ¬ FloatConstant m id type bits := by
  rintro (⟨hconstant, -⟩ | ⟨hconstant, -⟩)
  · cases hwf.same h hconstant rfl rfl
  · cases hwf.same h hconstant rfl rfl

/-- What is stored has one type, one origin and one value. -/
theorem storesHalf_eq (hwf : WellFormed m) {convert : FloatType → FloatType → ℕ → ℕ} {value : Word}
    {type type' : FloatType} {origin origin' : Option FloatType} {bits bits' : ℕ}
    (h : StoresHalf convert m value type origin bits)
    (h' : StoresHalf convert m value type' origin' bits') :
    type = type' ∧ origin = origin' ∧ bits = bits' := by
  rcases h with ⟨h, -⟩ | ⟨hconvert, htype, -, hsource⟩ <;>
    rcases h' with ⟨h', -⟩ | ⟨hconvert', htype', -, hsource'⟩
  · obtain ⟨rfl, rfl⟩ := hwf.floatConstant_eq h h'
    exact ⟨rfl, rfl, rfl⟩
  · exact absurd h (hwf.not_floatConstant hconvert')
  · exact absurd h' (hwf.not_floatConstant hconvert)
  · obtain ⟨rfl, -, rfl⟩ := Instruction.fConvert.inj (hwf.same hconvert hconvert' rfl rfl)
    obtain rfl := hwf.floatType_eq htype htype'
    obtain ⟨rfl, rfl⟩ := hwf.floatConstant_eq hsource hsource'
    exact ⟨rfl, rfl, rfl⟩

end WellFormed

namespace Holds

theorem floatConstant_null (h : Holds m t) (hnull : t.isNull id width = true) :
    FloatConstant m id ⟨width, []⟩ 0 := by
  obtain ⟨type, hconstant, htype⟩ := h.isNull_iff.mp hnull
  exact .null hconstant htype

theorem floatConstant_literal (h : Holds m t) (hwidth : width.toNat ≤ 32)
    (hword : t.constantOf id width = some word) :
    FloatConstant m id ⟨width, []⟩ (word.toNat % 2 ^ width.toNat) := by
  obtain ⟨type, more, hconstant, htype⟩ := h.constantOf_eq_some_iff.mp hword
  rw [← literal_mod hwidth]
  exact .literal hconstant htype

theorem lookup_floatConstant (h : Holds m t) {bits : ℕ}
    (hconstant : FloatConstant m id ⟨width, []⟩ bits) :
    t.isNull id width = true ∨ ∃ word, t.constantOf id width = some word := by
  rcases hconstant with ⟨hconstant, htype⟩ | ⟨hconstant, htype⟩
  · exact .inr ⟨_, h.constantOf_eq_some_iff.mpr ⟨_, _, hconstant, htype⟩⟩
  · exact .inl (h.isNull_iff.mpr ⟨_, hconstant, htype⟩)

variable {convert : FloatType → FloatType → ℕ → ℕ} {value : Word}

/-- A value that is found is there, with types that are read, and zero means zero. -/
theorem storesHalf_of_halfValue (h : Holds m t) (hconvert : convert ⟨32, []⟩ ⟨16, []⟩ 0 = 0)
    (hword : t.halfValue value = some word) :
    ∃ type origin bits, StoresHalf convert m value type origin bits ∧ Read type origin ∧
      (word = 0 → bits = 0) := by
  rw [Tables.halfValue] at hword
  split at hword
  · rename_i hnull
    exact ⟨_, _, _, .direct (h.floatConstant_null hnull) rfl, ⟨rfl, nofun⟩, fun _ => rfl⟩
  · split at hword
    · rename_i bits hbits
      refine ⟨_, _, _, .direct (h.floatConstant_literal (by decide) hbits) rfl, ⟨rfl, nofun⟩, ?_⟩
      rintro rfl
      have hzero : (bits &&& 0xFFFF).toNat = 0 := congrArg UInt32.toNat (Option.some.inj hword)
      rw [UInt32.toNat_and] at hzero
      exact (Nat.and_two_pow_sub_one_eq_mod bits.toNat 16).symm.trans hzero
    · rw [Tables.convertedValue] at hword
      split at hword
      · rename_i source hsource
        obtain ⟨typeId, hconversion, htype⟩ := h.halfConversions.mp hsource
        have hread : Read ⟨16, []⟩ (some ⟨32, []⟩) :=
          ⟨rfl, fun _ horigin => Option.some.inj horigin ▸ ⟨rfl, rfl⟩⟩
        split at hword
        · rename_i bits hbits
          refine ⟨⟨16, []⟩, _, _, .converted hconversion htype rfl
            (h.floatConstant_literal (by decide) hbits), hread, ?_⟩
          rintro rfl
          rw [Option.some.inj hword]
          exact hconvert
        · split at hword
          · rename_i hnull
            exact ⟨⟨16, []⟩, _, _, .converted hconversion htype rfl (h.floatConstant_null hnull),
              hread, fun _ => hconvert⟩
          · cases hword
      · cases hword

theorem convertedValue_of_floatConstant (h : Holds m t) {typeId source : Word}
    {origin : FloatType} {bits : ℕ} (hconversion : .fConvert typeId value source ∈ m)
    (htype : .typeFloat typeId 16 [] ∈ m) (hsource : FloatConstant m source origin bits)
    (horigin : origin.width = 32 ∧ origin.encoding = []) :
    ∃ word, t.convertedValue value = some word := by
  obtain ⟨width, encoding⟩ := origin
  obtain ⟨rfl, rfl⟩ := horigin
  rw [Tables.convertedValue, h.halfConversions.mpr ⟨typeId, hconversion, htype⟩]
  dsimp only
  split
  · exact ⟨_, rfl⟩
  · rename_i hconstant
    rcases h.lookup_floatConstant hsource with hnull | ⟨word, hword⟩
    · exact ⟨0, if_pos hnull⟩
    · rw [hconstant] at hword
      cases hword

/-- A value with types that are read is found. -/
theorem halfValue_of_storesHalf (h : Holds m t) {type : FloatType} {origin : Option FloatType}
    {bits : ℕ} (hstores : StoresHalf convert m value type origin bits) (hread : Read type origin) :
    ∃ word, t.halfValue value = some word := by
  obtain ⟨width, encoding⟩ := type
  obtain ⟨rfl, horigin⟩ := hread
  rw [Tables.halfValue]
  split
  · exact ⟨_, rfl⟩
  · rename_i hnull
    split
    · exact ⟨_, rfl⟩
    · rename_i hconstant
      rcases hstores with ⟨hdirect, rfl⟩ | ⟨hconversion, htype, rfl, hsource⟩
      · rcases h.lookup_floatConstant hdirect with hnull' | ⟨word, hword⟩
        · exact absurd hnull' hnull
        · rw [hconstant] at hword
          cases hword
      · exact h.convertedValue_of_floatConstant hconversion htype hsource (horigin _ rfl)

end Holds

end Values

/-! ## What a result of zero is worth -/

/-- A list that keeps one value has it at one position. -/
theorem position_of_filterMap {α β : Type} {f : α → Option β} {l : List α} {b : β}
    (h : l.filterMap f = [b]) :
    ∃ (position : ℕ) (a : α), l[position]? = some a ∧ f a = some b ∧
      ∀ (other : ℕ) (a' : α) (b' : β), l[other]? = some a' → f a' = some b' →
        other = position := by
  induction l with
  | nil => cases h
  | cons a l ih =>
    rw [List.filterMap_cons] at h
    split at h
    · rename_i hnone
      obtain ⟨position, a', ha', hb, hothers⟩ := ih h
      refine ⟨position + 1, a', ha', hb, ?_⟩
      rintro (_ | other) c b' hc hb'
      · obtain rfl := Option.some.inj hc
        rw [hnone] at hb'
        cases hb'
      · exact congrArg _ (hothers other c b' hc hb')
    · rename_i b' hsome
      obtain ⟨rfl, hrest⟩ := List.cons.inj h
      refine ⟨0, a, rfl, hsome, ?_⟩
      rintro (_ | other) c b'' hc hb''
      · rfl
      · rw [List.filterMap_eq_nil_iff.mp hrest c (List.mem_of_getElem? hc)] at hb''
        cases hb''

theorem storesZeroOnce_iff {convert : FloatType → FloatType → ℕ → ℕ}
    (hconvert : convert ⟨32, []⟩ ⟨16, []⟩ 0 = 0) {m : List Instruction} (hwf : WellFormed m)
    (hzero : m.filterMap (fill m).valueAt = [0]) :
    StoresZeroOnce convert m ↔ ∀ pointer value access, .store pointer value access ∈ m →
      ∀ type origin bits, StoresHalf convert m value type origin bits → Read type origin := by
  have hholds := holds_fill m hwf
  obtain ⟨position, item, hitem, hvalue, hothers⟩ := position_of_filterMap hzero
  obtain ⟨pointer, value, access, rfl⟩ :
      ∃ pointer value access, item = .store pointer value access := by
    cases item with
    | store pointer value access => exact ⟨pointer, value, access, rfl⟩
    | _ => cases hvalue
  obtain ⟨type, origin, bits, hstores, hread, hbits⟩ :=
    hholds.storesHalf_of_halfValue hconvert hvalue
  constructor
  · intro h pointer' value' access' hmem type' origin' bits' hstores'
    obtain ⟨position', hitem'⟩ := List.mem_iff_getElem?.mp hmem
    obtain rfl : position' = position := h.once.unique
      ⟨pointer', value', access', hitem', type', origin', bits', hstores'⟩
      ⟨pointer, value, access, hitem, type, origin, bits, hstores⟩
    obtain ⟨-, rfl, -⟩ := Instruction.store.inj (Option.some.inj (hitem.symm.trans hitem'))
    obtain ⟨rfl, rfl, -⟩ := hwf.storesHalf_eq hstores hstores'
    exact hread
  · intro h
    have hsame : ∀ {position' : ℕ} {pointer' value' access' type' origin' bits'},
        m[position']? = some (.store pointer' value' access') →
        StoresHalf convert m value' type' origin' bits' → position' = position ∧ bits' = 0 := by
      intro position' pointer' value' access' type' origin' bits' hitem' hstores'
      obtain ⟨word, hword⟩ := hholds.halfValue_of_storesHalf hstores'
        (h pointer' value' access' (List.mem_of_getElem? hitem') type' origin' bits' hstores')
      obtain rfl := hothers position' _ word hitem' hword
      obtain ⟨-, rfl, -⟩ := Instruction.store.inj (Option.some.inj (hitem.symm.trans hitem'))
      exact ⟨rfl, (hwf.storesHalf_eq hstores' hstores).2.2.trans (hbits rfl)⟩
    refine ⟨?_, position, ⟨pointer, value, access, hitem, type, origin, bits, hstores⟩, ?_⟩
    · intro pointer' value' access' hmem type' origin' bits' hstores'
      obtain ⟨position', hitem'⟩ := List.mem_iff_getElem?.mp hmem
      exact (hsame hitem' hstores').2
    · rintro position' ⟨pointer', value', access', hitem', type', origin', bits', hstores'⟩
      exact (hsame hitem' hstores').1

/-- **A result of zero can be relied on** just if there are no stores of half floats from types that
the check does not read, such as a float of 64 bits. -/
theorem constantHalfStore_isSound_iff {convert : FloatType → FloatType → ℕ → ℕ}
    (hconvert : convert ⟨32, []⟩ ⟨16, []⟩ 0 = 0) {name : String} {data : List UInt8}
    {parsed : List (List Word)} (hparse : instructions data = .ok parsed)
    (hwf : WellFormed (parsed.map decode)) (hzero : constantHalfStore name data = .ok 0) :
    StoresZeroOnce convert (parsed.map decode) ↔
      ∀ pointer value access, .store pointer value access ∈ parsed.map decode →
        ∀ type origin bits, StoresHalf convert (parsed.map decode) value type origin bits →
          Read type origin := by
  obtain ⟨parsed', hparse', hvalues⟩ := constantHalfStore_eq_ok_iff.mp hzero
  obtain rfl := Except.ok.inj (hparse.symm.trans hparse')
  exact storesZeroOnce_iff hconvert hwf hvalues

/-- The release check gets through if each shader is there once and a zero was found in it. -/
theorem verify_eq_ok_iff {found : String → List (List UInt8)} :
    verify found = .ok () ↔
      ∀ name ∈ shaders, ∃ data, found name = [data] ∧ constantHalfStore name data = .ok 0 := by
  rw [verify, forM_eq_ok]
  refine forall₂_congr fun name _ => ?_
  rw [verifyShader]
  split
  · rename_i data hfound
    rw [bind_eq_ok]
    simp only [check_eq_ok]
    constructor
    · rintro ⟨value, hvalue, rfl⟩
      exact ⟨data, hfound, hvalue⟩
    · rintro ⟨data', hfound', hvalue⟩
      obtain ⟨rfl, -⟩ := List.cons.inj (hfound.symm.trans hfound')
      exact ⟨0, hvalue, rfl⟩
  · rename_i hmany
    constructor
    · intro h
      cases h
    · rintro ⟨data, hfound, -⟩
      exact absurd hfound (hmany data)

/-! ## A zero, and a zero that is not the only one -/

/-- A conversion, as it is of 0 and 1. -/
def convertUnit (_ _ : FloatType) (bits : ℕ) : ℕ := if bits = 0 then 0 else 0x3C00

/-- A zero of 32 bits is converted and stored. -/
def zeroItems : List (List Word) :=
  [[0x00030016, 1, 32], [0x00030016, 2, 16], [0x0004002B, 1, 3, 0], [0x00040073, 2, 4, 3],
    [0x0003003E, 5, 4]]

theorem zeroItems_decode : zeroItems.map decode =
    [.typeFloat 1 32 [], .typeFloat 2 16 [], .constant 1 3 0 [], .fConvert 2 4 3, .store 5 4 []] :=
  rfl

theorem constantHalfStore_isSound_iff_zero :
    StoresZeroOnce convertUnit (zeroItems.map decode) := by
  have hparse : instructions (moduleOf 0x00010500 0 8 0 zeroItems) = .ok zeroItems :=
    instructions_moduleOf _ _ _ _ (by decide)
  have hwf : WellFormed (zeroItems.map decode) :=
    ⟨by decide, by simp [zeroItems_decode, Instruction.type, Instruction.declared]⟩
  have hzero : constantHalfStore "diag_f16.spv" (moduleOf 0x00010500 0 8 0 zeroItems) = .ok 0 :=
    constantHalfStore_eq_ok_iff.mpr ⟨zeroItems, hparse, rfl⟩
  refine (constantHalfStore_isSound_iff rfl hparse hwf hzero).mpr ?_
  intro pointer value access hmem type origin bits hstores
  obtain ⟨-, rfl, -⟩ : pointer = 5 ∧ value = 4 ∧ access = [] := by
    rw [zeroItems_decode] at hmem
    simpa using hmem
  have hzeroStored : StoresHalf convertUnit (zeroItems.map decode) 4 ⟨16, []⟩ (some ⟨32, []⟩) _ :=
    .converted (by decide : Instruction.fConvert 2 4 3 ∈ _) (by decide) rfl
      (.literal (by decide : Instruction.constant 1 3 0 [] ∈ _) (by decide))
  obtain ⟨rfl, rfl, -⟩ := hwf.storesHalf_eq hzeroStored hstores
  exact ⟨rfl, fun _ horigin => Option.some.inj horigin ▸ ⟨rfl, rfl⟩⟩

/-- A one of 64 bits is converted and stored, and a zero besides. -/
def wideItems : List (List Word) :=
  [[0x00030016, 1, 64], [0x00030016, 2, 16], [0x0005002B, 1, 3, 0, 0x3FF00000],
    [0x00040073, 2, 4, 3], [0x0003003E, 5, 4], [0x0004002B, 2, 6, 0], [0x0003003E, 7, 6]]

theorem wideItems_decode : wideItems.map decode =
    [.typeFloat 1 64 [], .typeFloat 2 16 [], .constant 1 3 0 [0x3FF00000], .fConvert 2 4 3,
      .store 5 4 [], .constant 2 6 0 [], .store 7 6 []] := rfl

/-- The result is zero, but there is a one stored as well. -/
theorem not_storesZeroOnce_wide :
    instructions (moduleOf 0x00010500 0 8 0 wideItems) = .ok wideItems ∧
      WellFormed (wideItems.map decode) ∧
      constantHalfStore "diag_f16.spv" (moduleOf 0x00010500 0 8 0 wideItems) = .ok 0 ∧
      ¬ StoresZeroOnce convertUnit (wideItems.map decode) := by
  have hparse : instructions (moduleOf 0x00010500 0 8 0 wideItems) = .ok wideItems :=
    instructions_moduleOf _ _ _ _ (by decide)
  refine ⟨hparse, ⟨by decide, by simp [wideItems_decode, Instruction.type, Instruction.declared]⟩,
    constantHalfStore_eq_ok_iff.mpr ⟨wideItems, hparse, rfl⟩, fun h => ?_⟩
  have hone : StoresHalf convertUnit (wideItems.map decode) 4 ⟨16, []⟩ (some ⟨64, []⟩) _ :=
    .converted (by decide : Instruction.fConvert 2 4 3 ∈ _) (by decide) rfl
      (.literal (by decide : Instruction.constant 1 3 0 [0x3FF00000] ∈ _) (by decide))
  exact absurd (h.zero 5 4 [] (by decide) _ _ _ hone) (by decide)

end Shader

end SemanticSidecar
