import SemanticSidecar.Lib.Json
import SemanticSidecar.Lib.Text
import Mathlib.Data.Nat.Digits.Defs

/-!
# JSON as the sidecar sees it

The wire format is handled by `serde_json`, a library.  `Number` and `Value` are its data types,
and `SerdeJson` collects the operations of it that the sidecar calls and that are not spelled out
here: the two parsers, and the text of a floating-point number.  Serialization itself is
`Json.render`.

Nothing is assumed of the parsers in general; where a result depends on how they treat the white
space around a value it says so with `SerdeJson.Lawful`.

Two things are assumed in places, and each result names what it needs.

* `SerdeJson.PrintsFloats`: the text of a float has no control character in it.  This is what keeps
  a reply on one line.
* `SerdeJson.Lawful`: white space around a text makes no difference, as far as it is white space for
  JSON, which is less than it is for Unicode.

`SerdeJson.ofTable` is a parser that knows finitely many texts and fails on the others.  It has both
properties, and the inputs that results are tried on are parsed with it.  An object is the list of
its members, and is looked at by name.
-/

set_option autoImplicit false

namespace SemanticSidecar

/-- `serde_json::Number`: a `u64`, a negative `i64`, or a finite `f64`. -/
inductive Number where
  /-- A `u64`. -/
  | posInt (n : ℕ)
  /-- An `i64` below zero. -/
  | negInt (n : ℤ)
  /-- A finite `f64`. -/
  | float (f : Float)

/-- `serde_json::Value`. -/
abbrev Value := Json Number

/-- `serde_json::Map<String, Value>`. -/
abbrev Members := List (String × Value)

/-- `Number::as_f64`. -/
def Number.asF64 : Number → Float
  | .posInt n => Float.ofNat n
  | .negInt n => Float.ofInt n
  | .float f => f

/-- What the sidecar uses of `serde_json`. -/
structure SerdeJson where
  /-- `serde_json::from_str::<Value>`, with the text of the error. -/
  fromStr : String → Except String Value
  /-- `serde_json::from_slice::<Value>`; its callers drop the error. -/
  fromSlice : List UInt8 → Option Value
  /-- The digits an `f64` is written with. -/
  fmtFloat : Float → List Char

namespace SerdeJson

variable (serde : SerdeJson)

/-- The text of a number. -/
def fmtNumber : Number → List Char
  | .posInt n => Nat.toDigits 10 n
  | .negInt n => '-' :: Nat.toDigits 10 n.natAbs
  | .float f => serde.fmtFloat f

/-- `serde_json::to_string`, which is also how a `Value` is displayed. -/
def toString (v : Value) : String := String.ofList (Json.render serde.fmtNumber v)

/-- The printer writes a float with printable characters only. -/
def PrintsFloats : Prop := ∀ f, Json.Printable (serde.fmtFloat f)

theorem printable_fmtNumber {serde : SerdeJson} (h : serde.PrintsFloats) (n : Number) :
    Json.Printable (serde.fmtNumber n) := by
  have hdigits : ∀ m : ℕ, Json.Printable (Nat.toDigits 10 m) := by
    intro m c hc
    have hdigit := Nat.isDigit_of_mem_toDigits (by decide) (by decide) hc
    simp only [Char.isDigit, Bool.and_eq_true, decide_eq_true_eq, ge_iff_le] at hdigit
    have h48 : '0'.val ≤ c.val := hdigit.1
    have := UInt32.le_iff_toNat_le.mp h48
    exact le_trans (by decide) this
  cases n with
  | posInt m => exact hdigits m
  | negInt m =>
    rw [fmtNumber, Json.printable_cons]
    exact ⟨by decide, hdigits _⟩
  | float f => exact h f

/-- **What is serialized is one line.** -/
theorem newline_notMem_toString {serde : SerdeJson} (h : serde.PrintsFloats) (v : Value) :
    '\n' ∉ (serde.toString v).toList := by
  rw [toString, String.toList_ofList]
  exact Json.newline_notMem_render (printable_fmtNumber h) v

/-! ### What the sidecar relies on

JSON knows four white-space characters, and `serde_json` skips them around a value.  Everything
else around a value makes the text invalid, Unicode white space included. -/

/-- The white space of the JSON grammar. -/
def isJsonSpace (c : Char) : Bool := c = ' ' || c = '\t' || c = '\n' || c = '\r'

/-- A text without the JSON white space at its two ends. -/
def trimJson (s : String) : String := String.ofList (Text.trimBy isJsonSpace s.toList)

/-- The parsers agree, skip JSON white space around a value, and accept nothing else there. -/
structure Lawful : Prop where
  /-- `from_slice` is `from_str` on the bytes of a text. -/
  slice : ∀ bytes, serde.fromSlice bytes =
    (Text.fromUtf8 bytes).bind fun text => (serde.fromStr text).toOption
  /-- White space around a value is skipped. -/
  space : ∀ text, (serde.fromStr text).toOption = (serde.fromStr (trimJson text)).toOption
  /-- A text that parses has, inside its JSON white space, no other white space at its ends. -/
  margin : ∀ text v, serde.fromStr text = .ok v → Text.trim (trimJson text) = trimJson text

theorem trimJson_trimJson (s : String) : trimJson (trimJson s) = trimJson s := by
  rw [trimJson, trimJson, String.toList_ofList, Text.trimBy_trimBy fun _ h => h]

/-- The value a table gives to a text, JSON white space around it aside. -/
def tableValue (table : List (String × Value)) (text : String) : Option Value :=
  if Text.trim (trimJson text) = trimJson text then table.lookup (trimJson text) else none

/-- A parser that knows the values of finitely many texts, for use on those. -/
def ofTable (table : List (String × Value)) : SerdeJson where
  fromStr text := (tableValue table text).elim (.error "expected value at line 1 column 1") .ok
  fromSlice bytes := (Text.fromUtf8 bytes).bind (tableValue table)
  fmtFloat _ := ['0', '.', '0']

theorem ofTable_printsFloats (table : List (String × Value)) : (ofTable table).PrintsFloats := by
  intro f
  simp only [ofTable, Json.printable_cons, Json.printable_nil, and_true]
  decide

theorem toOption_ofTable (table : List (String × Value)) (text : String) :
    ((ofTable table).fromStr text).toOption = tableValue table text := by
  simp only [ofTable]
  cases htext : tableValue table text with
  | none => simp only [Option.elim, Except.toOption]
  | some v => simp only [Option.elim, Except.toOption]

theorem ofTable_lawful (table : List (String × Value)) : (ofTable table).Lawful where
  slice bytes := by
    simp only [toOption_ofTable]
    rfl
  space text := by
    rw [toOption_ofTable, toOption_ofTable, tableValue, tableValue, trimJson_trimJson]
  margin text v h := by
    have hsome : tableValue table text = some v := by rw [← toOption_ofTable, h]; rfl
    rw [tableValue] at hsome
    split at hsome
    · assumption
    · simp at hsome

end SerdeJson

/-- `json!` of an `f32`: widened to `f64`, or `null` when it is not finite. -/
def floatValue (x : Float32) : Value :=
  if x.isFinite then .number (.float x.toFloat) else .null

/-- `json!` of a vector. -/
def vectorValue (vector : List Float32) : Value := .array (vector.map floatValue)

end SemanticSidecar
