import SemanticSidecar.Lib.Encoding

/-!
# The instructions of a shader

A compiled shader is a SPIR-V module: words of four bytes, five of them in front and then the
instructions, one behind the other.  The first word of an instruction has its length in the upper
half.  `instructions` is the parser of the release check, a loop over an offset into the words; its
steps depend on what the bytes say, so a length of zero must not pass, nor one that is too long.

`instructions_law` says what it accepts, and that its loop always gets on.

An accepted module is cut into instructions without a gap and in one way only, since every
instruction says how long it is.  `parseLoop_turn` is the reason why the loop ends: a turn raises,
or the offset is greater after it and within the words.  `instructions_moduleOf` is the other
direction, that whatever is put together from instructions is read back; the module that it is tried
on declares a half-float constant and stores it.
-/

set_option autoImplicit false

namespace SemanticSidecar

namespace Shader

/-- A word of a module. -/
abbrev Word := UInt32

/-- `SPIRV_MAGIC`: the first word of every module. -/
def spirvMagic : Word := 0x07230203

/-- `struct.unpack`, of words in little-endian order. -/
def unpack : List UInt8 → List Word
  | a :: b :: c :: d :: rest =>
    UInt32.ofNat (a.toNat + 256 * (b.toNat + 256 * (c.toNat + 256 * d.toNat))) :: unpack rest
  | _ => []

/-- The length of an instruction, in its first word. -/
def wordCount (header : Word) : ℕ := (header >>> 16).toNat

/-- The loop, with the offset it is at and what it has parsed. -/
def parseLoop (words : List Word) (offset : ℕ) (parsed : List (List Word)) :
    Except String (List (List Word)) :=
  if h : offset < words.length then
    let count := wordCount words[offset]
    if count = 0 ∨ words.length < offset + count then
      .error ("invalid SPIR-V instruction at word " ++ toString offset)
    else parseLoop words (offset + count) (parsed ++ [(words.drop offset).take count])
  else .ok parsed
termination_by words.length - offset

/-- `instructions`: the instructions of a module, behind its header of five words. -/
def instructions (data : List UInt8) : Except String (List (List Word)) :=
  if data.length < 20 ∨ data.length % 4 ≠ 0 then .error "invalid SPIR-V byte length"
  else if (unpack data).head? ≠ some spirvMagic then .error "invalid SPIR-V magic"
  else parseLoop (unpack data) 5 []

/-! ## Instructions that know their length -/

/-- Words that are one instruction: the first of them says how many there are. -/
def IsInstruction (item : List Word) : Prop :=
  ∃ header, item.head? = some header ∧ wordCount header = item.length

/-- Words that are cut into instructions. -/
structure Splits (words : List Word) (parsed : List (List Word)) : Prop where
  /-- Together they are the words. -/
  flatten : parsed.flatten = words
  /-- Each of them is an instruction. -/
  each : ∀ item ∈ parsed, IsInstruction item

theorem splits_cons {item words : List Word} {parsed : List (List Word)}
    (hitem : IsInstruction item) (h : Splits words parsed) :
    Splits (item ++ words) (item :: parsed) :=
  ⟨by rw [List.flatten_cons, h.flatten], List.forall_mem_cons.mpr ⟨hitem, h.each⟩⟩

theorem isInstruction_cons {header : Word} {rest : List Word} :
    IsInstruction (header :: rest) ↔ wordCount header = rest.length + 1 :=
  ⟨fun ⟨_, hhead, hcount⟩ => Option.some.inj hhead ▸ hcount, fun hcount => ⟨header, rfl, hcount⟩⟩

instance : DecidablePred IsInstruction
  | [] => .isFalse fun ⟨_, hhead, _⟩ => nomatch hhead
  | _ :: _ => decidable_of_iff _ isInstruction_cons.symm

theorem isInstruction_length_pos {item : List Word} (h : IsInstruction item) : 0 < item.length := by
  obtain ⟨header, hhead, -⟩ := h
  refine List.length_pos_iff.mpr ?_
  rintro rfl
  cases hhead

theorem splits_nil_iff {parsed : List (List Word)} : Splits [] parsed ↔ parsed = [] := by
  constructor
  · rintro ⟨hflatten, heach⟩
    refine List.eq_nil_iff_forall_not_mem.mpr fun item hitem => ?_
    have hpos := isInstruction_length_pos (heach item hitem)
    rw [List.flatten_eq_nil_iff.mp hflatten item hitem] at hpos
    cases hpos
  · rintro rfl
    exact ⟨rfl, by simp⟩

/-- What is cut of some words begins with the instruction that the first of them announces. -/
theorem splits_cons_iff {header : Word} {rest : List Word} {parsed : List (List Word)} :
    Splits (header :: rest) parsed ↔
      0 < wordCount header ∧ wordCount header ≤ (header :: rest).length ∧
        ∃ others, parsed = (header :: rest).take (wordCount header) :: others ∧
          Splits ((header :: rest).drop (wordCount header)) others := by
  constructor
  · rintro ⟨hflatten, heach⟩
    rcases parsed with _ | ⟨item, others⟩
    · cases hflatten
    · obtain ⟨hitem, hothers⟩ := List.forall_mem_cons.mp heach
      have hpos := isInstruction_length_pos hitem
      obtain ⟨first, hfirst, hcount⟩ := hitem
      rw [List.flatten_cons] at hflatten
      obtain rfl : first = header := by
        have hhead := congrArg List.head? hflatten
        rw [List.head?_append, hfirst] at hhead
        exact Option.some.inj hhead
      rw [hcount, ← hflatten, List.take_left, List.drop_left, List.length_append]
      exact ⟨hpos, Nat.le_add_right _ _, others, rfl, rfl, hothers⟩
  · rintro ⟨hpos, hle, others, rfl, h⟩
    have hitem : IsInstruction ((header :: rest).take (wordCount header)) := by
      refine ⟨header, ?_, by rw [List.length_take, Nat.min_eq_left hle]⟩
      obtain ⟨count, hcount⟩ := Nat.exists_eq_add_one_of_ne_zero (Nat.pos_iff_ne_zero.mp hpos)
      rw [hcount, List.take_succ_cons, List.head?_cons]
    have hsplits := splits_cons hitem h
    rwa [List.take_append_drop] at hsplits

/-! ## The loop -/

/-- **The loop finds the instructions if there are any to be found.** -/
theorem parseLoop_eq_ok_iff {words : List Word} {offset : ℕ} {before result : List (List Word)} :
    parseLoop words offset before = .ok result ↔
      ∃ parsed, Splits (words.drop offset) parsed ∧ result = before ++ parsed := by
  fun_induction parseLoop words offset before with
  | case1 offset before h count hcount =>
    refine iff_of_false nofun ?_
    rintro ⟨parsed, hsplits, -⟩
    rw [List.drop_eq_getElem_cons h, splits_cons_iff, ← List.drop_eq_getElem_cons h,
      List.length_drop] at hsplits
    obtain ⟨hpos, hle, -⟩ := hsplits
    omega
  | case2 offset before h count hcount ih =>
    rw [ih]
    constructor
    · rintro ⟨parsed, hsplits, rfl⟩
      refine ⟨(words.drop offset).take count :: parsed, ?_, by
        rw [List.append_assoc, List.singleton_append]⟩
      rw [List.drop_eq_getElem_cons h, splits_cons_iff, ← List.drop_eq_getElem_cons h,
        List.length_drop, List.drop_drop]
      exact ⟨by omega, by omega, parsed, rfl, hsplits⟩
    · rintro ⟨parsed, hsplits, rfl⟩
      rw [List.drop_eq_getElem_cons h, splits_cons_iff, ← List.drop_eq_getElem_cons h,
        List.drop_drop] at hsplits
      obtain ⟨-, -, others, rfl, hothers⟩ := hsplits
      exact ⟨others, hothers, by rw [List.append_assoc, List.singleton_append]⟩
  | case3 offset before h =>
    rw [List.drop_eq_nil_of_le (Nat.le_of_not_lt h)]
    constructor
    · intro hok
      exact ⟨[], splits_nil_iff.mpr rfl, by rw [List.append_nil, Except.ok.inj hok]⟩
    · rintro ⟨parsed, hsplits, rfl⟩
      rw [splits_nil_iff.mp hsplits, List.append_nil]

/-- **A turn of the loop raises or gets on.** -/
theorem parseLoop_turn {words : List Word} {offset : ℕ} (h : offset < words.length)
    (parsed : List (List Word)) :
    (∃ message, parseLoop words offset parsed = .error message) ∨
      ∃ next parsed', offset < next ∧ next ≤ words.length ∧
        parseLoop words offset parsed = parseLoop words next parsed' := by
  rw [parseLoop, dif_pos h]
  dsimp only
  split
  · exact .inl ⟨_, rfl⟩
  · exact .inr ⟨_, _, by omega, by omega, rfl⟩

/-! ## The parser -/

theorem instructions_eq_ok_iff {data : List UInt8} {parsed : List (List Word)} :
    instructions data = .ok parsed ↔
      data.length % 4 = 0 ∧ 20 ≤ data.length ∧ (unpack data).head? = some spirvMagic ∧
        Splits ((unpack data).drop 5) parsed := by
  rw [instructions]
  split
  · exact iff_of_false nofun (by omega)
  · split
    · rename_i hmagic
      exact iff_of_false nofun fun h => hmagic h.2.2.1
    · rename_i hlength hmagic
      rw [parseLoop_eq_ok_iff]
      constructor
      · rintro ⟨parsed, hsplits, rfl⟩
        exact ⟨by omega, by omega, not_not.mp hmagic, hsplits⟩
      · rintro ⟨-, -, -, hsplits⟩
        exact ⟨parsed, hsplits, rfl⟩

/-- **The parser accepts** what is whole words, at least the five in front with the magic number
first, and instructions behind them; it returns the instructions, and its loop always ends. -/
theorem instructions_law (data : List UInt8) :
    ((∃ parsed, instructions data = .ok parsed) ↔
      data.length % 4 = 0 ∧ 20 ≤ data.length ∧ (unpack data).head? = some spirvMagic ∧
        ∃ parsed, Splits ((unpack data).drop 5) parsed) ∧
    (∀ parsed, instructions data = .ok parsed →
      parsed.flatten = (unpack data).drop 5 ∧
        ∀ item ∈ parsed, ∃ header, item.head? = some header ∧
          item.length = (header >>> 16).toNat ∧ item.length ≠ 0) ∧
    ∀ (words : List Word) (offset : ℕ) (parsed : List (List Word)), offset < words.length →
      (∃ message, parseLoop words offset parsed = .error message) ∨
        ∃ next parsed', offset < next ∧ next ≤ words.length ∧
          parseLoop words offset parsed = parseLoop words next parsed' := by
  refine ⟨?_, fun parsed h => ?_, fun words offset parsed h => parseLoop_turn h parsed⟩
  · simp only [instructions_eq_ok_iff, exists_and_left]
  · obtain ⟨-, -, -, hflatten, heach⟩ := instructions_eq_ok_iff.mp h
    refine ⟨hflatten, fun item hitem => ?_⟩
    have hpos := isInstruction_length_pos (heach item hitem)
    obtain ⟨header, hhead, hcount⟩ := heach item hitem
    exact ⟨header, hhead, hcount.symm, Nat.pos_iff_ne_zero.mp hpos⟩

/-- `struct.pack`, of words in little-endian order. -/
def pack (words : List Word) : List UInt8 :=
  words.flatMap fun word => Encoding.leBytes 4 word.toNat

theorem unpack_pack (words : List Word) : unpack (pack words) = words := by
  induction words with
  | nil => rfl
  | cons word rest ih =>
    rw [pack, List.flatMap_cons, ← pack]
    simp only [Encoding.leBytes_succ, List.cons_append]
    rw [unpack]
    refine List.cons_eq_cons.mpr ⟨UInt32.toNat_inj.mp ?_, ih⟩
    have hlt := word.toNat_lt
    simp only [UInt8.toNat_ofNat', UInt32.toNat_ofNat']
    omega

theorem pack_length (words : List Word) : (pack words).length = 4 * words.length := by
  induction words with
  | nil => rfl
  | cons word rest ih =>
    rw [pack, List.flatMap_cons, ← pack, List.length_append, Encoding.leBytes_length, ih,
      List.length_cons]
    omega

/-- A module with these instructions, and four words between the magic number and them. -/
def moduleOf (a b c d : Word) (items : List (List Word)) : List UInt8 :=
  pack (spirvMagic :: a :: b :: c :: d :: items.flatten)

/-- **The parser reads back what was written.** -/
theorem instructions_moduleOf (a b c d : Word) {items : List (List Word)}
    (h : ∀ item ∈ items, IsInstruction item) : instructions (moduleOf a b c d items) = .ok items := by
  rw [instructions_eq_ok_iff, moduleOf, pack_length, unpack_pack]
  simp only [List.length_cons]
  exact ⟨by omega, by omega, rfl, rfl, h⟩

/-- The instructions of a small module: a capability of one operand, a memory model of two, a
floating-point type of sixteen bits, and an instruction that does nothing. -/
def halfFloatInstructions : List (List Word) :=
  [[0x00020011, 9], [0x0003000E, 0, 1], [0x00030016, 1, 16], [0x00010000]]

/-- The module they are in. -/
def halfFloatModule : List UInt8 :=
  pack ([spirvMagic, 0x00010500, 0, 8, 0] ++ halfFloatInstructions.flatten)

theorem instructions_law_halfFloat :
    ∃ parsed, instructions halfFloatModule = .ok parsed ∧
      parsed.flatten = halfFloatInstructions.flatten ∧
      ∀ item ∈ parsed, ∃ header, item.head? = some header ∧
        item.length = (header >>> 16).toNat ∧ item.length ≠ 0 := by
  have hsplits : Splits ((unpack halfFloatModule).drop 5) halfFloatInstructions :=
    ⟨by decide, by decide⟩
  obtain ⟨parsed, hparsed⟩ :=
    (instructions_law halfFloatModule).1.mpr ⟨by decide, by decide, by decide, _, hsplits⟩
  obtain ⟨hflatten, heach⟩ := (instructions_law halfFloatModule).2.1 parsed hparsed
  exact ⟨parsed, hparsed, hflatten.trans (by decide), heach⟩

end Shader

end SemanticSidecar
