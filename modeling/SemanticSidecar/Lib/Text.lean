import Mathlib.Data.List.DropRight
import Mathlib.Data.Char
import Mathlib.Data.Nat.Find

/-!
# UTF-8 text, Unicode white space, and trimming

Programs that read a byte stream line by line move between two views of the same data: the bytes
as they came in and the text they decode to.  This file holds what such programs need and nothing
about any one of them.

* `Text.toUtf8` and `Text.fromUtf8` go between a `String` and its bytes.  Lean's own codec does the
  work; the two are restated over `List UInt8`, the type the byte streams here are made of.
* `Text.newline_mem_toUtf8` says that the newline *byte* occurs in the encoding of a text only
  where the newline *character* occurs in it, which is what makes a byte a safe line terminator.
* `Text.isWhitespace` is the Unicode `White_Space` property, and `Text.trim` removes the
  characters that have it from both ends.
-/

set_option autoImplicit false

namespace Text

/-! ## UTF-8 -/

/-- The bytes of a text. -/
def toUtf8 (s : String) : List UInt8 := s.toByteArray.data.toList

/-- The text that a byte string encodes, or `none` when it is not valid UTF-8. -/
def fromUtf8 (bytes : List UInt8) : Option String := String.fromUTF8? ⟨bytes.toArray⟩

theorem fromUtf8_toUtf8 (s : String) : fromUtf8 (toUtf8 s) = some s := by
  have hb : (⟨(toUtf8 s).toArray⟩ : ByteArray) = s.toByteArray := by
    simp [toUtf8]
  rw [fromUtf8, hb, String.fromUTF8?, dif_pos s.isValidUTF8]
  rfl

theorem toUtf8_length (s : String) : (toUtf8 s).length = s.utf8ByteSize := by
  rw [toUtf8, Array.length_toList]
  rfl

theorem toUtf8_inj {s s' : String} (h : toUtf8 s = toUtf8 s') : s = s' :=
  Option.some.inj ((fromUtf8_toUtf8 s).symm.trans (h ▸ fromUtf8_toUtf8 s'))

theorem toUtf8_of_fromUtf8 {bytes : List UInt8} {s : String} (h : fromUtf8 bytes = some s) :
    toUtf8 s = bytes := by
  rw [fromUtf8, String.fromUTF8?] at h
  split at h
  · simp only [Option.some.injEq] at h
    subst h
    simp [toUtf8, String.fromUTF8]
  · simp at h

theorem toUtf8_ofList (l : List Char) :
    toUtf8 (String.ofList l) = l.flatMap String.utf8EncodeChar := by
  rw [toUtf8, String.toByteArray_ofList, List.utf8Encode]
  simp

theorem toUtf8_append (s t : String) : toUtf8 (s ++ t) = toUtf8 s ++ toUtf8 t := by
  simp [toUtf8, String.toByteArray_append]

/-- Whether a byte continues a multi-byte character. -/
def isContinuation (b : UInt8) : Bool := 0x80 ≤ b.toNat && b.toNat < 0xC0

/-- How many bytes of `rest` form an invalid sequence, or `none` when `rest` breaks off inside a
character; `rest` does not begin with a whole character. -/
def invalidLength : List UInt8 → Option ℕ
  | [] => none
  | first :: rest =>
    let lead := first.toNat
    let width := if lead < 0xC2 then 1 else if lead < 0xE0 then 2 else if lead < 0xF0 then 3
      else if lead < 0xF5 then 4 else 1
    let secondFits (b : UInt8) : Bool :=
      isContinuation b && (lead != 0xE0 || 0xA0 ≤ b.toNat) && (lead != 0xED || b.toNat < 0xA0) &&
        (lead != 0xF0 || 0x90 ≤ b.toNat) && (lead != 0xF4 || b.toNat < 0x90)
    let followers := (rest.take 1).takeWhile secondFits ++
      (if (rest.take 1).all secondFits then (rest.drop 1).takeWhile isContinuation else [])
    if width = 1 then some 1
    else if followers.length = rest.length ∧ rest.length + 1 < width then none
    else some (followers.length + 1)

/-- The text of the error of a byte string that is not valid UTF-8. -/
def utf8Error (bytes : List UInt8) : String :=
  let validUpTo := Nat.findGreatest (fun n => (fromUtf8 (bytes.take n)).isSome) bytes.length
  match invalidLength (bytes.drop validUpTo) with
  | some n => "invalid utf-8 sequence of " ++ toString n ++ " bytes from index " ++
      toString validUpTo
  | none => "incomplete utf-8 byte sequence from index " ++ toString validUpTo

/-- The byte that ends a line. -/
def newline : UInt8 := 10

/-- Every byte of a multi-byte encoding has its high bit set, so only the newline character
encodes to the newline byte. -/
theorem newline_mem_utf8EncodeChar {c : Char} (h : newline ∈ String.utf8EncodeChar c) :
    c = '\n' := by
  have hbyte : ∀ n : ℕ, newline = UInt8.ofNat n → n % 256 = 10 := by
    intro n hn
    have := congrArg UInt8.toNat hn
    simpa [newline] using this.symm
  rw [String.utf8EncodeChar] at h
  split at h
  · rename_i hc
    have h10 := hbyte _ (List.mem_singleton.mp h)
    have hval : c.val.toNat = 10 := by omega
    exact Char.ext (UInt32.toNat_inj.mp (by rw [hval]; rfl))
  -- In the three multi-byte forms the bytes are `_ + 0xc0`, `_ + 0xe0`, `_ + 0xf0` or `_ + 0x80`.
  · exfalso
    split at h
    · simp only [List.mem_cons, List.not_mem_nil, or_false] at h
      rcases h with h | h <;> exact absurd (hbyte _ h) (by omega)
    · split at h
      · simp only [List.mem_cons, List.not_mem_nil, or_false] at h
        rcases h with h | h | h <;> exact absurd (hbyte _ h) (by omega)
      · simp only [List.mem_cons, List.not_mem_nil, or_false] at h
        rcases h with h | h | h | h <;> exact absurd (hbyte _ h) (by omega)

/-- **A text without a newline character has no newline byte.** -/
theorem newline_mem_toUtf8 {s : String} (h : newline ∈ toUtf8 s) : '\n' ∈ s.toList := by
  obtain ⟨l, rfl⟩ := s.exists_eq_ofList
  rw [toUtf8_ofList, List.mem_flatMap] at h
  obtain ⟨c, hc, hmem⟩ := h
  rw [String.toList_ofList]
  exact newline_mem_utf8EncodeChar hmem ▸ hc

/-- A character does not end in the lead byte of a longer one. -/
theorem getLast_utf8EncodeChar (c : Char) :
    ∃ front b, String.utf8EncodeChar c = front ++ [b] ∧ b.toNat < 0xC0 := by
  rw [String.utf8EncodeChar]
  split
  · exact ⟨[], _, rfl, by simp only [UInt8.toNat_ofNat']; omega⟩
  · split
    · exact ⟨[_], _, rfl, by simp; omega⟩
    · split
      · exact ⟨[_, _], _, rfl, by simp; omega⟩
      · exact ⟨[_, _, _], _, rfl, by simp; omega⟩

/-- **A byte string that breaks off after a lead byte is not valid UTF-8.** -/
theorem fromUtf8_append_lead {b : UInt8} (h : 0xC0 ≤ b.toNat) (bytes : List UInt8) :
    fromUtf8 (bytes ++ [b]) = none := by
  refine Option.eq_none_iff_forall_ne_some.mpr fun s hs => ?_
  have hbytes := toUtf8_of_fromUtf8 hs
  obtain ⟨l, rfl⟩ := s.exists_eq_ofList
  rw [toUtf8_ofList] at hbytes
  rcases List.eq_nil_or_concat l with rfl | ⟨l', c, rfl⟩
  · simp at hbytes
  · obtain ⟨front, last, hchar, hlast⟩ := getLast_utf8EncodeChar c
    rw [List.concat_eq_append, List.flatMap_append, List.flatMap_singleton, hchar,
      ← List.append_assoc] at hbytes
    obtain ⟨-, heq⟩ := List.append_inj' hbytes rfl
    rw [List.singleton_inj] at heq
    subst heq
    omega

/-! ## White space -/

/-- The Unicode `White_Space` property. -/
def isWhitespace (c : Char) : Bool :=
  let n := c.toNat
  (9 ≤ n && n ≤ 13) || n == 32 || n == 0x85 || n == 0xA0 || n == 0x1680 ||
    (0x2000 ≤ n && n ≤ 0x200A) || n == 0x2028 || n == 0x2029 || n == 0x202F || n == 0x205F ||
    n == 0x3000

/-- `l` without the characters satisfying `p` at its two ends. -/
def trimBy (p : Char → Bool) (l : List Char) : List Char := (l.dropWhile p).rdropWhile p

/-- A text without the white space at its two ends. -/
def trim (s : String) : String := String.ofList (trimBy isWhitespace s.toList)

@[simp] theorem toList_trim (s : String) : (trim s).toList = trimBy isWhitespace s.toList := by
  rw [trim, String.toList_ofList]

theorem trimBy_eq_nil {p : Char → Bool} {l : List Char} :
    trimBy p l = [] ↔ ∀ c ∈ l, p c = true := by
  rw [trimBy, List.rdropWhile_eq_nil_iff]
  constructor
  · intro h
    have hnil : l.dropWhile p = [] := by
      rcases hd : l.dropWhile p with _ | ⟨c, rest⟩
      · rfl
      · have hhead := List.head_dropWhile_not (p := p) (l := l) (by simp [hd])
        simp only [hd, List.head_cons] at hhead
        have := h c (by simp [hd])
        simp [hhead] at this
    exact List.dropWhile_eq_nil_iff.mp hnil
  · intro h c hc
    exact h c ((List.dropWhile_suffix p).subset hc)

theorem trimBy_append_left {p : Char → Bool} {a : List Char} (h : ∀ c ∈ a, p c = true)
    (l : List Char) : trimBy p (a ++ l) = trimBy p l := by
  rw [trimBy, trimBy, List.dropWhile_append_of_pos h]

theorem trimBy_append_right {p : Char → Bool} {b : List Char} (h : ∀ c ∈ b, p c = true)
    (l : List Char) : trimBy p (l ++ b) = trimBy p l := by
  have hend : ∀ m : List Char, (m ++ b).rdropWhile p = m.rdropWhile p := by
    intro m
    simp only [List.rdropWhile, List.reverse_append]
    rw [List.dropWhile_append_of_pos (by simpa using h)]
  rw [trimBy, trimBy, List.dropWhile_append]
  split
  · rename_i hnil
    rw [List.isEmpty_iff] at hnil
    rw [hnil, List.dropWhile_eq_nil_iff.mpr h]
  · exact hend _

theorem trimBy_decomp (p : Char → Bool) (l : List Char) :
    ∃ a b, l = a ++ trimBy p l ++ b ∧ (∀ c ∈ a, p c = true) ∧ ∀ c ∈ b, p c = true := by
  obtain ⟨b, hb⟩ := List.rdropWhile_prefix p (l.dropWhile p)
  refine ⟨l.takeWhile p, (l.dropWhile p).rtakeWhile p, ?_, ?_, ?_⟩
  · rw [trimBy, List.append_assoc, List.rdropWhile_append_rtakeWhile,
      List.takeWhile_append_dropWhile]
  · exact fun c hc => List.mem_takeWhile_imp hc
  · exact fun c hc => List.mem_rtakeWhile_imp hc

/-- Trimming less beforehand makes no difference to trimming more. -/
theorem trimBy_trimBy {p q : Char → Bool} (h : ∀ c, q c = true → p c = true) (l : List Char) :
    trimBy p (trimBy q l) = trimBy p l := by
  obtain ⟨a, b, hl, ha, hb⟩ := trimBy_decomp q l
  conv_rhs => rw [hl]
  rw [trimBy_append_right fun c hc => h c (hb c hc), trimBy_append_left fun c hc => h c (ha c hc)]

theorem trimBy_of_ends {p : Char → Bool} {a b : Char} {l : List Char} (ha : p a = false)
    (hb : p b = false) : trimBy p (a :: l ++ [b]) = a :: l ++ [b] := by
  have hleft : (a :: l ++ [b]).dropWhile p = a :: l ++ [b] :=
    List.dropWhile_cons_of_neg (by simp [ha])
  rw [trimBy, hleft, List.rdropWhile_concat_neg _ _ _ (by simp [hb])]

/-- A trimmed text is empty exactly when the text is white space throughout. -/
theorem trim_isEmpty {s : String} :
    (trim s).isEmpty = true ↔ ∀ c ∈ s.toList, isWhitespace c = true := by
  rw [String.isEmpty_iff, ← String.toList_inj, toList_trim, String.toList_empty, trimBy_eq_nil]

end Text
