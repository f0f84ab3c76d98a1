import SemanticSidecar.Lib.Json
import Mathlib.Algebra.Group.Nat.Defs
import Mathlib.Data.Bool.AllAny
import Mathlib.Data.List.Chain
import Mathlib.Data.List.TakeWhile

/-!
# The tokens of a JSON text, as Python has them

Python's `json` takes more than the standard has (`NaN` and the infinities), reads a pair of escaped
surrogates as one character, keeps those that have no partner, and writes everything outside of
ASCII as an escape.  A text is therefore a list of code points, which may be surrogates.

The lexer goes over a text character by character, with a `Mode` for what is open; what is between
two delimiters is one word, and it is a number or a constant or nothing.  How floats are read and
written is left to `Floats`, all that is known of which is that they are read back.

`lex_text` says that tokens are read back, as far as no two words come next to each other.
-/

set_option autoImplicit false

namespace PyJson

/-! ## Strings -/

/-- Code points; surrogates are among them. -/
abbrev Str := List ℕ

/-- The code points of a text that has no surrogates. -/
def ofString (s : String) : Str := s.toList.map Char.toNat

/-- The first half of a surrogate pair. -/
def IsHigh (n : ℕ) : Prop := 0xD800 ≤ n ∧ n < 0xDC00

/-- The second half of a surrogate pair. -/
def IsLow (n : ℕ) : Prop := 0xDC00 ≤ n ∧ n < 0xE000

instance (n : ℕ) : Decidable (IsHigh n) := inferInstanceAs (Decidable (_ ∧ _))

instance (n : ℕ) : Decidable (IsLow n) := inferInstanceAs (Decidable (_ ∧ _))

/-- Surrogates that come in pairs are one character. -/
def join : List ℕ → Str
  | high :: low :: rest =>
    if IsHigh high ∧ IsLow low then
      (0x10000 + 1024 * (high - 0xD800) + (low - 0xDC00)) :: join rest
    else high :: join (low :: rest)
  | units => units

/-- The escapes that a character takes, if it is to be escaped by number. -/
def units (c : ℕ) : List ℕ :=
  if c < 0x10000 then [c] else [0xD800 + (c - 0x10000) / 1024, 0xDC00 + (c - 0x10000) % 1024]

/-- A string without surrogates that should be one character. -/
structure Joined (s : Str) : Prop where
  /-- They are code points. -/
  bounded : ∀ c ∈ s, c < 0x110000
  /-- No two of them are a surrogate pair. -/
  apart : s.IsChain fun a b => ¬ (IsHigh a ∧ IsLow b)

/-! ## Numbers -/

/-- A `float` of Python's. -/
inductive PyFloat (F : Type) where
  /-- A finite number. -/
  | finite (f : F)
  /-- `Infinity`. -/
  | infinity
  /-- `-Infinity`. -/
  | minusInfinity
  /-- `NaN`. -/
  | nan

/-- A value that is one word. -/
inductive Atom (F : Type) where
  /-- `None`. -/
  | null
  /-- `True` or `False`. -/
  | bool (b : Bool)
  /-- An `int`. -/
  | int (n : ℤ)
  /-- A `float`. -/
  | float (f : PyFloat F)

/-- An exponent, or nothing. -/
def isExponent : List Char → Bool
  | [] => true
  | c :: rest =>
    let digits := if rest.head? = some '+' ∨ rest.head? = some '-' then rest.tail else rest
    (c = 'e' ∨ c = 'E') ∧ digits ≠ [] ∧ digits.all Char.isDigit

/-- What may follow the digits of a number. -/
def isTail : List Char → Bool
  | '.' :: rest => rest.takeWhile Char.isDigit ≠ [] ∧ isExponent (rest.dropWhile Char.isDigit)
  | rest => isExponent rest

/-- A number, with `float` for those that are not integers. -/
def number {F : Type} (float : List Char → PyFloat F) (word : List Char) : Option (Atom F) :=
  let negative : Bool := word.head? = some '-'
  let unsigned := if negative then word.tail else word
  let whole := unsigned.takeWhile Char.isDigit
  let rest := unsigned.dropWhile Char.isDigit
  if whole = [] ∨ (whole.head? = some '0' ∧ whole.length ≠ 1) then none
  else if rest = [] then
    let n : ℤ := Nat.ofDigitChars 10 whole 0
    some (.int (if negative then -n else n))
  else if isTail rest then some (.float (float word))
  else none

/-- `int.__repr__`. -/
def intText (n : ℤ) : List Char :=
  if n < 0 then '-' :: Nat.toDigits 10 n.natAbs else Nat.toDigits 10 n.natAbs

/-- `float` of a number, and `float.__repr__`, which is a number that is read back. -/
structure Floats (F : Type) where
  /-- `float` of a text. -/
  float : List Char → PyFloat F
  /-- `float.__repr__` of a finite number. -/
  repr : F → List Char
  /-- A number that was written is read back. -/
  number_repr : ∀ f, number float (repr f) = some (.float (.finite f))
  /-- A number is written with the characters of numbers. -/
  repr_chars : ∀ f, ∀ c ∈ repr f, c.isDigit = true ∨ c ∈ ['-', '+', '.', 'e']

/-! ## Tokens -/

/-- The tokens of a JSON text. -/
inductive Token (F : Type) where
  /-- An opening bracket. -/
  | openList
  /-- A closing bracket. -/
  | closeList
  /-- An opening brace. -/
  | openDict
  /-- A closing brace. -/
  | closeDict
  /-- A colon. -/
  | colon
  /-- A comma. -/
  | comma
  /-- A string. -/
  | str (s : Str)
  /-- A number or a constant. -/
  | atom (a : Atom F)

section

variable {F : Type} (floats : Floats F)

/-- The words that are not numbers. -/
def constants : List (List Char × Atom F) :=
  [(['n', 'u', 'l', 'l'], .null), (['t', 'r', 'u', 'e'], .bool true),
    (['f', 'a', 'l', 's', 'e'], .bool false), (['N', 'a', 'N'], .float .nan),
    (['I', 'n', 'f', 'i', 'n', 'i', 't', 'y'], .float .infinity),
    (['-', 'I', 'n', 'f', 'i', 'n', 'i', 't', 'y'], .float .minusInfinity)]

/-- The value that a word is. -/
def atomOf (word : List Char) : Option (Atom F) :=
  (constants.lookup word).or (number floats.float word)

/-- The characters that are tokens of their own. -/
def punctuation : List (Char × Token F) :=
  [('[', .openList), (']', .closeList), ('{', .openDict), ('}', .closeDict), (':', .colon),
    (',', .comma)]

/-- White space between tokens. -/
def isSpace (c : Char) : Bool := c = ' ' || c = '\t' || c = '\n' || c = '\r'

/-- The characters that end a word. -/
def isDelimiter (c : Char) : Bool :=
  isSpace c || c = '"' || ['[', ']', '{', '}', ':', ','].contains c

/-- The value of a hexadecimal digit. -/
def hexValue (c : Char) : Option ℕ :=
  if '0' ≤ c ∧ c ≤ '9' then some (c.toNat - 48)
  else if 'a' ≤ c ∧ c ≤ 'f' then some (c.toNat - 87)
  else if 'A' ≤ c ∧ c ≤ 'F' then some (c.toNat - 55)
  else none

/-- What follows a backslash, and the character that it is. -/
def escapes : List (Char × ℕ) :=
  [('"', 34), ('\\', 92), ('/', 47), ('b', 8), ('f', 12), ('n', 10), ('r', 13), ('t', 9)]

/-- What is open. -/
inductive Mode where
  /-- Nothing is open. -/
  | between
  /-- A word is open. -/
  | word (chars : List Char)
  /-- A string is open. -/
  | string (units : List ℕ)
  /-- A backslash stands in a string. -/
  | escape (units : List ℕ)
  /-- So many digits are still to come after the next one. -/
  | hex (units : List ℕ) (left code : ℕ)

/-- A character where nothing is open. -/
def enter (c : Char) : List (Token F) × Mode :=
  if isSpace c then ([], .between)
  else
    match punctuation.lookup c with
    | some token => ([token], .between)
    | none => if c = '"' then ([], .string []) else ([], .word [c])

/-- A character, and the tokens that end with it. -/
def advance : Mode → Char → Option (List (Token F) × Mode)
  | .between, c => some (enter c)
  | .word chars, c =>
    if isDelimiter c then
      let entered : List (Token F) × Mode := enter c
      (atomOf floats chars).map fun a => (.atom a :: entered.1, entered.2)
    else some ([], .word (chars ++ [c]))
  | .string units, c =>
    if c = '"' then some ([.str (join units)], .between)
    else if c = '\\' then some ([], .escape units)
    else if c.toNat < 32 then none
    else some ([], .string (units ++ [c.toNat]))
  | .escape units, c =>
    if c = 'u' then some ([], .hex units 3 0)
    else (escapes.lookup c).map fun code => ([], .string (units ++ [code]))
  | .hex units 0 code, c =>
    (hexValue c).map fun digit => ([], .string (units ++ [16 * code + digit]))
  | .hex units (left + 1) code, c =>
    (hexValue c).map fun digit => ([], .hex units left (16 * code + digit))

/-- The end of the text. -/
def finish : Mode → Option (List (Token F))
  | .between => some []
  | .word chars => (atomOf floats chars).map fun a => [.atom a]
  | _ => none

/-- The tokens of what is left of a text, if it has any sense. -/
def lex : Mode → List Char → Option (List (Token F))
  | mode, [] => finish floats mode
  | mode, c :: rest => do
    let (tokens, next) ← advance floats mode c
    (lex next rest).map (tokens ++ ·)

/-! ## The text of tokens -/

/-- Four hexadecimal digits. -/
def hex4 (n : ℕ) : List Char :=
  [Json.hexDigit (n / 4096), Json.hexDigit (n / 256 % 16), Json.hexDigit (n / 16 % 16),
    Json.hexDigit (n % 16)]

/-- The characters that have a letter to be escaped with. -/
def shortEscapes : List (ℕ × Char) :=
  [(34, '"'), (92, '\\'), (10, 'n'), (13, 'r'), (9, 't'), (12, 'f'), (8, 'b')]

/-- A character of a string; all that is not printable ASCII is escaped. -/
def escaped (c : ℕ) : List Char :=
  match shortEscapes.lookup c with
  | some letter => ['\\', letter]
  | none =>
    if 32 ≤ c ∧ c ≤ 126 then [Char.ofNat c]
    else (units c).flatMap fun unit => '\\' :: 'u' :: hex4 unit

/-- A number or a constant as it is written. -/
def atomText : Atom F → List Char
  | .null => ['n', 'u', 'l', 'l']
  | .bool true => ['t', 'r', 'u', 'e']
  | .bool false => ['f', 'a', 'l', 's', 'e']
  | .int n => intText n
  | .float (.finite f) => floats.repr f
  | .float .infinity => ['I', 'n', 'f', 'i', 'n', 'i', 't', 'y']
  | .float .minusInfinity => ['-', 'I', 'n', 'f', 'i', 'n', 'i', 't', 'y']
  | .float .nan => ['N', 'a', 'N']

/-- A token as it is written. -/
def Token.text : Token F → List Char
  | .openList => ['[']
  | .closeList => [']']
  | .openDict => ['{']
  | .closeDict => ['}']
  | .colon => [':']
  | .comma => [',']
  | .str s => '"' :: (s.flatMap escaped ++ ['"'])
  | .atom a => atomText floats a

/-! ## Strings are read back -/

theorem join_pair {high low : ℕ} (rest : List ℕ) (h : IsHigh high ∧ IsLow low) :
    join (high :: low :: rest) =
      (0x10000 + 1024 * (high - 0xD800) + (low - 0xDC00)) :: join rest := by
  rw [join, if_pos h]

theorem join_cons {u : ℕ} {rest : List ℕ} (h : ∀ v ∈ rest.head?, ¬ (IsHigh u ∧ IsLow v)) :
    join (u :: rest) = u :: join rest := by
  cases rest with
  | nil => rfl
  | cons v rest => rw [join, if_neg (h v rfl)]

/-- What is escaped as a low surrogate is one. -/
theorem head_units {s : Str} {v : ℕ} (hbounded : ∀ c ∈ s, c < 0x110000)
    (hv : v ∈ (s.flatMap units).head?) (hlow : IsLow v) : v ∈ s.head? := by
  cases s with
  | nil => cases hv
  | cons c s =>
    have hc := hbounded c List.mem_cons_self
    rw [List.flatMap_cons, units] at hv
    split at hv
    · exact hv
    · obtain rfl := Option.some.inj hv
      unfold IsLow at hlow
      omega

theorem join_units {s : Str} (h : Joined s) : join (s.flatMap units) = s := by
  induction s with
  | nil => rfl
  | cons c s ih =>
    obtain ⟨hc, hbounded⟩ := List.forall_mem_cons.mp h.bounded
    obtain ⟨hnext, hapart⟩ := List.isChain_cons.mp h.apart
    rw [List.flatMap_cons, units]
    split
    · rw [List.singleton_append, join_cons, ih ⟨hbounded, hapart⟩]
      intro v hv hpair
      exact hnext v (head_units hbounded hv hpair.2) hpair
    · rw [List.cons_append, List.singleton_append, join_pair, ih ⟨hbounded, hapart⟩]
      · exact List.cons_eq_cons.mpr ⟨by omega, rfl⟩
      · unfold IsHigh IsLow
        omega

theorem head_join {u v : ℕ} {rest : List ℕ} (hv : v ∈ (join (u :: rest)).head?) :
    v = u ∨ 0x10000 ≤ v := by
  cases rest with
  | nil => exact .inl (Option.some.inj hv).symm
  | cons w rest =>
    rw [join] at hv
    split at hv
    · obtain rfl := Option.some.inj hv
      omega
    · exact .inl (Option.some.inj hv).symm

theorem joined_join {units : List ℕ} (h : ∀ u ∈ units, u < 0x110000) : Joined (join units) := by
  fun_induction join units with
  | case1 high low rest hpair ih =>
    obtain ⟨hbounded, hapart⟩ := ih fun u hu => h u (by simp [hu])
    unfold IsHigh IsLow at hpair
    refine ⟨List.forall_mem_cons.mpr ⟨by omega, hbounded⟩, List.isChain_cons.mpr ⟨?_, hapart⟩⟩
    rintro v - ⟨hhigh, -⟩
    unfold IsHigh at hhigh
    omega
  | case2 high low rest hpair ih =>
    obtain ⟨hbounded, hapart⟩ := ih fun u hu => h u (List.mem_cons_of_mem _ hu)
    refine ⟨List.forall_mem_cons.mpr ⟨h high List.mem_cons_self, hbounded⟩,
      List.isChain_cons.mpr ⟨?_, hapart⟩⟩
    rintro v hv ⟨hhigh, hlow⟩
    rcases head_join hv with rfl | hv
    · exact hpair ⟨hhigh, hlow⟩
    · unfold IsLow at hlow
      omega
  | case3 units hshort =>
    refine ⟨h, ?_⟩
    rcases units with _ | ⟨u, _ | ⟨v, rest⟩⟩
    · exact .nil
    · exact .singleton u
    · exact absurd rfl (hshort u v rest)

theorem char_valid (c : Char) : c.toNat < 0xD800 ∨ 0xDFFF < c.toNat ∧ c.toNat < 0x110000 := c.valid

theorem char_lt (c : Char) : c.toNat < 0x110000 := by
  have hvalid := char_valid c
  omega

/-- A text has no surrogates. -/
theorem ofString_injective : Function.Injective ofString := fun _ _ h =>
  String.toList_inj.mp (List.map_injective_iff.mpr (fun _ _ => Char.toNat_inj.mp) h)

theorem joined_ofString (s : String) : Joined (ofString s) := by
  have hplain : ∀ c ∈ ofString s, c < 0x110000 ∧ ¬ IsHigh c := by
    intro n hn
    obtain ⟨c, -, rfl⟩ := List.mem_map.mp hn
    have hvalid := char_valid c
    unfold IsHigh
    omega
  refine ⟨fun c hc => (hplain c hc).1, ?_⟩
  refine List.Pairwise.isChain (List.pairwise_of_forall_mem_list fun a ha b _ hpair => ?_)
  exact (hplain a ha).2 hpair.1

variable {floats : Floats F}

theorem mem_of_lookup {α β : Type} [BEq α] [LawfulBEq α] {table : List (α × β)} {a : α} {b : β}
    (h : table.lookup a = some b) : (a, b) ∈ table := by
  obtain ⟨before, after, rfl, -⟩ := List.lookup_eq_some_iff.mp h
  exact List.mem_append_right _ List.mem_cons_self

theorem lex_cons {mode next : Mode} {c : Char} {tokens : List (Token F)}
    (h : advance floats mode c = some (tokens, next)) (rest : List Char) :
    lex floats mode (c :: rest) = (lex floats next rest).map (tokens ++ ·) := by
  rw [lex, h]
  rfl

/-- A character with which no token ends. -/
theorem lex_quiet {mode next : Mode} {c : Char} (h : advance floats mode c = some ([], next))
    (rest : List Char) : lex floats mode (c :: rest) = lex floats next rest :=
  (lex_cons h rest).trans Option.map_id'

/-- A character with which a token ends. -/
theorem lex_emit {mode next : Mode} {c : Char} {token : Token F}
    (h : advance floats mode c = some ([token], next)) (rest : List Char) :
    lex floats mode (c :: rest) = (lex floats next rest).map (token :: ·) :=
  lex_cons h rest

theorem hexValue_hexDigit {n : ℕ} (h : n < 16) : hexValue (Json.hexDigit n) = some n := by
  have hall : ∀ m : Fin 16, hexValue (Json.hexDigit m.val) = some m.val := by decide
  exact hall ⟨n, h⟩

theorem advance_hex_succ {n : ℕ} (h : n < 16) (before : List ℕ) (left code : ℕ) :
    advance floats (.hex before (left + 1) code) (Json.hexDigit n) =
      some ([], .hex before left (16 * code + n)) := by
  rw [advance, hexValue_hexDigit h]
  rfl

theorem advance_hex_zero {n : ℕ} (h : n < 16) (before : List ℕ) (code : ℕ) :
    advance floats (.hex before 0 code) (Json.hexDigit n) =
      some ([], .string (before ++ [16 * code + n])) := by
  rw [advance, hexValue_hexDigit h]
  rfl

theorem lex_hex4 {n : ℕ} (h : n < 0x10000) (before : List ℕ) (rest : List Char) :
    lex floats (.escape before) ('u' :: (hex4 n ++ rest)) =
      lex floats (.string (before ++ [n])) rest := by
  have hcode : 16 * (16 * (16 * (16 * 0 + n / 4096) + n / 256 % 16) + n / 16 % 16) + n % 16 = n := by
    omega
  rw [hex4, lex_quiet rfl, List.cons_append, lex_quiet (advance_hex_succ (by omega) before 2 0),
    List.cons_append, lex_quiet (advance_hex_succ (by omega) before 1 _),
    List.cons_append, lex_quiet (advance_hex_succ (by omega) before 0 _),
    List.cons_append, lex_quiet (advance_hex_zero (by omega) before _), hcode, List.nil_append]

theorem lex_units {us : List ℕ} (h : ∀ u ∈ us, u < 0x10000) (before : List ℕ) (rest : List Char) :
    lex floats (.string before) ((us.flatMap fun u => '\\' :: 'u' :: hex4 u) ++ rest) =
      lex floats (.string (before ++ us)) rest := by
  induction us generalizing before with
  | nil => rw [List.append_nil, List.flatMap_nil, List.nil_append]
  | cons u us ih =>
    obtain ⟨hu, hus⟩ := List.forall_mem_cons.mp h
    rw [List.flatMap_cons, List.append_assoc, List.cons_append, List.cons_append, lex_quiet rfl,
      lex_hex4 hu, ih hus, List.append_assoc, List.singleton_append]

theorem units_lt {c : ℕ} (h : c < 0x110000) : ∀ u ∈ units c, u < 0x10000 := by
  rw [units]
  split
  · exact List.forall_mem_singleton.mpr ‹_›
  · exact List.forall_mem_cons.mpr ⟨by omega, List.forall_mem_singleton.mpr (by omega)⟩

/-- A character that has a short escape. -/
theorem lex_short {letter : Char} {code : ℕ} (hletter : letter ≠ 'u')
    (hcode : escapes.lookup letter = some code) (before : List ℕ) (rest : List Char) :
    lex floats (.string before) (['\\', letter] ++ rest) =
      lex floats (.string (before ++ [code])) rest := by
  have hescape : advance floats (.escape before) letter = some ([], .string (before ++ [code])) := by
    rw [advance, if_neg hletter, hcode]
    rfl
  rw [List.cons_append, List.singleton_append, lex_quiet rfl, lex_quiet hescape]

theorem toNat_ofNat {c : ℕ} (h : c < 128) : (Char.ofNat c).toNat = c := by
  rw [Char.ofNat, dif_pos (.inl (by omega))]
  rfl

/-- A character that stands for itself. -/
theorem lex_plain {c : ℕ} (hc : 32 ≤ c ∧ c ≤ 126) (h34 : c ≠ 34) (h92 : c ≠ 92) (before : List ℕ)
    (rest : List Char) :
    lex floats (.string before) ([Char.ofNat c] ++ rest) =
      lex floats (.string (before ++ [c])) rest := by
  have htoNat := toNat_ofNat (by omega : c < 128)
  have hne : ∀ d : Char, c ≠ d.toNat → Char.ofNat c ≠ d := fun d hd heq => hd (by rw [← heq, htoNat])
  refine lex_quiet ?_ rest
  rw [advance, if_neg (hne '"' h34), if_neg (hne '\\' h92), htoNat, if_neg (by omega)]

theorem shortEscapes_read {c : ℕ} {letter : Char} (h : shortEscapes.lookup c = some letter) :
    c < 0x10000 ∧ letter ≠ 'u' ∧ escapes.lookup letter = some c ∧ 32 ≤ letter.toNat := by
  have hall : ∀ p ∈ shortEscapes,
      p.1 < 0x10000 ∧ p.2 ≠ 'u' ∧ escapes.lookup p.2 = some p.1 ∧ 32 ≤ p.2.toNat := by
    decide
  exact hall (c, letter) (mem_of_lookup h)

theorem lex_escaped {c : ℕ} (h : c < 0x110000) (before : List ℕ) (rest : List Char) :
    lex floats (.string before) (escaped c ++ rest) =
      lex floats (.string (before ++ units c)) rest := by
  rw [escaped]
  split
  · rename_i letter hletter
    obtain ⟨hc, hne, hread, -⟩ := shortEscapes_read hletter
    rw [lex_short hne hread, units, if_pos hc]
  · rename_i hlong
    split
    · rename_i hplain
      have hnot : ∀ {d : ℕ} {letter : Char}, shortEscapes.lookup d = some letter → c ≠ d := by
        rintro d letter hd rfl
        rw [hlong] at hd
        cases hd
      rw [lex_plain hplain (hnot rfl) (hnot rfl), units, if_pos (by omega)]
    · exact lex_units (units_lt h) before rest

theorem lex_body {s : Str} (h : ∀ c ∈ s, c < 0x110000) (before : List ℕ) (rest : List Char) :
    lex floats (.string before) (s.flatMap escaped ++ rest) =
      lex floats (.string (before ++ s.flatMap units)) rest := by
  induction s generalizing before with
  | nil => rw [List.flatMap_nil, List.flatMap_nil, List.append_nil, List.nil_append]
  | cons c s ih =>
    obtain ⟨hc, hs⟩ := List.forall_mem_cons.mp h
    rw [List.flatMap_cons, List.append_assoc, lex_escaped hc, ih hs, List.flatMap_cons,
      List.append_assoc]

theorem lex_string {s : Str} (h : Joined s) (rest : List Char) :
    lex floats .between (Token.text floats (.str s) ++ rest) =
      (lex floats .between rest).map (.str s :: ·) := by
  have hclose : advance floats (.string (s.flatMap units)) '"' = some ([.str s], .between) := by
    rw [advance, if_pos rfl, join_units h]
  rw [Token.text, List.cons_append, lex_quiet rfl, List.append_assoc, lex_body h.bounded,
    List.nil_append, List.singleton_append, lex_emit hclose]

/-! ## Words are read back -/

theorem toDigits_head {n : ℕ} (h : (Nat.toDigits 10 n).head? = some '0') : n = 0 := by
  induction n using Nat.strongRecOn with
  | ind n ih =>
    rw [Nat.toDigits_eq_if (by decide)] at h
    split at h
    · rename_i hlt
      have hall : ∀ m : Fin 10, m.val.digitChar = '0' → m.val = 0 := by decide
      exact hall ⟨n, hlt⟩ (Option.some.inj h)
    · rename_i hge
      rw [List.head?_append_of_ne_nil _ Nat.toDigits_ne_nil] at h
      have hzero := ih (n / 10) (by omega) h
      omega

theorem number_digits (float : List Char → PyFloat F) {digits : List Char} (hne : digits ≠ [])
    (hdigits : ∀ c ∈ digits, c.isDigit = true)
    (hhead : digits.head? = some '0' → digits.length = 1) (negative : Bool) :
    number float (if negative then '-' :: digits else digits) =
      some (.int (if negative then -(Nat.ofDigitChars 10 digits 0 : ℕ)
        else (Nat.ofDigitChars 10 digits 0 : ℕ))) := by
  have htake : digits.takeWhile Char.isDigit = digits := List.takeWhile_eq_self_iff.mpr hdigits
  have hdrop : digits.dropWhile Char.isDigit = [] := List.dropWhile_eq_nil_iff.mpr hdigits
  have hok : ¬ (digits = [] ∨ (digits.head? = some '0' ∧ digits.length ≠ 1)) := by
    rintro (hnil | ⟨hzero, hlength⟩)
    · exact hne hnil
    · exact hlength (hhead hzero)
  cases negative with
  | true => simp [number, htake, hdrop, hok]
  | false =>
    have hminus : digits.head? ≠ some '-' := fun hhead =>
      absurd (hdigits '-' (List.mem_of_mem_head? hhead)) (by decide)
    simp [number, hminus, htake, hdrop, hok]

theorem number_intText (float : List Char → PyFloat F) (n : ℤ) :
    number float (intText n) = some (.int n) := by
  have h := number_digits float (Nat.toDigits_ne_nil (n := n.natAbs) (b := 10))
    (fun c hc => Nat.isDigit_of_mem_toDigits (by decide) (by decide) hc) (fun hhead => ?_)
    (decide (n < 0))
  · rw [Nat.ofDigitChars_ten_toDigits] at h
    simp only [decide_eq_true_eq] at h
    rw [intText, h]
    congr 2
    split <;> omega
  · rw [toDigits_head hhead]
    rfl

/-- A character that numbers are written with. -/
def isNumeral (c : Char) : Bool := c.isDigit || ['-', '+', '.', 'e'].contains c

theorem lookup_constants {word : List Char} (h : ∀ c ∈ word, isNumeral c = true) :
    (constants.lookup word : Option (Atom F)) = none := by
  have hall : ∀ p ∈ (constants : List (List Char × Atom F)), p.1.all isNumeral = false := by
    simp only [constants, List.forall_mem_cons, List.not_mem_nil, false_implies, implies_true,
      and_true]
    decide
  rw [List.lookup_eq_none_iff]
  intro p hp
  rw [bne_iff_ne]
  rintro rfl
  exact Bool.false_ne_true ((hall p hp).symm.trans (List.all_eq_true.mpr h))

theorem atomOf_numeral {word : List Char} (h : ∀ c ∈ word, isNumeral c = true) :
    atomOf floats word = number floats.float word := by
  rw [atomOf, lookup_constants h, Option.none_or]

theorem intText_numeral (n : ℤ) : ∀ c ∈ intText n, isNumeral c = true := by
  have hdigits : ∀ c ∈ Nat.toDigits 10 n.natAbs, isNumeral c = true := fun c hc => by
    rw [isNumeral, Nat.isDigit_of_mem_toDigits (by decide) (by decide) hc, Bool.true_or]
  rw [intText]
  split
  · exact List.forall_mem_cons.mpr ⟨by decide, hdigits⟩
  · exact hdigits

theorem repr_numeral (f : F) : ∀ c ∈ floats.repr f, isNumeral c = true := by
  intro c hc
  rw [isNumeral, Bool.or_eq_true, List.contains_eq_mem, decide_eq_true_eq]
  exact floats.repr_chars f c hc

/-- **A word is read back.** -/
theorem atomOf_atomText (a : Atom F) : atomOf floats (atomText floats a) = some a := by
  cases a with
  | null => rfl
  | bool b => cases b <;> rfl
  | int n => rw [atomText, atomOf_numeral (intText_numeral n), number_intText]
  | float f =>
    cases f with
    | finite f => rw [atomText, atomOf_numeral (repr_numeral f), floats.number_repr]
    | infinity | minusInfinity | nan => rfl

/-- A character of words is printable, and it does not end a word. -/
def IsPlain (c : Char) : Prop := isDelimiter c = false ∧ 32 ≤ c.toNat

instance (c : Char) : Decidable (IsPlain c) := inferInstanceAs (Decidable (_ ∧ _))

theorem isPlain_of_isNumeral {c : Char} (h : isNumeral c = true) : IsPlain c := by
  rw [isNumeral, Bool.or_eq_true] at h
  rcases h with hdigit | hsign
  · obtain ⟨hlow, hhigh⟩ : 48 ≤ c.toNat ∧ c.toNat ≤ 57 := Char.isDigit_iff_toNat.mp hdigit
    have hall : ∀ n : Fin 10, IsPlain (Char.ofNat (48 + n.val)) := by decide
    have hc := hall ⟨c.toNat - 48, by omega⟩
    rwa [show 48 + (c.toNat - 48) = c.toNat by omega, Char.ofNat_toNat] at hc
  · rw [List.contains_eq_mem, decide_eq_true_eq] at hsign
    have hall : ∀ c ∈ ['-', '+', '.', 'e'], IsPlain c := List.all_iff_forall_prop.mp (by decide)
    exact hall c hsign

theorem atomText_plain (a : Atom F) : ∀ c ∈ atomText floats a, IsPlain c := by
  cases a with
  | null => exact List.all_iff_forall_prop.mp (by rw [atomText]; decide)
  | bool b => exact List.all_iff_forall_prop.mp (by cases b <;> rw [atomText] <;> decide)
  | int n => exact fun c hc => isPlain_of_isNumeral (intText_numeral n c hc)
  | float f =>
    cases f with
    | finite f => exact fun c hc => isPlain_of_isNumeral (repr_numeral f c hc)
    | infinity | minusInfinity | nan => exact List.all_iff_forall_prop.mp (by rw [atomText]; decide)

theorem atomText_ne_nil (a : Atom F) : atomText floats a ≠ [] := by
  intro hnil
  have hread := @atomOf_atomText _ floats a
  rw [hnil] at hread
  cases hread

/-! ## Tokens are read back -/

/-- The text of a string has no surrogate pairs. -/
def Token.Joined : Token F → Prop
  | .str s => PyJson.Joined s
  | _ => True

/-- The token is a word. -/
def Token.IsWord : Token F → Prop
  | .atom _ => True
  | _ => False

/-- A word goes on until a delimiter. -/
theorem lex_word_append {more : List Char} (h : ∀ c ∈ more, IsPlain c) (chars rest : List Char) :
    lex floats (.word chars) (more ++ rest) = lex floats (.word (chars ++ more)) rest := by
  induction more generalizing chars with
  | nil => rw [List.nil_append, List.append_nil]
  | cons c more ih =>
    obtain ⟨hc, hmore⟩ := List.forall_mem_cons.mp h
    have hadvance : advance floats (.word chars) c = some ([], .word (chars ++ [c])) := by
      rw [advance, hc.1]
      rfl
    rw [List.cons_append, lex_quiet hadvance, ih hmore, List.append_assoc, List.singleton_append]

/-- A word is over before a delimiter, and at the end. -/
theorem lex_word_end {a : Atom F} {chars rest : List Char} (hchars : atomOf floats chars = some a)
    (hrest : ∀ c ∈ rest.head?, isDelimiter c = true) :
    lex floats (.word chars) rest = (lex floats .between rest).map (.atom a :: ·) := by
  cases rest with
  | nil => rw [lex, finish, hchars]; rfl
  | cons c rest =>
    obtain ⟨⟨tokens, next⟩, hentered⟩ : ∃ entered : List (Token F) × Mode, enter c = entered :=
      ⟨_, rfl⟩
    have hadvance : advance floats (.word chars) c = some (.atom a :: tokens, next) := by
      rw [advance, if_pos (hrest c rfl), hchars, hentered]
      rfl
    have hbetween : advance floats .between c = some (tokens, next) := by rw [advance, hentered]
    rw [lex_cons hadvance, lex_cons hbetween, Option.map_map]
    rfl

theorem enter_plain {c : Char} (h : IsPlain c) :
    (enter c : List (Token F) × Mode) = ([], .word [c]) := by
  obtain ⟨hdelimiter, -⟩ := h
  rw [isDelimiter, Bool.or_eq_false_iff, Bool.or_eq_false_iff] at hdelimiter
  obtain ⟨⟨hspace, hquote⟩, hother⟩ := hdelimiter
  have hlookup : (punctuation.lookup c : Option (Token F)) = none := by
    rw [List.lookup_eq_none_iff]
    intro p hp
    rw [bne_iff_ne]
    rintro rfl
    rw [List.contains_eq_mem, decide_eq_false_iff_not] at hother
    exact hother (List.mem_map_of_mem (f := Prod.fst) hp)
  rw [enter, hspace, if_neg Bool.false_ne_true, hlookup]
  exact if_neg (decide_eq_false_iff_not.mp hquote)

theorem lex_atom (a : Atom F) {rest : List Char} (hrest : ∀ c ∈ rest.head?, isDelimiter c = true) :
    lex floats .between (atomText floats a ++ rest) =
      (lex floats .between rest).map (.atom a :: ·) := by
  obtain ⟨c, more, htext⟩ := List.exists_cons_of_ne_nil (@atomText_ne_nil _ floats a)
  have hplain := @atomText_plain _ floats a
  have hread := @atomOf_atomText _ floats a
  rw [htext] at hplain hread ⊢
  obtain ⟨hc, hmore⟩ := List.forall_mem_cons.mp hplain
  have hadvance : advance floats .between c = some ([], .word [c]) := by
    rw [advance, enter_plain hc]
  rw [List.cons_append, lex_quiet hadvance, lex_word_append hmore, List.singleton_append,
    lex_word_end hread hrest]

theorem text_head {token : Token F} (h : ¬ token.IsWord) (rest : List Char) :
    ∀ c ∈ (token.text floats ++ rest).head?, isDelimiter c = true := by
  cases token with
  | atom a => exact absurd trivial h
  | str s => exact fun c hc => Option.some.inj hc ▸ by decide
  | openList | closeList | openDict | closeDict | colon | comma =>
    exact fun c hc => Option.some.inj hc ▸ by decide

/-- **Tokens are read back**, as far as no two words come next to each other. -/
theorem lex_text {tokens : List (Token F)} (hjoined : ∀ t ∈ tokens, t.Joined)
    (hapart : tokens.IsChain fun t u => ¬ (t.IsWord ∧ u.IsWord)) :
    lex floats .between (tokens.flatMap (Token.text floats)) = some tokens := by
  induction tokens with
  | nil => rfl
  | cons token tokens ih =>
    obtain ⟨hnext, happart⟩ := List.isChain_cons.mp hapart
    obtain ⟨htoken, htokens⟩ := List.forall_mem_cons.mp hjoined
    have hrest := ih htokens happart
    rw [List.flatMap_cons]
    cases token with
    | str s => rw [lex_string htoken, hrest]; rfl
    | atom a =>
      rw [Token.text, lex_atom a, hrest]
      · rfl
      · cases tokens with
        | nil => exact nofun
        | cons next tokens =>
          rw [List.flatMap_cons]
          exact text_head (fun hword => hnext next rfl ⟨trivial, hword⟩) _
    | openList | closeList | openDict | closeDict | colon | comma =>
      rw [Token.text, List.singleton_append, lex_emit rfl, hrest]
      rfl

/-! ## What the lexer returns -/

/-- The units so far are code points, with room for the digits that are still to come. -/
def Mode.Bounded : Mode → Prop
  | .between | .word _ => True
  | .string units | .escape units => ∀ u ∈ units, u < 0x110000
  | .hex units left code => (∀ u ∈ units, u < 0x110000) ∧ (code + 1) * 16 ^ (left + 1) ≤ 0x10000

theorem hexValue_lt {c : Char} {digit : ℕ} (h : hexValue c = some digit) : digit < 16 := by
  have hle : ∀ {a b : Char}, a ≤ b → a.toNat ≤ b.toNat := fun h => UInt32.le_iff_toNat_le.mp h
  rw [hexValue] at h
  split_ifs at h with hdigit hlower hupper
  · have hhigh : c.toNat ≤ 57 := hle hdigit.2
    have := Option.some.inj h
    omega
  · have hhigh : c.toNat ≤ 102 := hle hlower.2
    have := Option.some.inj h
    omega
  · have hhigh : c.toNat ≤ 70 := hle hupper.2
    have := Option.some.inj h
    omega

theorem enter_bounded (c : Char) :
    (∀ t ∈ (enter c : List (Token F) × Mode).1, t.Joined) ∧
      (enter c : List (Token F) × Mode).2.Bounded := by
  have hpunctuation : ∀ p ∈ (punctuation : List (Char × Token F)), p.2.Joined := by
    simp [punctuation, Token.Joined]
  rw [enter]
  split
  · exact ⟨nofun, trivial⟩
  · split
    · rename_i token hlookup
      exact ⟨List.forall_mem_singleton.mpr (hpunctuation _ (mem_of_lookup hlookup)), trivial⟩
    · split
      · exact ⟨nofun, nofun⟩
      · exact ⟨nofun, trivial⟩

theorem escapes_lt {c : Char} {code : ℕ} (h : escapes.lookup c = some code) : code < 0x110000 := by
  have hall : ∀ p ∈ escapes, p.2 < 0x110000 := by decide
  exact hall (c, code) (mem_of_lookup h)

theorem advance_bounded {mode next : Mode} {c : Char} {tokens : List (Token F)}
    (hmode : mode.Bounded) (h : advance floats mode c = some (tokens, next)) :
    (∀ t ∈ tokens, t.Joined) ∧ next.Bounded := by
  have hconcat : ∀ {units : List ℕ} {u : ℕ}, (∀ u ∈ units, u < 0x110000) → u < 0x110000 →
      ∀ v ∈ units ++ [u], v < 0x110000 := fun hunits hu =>
    List.forall_mem_append.mpr ⟨hunits, List.forall_mem_singleton.mpr hu⟩
  cases mode with
  | between =>
    have hentered := enter_bounded (F := F) c
    rwa [Option.some.inj h] at hentered
  | word chars =>
    rw [advance] at h
    split at h
    · obtain ⟨a, -, heq⟩ := Option.map_eq_some_iff.mp h
      obtain ⟨rfl, rfl⟩ := Prod.mk.inj heq
      obtain ⟨htokens, hnext⟩ := enter_bounded (F := F) c
      exact ⟨List.forall_mem_cons.mpr ⟨trivial, htokens⟩, hnext⟩
    · obtain ⟨rfl, rfl⟩ := Prod.mk.inj (Option.some.inj h)
      exact ⟨nofun, trivial⟩
  | string units =>
    rw [advance] at h
    split_ifs at h
    · obtain ⟨rfl, rfl⟩ := Prod.mk.inj (Option.some.inj h)
      exact ⟨List.forall_mem_singleton.mpr (joined_join hmode), trivial⟩
    · obtain ⟨rfl, rfl⟩ := Prod.mk.inj (Option.some.inj h)
      exact ⟨nofun, hmode⟩
    · obtain ⟨rfl, rfl⟩ := Prod.mk.inj (Option.some.inj h)
      exact ⟨nofun, hconcat hmode (char_lt c)⟩
  | escape units =>
    rw [advance] at h
    split at h
    · obtain ⟨rfl, rfl⟩ := Prod.mk.inj (Option.some.inj h)
      exact ⟨nofun, hmode, by decide⟩
    · obtain ⟨code, hcode, heq⟩ := Option.map_eq_some_iff.mp h
      obtain ⟨rfl, rfl⟩ := Prod.mk.inj heq
      exact ⟨nofun, hconcat hmode (escapes_lt hcode)⟩
  | hex units left code =>
    obtain ⟨hunits, hcode⟩ := hmode
    cases left with
    | zero =>
      obtain ⟨digit, hdigit, heq⟩ := Option.map_eq_some_iff.mp h
      obtain ⟨rfl, rfl⟩ := Prod.mk.inj heq
      have hlt := hexValue_lt hdigit
      exact ⟨nofun, hconcat hunits (by omega)⟩
    | succ left =>
      obtain ⟨digit, hdigit, heq⟩ := Option.map_eq_some_iff.mp h
      obtain ⟨rfl, rfl⟩ := Prod.mk.inj heq
      have hlt := hexValue_lt hdigit
      refine ⟨nofun, hunits, ?_⟩
      calc (16 * code + digit + 1) * 16 ^ (left + 1)
        _ ≤ ((code + 1) * 16) * 16 ^ (left + 1) := Nat.mul_le_mul_right _ (by omega)
        _ = (code + 1) * 16 ^ (left + 1 + 1) := by rw [Nat.mul_assoc, ← Nat.pow_succ']
        _ ≤ 0x10000 := hcode

/-- **Strings come out joined.** -/
theorem lex_joined {mode : Mode} {text : List Char} {tokens : List (Token F)}
    (hmode : mode.Bounded) (h : lex floats mode text = some tokens) : ∀ t ∈ tokens, t.Joined := by
  induction text generalizing mode tokens with
  | nil =>
    rw [lex] at h
    cases mode with
    | word chars =>
      obtain ⟨a, -, rfl⟩ := Option.map_eq_some_iff.mp h
      exact List.forall_mem_singleton.mpr trivial
    | between => exact Option.some.inj h ▸ nofun
    | string | escape | hex => cases h
  | cons c text ih =>
    rw [lex] at h
    obtain ⟨⟨first, next⟩, hadvance, hrest⟩ := Option.bind_eq_some_iff.mp h
    obtain ⟨rest, hlex, rfl⟩ := Option.map_eq_some_iff.mp hrest
    obtain ⟨hfirst, hnext⟩ := advance_bounded hmode hadvance
    exact List.forall_mem_append.mpr ⟨hfirst, ih hnext hlex⟩

/-! ## Texts are printable -/

instance (text : List Char) : Decidable (Json.Printable text) :=
  inferInstanceAs (Decidable (∀ c ∈ text, 32 ≤ c.toNat))

theorem printable_hex4 {n : ℕ} (h : n < 0x10000) : Json.Printable (hex4 n) := by
  simp only [hex4, Json.printable_cons, Json.printable_nil, and_true]
  exact ⟨Json.hexDigit_printable (by omega), Json.hexDigit_printable (by omega),
    Json.hexDigit_printable (by omega), Json.hexDigit_printable (by omega)⟩

theorem printable_escaped {c : ℕ} (h : c < 0x110000) : Json.Printable (escaped c) := by
  rw [escaped]
  split
  · rename_i letter hletter
    rw [Json.printable_cons, Json.printable_cons]
    exact ⟨by decide, (shortEscapes_read hletter).2.2.2, Json.printable_nil⟩
  · split
    · rename_i hplain
      rw [Json.printable_cons, toNat_ofNat (by omega)]
      exact ⟨hplain.1, Json.printable_nil⟩
    · intro d hd
      obtain ⟨u, hu, hmem⟩ := List.mem_flatMap.mp hd
      have hunit : Json.Printable ('\\' :: 'u' :: hex4 u) := by
        rw [Json.printable_cons, Json.printable_cons]
        exact ⟨by decide, by decide, printable_hex4 (units_lt h u hu)⟩
      exact hunit d hmem

theorem printable_text {token : Token F} (h : token.Joined) :
    Json.Printable (token.text floats) := by
  cases token with
  | atom a => exact fun c hc => (atomText_plain a c hc).2
  | str s =>
    have hbody : Json.Printable (s.flatMap escaped) := by
      intro d hd
      obtain ⟨c, hc, hmem⟩ := List.mem_flatMap.mp hd
      exact printable_escaped (h.bounded c hc) d hmem
    rw [Token.text, Json.printable_cons, Json.printable_append, Json.printable_cons]
    exact ⟨by decide, hbody, by decide, Json.printable_nil⟩
  | openList | closeList | openDict | closeDict | colon | comma =>
    rw [Token.text, Json.printable_cons]
    exact ⟨by decide, Json.printable_nil⟩

end

end PyJson
