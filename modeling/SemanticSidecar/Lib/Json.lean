import Mathlib.Data.List.Basic
import Mathlib.Data.Fintype.Basic
import Mathlib.Tactic.FinCases

/-!
# JSON values and their compact text

`Json ν` is a JSON value whose numbers are drawn from `ν`; how a number is written is the business
of whoever instantiates `ν`, and enters below only as the function `fmt`.

`Json.render` is the compact serializer every JSON library has: no white space between tokens, the
seven short escapes, `\u00xx` for the other control characters, and everything else verbatim.
Whoever reads the text needs to know three things about it.

* `Json.printable_render`: a rendered value contains no control character at all, hence no newline,
  so a value is always one line.
* `Json.quote_append_inj`: a string literal can be read off the front of a text in one way only.
* `Json.render_injective`: different values have different texts.
-/

set_option autoImplicit false

/-- A JSON value over the numbers `ν`.  The members of an object are listed in the order they are
written; `Json.get` reads the first one of a name. -/
inductive Json (ν : Type) where
  /-- `null`. -/
  | null
  /-- `true` or `false`. -/
  | bool (b : Bool)
  /-- A number. -/
  | number (n : ν)
  /-- A string. -/
  | string (s : String)
  /-- An array. -/
  | array (items : List (Json ν))
  /-- An object, with its members in order. -/
  | object (members : List (String × Json ν))

namespace Json

variable {ν : Type}

/-- The member of an object under a name; nothing for a value that is not an object. -/
def get (v : Json ν) (name : String) : Option (Json ν) :=
  match v with
  | .object members => members.lookup name
  | _ => none

/-- The text of a string value. -/
def asStr : Json ν → Option String
  | .string s => some s
  | _ => none

/-! ## Rendering -/

/-- One lower-case hexadecimal digit. -/
def hexDigit (n : ℕ) : Char := if n < 10 then Char.ofNat (48 + n) else Char.ofNat (87 + n)

/-- The letter of the short escape of a character, if it has one. -/
def shortEscape (c : Char) : Option Char :=
  [('"', '"'), ('\\', '\\'), (Char.ofNat 8, 'b'), (Char.ofNat 9, 't'), (Char.ofNat 10, 'n'),
    (Char.ofNat 12, 'f'), (Char.ofNat 13, 'r')].lookup c

/-- A character inside a string literal. -/
def escape (c : Char) : List Char :=
  match shortEscape c with
  | some letter => ['\\', letter]
  | none =>
    if c.toNat < 32 then
      ['\\', 'u', '0', '0', hexDigit (c.toNat / 16), hexDigit (c.toNat % 16)]
    else [c]

/-- A string literal. -/
def quote (s : String) : List Char := '"' :: (s.toList.flatMap escape ++ ['"'])

mutual

/-- The compact text of a value, numbers being written by `fmt`. -/
def render (fmt : ν → List Char) : Json ν → List Char
  | .null => ['n', 'u', 'l', 'l']
  | .bool true => ['t', 'r', 'u', 'e']
  | .bool false => ['f', 'a', 'l', 's', 'e']
  | .number n => fmt n
  | .string s => quote s
  | .array items => '[' :: (renderItems fmt items ++ [']'])
  | .object members => '{' :: (renderMembers fmt members ++ ['}'])

/-- The items of an array, separated by commas. -/
def renderItems (fmt : ν → List Char) : List (Json ν) → List Char
  | [] => []
  | [v] => render fmt v
  | v :: w :: rest => render fmt v ++ ',' :: renderItems fmt (w :: rest)

/-- The members of an object, separated by commas. -/
def renderMembers (fmt : ν → List Char) : List (String × Json ν) → List Char
  | [] => []
  | [(name, v)] => quote name ++ ':' :: render fmt v
  | (name, v) :: m :: rest => quote name ++ ':' :: (render fmt v ++ ',' :: renderMembers fmt (m :: rest))

end

theorem renderMembers_cons (fmt : ν → List Char) (name : String) (v : Json ν)
    (rest : List (String × Json ν)) :
    ∃ x, renderMembers fmt ((name, v) :: rest) = quote name ++ ':' :: (render fmt v ++ x) := by
  cases rest with
  | nil => exact ⟨[], by rw [renderMembers, List.append_nil]⟩
  | cons m rest => exact ⟨',' :: renderMembers fmt (m :: rest), by rw [renderMembers]⟩

/-! ### String literals are uniquely readable -/

/-- The value of a hexadecimal digit. -/
def hexValue (c : Char) : ℕ := if c.toNat < 58 then c.toNat - 48 else c.toNat - 87

/-- Reads one character of a string literal back. -/
def unescape : List Char → Option (Char × List Char)
  | '\\' :: 'u' :: _ :: _ :: high :: low :: rest =>
    some (Char.ofNat (16 * hexValue high + hexValue low), rest)
  | '\\' :: letter :: rest =>
    ([('"', '"'), ('\\', '\\'), ('b', Char.ofNat 8), ('t', Char.ofNat 9), ('n', Char.ofNat 10),
      ('f', Char.ofNat 12), ('r', Char.ofNat 13)].lookup letter).map fun c => (c, rest)
  | c :: rest => some (c, rest)
  | [] => none

theorem toNat_ofNat_of_lt {n : ℕ} (h : n < 32) : (Char.ofNat n).toNat = n := by
  have hall : ∀ m : Fin 32, (Char.ofNat m.val).toNat = m.val := by decide
  exact hall ⟨n, h⟩

theorem ofNat_toNat (c : Char) : Char.ofNat c.toNat = c := Char.ofNat_toNat c

/-- A character is read back from its escape, whatever follows. -/
theorem unescape_escape (c : Char) (rest : List Char) : unescape (escape c ++ rest) = some (c, rest) := by
  by_cases hlow : c.toNat < 32
  · have hall : ∀ n : Fin 32, ∀ rest : List Char,
        unescape (escape (Char.ofNat n.val) ++ rest) = some (Char.ofNat n.val, rest) := by
      intro n rest
      fin_cases n <;> rfl
    simpa only [ofNat_toNat] using hall ⟨c.toNat, hlow⟩ rest
  · by_cases hquote : c = '"'
    · subst hquote; rfl
    · by_cases hback : c = '\\'
      · subst hback; rfl
      · have hplain : shortEscape c = none := by
          have hne : ∀ n < 32, c ≠ Char.ofNat n := by
            rintro n hn rfl
            exact hlow (by rw [toNat_ofNat_of_lt hn]; exact hn)
          simp only [shortEscape, List.lookup_cons, List.lookup_nil, beq_eq_false_iff_ne.mpr hquote,
            beq_eq_false_iff_ne.mpr hback, beq_eq_false_iff_ne.mpr (hne 8 (by decide)),
            beq_eq_false_iff_ne.mpr (hne 9 (by decide)),
            beq_eq_false_iff_ne.mpr (hne 10 (by decide)),
            beq_eq_false_iff_ne.mpr (hne 12 (by decide)),
            beq_eq_false_iff_ne.mpr (hne 13 (by decide))]
        rw [escape, hplain]
        simp only [hlow, if_false, List.cons_append, List.nil_append]
        unfold unescape
        split <;> simp_all

theorem unescape_quote (x : List Char) : unescape ('"' :: x) = some ('"', x) := by
  unfold unescape
  split <;> simp_all
  rename_i heq
  exact heq.1.symm

theorem quote_ne_escape (c : Char) (x y : List Char) : '"' :: x ≠ escape c ++ y := by
  intro h
  have hread : unescape ('"' :: x) = some (c, y) := h ▸ unescape_escape c y
  rw [unescape_quote, Option.some.injEq, Prod.mk.injEq] at hread
  obtain ⟨rfl, -⟩ := hread
  simp [escape, shortEscape] at h

theorem flatMap_escape_inj {s t x y : List Char}
    (h : s.flatMap escape ++ '"' :: x = t.flatMap escape ++ '"' :: y) : s = t ∧ x = y := by
  induction s generalizing t with
  | nil =>
    cases t with
    | nil => simpa using h
    | cons d t =>
      rw [List.flatMap_nil, List.nil_append, List.flatMap_cons, List.append_assoc] at h
      exact absurd h (quote_ne_escape d x _)
  | cons c s ih =>
    cases t with
    | nil =>
      rw [List.flatMap_nil, List.nil_append, List.flatMap_cons, List.append_assoc] at h
      exact absurd h.symm (quote_ne_escape c y _)
    | cons d t =>
      rw [List.flatMap_cons, List.flatMap_cons, List.append_assoc, List.append_assoc] at h
      have hc := congrArg unescape h
      rw [unescape_escape, unescape_escape, Option.some.injEq, Prod.mk.injEq] at hc
      obtain ⟨hst, hxy⟩ := ih hc.2
      exact ⟨by rw [hc.1, hst], hxy⟩

/-- **A string literal can be read off the front of a text in one way only.** -/
theorem quote_append_inj {s t : String} {x y : List Char} (h : quote s ++ x = quote t ++ y) :
    s = t ∧ x = y := by
  simp only [quote, List.cons_append, List.append_assoc, List.nil_append, List.cons.injEq,
    true_and] at h
  obtain ⟨hst, hxy⟩ := flatMap_escape_inj h
  exact ⟨String.toList_inj.mp hst, hxy⟩

/-! ### A rendered value has no control characters -/

/-- No character of `l` is a control character. -/
def Printable (l : List Char) : Prop := ∀ c ∈ l, 32 ≤ c.toNat

theorem printable_nil : Printable [] := by intro c hc; simp at hc

@[simp] theorem printable_cons {c : Char} {l : List Char} :
    Printable (c :: l) ↔ 32 ≤ c.toNat ∧ Printable l := by
  simp [Printable]

@[simp] theorem printable_append {l m : List Char} :
    Printable (l ++ m) ↔ Printable l ∧ Printable m := by
  simp only [Printable, List.mem_append]
  exact ⟨fun h => ⟨fun c hc => h c (Or.inl hc), fun c hc => h c (Or.inr hc)⟩,
    fun h c hc => hc.elim (h.1 c) (h.2 c)⟩

theorem hexDigit_printable {n : ℕ} (h : n < 16) : 32 ≤ (hexDigit n).toNat := by
  have hall : ∀ m : Fin 16, 32 ≤ (hexDigit m.val).toNat := by decide
  exact hall ⟨n, h⟩

theorem shortEscape_printable {c d : Char} (h : shortEscape c = some d) : 32 ≤ d.toNat := by
  rw [shortEscape, List.lookup_eq_some_iff] at h
  obtain ⟨l₁, l₂, heq, -⟩ := h
  have hmem : (c, d) ∈ l₁ ++ (c, d) :: l₂ := by simp
  rw [← heq] at hmem
  have hall : ∀ p ∈ [('"', '"'), ('\\', '\\'), (Char.ofNat 8, 'b'), (Char.ofNat 9, 't'),
      (Char.ofNat 10, 'n'), (Char.ofNat 12, 'f'), (Char.ofNat 13, 'r')], 32 ≤ p.2.toNat := by
    decide
  exact hall _ hmem

theorem printable_escape (c : Char) : Printable (escape c) := by
  rw [escape]
  split
  · rename_i letter hletter
    simp only [printable_cons, shortEscape_printable hletter, printable_nil, and_true]
    decide
  · split
    · have h₁ := hexDigit_printable (n := c.toNat / 16) (by omega)
      have h₂ := hexDigit_printable (n := c.toNat % 16) (by omega)
      simp only [printable_cons, h₁, h₂, printable_nil, and_true]
      decide
    · simp only [printable_cons, printable_nil, and_true]
      omega

theorem printable_quote (s : String) : Printable (quote s) := by
  have hbody : Printable (s.toList.flatMap escape) := by
    intro c hc
    obtain ⟨d, -, hd⟩ := List.mem_flatMap.mp hc
    exact printable_escape d c hd
  simp only [quote, printable_cons, printable_append, hbody, printable_nil, and_true, true_and]
  decide

variable {fmt : ν → List Char}

mutual

/-- **A rendered value contains no control character.** -/
theorem printable_render (hfmt : ∀ n, Printable (fmt n)) : ∀ v : Json ν, Printable (render fmt v)
  | .null => by simp only [render, printable_cons, printable_nil]; decide
  | .bool true => by simp only [render, printable_cons, printable_nil]; decide
  | .bool false => by simp only [render, printable_cons, printable_nil]; decide
  | .number n => by rw [render]; exact hfmt n
  | .string s => by rw [render]; exact printable_quote s
  | .array items => by
    have := printable_renderItems hfmt items
    simp only [render, printable_cons, printable_append, this, printable_nil, and_true, true_and]
    decide
  | .object members => by
    have := printable_renderMembers hfmt members
    simp only [render, printable_cons, printable_append, this, printable_nil, and_true, true_and]
    decide

theorem printable_renderItems (hfmt : ∀ n, Printable (fmt n)) :
    ∀ vs : List (Json ν), Printable (renderItems fmt vs)
  | [] => by rw [renderItems]; exact printable_nil
  | [v] => by rw [renderItems]; exact printable_render hfmt v
  | v :: w :: rest => by
    have hv := printable_render hfmt v
    have hrest := printable_renderItems hfmt (w :: rest)
    simp only [renderItems, printable_append, printable_cons, hv, hrest, and_true, true_and]
    decide

theorem printable_renderMembers (hfmt : ∀ n, Printable (fmt n)) :
    ∀ ms : List (String × Json ν), Printable (renderMembers fmt ms)
  | [] => by rw [renderMembers]; exact printable_nil
  | [(name, v)] => by
    have hv := printable_render hfmt v
    have hname := printable_quote name
    simp only [renderMembers, printable_append, printable_cons, hv, hname, and_true, true_and]
    decide
  | (name, v) :: m :: rest => by
    have hv := printable_render hfmt v
    have hname := printable_quote name
    have hrest := printable_renderMembers hfmt (m :: rest)
    simp only [renderMembers, printable_append, printable_cons, hv, hname, hrest, and_true,
      true_and]
    decide

end

theorem newline_notMem_render (hfmt : ∀ n, Printable (fmt n)) (v : Json ν) :
    '\n' ∉ render fmt v := by
  intro h
  have h32 := printable_render hfmt v '\n' h
  exact absurd h32 (by decide)

/-! ### A value can be read off a text in one way only -/

/-- A character that occurs in numbers. -/
def isNumeral (c : Char) : Bool := c.isDigit || ['-', '+', '.', 'e', 'E'].contains c

/-- Numbers are written as numerals, and differently. -/
structure Numerals (fmt : ν → List Char) : Prop where
  /-- No number is written as nothing. -/
  ne_nil : ∀ n, fmt n ≠ []
  /-- A number is written with the characters of numbers. -/
  numeral : ∀ n, ∀ c ∈ fmt n, isNumeral c = true
  /-- Different numbers are written differently. -/
  injective : Function.Injective fmt

/-- A number in front of this text is at its end. -/
def Ends (x : List Char) : Prop := ∀ c ∈ x.head?, isNumeral c = false

@[simp] theorem ends_cons {c : Char} {x : List Char} : Ends (c :: x) ↔ isNumeral c = false := by
  simp [Ends]

/-- The kinds of values. -/
inductive Kind where
  /-- `null`. -/
  | null
  /-- `true` or `false`. -/
  | bool
  /-- A number. -/
  | number
  /-- A string. -/
  | string
  /-- An array. -/
  | array
  /-- An object. -/
  | object
  /-- No value begins so. -/
  | other
  deriving DecidableEq

/-- What kind of value begins with a character. -/
def kindAt (c : Char) : Kind :=
  if isNumeral c then .number
  else
    match c with
    | 'n' => .null
    | 't' => .bool
    | 'f' => .bool
    | '"' => .string
    | '[' => .array
    | '{' => .object
    | _ => .other

/-- What kind of value it is. -/
def kind : Json ν → Kind
  | .null => .null
  | .bool _ => .bool
  | .number _ => .number
  | .string _ => .string
  | .array _ => .array
  | .object _ => .object

theorem kind_ne_other (v : Json ν) : kind v ≠ .other := by
  cases v
  all_goals exact fun h => nomatch h

/-- **The first character tells the kind.** -/
theorem render_head (hfmt : Numerals fmt) (v : Json ν) :
    ∃ c rest, render fmt v = c :: rest ∧ kindAt c = kind v := by
  cases v with
  | number n =>
    obtain ⟨c, rest, hcons⟩ := List.exists_cons_of_ne_nil (hfmt.ne_nil n)
    have hnumeral := hfmt.numeral n c (hcons ▸ List.mem_cons_self)
    exact ⟨c, rest, by rw [render, hcons], if_pos hnumeral⟩
  | bool b =>
    cases b with
    | true => exact ⟨_, _, by rw [render], (by decide : kindAt 't' = .bool)⟩
    | false => exact ⟨_, _, by rw [render], (by decide : kindAt 'f' = .bool)⟩
  | null => exact ⟨_, _, by rw [render], (by decide : kindAt 'n' = .null)⟩
  | string t => exact ⟨_, _, by rw [render, quote], (by decide : kindAt '"' = .string)⟩
  | array items => exact ⟨_, _, by rw [render], (by decide : kindAt '[' = .array)⟩
  | object members => exact ⟨_, _, by rw [render], (by decide : kindAt '{' = .object)⟩

theorem kind_eq_of_render (hfmt : Numerals fmt) {v w : Json ν} {x y : List Char}
    (h : render fmt v ++ x = render fmt w ++ y) : kind v = kind w := by
  obtain ⟨c, rest, hv, hkind⟩ := render_head hfmt v
  obtain ⟨d, rest', hw, hkind'⟩ := render_head hfmt w
  rw [hv, hw, List.cons_append, List.cons_append, List.cons.injEq] at h
  rw [← hkind, ← hkind', h.1]

theorem cons_ne_render (hfmt : Numerals fmt) {c : Char} {x y : List Char} (hkind : kindAt c = .other)
    (v : Json ν) : c :: x ≠ render fmt v ++ y := by
  obtain ⟨d, rest, hv, hkind'⟩ := render_head hfmt v
  intro h
  rw [hv, List.cons_append, List.cons.injEq] at h
  rw [← h.1, hkind] at hkind'
  exact kind_ne_other v hkind'.symm

theorem number_append_inj (hfmt : Numerals fmt) {n m : ν} {x y : List Char} (hx : Ends x)
    (hy : Ends y) (h : fmt n ++ x = fmt m ++ y) : n = m ∧ x = y := by
  have htake : ∀ (k : ν) {z : List Char}, Ends z → (fmt k ++ z).takeWhile isNumeral = fmt k := by
    intro k z hz
    rw [List.takeWhile_append_of_pos (hfmt.numeral k)]
    cases z with
    | nil => rw [List.takeWhile_nil, List.append_nil]
    | cons c z => rw [List.takeWhile_cons, ends_cons.mp hz, if_neg Bool.false_ne_true,
        List.append_nil]
  have hsame : fmt n = fmt m := by rw [← htake n hx, ← htake m hy, h]
  rw [hsame] at h
  exact ⟨hfmt.injective hsame, List.append_cancel_left h⟩

/-- What follows the first item of an array. -/
def renderRest (fmt : ν → List Char) : List (Json ν) → List Char
  | [] => []
  | v :: rest => ',' :: renderItems fmt (v :: rest)

theorem renderItems_cons (v : Json ν) (rest : List (Json ν)) :
    renderItems fmt (v :: rest) = render fmt v ++ renderRest fmt rest := by
  cases rest with
  | nil => rw [renderItems, renderRest, List.append_nil]
  | cons w rest => rw [renderItems, renderRest]

/-- What follows the first member of an object. -/
def renderFurther (fmt : ν → List Char) : List (String × Json ν) → List Char
  | [] => []
  | m :: rest => ',' :: renderMembers fmt (m :: rest)

theorem renderMembers_cons_eq (name : String) (v : Json ν) (rest : List (String × Json ν)) :
    renderMembers fmt ((name, v) :: rest) =
      quote name ++ ':' :: (render fmt v ++ renderFurther fmt rest) := by
  cases rest with
  | nil => rw [renderMembers, renderFurther, List.append_nil]
  | cons m rest => rw [renderMembers, renderFurther]

theorem ends_renderRest (items : List (Json ν)) (x : List Char) :
    Ends (renderRest fmt items ++ ']' :: x) := by
  cases items with
  | nil => exact ends_cons.mpr (by decide)
  | cons v rest => exact ends_cons.mpr (by decide)

theorem ends_renderFurther (members : List (String × Json ν)) (x : List Char) :
    Ends (renderFurther fmt members ++ '}' :: x) := by
  cases members with
  | nil => exact ends_cons.mpr (by decide)
  | cons m rest => exact ends_cons.mpr (by decide)

mutual

/-- **A value can be read off the front of a text in one way only.** -/
theorem render_append_inj (hfmt : Numerals fmt) :
    ∀ (v : Json ν) {w : Json ν} {x y : List Char}, Ends x → Ends y →
      render fmt v ++ x = render fmt w ++ y → v = w ∧ x = y
  | .null, w, x, y, _, _, h => by
    have hkind := kind_eq_of_render hfmt h
    cases w with
    | null => exact ⟨rfl, List.append_cancel_left h⟩
    | _ => exact nomatch hkind
  | .bool b, w, x, y, _, _, h => by
    have hkind := kind_eq_of_render hfmt h
    cases w with
    | bool b' =>
      rcases b with _ | _ <;> rcases b' with _ | _
      · exact ⟨rfl, List.append_cancel_left h⟩
      · exact absurd (List.cons.inj h).1 (by decide)
      · exact absurd (List.cons.inj h).1 (by decide)
      · exact ⟨rfl, List.append_cancel_left h⟩
    | _ => exact nomatch hkind
  | .number n, w, x, y, hx, hy, h => by
    have hkind := kind_eq_of_render hfmt h
    cases w with
    | number m =>
      rw [render, render] at h
      obtain ⟨rfl, hxy⟩ := number_append_inj hfmt hx hy h
      exact ⟨rfl, hxy⟩
    | _ => exact nomatch hkind
  | .string s, w, x, y, _, _, h => by
    have hkind := kind_eq_of_render hfmt h
    cases w with
    | string t =>
      rw [render, render] at h
      obtain ⟨rfl, hxy⟩ := quote_append_inj h
      exact ⟨rfl, hxy⟩
    | _ => exact nomatch hkind
  | .array items, w, x, y, _, _, h => by
    have hkind := kind_eq_of_render hfmt h
    cases w with
    | array items' =>
      simp only [render, List.cons_append, List.append_assoc, List.nil_append, List.cons.injEq,
        true_and] at h
      obtain ⟨rfl, hxy⟩ := renderItems_append_inj hfmt items h
      exact ⟨rfl, hxy⟩
    | _ => exact nomatch hkind
  | .object members, w, x, y, _, _, h => by
    have hkind := kind_eq_of_render hfmt h
    cases w with
    | object members' =>
      simp only [render, List.cons_append, List.append_assoc, List.nil_append, List.cons.injEq,
        true_and] at h
      obtain ⟨rfl, hxy⟩ := renderMembers_append_inj hfmt members h
      exact ⟨rfl, hxy⟩
    | _ => exact nomatch hkind

theorem renderItems_append_inj (hfmt : Numerals fmt) :
    ∀ (vs : List (Json ν)) {ws : List (Json ν)} {x y : List Char},
      renderItems fmt vs ++ ']' :: x = renderItems fmt ws ++ ']' :: y → vs = ws ∧ x = y
  | [], [], x, y, h => ⟨rfl, (List.cons.inj h).2⟩
  | [], w :: ws, x, y, h => by
    rw [renderItems, List.nil_append, renderItems_cons, List.append_assoc] at h
    exact absurd h (cons_ne_render hfmt (by decide) w)
  | v :: vs, [], x, y, h => by
    rw [renderItems, List.nil_append, renderItems_cons, List.append_assoc] at h
    exact absurd h.symm (cons_ne_render hfmt (by decide) v)
  | v :: vs, w :: ws, x, y, h => by
    rw [renderItems_cons, renderItems_cons, List.append_assoc, List.append_assoc] at h
    obtain ⟨rfl, hrest⟩ := render_append_inj hfmt v (ends_renderRest vs x) (ends_renderRest ws y) h
    rcases vs with _ | ⟨v', vs⟩
    · rcases ws with _ | ⟨w', ws⟩
      · exact ⟨rfl, (List.cons.inj hrest).2⟩
      · exact absurd (List.cons.inj hrest).1 (by decide)
    · rcases ws with _ | ⟨w', ws⟩
      · exact absurd (List.cons.inj hrest).1 (by decide)
      · obtain ⟨hsame, hxy⟩ := renderItems_append_inj hfmt (v' :: vs) (List.cons.inj hrest).2
        exact ⟨congrArg _ hsame, hxy⟩

theorem renderMembers_append_inj (hfmt : Numerals fmt) :
    ∀ (ms : List (String × Json ν)) {ns : List (String × Json ν)} {x y : List Char},
      renderMembers fmt ms ++ '}' :: x = renderMembers fmt ns ++ '}' :: y → ms = ns ∧ x = y
  | [], [], x, y, h => ⟨rfl, (List.cons.inj h).2⟩
  | [], (name, w) :: ns, x, y, h => by
    rw [renderMembers, List.nil_append, renderMembers_cons_eq, quote] at h
    exact absurd (List.cons.inj h).1 (by decide)
  | (name, v) :: ms, [], x, y, h => by
    rw [renderMembers, List.nil_append, renderMembers_cons_eq, quote] at h
    exact absurd (List.cons.inj h).1 (by decide)
  | (name, v) :: ms, (name', w) :: ns, x, y, h => by
    simp only [renderMembers_cons_eq, List.append_assoc, List.cons_append] at h
    obtain ⟨rfl, hvalue⟩ := quote_append_inj h
    obtain ⟨rfl, hrest⟩ := render_append_inj hfmt v (ends_renderFurther ms x)
      (ends_renderFurther ns y) (List.cons.inj hvalue).2
    rcases ms with _ | ⟨m, ms⟩
    · rcases ns with _ | ⟨n, ns⟩
      · exact ⟨rfl, (List.cons.inj hrest).2⟩
      · exact absurd (List.cons.inj hrest).1 (by decide)
    · rcases ns with _ | ⟨n, ns⟩
      · exact absurd (List.cons.inj hrest).1 (by decide)
      · obtain ⟨hsame, hxy⟩ := renderMembers_append_inj hfmt (m :: ms) (List.cons.inj hrest).2
        exact ⟨congrArg _ hsame, hxy⟩

end

/-- **Different values have different texts.** -/
theorem render_injective (hfmt : Numerals fmt) : Function.Injective (render fmt) := by
  intro v w h
  have hnil : Ends [] := fun c hc => nomatch hc
  exact (render_append_inj hfmt v hnil hnil (congrArg (· ++ []) h)).1

/-- Decimal numbers are numerals. -/
theorem numerals_toDigits : Numerals (Nat.toDigits 10) where
  ne_nil _ := Nat.toDigits_ne_nil
  numeral _ c hc := by
    have hdigit : c.isDigit = true := Nat.isDigit_of_mem_toDigits (by decide) (by decide) hc
    rw [isNumeral, hdigit, Bool.true_or]
  injective n m h := by
    rw [← Nat.ofDigitChars_ten_toDigits (n := n), h, Nat.ofDigitChars_ten_toDigits]

end Json
