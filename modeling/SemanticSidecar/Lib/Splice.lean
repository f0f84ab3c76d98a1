import Mathlib.Data.List.Infix

/-!
# Counting and replacing

A pattern is looked for from left to right, and the search goes on behind what it has found.  Cut at
these places, a list is its `pieces` with the pattern in between; if the pattern is replaced it is
the same pieces with the replacement in between (`replace_spliced`).

`count_replace` says when one pattern is left alone as another is replaced: neither pattern begins
with anything that occurs in the other one, or in the replacement.

Two ways of counting have to agree, one that goes on behind an occurrence and one that replaces it
and goes on behind the replacement.  `scan_induction` is the induction that both are proved by, with
three cases: the end of the list, an occurrence at its front, and an element that no occurrence
begins with.

`Foreign` is a condition on first elements, and stronger than it has to be.  It can be checked on
given patterns by looking at them, and without it an occurrence may come about at the border of a
replacement.
-/

set_option autoImplicit false

namespace Splice

variable {α : Type} [DecidableEq α]

/-- The occurrences in a list without so many of its first items. -/
def countFrom (pattern : List α) : ℕ → List α → ℕ
  | _, [] => 0
  | skip + 1, _ :: rest => countFrom pattern skip rest
  | 0, c :: rest =>
    if pattern.isPrefixOf (c :: rest) then countFrom pattern (pattern.length - 1) rest + 1
    else countFrom pattern 0 rest

/-- `list.count(pattern)`, of a pattern that is not empty. -/
def count (pattern list : List α) : ℕ := countFrom pattern 0 list

/-- The replacement of every occurrence, with so many elements still to be skipped. -/
def replaceFrom (pattern replacement : List α) : ℕ → List α → List α
  | _, [] => []
  | skip + 1, _ :: rest => replaceFrom pattern replacement skip rest
  | 0, c :: rest =>
    if pattern.isPrefixOf (c :: rest) then
      replacement ++ replaceFrom pattern replacement (pattern.length - 1) rest
    else c :: replaceFrom pattern replacement 0 rest

/-- `list.replace(pattern, replacement)`, of a pattern that is not empty. -/
def replace (pattern replacement list : List α) : List α :=
  replaceFrom pattern replacement 0 list

/-- The same pieces, with one thing in between and with another, so many times. -/
def Spliced (pattern replacement : List α) (n : ℕ) (old new : List α) : Prop :=
  ∃ pieces : List (List α), pieces.length = n + 1 ∧ old = pattern.intercalate pieces ∧
    new = replacement.intercalate pieces

variable {p r q s : List α}

/-! ## The search -/

theorem countFrom_eq (p : List α) (skip : ℕ) (s : List α) :
    countFrom p skip s = count p (s.drop skip) := by
  induction skip generalizing s with
  | zero => rw [List.drop_zero, count]
  | succ skip ih =>
    cases s with
    | nil => rfl
    | cons c s => rw [countFrom, ih, List.drop_succ_cons]

theorem replaceFrom_eq (p r : List α) (skip : ℕ) (s : List α) :
    replaceFrom p r skip s = replace p r (s.drop skip) := by
  induction skip generalizing s with
  | zero => rw [List.drop_zero, replace]
  | succ skip ih =>
    cases s with
    | nil => rfl
    | cons c s => rw [replaceFrom, ih, List.drop_succ_cons]

theorem isPrefixOf_eq_false {c : α} (h : ¬ p <+: c :: s) : ¬ p.isPrefixOf (c :: s) = true :=
  fun h' => h (List.isPrefixOf_iff_prefix.mp h')

theorem count_self_append (hp : p ≠ []) (s : List α) : count p (p ++ s) = count p s + 1 := by
  obtain ⟨c, p', rfl⟩ := List.exists_cons_of_ne_nil hp
  have hfound : (c :: p').isPrefixOf (c :: (p' ++ s)) = true :=
    List.isPrefixOf_iff_prefix.mpr (List.prefix_append _ _)
  rw [count, List.cons_append, countFrom, if_pos hfound, countFrom_eq, List.length_cons,
    Nat.add_sub_cancel, List.drop_left]

theorem count_cons {c : α} (h : ¬ p <+: c :: s) : count p (c :: s) = count p s := by
  rw [count, countFrom, if_neg (isPrefixOf_eq_false h), count]

theorem replace_self_append (hp : p ≠ []) (r s : List α) :
    replace p r (p ++ s) = r ++ replace p r s := by
  obtain ⟨c, p', rfl⟩ := List.exists_cons_of_ne_nil hp
  have hfound : (c :: p').isPrefixOf (c :: (p' ++ s)) = true :=
    List.isPrefixOf_iff_prefix.mpr (List.prefix_append _ _)
  rw [replace, List.cons_append, replaceFrom, if_pos hfound, replaceFrom_eq, List.length_cons,
    Nat.add_sub_cancel, List.drop_left]

theorem replace_cons {c : α} (r : List α) (h : ¬ p <+: c :: s) :
    replace p r (c :: s) = c :: replace p r s := by
  rw [replace, replaceFrom, if_neg (isPrefixOf_eq_false h), replace]

/-- A list as the search goes over it. -/
@[elab_as_elim]
theorem scan_induction (hp : p ≠ []) {motive : List α → Prop} (nil : motive [])
    (found : ∀ s, motive s → motive (p ++ s))
    (other : ∀ c s, ¬ p <+: c :: s → motive s → motive (c :: s)) (s : List α) : motive s := by
  induction hn : s.length using Nat.strongRecOn generalizing s with
  | ind n ih =>
    by_cases hfound : p <+: s
    · obtain ⟨rest, rfl⟩ := hfound
      have hpos := List.length_pos_iff.mpr hp
      rw [List.length_append] at hn
      exact found rest (ih rest.length (by omega) rest rfl)
    · cases s with
      | nil => exact nil
      | cons c rest =>
        rw [List.length_cons] at hn
        exact other c rest hfound (ih rest.length (by omega) rest rfl)

/-! ## Pieces -/

/-- **The list and the result have the same pieces.** -/
theorem replace_spliced (hp : p ≠ []) (r s : List α) :
    Spliced p r (count p s) s (replace p r s) := by
  induction s using scan_induction hp with
  | nil => exact ⟨[[]], rfl, rfl, rfl⟩
  | found s ih =>
    obtain ⟨pieces, hlength, hold, hnew⟩ := ih
    have hne : pieces ≠ [] := List.length_pos_iff.mp (by omega)
    refine ⟨[] :: pieces, ?_, ?_, ?_⟩
    · rw [List.length_cons, hlength, count_self_append hp]
    · rw [List.intercalate_cons_of_ne_nil hne, ← hold, List.nil_append]
    · rw [List.intercalate_cons_of_ne_nil hne, ← hnew, List.nil_append, replace_self_append hp]
  | other c s hother ih =>
    obtain ⟨pieces, hlength, hold, hnew⟩ := ih
    have hne : pieces ≠ [] := List.length_pos_iff.mp (by omega)
    obtain ⟨piece, rest, rfl⟩ := List.exists_cons_of_ne_nil hne
    refine ⟨(c :: piece) :: rest, by rw [count_cons hother, ← hlength]; rfl, ?_, ?_⟩
    · rw [List.intercalate_cons_cons_left, ← hold]
    · rw [List.intercalate_cons_cons_left, ← hnew, replace_cons r hother]

omit [DecidableEq α] in
/-- What is replaced with is there afterwards. -/
theorem Spliced.isInfix {n : ℕ} {old new : List α} (h : Spliced p r n old new) (hn : n ≠ 0) :
    r <:+: new := by
  obtain ⟨pieces, hlength, -, hnew⟩ := h
  match pieces, hlength with
  | [], hlength => cases hlength
  | [_], hlength => exact absurd (Nat.succ.inj hlength).symm hn
  | first :: second :: rest, _ =>
    rw [hnew, List.intercalate_cons_cons]
    exact ⟨first, _, rfl⟩

/-! ## One pattern and another -/

omit [DecidableEq α] in
theorem not_prefix_of_head {c : α} (hq : q ≠ []) (h : ∀ b ∈ q.head?, b ≠ c) (s : List α) :
    ¬ q <+: c :: s := by
  obtain ⟨b, q', rfl⟩ := List.exists_cons_of_ne_nil hq
  exact fun hprefixed => h b rfl (List.cons_prefix_cons.mp hprefixed).1

/-- A pattern is not found in what its first item is not in. -/
theorem count_append (hq : q ≠ []) {a : List α} (h : ∀ b ∈ q.head?, b ∉ a) (s : List α) :
    count q (a ++ s) = count q s := by
  induction a with
  | nil => rfl
  | cons c a ih =>
    have hne : ∀ b ∈ q.head?, b ≠ c := fun b hb heq => h b hb (heq ▸ List.mem_cons_self)
    rw [List.cons_append, count_cons (not_prefix_of_head hq hne _),
      ih fun b hb hmem => h b hb (List.mem_cons_of_mem _ hmem)]

theorem replace_append (hp : p ≠ []) (r : List α) {a : List α} (h : ∀ b ∈ p.head?, b ∉ a)
    (s : List α) : replace p r (a ++ s) = a ++ replace p r s := by
  induction a with
  | nil => rfl
  | cons c a ih =>
    have hne : ∀ b ∈ p.head?, b ≠ c := fun b hb heq => h b hb (heq ▸ List.mem_cons_self)
    rw [List.cons_append, replace_cons r (not_prefix_of_head hp hne _),
      ih fun b hb hmem => h b hb (List.mem_cons_of_mem _ hmem), List.cons_append]

/-- What a result begins with was there, if no replacement begins in it. -/
theorem prefix_of_replace (hp : p ≠ []) (hr : r ≠ []) {a : List α} (h : ∀ d ∈ r.head?, d ∉ a)
    (hresult : a <+: replace p r s) : a <+: s := by
  induction a generalizing s with
  | nil => exact List.nil_prefix
  | cons x a ih =>
    by_cases hfound : p <+: s
    · obtain ⟨rest, rfl⟩ := hfound
      obtain ⟨d, r', rfl⟩ := List.exists_cons_of_ne_nil hr
      rw [replace_self_append hp, List.cons_append] at hresult
      exact absurd (List.mem_cons.mpr (.inl (List.cons_prefix_cons.mp hresult).1.symm)) (h d rfl)
    · cases s with
      | nil => exact absurd (List.prefix_nil.mp hresult) (List.cons_ne_nil x a)
      | cons c s =>
        rw [replace_cons r hfound] at hresult
        obtain ⟨rfl, hrest⟩ := List.cons_prefix_cons.mp hresult
        exact List.cons_prefix_cons.mpr
          ⟨rfl, ih (fun d hd hmem => h d hd (List.mem_cons_of_mem _ hmem)) hrest⟩

/-- Neither pattern begins with anything that occurs in the other one or in the replacement. -/
structure Foreign (p r q : List α) : Prop where
  /-- The other pattern does not have what this one begins with. -/
  pattern : ∀ a ∈ p.head?, a ∉ q
  /-- The other pattern does not have what the replacement begins with. -/
  replacement : ∀ d ∈ r.head?, d ∉ q
  /-- Neither this pattern nor the replacement has what the other one begins with. -/
  other : ∀ b ∈ q.head?, b ∉ p ∧ b ∉ r

/-- **A foreign pattern is found as often as before.** -/
theorem count_replace (hp : p ≠ []) (hr : r ≠ []) (hq : q ≠ []) (h : Foreign p r q) (s : List α) :
    count q (replace p r s) = count q s := by
  induction hn : s.length using Nat.strongRecOn generalizing s with
  | ind n ih =>
    by_cases hfound : p <+: s
    · obtain ⟨rest, rfl⟩ := hfound
      have hpos := List.length_pos_iff.mpr hp
      rw [List.length_append] at hn
      rw [replace_self_append hp, count_append hq fun b hb => (h.other b hb).2,
        count_append hq fun b hb => (h.other b hb).1, ih rest.length (by omega) rest rfl]
    · by_cases hfound' : q <+: s
      · obtain ⟨rest, rfl⟩ := hfound'
        have hpos := List.length_pos_iff.mpr hq
        rw [List.length_append] at hn
        rw [replace_append hp r h.pattern, count_self_append hq, count_self_append hq,
          ih rest.length (by omega) rest rfl]
      · cases s with
        | nil => rfl
        | cons c s =>
          have hnot : ¬ q <+: c :: replace p r s := by
            intro hprefixed
            obtain ⟨b, q', rfl⟩ := List.exists_cons_of_ne_nil hq
            obtain ⟨rfl, hrest⟩ := List.cons_prefix_cons.mp hprefixed
            refine hfound' (List.cons_prefix_cons.mpr ⟨rfl, prefix_of_replace hp hr ?_ hrest⟩)
            exact fun d hd hmem => h.replacement d hd (List.mem_cons_of_mem _ hmem)
          rw [replace_cons r hfound, count_cons hnot, count_cons hfound',
            ih s.length (by rw [← hn]; exact Nat.lt_succ_self _) s rfl]

end Splice
