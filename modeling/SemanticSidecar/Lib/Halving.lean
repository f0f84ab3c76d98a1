import Mathlib.Data.Nat.Basic
import Mathlib.Logic.ExistsUnique

/-!
# Halving an interval

A binary search for what is wrong with a list looks at an interval of its positions, and where it
cannot tell it looks at the two halves, the front first.  `halving splits span` is everything it
looks at, in this order, when `splits` decides where to go on; an interval of one position is never
cut.

The intervals that are not cut any further are the leaves.  `existsUnique_leaf` is the fact that
makes such a search useful: every position is in exactly one of them.

* `halving_empty`, `halving_leaf` and `halving_split` are the equations of the search, by cases on
  an interval.
* `length_slice`, `take_slice` and `drop_slice` tie positions to the list, so that the halves of a
  slice are the slices of the halves.
* `through p` is the beginning of a list up to the first element with `p`, that one included: a
  search that is stopped at an interval has looked at these and at no others.

The middle of an interval of odd length goes to the back, so that the front is never the longer one.
-/

set_option autoImplicit false

/-- An interval of positions. -/
structure Span where
  /-- The first item. -/
  start : ℕ
  /-- How many items there are. -/
  count : ℕ
deriving DecidableEq

namespace Span

variable {α : Type}

/-- The position is in the interval. -/
def Contains (span : Span) (i : ℕ) : Prop := span.start ≤ i ∧ i < span.start + span.count

/-- One interval is a part of another. -/
def Within (part span : Span) : Prop :=
  span.start ≤ part.start ∧ part.start + part.count ≤ span.start + span.count

/-- The first half, the smaller one where the count is odd. -/
def front (span : Span) : Span := ⟨span.start, span.count / 2⟩

/-- The second half. -/
def back (span : Span) : Span := ⟨span.start + span.count / 2, span.count - span.count / 2⟩

/-- What a list has at the positions of an interval. -/
def slice (items : List α) (span : Span) : List α := (items.drop span.start).take span.count

/-- All positions of a list. -/
def whole (items : List α) : Span := ⟨0, items.length⟩

theorem within_refl (span : Span) : Within span span := ⟨le_rfl, le_rfl⟩

theorem Within.trans {a b c : Span} (hab : Within a b) (hbc : Within b c) : Within a c := by
  obtain ⟨h₁, h₂⟩ := hab
  obtain ⟨h₃, h₄⟩ := hbc
  exact ⟨by omega, by omega⟩

theorem front_within (span : Span) : Within span.front span := by
  simp only [Within, front]
  omega

theorem back_within (span : Span) : Within span.back span := by
  simp only [Within, back]
  omega

theorem Within.contains {part span : Span} (h : Within part span) {i : ℕ} (hi : part.Contains i) :
    span.Contains i := by
  obtain ⟨h₁, h₂⟩ := h
  obtain ⟨h₃, h₄⟩ := hi
  exact ⟨by omega, by omega⟩

/-- A position of the interval is in one half or the other, and not in both. -/
theorem contains_iff_halves (span : Span) (i : ℕ) :
    span.Contains i ↔ span.front.Contains i ∧ ¬ span.back.Contains i ∨
      span.back.Contains i ∧ ¬ span.front.Contains i := by
  simp only [Contains, front, back]
  omega

theorem contains_singleton {span : Span} (h : span.count = 1) {i : ℕ} (hi : span.Contains i) :
    span = ⟨i, 1⟩ := by
  obtain ⟨start, count⟩ := span
  obtain ⟨h₁, h₂⟩ := hi
  simp only [mk.injEq] at *
  omega

/-! ## Slices -/

theorem length_slice {items : List α} {span : Span} (h : span.Within (whole items)) :
    (slice items span).length = span.count := by
  obtain ⟨-, h⟩ := h
  simp only [whole] at h
  rw [slice, List.length_take, List.length_drop]
  omega

@[simp] theorem slice_whole (items : List α) : slice items (whole items) = items := by
  simp [slice, whole]

theorem take_slice (items : List α) (span : Span) :
    (slice items span).take (span.count / 2) = slice items span.front := by
  rw [slice, slice, List.take_take, front, Nat.min_eq_left (Nat.div_le_self _ _)]

theorem drop_slice (items : List α) (span : Span) :
    (slice items span).drop (span.count / 2) = slice items span.back := by
  rw [slice, slice, List.drop_take, List.drop_drop, back]

end Span

namespace Halving

open Span

/-! ## What a search looks at -/

/-- The intervals the search looks at, each before its halves and the front before the back. -/
def halving (splits : Span → Bool) (span : Span) : List Span :=
  if _hempty : span.count = 0 then []
  else if _hone : span.count = 1 then [span]
  else if splits span then span :: (halving splits span.front ++ halving splits span.back)
  else [span]
termination_by span.count
decreasing_by
  all_goals
    simp only [front, back]
    omega

/-- The search looks at the interval and goes no further there. -/
def IsLeaf (splits : Span → Bool) (span leaf : Span) : Prop :=
  leaf ∈ halving splits span ∧ (leaf.count = 1 ∨ splits leaf = false)

variable {splits : Span → Bool} {span : Span}

theorem halving_empty (h : span.count = 0) : halving splits span = [] := by
  rw [halving, dif_pos h]

theorem halving_leaf (hpos : 0 < span.count) (h : span.count = 1 ∨ splits span = false) :
    halving splits span = [span] := by
  rw [halving, dif_neg (by omega)]
  split
  · rfl
  · rw [if_neg]
    rw [h.resolve_left ‹_›]
    simp

theorem halving_split (hmany : 1 < span.count) (h : splits span = true) :
    halving splits span = span :: (halving splits span.front ++ halving splits span.back) := by
  rw [halving, dif_neg (by omega), dif_neg (by omega), if_pos h]

theorem within_of_mem_halving {part : Span} (h : part ∈ halving splits span) :
    part.Within span := by
  induction hn : span.count using Nat.strong_induction_on generalizing span with
  | _ n ih =>
    rcases Nat.eq_zero_or_pos span.count with hzero | hpos
    · rw [halving_empty hzero] at h
      cases h
    · by_cases hleaf : span.count = 1 ∨ splits span = false
      · rw [halving_leaf hpos hleaf, List.mem_singleton] at h
        rw [h]
        exact within_refl span
      · rw [not_or, Bool.not_eq_false] at hleaf
        rw [halving_split (by omega) hleaf.2, List.mem_cons, List.mem_append] at h
        rcases h with rfl | h | h
        · exact within_refl part
        · exact (ih _ (by simp only [front]; omega) h rfl).trans (front_within span)
        · exact (ih _ (by simp only [back]; omega) h rfl).trans (back_within span)

/-- The leaves of an interval that is cut are those of its halves. -/
theorem isLeaf_split (hmany : 1 < span.count) (h : splits span = true) (leaf : Span) :
    IsLeaf splits span leaf ↔ IsLeaf splits span.front leaf ∨ IsLeaf splits span.back leaf := by
  simp only [IsLeaf, halving_split hmany h, List.mem_cons, List.mem_append]
  constructor
  · rintro ⟨rfl | hfront | hback, hleaf⟩
    · rw [h] at hleaf
      exact absurd hleaf (by simp; omega)
    · exact Or.inl ⟨hfront, hleaf⟩
    · exact Or.inr ⟨hback, hleaf⟩
  · rintro (⟨hmem, hleaf⟩ | ⟨hmem, hleaf⟩)
    · exact ⟨Or.inr (Or.inl hmem), hleaf⟩
    · exact ⟨Or.inr (Or.inr hmem), hleaf⟩

theorem isLeaf_leaf (hpos : 0 < span.count) (h : span.count = 1 ∨ splits span = false)
    (leaf : Span) : IsLeaf splits span leaf ↔ leaf = span := by
  rw [IsLeaf, halving_leaf hpos h, List.mem_singleton]
  constructor
  · exact And.left
  · rintro rfl
    exact ⟨rfl, h⟩

/-- **Every position is in exactly one leaf.** -/
theorem existsUnique_leaf {i : ℕ} (hi : span.Contains i) :
    ∃! leaf, IsLeaf splits span leaf ∧ leaf.Contains i := by
  induction hn : span.count using Nat.strong_induction_on generalizing span with
  | _ n ih =>
    have hpos : 0 < span.count := by
      obtain ⟨h₁, h₂⟩ := hi
      omega
    by_cases hleaf : span.count = 1 ∨ splits span = false
    · refine ⟨span, ⟨(isLeaf_leaf hpos hleaf span).mpr rfl, hi⟩, fun leaf hleaf' => ?_⟩
      exact (isLeaf_leaf hpos hleaf leaf).mp hleaf'.1
    · rw [not_or, Bool.not_eq_false] at hleaf
      have hmany : 1 < span.count := by omega
      -- The leaf is in the half that has the position; a leaf of the other half does not have it.
      rcases (contains_iff_halves span i).mp hi with ⟨hin, hout⟩ | ⟨hin, hout⟩
      · obtain ⟨leaf, ⟨hmine, hcontains⟩, hunique⟩ := ih _ (by simp only [front]; omega) hin rfl
        refine ⟨leaf, ⟨(isLeaf_split hmany hleaf.2 leaf).mpr (Or.inl hmine), hcontains⟩, ?_⟩
        rintro other ⟨hother, hother'⟩
        rcases (isLeaf_split hmany hleaf.2 other).mp hother with h | h
        · exact hunique other ⟨h, hother'⟩
        · exact absurd ((within_of_mem_halving h.1).contains hother') hout
      · obtain ⟨leaf, ⟨hmine, hcontains⟩, hunique⟩ := ih _ (by simp only [back]; omega) hin rfl
        refine ⟨leaf, ⟨(isLeaf_split hmany hleaf.2 leaf).mpr (Or.inr hmine), hcontains⟩, ?_⟩
        rintro other ⟨hother, hother'⟩
        rcases (isLeaf_split hmany hleaf.2 other).mp hother with h | h
        · exact absurd ((within_of_mem_halving h.1).contains hother') hout
        · exact hunique other ⟨h, hother'⟩

/-! ## A search that stops -/

section

variable {α : Type} {p : α → Bool}

/-- The elements up to the first one that stops the search, and that one. -/
def through (p : α → Bool) : List α → List α
  | [] => []
  | x :: rest => if p x then [x] else x :: through p rest

theorem through_of_stops {front : List α} (h : ∃ x ∈ front, p x = true) (back : List α) :
    through p (front ++ back) = through p front := by
  induction front with
  | nil =>
    obtain ⟨x, hx, -⟩ := h
    cases hx
  | cons x rest ih =>
    rw [List.cons_append, through, through]
    split
    · rfl
    · refine congrArg _ (ih ?_)
      obtain ⟨y, hy, hstops⟩ := h
      rcases List.mem_cons.mp hy with rfl | hy
      · exact absurd hstops ‹_›
      · exact ⟨y, hy, hstops⟩

theorem through_of_goesOn {front : List α} (h : ∀ x ∈ front, p x = false) (back : List α) :
    through p (front ++ back) = front ++ through p back := by
  induction front with
  | nil => rfl
  | cons x rest ih =>
    rw [List.cons_append, through, h x List.mem_cons_self, if_neg Bool.false_ne_true,
      ih fun y hy => h y (List.mem_cons_of_mem x hy), List.cons_append]

end

end Halving
