import Mathlib.Algebra.Group.Nat.Defs
import Mathlib.Data.List.Basic
import Mathlib.Data.Nat.Basic
import Mathlib.Tactic.Common

/-!
# Encodings that can be taken apart

There are two ways to put several lists into one so that they can be told apart again.  A separator
may stand between them, which works as far as they do not contain it: the first separator ends what
has none before it (`append_sep_inj`), and the last one begins what has none after it
(`append_lastSep_inj`).  Or each of them may have its length before it, which always works
(`flatMap_lengthPrefixed_inj`).

Lengths are written with a fixed number of bytes, the low-order byte first, so a part must not be
longer than what they can express; this is the one condition of `flatMap_lengthPrefixed_inj`, and
also of `lengthPrefixed_append_inj`, which takes one part off the front of anything.

For texts with several separators `append_separated_inj` does the step from one part to the rest.
It is what tells apart texts in which parts of different kinds come one after the other.
-/

set_option autoImplicit false

namespace Encoding

/-! ## Separators -/

section

variable {α : Type*} {sep : α}

/-- What stands before the first separator. -/
theorem append_sep_inj {a a' b b' : List α} (ha : sep ∉ a) (ha' : sep ∉ a')
    (h : a ++ sep :: b = a' ++ sep :: b') : a = a' ∧ b = b' := by
  induction a generalizing a' with
  | nil =>
    rcases a' with _ | ⟨x, a'⟩
    · exact ⟨rfl, (List.cons.inj h).2⟩
    · exact absurd ((List.cons.inj h).1 ▸ List.mem_cons_self) ha'
  | cons x a ih =>
    rcases a' with _ | ⟨y, a'⟩
    · exact absurd ((List.cons.inj h).1 ▸ List.mem_cons_self) ha
    · obtain ⟨rfl, htail⟩ := List.cons.inj h
      obtain ⟨rfl, hb⟩ := ih (List.not_mem_of_not_mem_cons ha) (List.not_mem_of_not_mem_cons ha')
        htail
      exact ⟨rfl, hb⟩

/-- What stands after the last one. -/
theorem append_lastSep_inj {a a' b b' : List α} (hb : sep ∉ b) (hb' : sep ∉ b')
    (h : a ++ sep :: b = a' ++ sep :: b') : a = a' ∧ b = b' := by
  have hreverse := congrArg List.reverse h
  rw [List.reverse_append, List.reverse_append, List.reverse_cons, List.reverse_cons,
    List.append_assoc, List.append_assoc, List.singleton_append, List.singleton_append] at hreverse
  obtain ⟨hright, hleft⟩ := append_sep_inj (List.mem_reverse.not.mpr hb)
    (List.mem_reverse.not.mpr hb') hreverse
  exact ⟨List.reverse_injective hleft, List.reverse_injective hright⟩

/-- Lists with a separator before each. -/
def separated (sep : α) (parts : List (List α)) : List α := parts.flatMap fun part => sep :: part

theorem separated_cons (part : List α) (parts : List (List α)) :
    separated sep (part :: parts) = sep :: (part ++ separated sep parts) :=
  List.flatMap_cons

/-- Joining puts one between each two. -/
theorem intercalate_cons (part : List α) (parts : List (List α)) :
    List.intercalate [sep] (part :: parts) = part ++ separated sep parts := by
  induction parts generalizing part with
  | nil => exact (List.intercalate_singleton ..).trans (List.append_nil _).symm
  | cons next rest ih =>
    rw [List.intercalate_cons_cons, ih, separated_cons, List.append_assoc]
    rfl

/-- A first part without separators ends where the separated ones begin. -/
theorem append_separated_inj {a a' : List α} {parts parts' : List (List α)} (ha : sep ∉ a)
    (ha' : sep ∉ a') (h : a ++ separated sep parts = a' ++ separated sep parts') :
    a = a' ∧ separated sep parts = separated sep parts' := by
  rcases parts with _ | ⟨part, parts⟩
  · rcases parts' with _ | ⟨part', parts'⟩
    · exact ⟨List.append_cancel_right h, rfl⟩
    · have hmem : sep ∈ a ++ separated sep [] := by
        rw [h, separated_cons]
        exact List.mem_append_right _ List.mem_cons_self
      exact absurd ((List.append_nil a).symm ▸ hmem) ha
  · rcases parts' with _ | ⟨part', parts'⟩
    · have hmem : sep ∈ a' ++ separated sep [] := by
        rw [← h, separated_cons]
        exact List.mem_append_right _ List.mem_cons_self
      exact absurd ((List.append_nil a').symm ▸ hmem) ha'
    · rw [separated_cons, separated_cons] at h ⊢
      obtain ⟨hfirst, hrest⟩ := append_sep_inj ha ha' h
      exact ⟨hfirst, congrArg _ hrest⟩

end

/-! ## Lengths -/

/-- `to_le_bytes`. -/
def leBytes (width n : ℕ) : List UInt8 :=
  (List.range width).map fun i => UInt8.ofNat (n / 256 ^ i)

theorem leBytes_length (width n : ℕ) : (leBytes width n).length = width := by
  rw [leBytes, List.length_map, List.length_range]

theorem leBytes_succ (width n : ℕ) :
    leBytes (width + 1) n = UInt8.ofNat n :: leBytes width (n / 256) := by
  rw [leBytes, List.range_succ_eq_map, List.map_cons, List.map_map, Nat.pow_zero, Nat.div_one, leBytes]
  refine congrArg _ (List.map_congr_left fun i _ => ?_)
  rw [Function.comp_apply, Nat.pow_succ', Nat.div_div_eq_div_mul]

theorem leBytes_inj {width n n' : ℕ} (hn : n < 256 ^ width) (hn' : n' < 256 ^ width)
    (h : leBytes width n = leBytes width n') : n = n' := by
  induction width generalizing n n' with
  | zero => omega
  | succ width ih =>
    rw [leBytes_succ, leBytes_succ] at h
    obtain ⟨hlow, hhigh⟩ := List.cons.inj h
    have hdiv := ih (by omega) (by omega) hhigh
    have hmod : n % 256 = n' % 256 := congrArg UInt8.toNat hlow
    omega

/-- A list with its length before it. -/
def lengthPrefixed (width : ℕ) (bytes : List UInt8) : List UInt8 :=
  leBytes width bytes.length ++ bytes

theorem lengthPrefixed_append_inj {width : ℕ} {a a' b b' : List UInt8}
    (ha : a.length < 256 ^ width) (ha' : a'.length < 256 ^ width)
    (h : lengthPrefixed width a ++ b = lengthPrefixed width a' ++ b') : a = a' ∧ b = b' := by
  rw [lengthPrefixed, lengthPrefixed, List.append_assoc, List.append_assoc] at h
  obtain ⟨hlength, hrest⟩ := List.append_inj h ((leBytes_length _ _).trans (leBytes_length _ _).symm)
  exact List.append_inj hrest (leBytes_inj ha ha' hlength)

/-- As many lists with their lengths before them are the same lists. -/
theorem flatMap_lengthPrefixed_inj {width : ℕ} {parts parts' : List (List UInt8)}
    (hcount : parts.length = parts'.length) (hparts : ∀ part ∈ parts, part.length < 256 ^ width)
    (hparts' : ∀ part ∈ parts', part.length < 256 ^ width)
    (h : parts.flatMap (lengthPrefixed width) = parts'.flatMap (lengthPrefixed width)) :
    parts = parts' := by
  induction parts generalizing parts' with
  | nil => exact (List.eq_nil_of_length_eq_zero hcount.symm).symm
  | cons part parts ih =>
    obtain ⟨part', parts', rfl⟩ := List.exists_cons_of_length_eq_add_one hcount.symm
    rw [List.flatMap_cons, List.flatMap_cons] at h
    obtain ⟨hpart, hrest⟩ := List.forall_mem_cons.mp hparts
    obtain ⟨hpart', hrest'⟩ := List.forall_mem_cons.mp hparts'
    obtain ⟨rfl, htail⟩ := lengthPrefixed_append_inj hpart hpart' h
    rw [ih (Nat.succ.inj hcount) hrest hrest' htail]

end Encoding
