import Mathlib.Data.List.Forall2

/-!
# Checks in a row

A validator is a sequence of checks, some of them over a list, that stops at the first one that
fails.  Whether it accepts is a conjunction, and so is what may be concluded when it does; the
lemmas here turn the one into the other, connective by connective.

There is an `iff` for every way of putting checks together: one check, one after the other, a result
that is mapped, an error that is given another text, and a list of checks, with results
(`mapM_eq_ok`) or without (`forM_eq_ok`).  A proof about a validator rewrites with these from the
outside in, and is left with the conjunction of what was checked.

The error that is reported is the first one.  Where only acceptance matters this is lost on purpose;
`mapM_congr` and `eq_of_mapM` compare two validators as functions, errors included.
-/

set_option autoImplicit false

namespace Fallible

variable {ε α β : Type}

/-- A condition, and what is wrong if it fails. -/
def check (condition : Prop) [Decidable condition] (reason : ε) : Except ε Unit :=
  if condition then .ok () else .error reason

@[simp]
theorem check_eq_ok {condition : Prop} [Decidable condition] {reason : ε} {u : Unit} :
    check condition reason = .ok u ↔ condition := by
  rw [check]
  split
  · exact iff_of_true rfl ‹_›
  · exact iff_of_false nofun ‹_›

/-- A step and the rest. -/
theorem bind_eq_ok {x : Except ε α} {f : α → Except ε β} {b : β} :
    x >>= f = .ok b ↔ ∃ a, x = .ok a ∧ f a = .ok b := by
  rcases x with reason | a
  · exact iff_of_false nofun fun ⟨_, h, _⟩ => (nomatch h)
  · refine ⟨fun h => ⟨a, rfl, h⟩, ?_⟩
    rintro ⟨a', h, hb⟩
    exact Except.ok.inj h ▸ hb

/-- A check and the rest. -/
theorem then_eq_ok {x : Except ε Unit} {f : Unit → Except ε β} {b : β} :
    x >>= f = .ok b ↔ x = .ok () ∧ f () = .ok b := by
  rw [bind_eq_ok]
  exact ⟨fun ⟨_, h⟩ => h, fun h => ⟨(), h⟩⟩

/-- Another wording of what is wrong. -/
theorem mapError_eq_ok {ε' : Type} {x : Except ε α} {f : ε → ε'} {a : α} :
    x.mapError f = .ok a ↔ x = .ok a := by
  rcases x with reason | a'
  · exact iff_of_false nofun nofun
  · exact ⟨fun h => congrArg _ (Except.ok.inj h), fun h => congrArg _ (Except.ok.inj h)⟩

/-- What is made of a result. -/
theorem map_eq_ok {x : Except ε α} {f : α → β} {b : β} :
    x.map f = .ok b ↔ ∃ a, x = .ok a ∧ f a = b := by
  rcases x with reason | a
  · exact iff_of_false nofun fun ⟨_, h, _⟩ => (nomatch h)
  · refine ⟨fun h => ⟨a, rfl, Except.ok.inj h⟩, ?_⟩
    rintro ⟨a', h, rfl⟩
    exact Except.ok.inj h ▸ rfl

/-- Checks of every item. -/
theorem forM_eq_ok {f : α → Except ε Unit} {items : List α} {u : Unit} :
    items.forM f = .ok u ↔ ∀ a ∈ items, f a = .ok () := by
  induction items with
  | nil => exact iff_of_true rfl fun _ h => absurd h List.not_mem_nil
  | cons a rest ih =>
    have hcons : (a :: rest).forM f = f a >>= fun _ => rest.forM f := rfl
    rw [hcons, then_eq_ok, ih, List.forall_mem_cons]

/-- What becomes of every item. -/
theorem mapM_eq_ok {f : α → Except ε β} {items : List α} {results : List β} :
    items.mapM f = .ok results ↔ List.Forall₂ (fun a b => f a = .ok b) items results := by
  induction items generalizing results with
  | nil =>
    rw [List.mapM_nil, List.forall₂_nil_left_iff]
    exact ⟨fun h => (Except.ok.inj h).symm, fun h => congrArg _ h.symm⟩
  | cons a rest ih =>
    rw [List.mapM_cons, bind_eq_ok, List.forall₂_cons_left_iff]
    refine exists_congr fun b => ⟨?_, ?_⟩
    · rintro ⟨hb, hrest⟩
      obtain ⟨others, hothers, heq⟩ := bind_eq_ok.mp hrest
      exact ⟨others, hb, ih.mp hothers, (Except.ok.inj heq).symm⟩
    · rintro ⟨others, hb, hothers, rfl⟩
      exact ⟨hb, bind_eq_ok.mpr ⟨others, ih.mpr hothers, rfl⟩⟩

theorem mem_of_mapM {f : α → Except ε β} {items : List α} {results : List β}
    (h : items.mapM f = .ok results) {b : β} : b ∈ results ↔ ∃ a ∈ items, f a = .ok b := by
  have hall := mapM_eq_ok.mp h
  clear h
  induction hall with
  | nil => exact iff_of_false List.not_mem_nil fun ⟨_, h, _⟩ => List.not_mem_nil h
  | @cons a b' rest others hb _ ih =>
    rw [List.mem_cons, List.exists_mem_cons_iff]
    refine or_congr ⟨fun heq => heq ▸ hb, fun ha => ?_⟩ ih
    exact (Except.ok.inj (hb.symm.trans ha)).symm

theorem ok_of_mapM {f : α → Except ε β} {items : List α} {results : List β}
    (h : items.mapM f = .ok results) {a : α} (ha : a ∈ items) : ∃ b ∈ results, f a = .ok b := by
  have hall := mapM_eq_ok.mp h
  clear h
  induction hall with
  | nil => exact absurd ha List.not_mem_nil
  | @cons a' b rest others hb _ ih =>
    rcases List.mem_cons.mp ha with rfl | ha
    · exact ⟨b, List.mem_cons_self, hb⟩
    · obtain ⟨b', hb', hok⟩ := ih ha
      exact ⟨b', List.mem_cons_of_mem _ hb', hok⟩

theorem mapM_isOk {f : α → Except ε β} {items : List α} (h : ∀ a ∈ items, ∃ b, f a = .ok b) :
    ∃ results, items.mapM f = .ok results := by
  induction items with
  | nil => exact ⟨[], rfl⟩
  | cons a rest ih =>
    obtain ⟨b, hb⟩ := h a List.mem_cons_self
    obtain ⟨others, hothers⟩ := ih fun a' ha' => h a' (List.mem_cons_of_mem _ ha')
    exact ⟨b :: others, mapM_eq_ok.mpr (.cons hb (mapM_eq_ok.mp hothers))⟩

/-- What is done to the items. -/
theorem mapM_congr {f f' : α → Except ε β} {items : List α} (h : ∀ a ∈ items, f a = f' a) :
    items.mapM f = items.mapM f' := by
  induction items with
  | nil => rfl
  | cons a rest ih =>
    obtain ⟨ha, hrest⟩ := List.forall_mem_cons.mp h
    rw [List.mapM_cons, List.mapM_cons, ha, ih hrest]

/-- Results of which something is known from the items. -/
theorem map_eq_of_mapM {γ : Type} {f : α → Except ε β} {g : β → γ} {k : α → γ} {items : List α}
    {results : List β} (h : items.mapM f = .ok results) (hg : ∀ a b, f a = .ok b → g b = k a) :
    results.map g = items.map k := by
  have hall := mapM_eq_ok.mp h
  clear h
  induction hall with
  | nil => rfl
  | cons hb _ ih => rw [List.map_cons, List.map_cons, hg _ _ hb, ih]

/-- Results that show what they are of. -/
theorem map_of_mapM {f : α → Except ε β} {g : β → α} {items : List α} {results : List β}
    (h : items.mapM f = .ok results) (hg : ∀ a b, f a = .ok b → g b = a) :
    results.map g = items :=
  (map_eq_of_mapM h hg).trans (List.map_id' items)

/-- Two runs with the same results agree on every item. -/
theorem eq_of_mapM {f f' : α → Except ε β} {items : List α} {results : List β}
    (h : items.mapM f = .ok results) (h' : items.mapM f' = .ok results) {a : α} (ha : a ∈ items) :
    f a = f' a := by
  have hall := mapM_eq_ok.mp h
  have hall' := mapM_eq_ok.mp h'
  clear h h'
  induction hall with
  | nil => exact absurd ha List.not_mem_nil
  | @cons a' b rest others hb _ ih =>
    obtain ⟨hb', hrest'⟩ := List.forall₂_cons.mp hall'
    rcases List.mem_cons.mp ha with rfl | ha
    · exact hb.trans hb'.symm
    · exact ih ha hrest'

end Fallible
