import Mathlib.Data.List.Basic
import Mathlib.Logic.Function.Basic

/-!
# Asking once for each key

A loop over a list asks its surroundings about the items and remembers, by a key of the item, what
it was told: an item whose key has been asked for before gets the answer of then.  Some items it
can answer for itself.  Asking is an effect in whatever monad.

`answerAll` is the loop and `firsts` are the items it asks about.  `answerAll_eq` takes the two
apart: it is the same to ask about those first, one after the other, and to look every answer up
afterwards.  So what an item is told is what the first item with its key was told
(`answerAll_told`), and no key is asked for twice (`firsts_nodup`).

What an answer from memory is worth is said in the last part.  If the answer to an item depends on
the item alone, remembering makes a difference only between items that share a key
(`answerAll_told`).
-/

set_option autoImplicit false

namespace Memo

variable {m : Type → Type} {α κ β : Type} [DecidableEq κ]

/-- What is known, by key. -/
abbrev Table (κ β : Type) := κ → Option β

/-- The table with an answer added. -/
def Table.learn (table : Table κ β) (k : κ) (b : β) : Table κ β := Function.update table k (some b)

section

variable [Monad m] (own : α → Option β) (key : α → κ) (ask : α → m β)

/-- The answer for one item, and the table afterwards. -/
def answer (table : Table κ β) (a : α) : m (β × Table κ β) :=
  match own a with
  | some b => pure (b, table)
  | none =>
    match table (key a) with
    | some b => pure (b, table)
    | none => do
      let b ← ask a
      pure (b, table.learn (key a) b)

/-- The answers for a list of items. -/
def answerAll : List α → Table κ β → m (List β)
  | [], _ => pure []
  | a :: rest, table => do
    let (b, table) ← answer own key ask table a
    let bs ← answerAll rest table
    pure (b :: bs)

/-- Asks about all of the items. -/
def askAll : List α → Table κ β → m (Table κ β)
  | [], table => pure table
  | a :: rest, table => do
    let b ← ask a
    askAll rest (table.learn (key a) b)

end

section

variable (own : α → Option β) (key : α → κ)

/-- The items that have to be asked about. -/
def firsts : List α → (κ → Bool) → List α
  | [], _ => []
  | a :: rest, known =>
    if (own a).isSome || known (key a) then firsts rest known
    else a :: firsts rest (Function.update known (key a) true)

/-- What is known of an item. -/
def look (table : Table κ β) (a : α) : Option β := own a <|> table (key a)

/-- The keys that a table knows. -/
def Table.known (table : Table κ β) (k : κ) : Bool := (table k).isSome

end

variable {own : α → Option β} {key : α → κ}

theorem Table.known_learn (table : Table κ β) (k : κ) (b : β) :
    (table.learn k b).known = Function.update table.known k true := by
  funext other
  by_cases hother : other = k
  · rw [hother, Function.update_self, Table.known, Table.learn, Function.update_self]
    rfl
  · rw [Function.update_of_ne hother, Table.known, Table.learn, Function.update_of_ne hother]
    rfl

/-! ## The items that are asked about -/

theorem firsts_cons_skip {a : α} {rest : List α} {known : κ → Bool}
    (h : (own a).isSome = true ∨ known (key a) = true) :
    firsts own key (a :: rest) known = firsts own key rest known := by
  rw [firsts, if_pos]
  rwa [Bool.or_eq_true]

theorem firsts_cons_ask {a : α} {rest : List α} {known : κ → Bool} (hown : own a = none)
    (hknown : known (key a) = false) : firsts own key (a :: rest) known =
      a :: firsts own key rest (Function.update known (key a) true) := by
  rw [firsts, if_neg]
  rw [hown, hknown]
  exact Bool.false_ne_true

theorem firsts_sublist (items : List α) (known : κ → Bool) :
    (firsts own key items known).Sublist items := by
  induction items generalizing known with
  | nil => exact List.Sublist.slnil
  | cons a rest ih =>
    rw [firsts]
    split
    · exact (ih known).cons a
    · exact (ih _).cons_cons a

/-- Nobody is asked about what is known. -/
theorem known_of_mem_firsts {items : List α} {known : κ → Bool} {a : α}
    (h : a ∈ firsts own key items known) : own a = none ∧ known (key a) = false := by
  induction items generalizing known with
  | nil => cases h
  | cons b rest ih =>
    by_cases hskip : (own b).isSome = true ∨ known (key b) = true
    · rw [firsts_cons_skip hskip] at h
      exact ih h
    rw [not_or, Bool.not_eq_true, Option.isSome_eq_false_iff, Option.isNone_iff_eq_none,
      Bool.not_eq_true] at hskip
    rw [firsts_cons_ask hskip.1 hskip.2] at h
    rcases List.mem_cons.mp h with rfl | h
    · exact hskip
    obtain ⟨hown, hknown⟩ := ih h
    have hne : key a ≠ key b := by
      intro heq
      rw [heq, Function.update_self] at hknown
      cases hknown
    rw [Function.update_of_ne hne] at hknown
    exact ⟨hown, hknown⟩

/-- **No key is asked for twice.** -/
theorem firsts_nodup (items : List α) (known : κ → Bool) :
    ((firsts own key items known).map key).Nodup := by
  induction items generalizing known with
  | nil => exact List.nodup_nil
  | cons a rest ih =>
    rw [firsts]
    split
    · exact ih known
    · rw [List.map_cons, List.nodup_cons]
      refine ⟨fun hmem => ?_, ih _⟩
      obtain ⟨b, hb, hkey⟩ := List.mem_map.mp hmem
      have hknown := (known_of_mem_firsts hb).2
      rw [hkey, Function.update_self] at hknown
      cases hknown

/-- Every key is asked for, unless it is known. -/
theorem exists_first {items : List α} {known : κ → Bool} {a : α} (ha : a ∈ items)
    (hown : own a = none) : known (key a) = true ∨
      ∃ b ∈ firsts own key items known, key b = key a := by
  induction items generalizing known with
  | nil => cases ha
  | cons b rest ih =>
    by_cases hskip : (own b).isSome = true ∨ known (key b) = true
    · rw [firsts_cons_skip hskip]
      rcases List.mem_cons.mp ha with rfl | ha
      · refine Or.inl (hskip.resolve_left ?_)
        rw [hown]
        exact Bool.false_ne_true
      · exact ih ha
    rw [not_or, Bool.not_eq_true, Option.isSome_eq_false_iff, Option.isNone_iff_eq_none,
      Bool.not_eq_true] at hskip
    rw [firsts_cons_ask hskip.1 hskip.2]
    by_cases hkey : key b = key a
    · exact Or.inr ⟨b, List.mem_cons_self, hkey⟩
    have ha' : a ∈ rest := by
      refine (List.mem_cons.mp ha).resolve_left ?_
      rintro rfl
      exact hkey rfl
    rcases @ih (Function.update known (key b) true) ha' with hknown | ⟨c, hc, hkey'⟩
    · rw [Function.update_of_ne (Ne.symm hkey)] at hknown
      exact Or.inl hknown
    · exact Or.inr ⟨c, List.mem_cons_of_mem b hc, hkey'⟩

/-! ## Asking first -/

section

variable [Monad m] [LawfulMonad m] {ask : α → m β}

/-- Asking about items leaves the other keys alone. -/
theorem askAll_congr {γ : Type} {f g : Table κ β → γ} (items : List α) (table : Table κ β)
    (h : ∀ final : Table κ β, (∀ k, k ∉ items.map key → final k = table k) → f final = g final) :
    f <$> askAll key ask items table = g <$> askAll key ask items table := by
  induction items generalizing table with
  | nil =>
    rw [askAll, map_pure, map_pure, h table fun _ _ => rfl]
  | cons a rest ih =>
    rw [askAll, map_bind, map_bind]
    refine congrArg (ask a >>= ·) (funext fun b => ih _ fun final hfinal => h final ?_)
    intro k hk
    rw [List.map_cons, List.mem_cons, not_or] at hk
    rw [hfinal k hk.2, Table.learn, Function.update_of_ne hk.1]

/-- **Asking as it comes is asking first.** -/
theorem answerAll_eq (items : List α) (table : Table κ β) :
    List.map some <$> answerAll own key ask items table =
      (fun final : Table κ β => items.map (look own key final)) <$>
        askAll key ask (firsts own key items table.known) table := by
  induction items generalizing table with
  | nil => rw [answerAll, firsts, askAll, map_pure, map_pure, List.map_nil, List.map_nil]
  | cons a rest ih =>
    have hcons : ∀ (b : β) (next : Table κ β), List.map some <$> (do
        let bs ← answerAll own key ask rest next
        pure (b :: bs)) = (some b :: ·) <$> List.map some <$> answerAll own key ask rest next := by
      intro b next
      rw [bind_pure_comp, Functor.map_map, Functor.map_map]
      rfl
    rw [answerAll, answer]
    rcases hown : own a with _ | b
    · rcases htable : table (key a) with _ | b
      -- The one case in which something is asked.
      · have hknown : table.known (key a) = false := by
          rw [Table.known, htable]
          rfl
        simp only [bind_assoc, pure_bind]
        rw [firsts_cons_ask hown hknown, askAll, map_bind, map_bind]
        refine congrArg (ask a >>= ·) (funext fun b => ?_)
        rw [hcons, ih, Functor.map_map, Table.known_learn]
        refine askAll_congr _ _ fun final hfinal => ?_
        rw [List.map_cons, look, hown, hfinal (key a) ?_, Table.learn, Function.update_self]
        · rfl
        · intro hmem
          obtain ⟨c, hc, hkey⟩ := List.mem_map.mp hmem
          have hc' := (known_of_mem_firsts hc).2
          rw [hkey, Function.update_self] at hc'
          cases hc'
      · have hknown : table.known (key a) = true := by
          rw [Table.known, htable]
          rfl
        simp only [pure_bind]
        rw [hcons, ih, Functor.map_map, firsts_cons_skip (Or.inr hknown)]
        refine askAll_congr _ _ fun final hfinal => ?_
        rw [List.map_cons, look, hown, hfinal (key a) ?_, htable]
        · rfl
        · intro hmem
          obtain ⟨c, hc, hkey⟩ := List.mem_map.mp hmem
          rw [← hkey, (known_of_mem_firsts hc).2] at hknown
          cases hknown
    · have hsome : (own a).isSome = true := by
        rw [hown]
        rfl
      simp only [pure_bind]
      rw [hcons, ih, Functor.map_map, firsts_cons_skip (Or.inl hsome)]
      refine congrArg (· <$> _) (funext fun final => ?_)
      rw [List.map_cons, look, hown]
      rfl

end

/-! ## Answers that do not change -/

/-- This is the answer for some item with the key. -/
def Heard (own : α → Option β) (key : α → κ) (f : α → β) (items : List α) (k : κ) (b : β) : Prop :=
  ∃ first ∈ items, own first = none ∧ key first = k ∧ b = f first

/-- What an item is told when the answers do not change. -/
def Told (own : α → Option β) (key : α → κ) (f : α → β) (items : List α) (a : α) (b : β) : Prop :=
  own a = some b ∨ own a = none ∧ Heard own key f items (key a) b

theorem answerAll_told {f : α → β} {all : List α} (items : List α) (hitems : items ⊆ all)
    (table : Table κ β)
    (htable : ∀ k b, table k = some b → Heard own key f all k b) :
    List.Forall₂ (Told own key f all) items
      (answerAll (m := Id) own key (fun a => pure (f a)) items table) := by
  induction items generalizing table with
  | nil => exact .nil
  | cons a rest ih =>
    obtain ⟨ha, hrest⟩ := List.cons_subset.mp hitems
    rw [answerAll, answer]
    rcases hown : own a with _ | b
    · rcases htold : table (key a) with _ | b
      · refine .cons (.inr ⟨hown, a, ha, hown, rfl, rfl⟩) (ih hrest _ fun k b hk => ?_)
        by_cases hkey : k = key a
        · rw [hkey, Table.learn, Function.update_self] at hk
          exact ⟨a, ha, hown, hkey.symm, (Option.some.inj hk).symm⟩
        · rw [Table.learn, Function.update_of_ne hkey] at hk
          exact htable k b hk
      · exact .cons (.inr ⟨hown, htable (key a) b htold⟩) (ih hrest table htable)
    · exact .cons (.inl hown) (ih hrest table htable)

end Memo
