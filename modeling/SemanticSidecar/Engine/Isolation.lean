import SemanticSidecar.Engine.Batch
import SemanticSidecar.Lib.Halving
import Mathlib.Data.Nat.Log

/-!
# The isolation law

`isolate` calls its encoder on slices, and nothing is assumed of the results: a slice may succeed
whose halves fail, and the other way round.  The law is stated over the halving of the list, where
the slices that are cut are those that failed as an item does or came back with a wrong count.

Either the halving meets a systemic failure, and its error is the result; or every item has a
vector, from the leaf that the item is in.  A slice behind the first systemic failure is never
encoded, which only shows in the calls: `noting` is the encoder with its calls written down.

`isolate_cost` counts them.

Three results are about three kinds of encoders.

* `isolate_law` is for an encoder whose outcome depends on the slice alone.  The result is told from
  the outcomes, without a run.
* `isolate_noting` is for any encoder, with a state of its own: it is only ever called on slices of
  the items, and its calls are the ones that are noted.
* `isolate_cost` is for any encoder as well.  There are fewer than twice as many calls as items, and
  if a slice fails exactly when the one bad item is in it there are two for every level of the
  halving.
-/

set_option autoImplicit false

namespace SemanticSidecar

open Halving

section

variable {σ α : Type}

/-- An encoder that notes every slice it is called on. -/
def noting (encode : List α → StateM σ (Except EncodeFailure (List (List Float32))))
    (items : List α) : StateM (σ × List (List α)) (Except EncodeFailure (List (List Float32))) :=
  fun s => (((encode items).run s.1).1, ((encode items).run s.1).2, s.2 ++ [items])

/-- An encoder whose outcome depends on the slice alone. -/
def stateless (outcome : List α → Except EncodeFailure (List (List Float32))) (items : List α) :
    StateM Unit (Except EncodeFailure (List (List Float32))) :=
  pure (outcome items)

@[simp] theorem calls_noting
    (encode : List α → StateM σ (Except EncodeFailure (List (List Float32)))) (items : List α)
    (s : σ × List (List α)) : ((noting encode items).run s).2.2 = s.2 ++ [items] := rfl

/-! ## The halving of a list -/

/-- The attempt failed in a way that a single item can explain. -/
def attemptFailed (count : ℕ) : Except EncodeFailure (List (List Float32)) → Bool
  | .ok vectors => vectors.length ≠ count
  | .error .item => true
  | .error (.systemic _) => false

/-- The error of a systemic failure. -/
def systemicError : Except EncodeFailure (List (List Float32)) → Option EngineError
  | .error (.systemic err) => some err
  | _ => none

theorem settled_eq_none_iff {count : ℕ} {result : Except EncodeFailure (List (List Float32))} :
    settled count result = none ↔ attemptFailed count result = true := by
  rcases result with (_ | err) | vectors
  · simp [settled, attemptFailed]
  · simp [settled, attemptFailed]
  · simp [settled, attemptFailed]

variable (outcome : List α → Except EncodeFailure (List (List Float32))) (items : List α)

/-- The slice failed in a way that a single item can explain. -/
def splitsAt (span : Span) : Bool := attemptFailed span.count (outcome (span.slice items))

/-- The backend failed on the slice. -/
def breaksAt (span : Span) : Bool := (systemicError (outcome (span.slice items))).isSome

/-- The first systemic failure of the halving. -/
def firstSystemic (span : Span) : Option EngineError :=
  (halving (splitsAt outcome items) span).findSome? fun part =>
    systemicError (outcome (part.slice items))

/-- The slices up to the first systemic failure. -/
def encodedSlices (span : Span) : List (List α) :=
  (through (breaksAt outcome items) (halving (splitsAt outcome items) span)).map
    (Span.slice items)

/-- What a leaf has for an item in it: the entry at the item's offset, or the zero vector where the
leaf is the item alone and failed. -/
def IsEntry (dims : ℕ) (leaf : Span) (i : ℕ) (entry : Option (List Float32)) : Prop :=
  (∃ slots, outcome (leaf.slice items) = .ok slots ∧ slots.length = leaf.count ∧
    entry = slots[i - leaf.start]?) ∨
  leaf = ⟨i, 1⟩ ∧ attemptFailed 1 (outcome (leaf.slice items)) = true ∧
    entry = some (zeroVector dims)

/-- One vector for every item of the span, from the leaf that the item is in. -/
structure IsIsolated (dims : ℕ) (span : Span) (vectors : List (List Float32)) : Prop where
  /-- There is a vector for every item. -/
  length : vectors.length = span.count
  /-- The vector of an item is what the leaf gives that the item is in. -/
  entry : ∀ leaf i, IsLeaf (splitsAt outcome items) span leaf → leaf.Contains i →
    IsEntry outcome items dims leaf i vectors[i - span.start]?

/-- How isolation ends on a span, with `log` written down before it. -/
structure IsolatesTo (dims : ℕ) (span : Span) (log : List (List α))
    (run : Except EngineError (List (List Float32)) × Unit × List (List α)) : Prop where
  /-- The encoder is called on the slices of the span, in order. -/
  calls : run.2.2 = log ++ encodedSlices outcome items span
  /-- The first systemic failure is the result, or every item has its vector. -/
  result : (∃ err, firstSystemic outcome items span = some err ∧ run.1 = .error err) ∨
    firstSystemic outcome items span = none ∧
      ∃ vectors, run.1 = .ok vectors ∧ IsIsolated outcome items dims span vectors

variable {outcome items} {dims : ℕ} {span : Span}

/-! ## One slice of the halving -/

theorem not_breaksAt_of_splitsAt (h : splitsAt outcome items span = true) :
    systemicError (outcome (span.slice items)) = none := by
  rw [splitsAt] at h
  rcases houtcome : outcome (span.slice items) with (_ | err) | vectors
  · rfl
  · rw [houtcome] at h
    cases h
  · rfl

theorem encodedSlices_leaf (hpos : 0 < span.count)
    (h : span.count = 1 ∨ splitsAt outcome items span = false) :
    encodedSlices outcome items span = [span.slice items] := by
  rw [encodedSlices, halving_leaf hpos h, through, through]
  split
  · rfl
  · rfl

theorem firstSystemic_leaf (hpos : 0 < span.count)
    (h : span.count = 1 ∨ splitsAt outcome items span = false) :
    firstSystemic outcome items span = systemicError (outcome (span.slice items)) := by
  rw [firstSystemic, halving_leaf hpos h]
  simp

theorem firstSystemic_split (hmany : 1 < span.count) (h : splitsAt outcome items span = true) :
    firstSystemic outcome items span =
      (firstSystemic outcome items span.front).or (firstSystemic outcome items span.back) := by
  simp only [firstSystemic, halving_split hmany h, List.findSome?_cons, List.findSome?_append,
    not_breaksAt_of_splitsAt h]

theorem breaksAt_of_firstSystemic {err : EngineError}
    (h : firstSystemic outcome items span = some err) :
    ∃ part ∈ halving (splitsAt outcome items) span, breaksAt outcome items part = true := by
  obtain ⟨part, hpart, herr⟩ := List.exists_of_findSome?_eq_some h
  exact ⟨part, hpart, Option.isSome_iff_exists.mpr ⟨err, herr⟩⟩

theorem not_breaksAt_of_firstSystemic (h : firstSystemic outcome items span = none) :
    ∀ part ∈ halving (splitsAt outcome items) span, breaksAt outcome items part = false := by
  intro part hpart
  rw [breaksAt, List.findSome?_eq_none_iff.mp h part hpart]
  rfl

/-- A systemic failure in the front keeps the back from being encoded. -/
theorem encodedSlices_front (hmany : 1 < span.count) (h : splitsAt outcome items span = true)
    {err : EngineError} (hfront : firstSystemic outcome items span.front = some err) :
    encodedSlices outcome items span =
      span.slice items :: encodedSlices outcome items span.front := by
  rw [encodedSlices, halving_split hmany h, through, breaksAt, not_breaksAt_of_splitsAt h,
    if_neg (by simp), through_of_stops (breaksAt_of_firstSystemic hfront)]
  rfl

/-- Where nothing is systemic in the front, the back is encoded after it. -/
theorem encodedSlices_both (hmany : 1 < span.count) (h : splitsAt outcome items span = true)
    (hfront : firstSystemic outcome items span.front = none) :
    encodedSlices outcome items span = span.slice items ::
      (encodedSlices outcome items span.front ++ encodedSlices outcome items span.back) := by
  have hgoesOn := not_breaksAt_of_firstSystemic hfront
  have hall : through (breaksAt outcome items) (halving (splitsAt outcome items) span.front) =
      halving (splitsAt outcome items) span.front := by
    have happend := through_of_goesOn hgoesOn []
    rwa [List.append_nil, through, List.append_nil] at happend
  rw [encodedSlices, halving_split hmany h, through, breaksAt, not_breaksAt_of_splitsAt h,
    if_neg (by simp), through_of_goesOn hgoesOn, List.map_cons, List.map_append, encodedSlices,
    encodedSlices, hall]

/-- The vectors of both halves, one after the other, are those of the whole. -/
theorem IsIsolated.append (hmany : 1 < span.count) (h : splitsAt outcome items span = true)
    {front back : List (List Float32)} (hfront : IsIsolated outcome items dims span.front front)
    (hback : IsIsolated outcome items dims span.back back) :
    IsIsolated outcome items dims span (front ++ back) := by
  have hmiddle : front.length = span.count / 2 := hfront.length
  refine ⟨?_, fun leaf i hleaf hi => ?_⟩
  · rw [List.length_append, hmiddle, hback.length, Span.back]
    simp only
    omega
  · rcases (isLeaf_split hmany h leaf).mp hleaf with hmine | hmine
    · have hin := (within_of_mem_halving hmine.1).contains hi
      simp only [Span.Contains, Span.front] at hin
      rw [List.getElem?_append_left (by omega)]
      exact hfront.entry leaf i hmine hi
    · have hin := (within_of_mem_halving hmine.1).contains hi
      simp only [Span.Contains, Span.back] at hin
      have hentry := hback.entry leaf i hmine hi
      rw [List.getElem?_append_right (by omega), hmiddle, Nat.sub_sub]
      exact hentry

/-! ## The law -/

/-- An attempt that settles the slice. -/
theorem isolatesTo_settled (hpos : 0 < span.count) (hspan : span.Within (Span.whole items))
    {result : Except EngineError (List (List Float32))}
    (h : settled span.count (outcome (span.slice items)) = some result) (log : List (List α)) :
    IsolatesTo outcome items dims span log (result, (), log ++ [span.slice items]) := by
  have hsplits : splitsAt outcome items span = false := by
    rw [splitsAt, Bool.eq_false_iff, Ne, ← settled_eq_none_iff, h]
    simp
  refine ⟨by rw [encodedSlices_leaf hpos (Or.inr hsplits)], ?_⟩
  rw [firstSystemic_leaf hpos (Or.inr hsplits)]
  rcases houtcome : outcome (span.slice items) with (_ | err) | vectors
  · rw [houtcome] at h
    cases h
  · rw [houtcome] at h
    exact Or.inl ⟨err, rfl, (Option.some.inj h).symm⟩
  · rw [houtcome, settled] at h
    split at h
    · refine Or.inr ⟨rfl, vectors, (Option.some.inj h).symm, ‹_›, fun leaf i hleaf _ => ?_⟩
      obtain rfl := (isLeaf_leaf hpos (Or.inr hsplits) leaf).mp hleaf
      exact Or.inl ⟨vectors, houtcome, ‹_›, rfl⟩
    · cases h

/-- A single item that is given up. -/
theorem isolatesTo_givenUp (hone : span.count = 1)
    (h : settled span.count (outcome (span.slice items)) = none) (log : List (List α)) :
    IsolatesTo outcome items dims span log
      (.ok [zeroVector dims], (), log ++ [span.slice items]) := by
  have hfailed := settled_eq_none_iff.mp h
  have hpos : 0 < span.count := by omega
  refine ⟨by rw [encodedSlices_leaf hpos (Or.inl hone)], Or.inr ⟨?_, _, rfl, hone.symm, ?_⟩⟩
  · rw [firstSystemic_leaf hpos (Or.inl hone)]
    exact not_breaksAt_of_splitsAt hfailed
  · intro leaf i hleaf hi
    obtain rfl := (isLeaf_leaf hpos (Or.inl hone) leaf).mp hleaf
    have hlone := Span.contains_singleton hone hi
    rw [hone] at hfailed
    refine Or.inr ⟨hlone, hfailed, ?_⟩
    rw [hlone, Nat.sub_self]
    rfl

theorem isolate_span (dims : ℕ) (slice : List α) (s : Unit × List (List α)) :
    ∀ span : Span, span.Within (Span.whole items) → span.slice items = slice →
      IsolatesTo outcome items dims span s.2
        ((isolate dims (noting (stateless outcome)) slice).run s) := by
  refine isolate_rule (fun slice s run => ∀ span : Span, span.Within (Span.whole items) →
    span.slice items = slice → IsolatesTo outcome items dims span s.2 run)
    ?_ ?_ ?_ ?_ ?_ ?_ slice s
  · intro s span hspan hslice
    have hzero : span.count = 0 := by
      rw [← Span.length_slice hspan, hslice, List.length_nil]
    refine ⟨?_, Or.inr ⟨?_, [], rfl, ?_, ?_⟩⟩
    · simp [encodedSlices, halving_empty hzero, through]
    · simp [firstSystemic, halving_empty hzero]
    · simp [hzero]
    · intro leaf i hleaf
      simp [IsLeaf, halving_empty hzero] at hleaf
  · rintro slice s result hne hsettled span hspan rfl
    have hpos := List.length_pos_iff.mpr hne
    rw [Span.length_slice hspan] at hsettled hpos
    exact isolatesTo_settled hpos hspan hsettled s.2
  · rintro slice s hone hsettled span hspan rfl
    rw [Span.length_slice hspan] at hsettled hone
    exact isolatesTo_givenUp hone hsettled s.2
  · rintro slice s err s' hmany hsettled hfront span hspan rfl
    rw [Span.length_slice hspan] at hsettled hmany hfront
    have hsplits := settled_eq_none_iff.mp hsettled
    obtain ⟨hcalls, ⟨err', herr', hresult⟩ | ⟨-, vectors, hok, -⟩⟩ :=
      hfront span.front ((Span.front_within span).trans hspan) (Span.take_slice items span).symm
    · refine ⟨?_, Or.inl ⟨err', ?_, hresult⟩⟩
      · rw [encodedSlices_front hmany hsplits herr', hcalls]
        simp
      · rw [firstSystemic_split hmany hsplits, herr', Option.some_or]
    · cases hok
  · rintro slice s vectors s₁ err s' hmany hsettled hfront hback span hspan rfl
    rw [Span.length_slice hspan] at hsettled hmany hfront hback
    have hsplits := settled_eq_none_iff.mp hsettled
    obtain ⟨hcalls, ⟨err', -, hresult⟩ | ⟨hnone, -⟩⟩ :=
      hfront span.front ((Span.front_within span).trans hspan) (Span.take_slice items span).symm
    · cases hresult
    · obtain ⟨hcalls', ⟨err', herr', hresult⟩ | ⟨-, more, hok, -⟩⟩ :=
        hback span.back ((Span.back_within span).trans hspan) (Span.drop_slice items span).symm
      · refine ⟨?_, Or.inl ⟨err', ?_, hresult⟩⟩
        · rw [encodedSlices_both hmany hsplits hnone, hcalls', hcalls]
          simp
        · rw [firstSystemic_split hmany hsplits, hnone, Option.none_or, herr']
      · cases hok
  · rintro slice s vectors s₁ more s' hmany hsettled hfront hback span hspan rfl
    rw [Span.length_slice hspan] at hsettled hmany hfront hback
    have hsplits := settled_eq_none_iff.mp hsettled
    obtain ⟨hcalls, ⟨err', -, hresult⟩ | ⟨hnone, front, hok, hfront⟩⟩ :=
      hfront span.front ((Span.front_within span).trans hspan) (Span.take_slice items span).symm
    · cases hresult
    · obtain ⟨hcalls', ⟨err', -, hresult⟩ | ⟨hnone', back, hok', hback⟩⟩ :=
        hback span.back ((Span.back_within span).trans hspan) (Span.drop_slice items span).symm
      · cases hresult
      · obtain rfl := Except.ok.inj hok
        obtain rfl := Except.ok.inj hok'
        refine ⟨?_, Or.inr ⟨?_, _, rfl, hfront.append hmany hsplits hback⟩⟩
        · rw [encodedSlices_both hmany hsplits hnone, hcalls', hcalls]
          simp
        · rw [firstSystemic_split hmany hsplits, hnone, hnone', Option.none_or]

/-- **The isolation law.**  The result is the error of the first systemic failure of the halving
and nothing behind that failure is encoded; without one there is a vector for every item, from the
only leaf that has it. -/
theorem isolate_law (dims : ℕ) (outcome : List α → Except EncodeFailure (List (List Float32)))
    (items : List α) :
    let run := (isolate dims (noting (stateless outcome)) items).run ((), [])
    let visited := halving (splitsAt outcome items) (Span.whole items)
    (∀ err, run.1 = .error err ↔ firstSystemic outcome items (Span.whole items) = some err) ∧
      (firstSystemic outcome items (Span.whole items) = none →
        ∃ vectors, run.1 = .ok vectors ∧ vectors.length = items.length ∧
          ∀ i < items.length, ∃ leaf ∈ visited, leaf.Contains i ∧
            IsEntry outcome items dims leaf i vectors[i]? ∧
            ∀ other ∈ visited, other.Contains i →
              (other.count = 1 ∨ splitsAt outcome items other = false) → other = leaf) ∧
      run.2.2 = (through (breaksAt outcome items) visited).map (Span.slice items) := by
  intro run visited
  obtain ⟨hcalls, hresult⟩ := @isolate_span α outcome items dims items ((), [])
    (Span.whole items) (Span.within_refl _) (Span.slice_whole items)
  refine ⟨fun err => ?_, fun hnone => ?_, hcalls⟩
  · rcases hresult with ⟨err', hfirst, herr⟩ | ⟨hfirst, vectors, hok, -⟩
    · rw [herr, hfirst]
      simp
    · rw [hok, hfirst]
      simp
  · rcases hresult with ⟨err', hfirst, -⟩ | ⟨-, vectors, hok, hlength, hentry⟩
    · rw [hnone] at hfirst
      cases hfirst
    · refine ⟨vectors, hok, hlength, fun i hi => ?_⟩
      have hin : (Span.whole items).Contains i := ⟨Nat.zero_le i, by simpa [Span.whole] using hi⟩
      obtain ⟨leaf, ⟨hleaf, hcontains⟩, hunique⟩ :=
        @existsUnique_leaf (splitsAt outcome items) _ i hin
      refine ⟨leaf, hleaf.1, hcontains, hentry leaf i hleaf hcontains, ?_⟩
      exact fun other hother hi' hstops => hunique other ⟨⟨hother, hstops⟩, hi'⟩

/-! ## Noting the calls -/

section

variable {encode : List α → StateM σ (Except EncodeFailure (List (List Float32)))}

/-- The slices are parts of the items, and none is empty. -/
def PartsOf (items : List α) (slices : List (List α)) : Prop :=
  ∀ slice ∈ slices, slice ≠ [] ∧ slice <:+: items

theorem PartsOf.mono {items whole : List α} {slices : List (List α)} (h : PartsOf items slices)
    (hpart : items <:+: whole) : PartsOf whole slices :=
  fun slice hslice => ⟨(h slice hslice).1, (h slice hslice).2.trans hpart⟩

theorem PartsOf.append {items : List α} {slices more : List (List α)} (h : PartsOf items slices)
    (hmore : PartsOf items more) : PartsOf items (slices ++ more) := by
  intro slice hslice
  rcases List.mem_append.mp hslice with hslice | hslice
  · exact h slice hslice
  · exact hmore slice hslice

theorem PartsOf.cons {items : List α} {slices : List (List α)} (hne : items ≠ [])
    (h : PartsOf items slices) : PartsOf items (items :: slices) := by
  intro slice hslice
  rcases List.mem_cons.mp hslice with rfl | hslice
  · exact ⟨hne, List.infix_refl slice⟩
  · exact h slice hslice

theorem PartsOf.front {items : List α} {slices : List (List α)} {n : ℕ}
    (h : PartsOf (items.take n) slices) : PartsOf items slices :=
  h.mono (List.take_prefix n items).isInfix

theorem PartsOf.back {items : List α} {slices : List (List α)} {n : ℕ}
    (h : PartsOf (items.drop n) slices) : PartsOf items slices :=
  h.mono (List.drop_suffix n items).isInfix

/-- What noting changes: nothing but the log, which has grown by parts of the items. -/
structure NotesParts (items : List α) (s : σ × List (List α))
    (run : Except EngineError (List (List Float32)) × σ × List (List α))
    (plain : Except EngineError (List (List Float32)) × σ) : Prop where
  /-- The result and the state are those without notes. -/
  plain : plain = (run.1, run.2.1)
  /-- What is noted are parts of the items. -/
  calls : ∃ more, run.2.2 = s.2 ++ more ∧ PartsOf items more

theorem NotesParts.attempt {items : List α} (hne : items ≠ []) (s : σ × List (List α))
    (result : Except EngineError (List (List Float32))) :
    NotesParts items s (result, ((noting encode items).run s).2)
      (result, ((encode items).run s.1).2) :=
  ⟨rfl, [items], rfl, .cons hne (by simp [PartsOf])⟩

/-- An attempt that cuts the items, and then the two halves. -/
theorem NotesParts.halves {items : List α} {s s₁ s' : σ × List (List α)} {dims : ℕ}
    {vectors : List (List Float32)} {back : Except EngineError (List (List Float32))}
    (hfront : NotesParts (items.take (items.length / 2)) ((noting encode items).run s).2
      (.ok vectors, s₁)
      ((isolate dims encode (items.take (items.length / 2))).run ((noting encode items).run s).2.1))
    (hmany : 1 < items.length)
    (hsettled : settled items.length ((noting encode items).run s).1 = none)
    (hback : NotesParts (items.drop (items.length / 2)) s₁ (back, s')
      ((isolate dims encode (items.drop (items.length / 2))).run s₁.1)) :
    NotesParts items s (back.map (vectors ++ ·), s') ((isolate dims encode items).run s.1) := by
  obtain ⟨hfront, more, hmore, hparts⟩ := hfront
  obtain ⟨hback, more', hmore', hparts'⟩ := hback
  have hplain : settled items.length ((encode items).run s.1).1 = none := hsettled
  have hhost : (isolate dims encode (items.take (items.length / 2))).run
      ((encode items).run s.1).2 = (.ok vectors, s₁.1) := hfront
  refine ⟨?_, items :: (more ++ more'), ?_,
    .cons (List.ne_nil_of_length_pos (by omega)) (hparts.front.append hparts'.back)⟩
  · rw [isolate_halves hmany hplain, hhost]
    dsimp only
    rw [hback]
    cases back <;> rfl
  · dsimp only at hmore' ⊢
    rw [hmore', hmore, calls_noting]
    simp

/-- **Isolation encodes parts of the items only**, and is not disturbed by the log. -/
theorem isolate_noting (dims : ℕ) (items : List α) (s : σ × List (List α)) :
    NotesParts items s ((isolate dims (noting encode) items).run s)
      ((isolate dims encode items).run s.1) := by
  refine isolate_rule (fun items s run => NotesParts items s run
    ((isolate dims encode items).run s.1)) ?_ ?_ ?_ ?_ ?_ ?_ items s
  · intro s
    rw [isolate_nil]
    exact ⟨rfl, [], (List.append_nil _).symm, by simp [PartsOf]⟩
  · intro items s result hne hsettled
    have hplain : settled items.length ((encode items).run s.1).1 = some result := hsettled
    rw [isolate_settles hne hplain]
    exact .attempt hne s result
  · intro items s hone hsettled
    have hplain : settled items.length ((encode items).run s.1).1 = none := hsettled
    rw [isolate_givesUp hone hplain]
    exact .attempt (List.ne_nil_of_length_pos (by omega)) s _
  · rintro items s err s' hmany hsettled ⟨hfront, more, hmore, hparts⟩
    have hplain : settled items.length ((encode items).run s.1).1 = none := hsettled
    have hhost : (isolate dims encode (items.take (items.length / 2))).run
        ((encode items).run s.1).2 = (.error err, s'.1) := hfront
    rw [isolate_halves hmany hplain, hhost]
    refine ⟨rfl, items :: more, ?_, .cons (List.ne_nil_of_length_pos (by omega)) hparts.front⟩
    simpa using hmore
  · exact fun items s vectors s₁ err s' hmany hsettled hfront hback =>
      hfront.halves hmany hsettled hback
  · exact fun items s vectors s₁ next s' hmany hsettled hfront hback =>
      hfront.halves hmany hsettled hback

/-- Noting the calls does not disturb the groups of a batch, and what is noted are parts of them. -/
theorem isolateGroups_noting (dims : ℕ) (groups : List (List α)) (s : σ × List (List α)) :
    let run := (isolateGroups dims (noting encode) groups).run s
    (isolateGroups dims encode groups).run s.1 = (run.1, run.2.1) ∧
      ∃ more, run.2.2 = s.2 ++ more ∧
        ∀ slice ∈ more, ∃ group ∈ groups, slice ≠ [] ∧ slice <:+: group := by
  induction groups generalizing s with
  | nil => exact ⟨rfl, [], (List.append_nil _).symm, by simp⟩
  | cons group rest ih =>
    obtain ⟨hplain, more, hmore, hparts⟩ := @isolate_noting σ α encode dims group s
    simp only [isolateGroups, run_bind_state, hplain]
    generalize (isolate dims (noting encode) group).run s = run at hmore ⊢
    obtain ⟨err | vectors, s₁⟩ := run
    · exact ⟨rfl, more, hmore, fun slice hslice =>
        ⟨group, List.mem_cons_self, hparts slice hslice⟩⟩
    · obtain ⟨hplain', more', hmore', hparts'⟩ := ih s₁
      simp only [run_bind_state, hplain']
      generalize (isolateGroups dims (noting encode) rest).run s₁ = run at hmore' ⊢
      have hcalls : ∀ slice ∈ more ++ more', ∃ g ∈ group :: rest, slice ≠ [] ∧ slice <:+: g := by
        intro slice hslice
        rcases List.mem_append.mp hslice with hslice | hslice
        · exact ⟨group, List.mem_cons_self, hparts slice hslice⟩
        · obtain ⟨g, hg, hslice⟩ := hparts' slice hslice
          exact ⟨g, List.mem_cons_of_mem _ hg, hslice⟩
      have hlog : run.2.2 = s.2 ++ (more ++ more') := by
        rw [hmore', hmore, List.append_assoc]
      obtain ⟨err | next, s'⟩ := run
      · exact ⟨rfl, _, hlog, hcalls⟩
      · exact ⟨rfl, _, hlog, hcalls⟩

/-! ## What isolation costs -/

/-- A list has fewer slices than twice its items, as a binary tree has fewer nodes than twice its
leaves. -/
theorem isolate_calls_le (dims : ℕ) (items : List α) (s : σ × List (List α)) :
    ((isolate dims (noting encode) items).run s).2.2.length ≤
      s.2.length + (2 * items.length - 1) := by
  refine isolate_rule (fun items s run => run.2.2.length ≤ s.2.length + (2 * items.length - 1))
    ?_ ?_ ?_ ?_ ?_ ?_ items s
  · intro s
    exact Nat.le_add_right _ _
  · intro items s result hne _
    have hpos := List.length_pos_iff.mpr hne
    rw [calls_noting, List.length_append, List.length_singleton]
    omega
  · intro items s hone _
    rw [calls_noting, List.length_append, List.length_singleton]
    omega
  · intro items s err s' hmany _ hfront
    rw [calls_noting, List.length_append, List.length_singleton, List.length_take] at hfront
    dsimp only at hfront ⊢
    omega
  · intro items s vectors s₁ err s' hmany _ hfront hback
    rw [calls_noting, List.length_append, List.length_singleton, List.length_take] at hfront
    rw [List.length_drop] at hback
    dsimp only at hfront hback ⊢
    omega
  · intro items s vectors s₁ more s' hmany _ hfront hback
    rw [calls_noting, List.length_append, List.length_singleton, List.length_take] at hfront
    rw [List.length_drop] at hback
    dsimp only at hfront hback ⊢
    omega

/-- The encoder fails as an item does on the slices with a bad item, and on no other. -/
def FailsOn (bad : α → Bool)
    (encode : List α → StateM σ (Except EncodeFailure (List (List Float32)))) : Prop :=
  ∀ slice s,
    (slice.any bad = true → ((encode slice).run s).1 = .error .item) ∧
      (slice.any bad = false → ∃ vectors, ((encode slice).run s).1 = .ok vectors ∧
        vectors.length = slice.length)

variable {bad : α → Bool}

theorem settled_of_failsOn (h : FailsOn bad encode) {items : List α}
    (hnone : items.countP bad = 0) (s : σ × List (List α)) :
    settled items.length ((noting encode items).run s).1 ≠ none := by
  have hgood : items.any bad = false := by
    rw [List.any_eq_false]
    exact fun x hx => List.countP_eq_zero.mp hnone x hx
  obtain ⟨vectors, hok, hlength⟩ := (h items s.1).2 hgood
  have hresult : ((noting encode items).run s).1 = .ok vectors := hok
  rw [hresult, settled, if_pos hlength]
  exact Option.some_ne_none _

/-- A bad item is in one of the halves. -/
theorem countP_halves (items : List α) (n : ℕ) :
    (items.take n).countP bad + (items.drop n).countP bad = items.countP bad := by
  rw [← List.countP_append, List.take_append_drop]

/-- A half has one level less below it. -/
theorem clog_half {n m : ℕ} (hmany : 1 < n) (hm : m ≤ n - n / 2) :
    Nat.clog 2 m + 1 ≤ Nat.clog 2 n := by
  rw [Nat.clog_of_two_le Nat.one_lt_two hmany]
  exact Nat.succ_le_succ (Nat.clog_mono_right 2 (by omega))

/-- How many slices are encoded with at most one bad item: the whole, and two for every level
below it if there is one. -/
def oneBadCost (count bad : ℕ) : ℕ := 1 + bad * (2 * Nat.clog 2 count)

/-- The cost of two halves with one bad item between them. -/
theorem oneBadCost_halves {n bad front back : ℕ} (hmany : 1 < n) (hbad : bad = 1)
    (hsum : front + back = bad) :
    1 + oneBadCost (n / 2) front + oneBadCost (n - n / 2) back ≤ oneBadCost n bad := by
  have hfront : Nat.clog 2 (n / 2) + 1 ≤ Nat.clog 2 n := clog_half hmany (by omega)
  have hback : Nat.clog 2 (n - n / 2) + 1 ≤ Nat.clog 2 n := clog_half hmany le_rfl
  obtain ⟨rfl, rfl⟩ | ⟨rfl, rfl⟩ : front = 0 ∧ back = 1 ∨ front = 1 ∧ back = 0 := by omega
  · simp only [oneBadCost, hbad, zero_mul, one_mul]
    omega
  · simp only [oneBadCost, hbad, zero_mul, one_mul]
    omega

/-- A slice that is cut has a bad item, and one of its halves has none. -/
theorem oneBad_halves (h : FailsOn bad encode) {items : List α} {s : σ × List (List α)}
    (hmany : 1 < items.length)
    (hsettled : settled items.length ((noting encode items).run s).1 = none)
    (hbad : items.countP bad ≤ 1) :
    let front := items.take (items.length / 2)
    let back := items.drop (items.length / 2)
    front.countP bad ≤ 1 ∧ back.countP bad ≤ 1 ∧
      1 + oneBadCost front.length (front.countP bad) + oneBadCost back.length (back.countP bad) ≤
        oneBadCost items.length (items.countP bad) := by
  intro front back
  have hsum : front.countP bad + back.countP bad = items.countP bad := countP_halves items _
  have hsome : items.countP bad ≠ 0 := fun hnone => settled_of_failsOn h hnone s hsettled
  have hfront : front.length = items.length / 2 := by
    rw [List.length_take, Nat.min_eq_left (Nat.div_le_self _ _)]
  have hback : back.length = items.length - items.length / 2 := List.length_drop
  refine ⟨by omega, by omega, ?_⟩
  rw [hfront, hback]
  exact oneBadCost_halves hmany (by omega) hsum

/-- With one bad item only the halves that it is in are cut further. -/
theorem isolate_oneBad (h : FailsOn bad encode) (dims : ℕ) (items : List α)
    (s : σ × List (List α)) (hbad : items.countP bad ≤ 1) :
    ((isolate dims (noting encode) items).run s).2.2.length ≤
      s.2.length + oneBadCost items.length (items.countP bad) := by
  refine isolate_rule (fun items s run => items.countP bad ≤ 1 →
    run.2.2.length ≤ s.2.length + oneBadCost items.length (items.countP bad))
    ?_ ?_ ?_ ?_ ?_ ?_ items s hbad
  · intro s _
    exact Nat.le_add_right _ _
  · intro items s result _ _ _
    rw [calls_noting, List.length_append, List.length_singleton, oneBadCost]
    omega
  · intro items s _ _ _
    rw [calls_noting, List.length_append, List.length_singleton, oneBadCost]
    omega
  · intro items s err s' hmany hsettled hfront hbad
    obtain ⟨hfew, -, hcost⟩ := oneBad_halves h hmany hsettled hbad
    have hcalls := hfront hfew
    rw [calls_noting, List.length_append, List.length_singleton] at hcalls
    dsimp only at hcalls ⊢
    omega
  · intro items s vectors s₁ err s' hmany hsettled hfront hback hbad
    obtain ⟨hfew, hfew', hcost⟩ := oneBad_halves h hmany hsettled hbad
    have hcalls := hfront hfew
    have hcalls' := hback hfew'
    rw [calls_noting, List.length_append, List.length_singleton] at hcalls
    dsimp only at hcalls hcalls' ⊢
    omega
  · intro items s vectors s₁ more s' hmany hsettled hfront hback hbad
    obtain ⟨hfew, hfew', hcost⟩ := oneBad_halves h hmany hsettled hbad
    have hcalls := hfront hfew
    have hcalls' := hback hfew'
    rw [calls_noting, List.length_append, List.length_singleton] at hcalls
    dsimp only at hcalls hcalls' ⊢
    omega

/-- **What isolation costs.**  It encodes parts of the items, fewer than twice as many as there are
items; with a single bad item it is two for every level of the halving. -/
theorem isolate_cost (dims : ℕ)
    (encode : List α → StateM σ (Except EncodeFailure (List (List Float32)))) (items : List α)
    (s : σ) :
    let run := (isolate dims (noting encode) items).run (s, [])
    (isolate dims encode items).run s = (run.1, run.2.1) ∧
      (∀ slice ∈ run.2.2, slice <:+: items) ∧
      run.2.2.length ≤ 2 * items.length - 1 ∧
      ∀ bad : α → Bool, FailsOn bad encode → items.countP bad = 1 →
        run.2.2.length ≤ 1 + 2 * Nat.clog 2 items.length := by
  intro run
  obtain ⟨hplain, more, hmore, hparts⟩ := @isolate_noting σ α encode dims items (s, [])
  refine ⟨hplain, fun slice hslice => ?_, ?_, fun bad hfails hone => ?_⟩
  · rw [hmore, List.nil_append] at hslice
    exact (hparts slice hslice).2
  · have hcalls := @isolate_calls_le σ α encode dims items (s, [])
    rwa [List.length_nil, Nat.zero_add] at hcalls
  · have hcalls := isolate_oneBad hfails dims items (s, []) hone.le
    rwa [List.length_nil, Nat.zero_add, hone, oneBadCost, one_mul] at hcalls

/-- Five items of which the third is bad. -/
theorem isolate_cost_thirdBad :
    let encode : List ℕ → StateM Unit (Except EncodeFailure (List (List Float32))) :=
      stateless fun slice =>
        if slice.any (· = 2) then .error .item else .ok (slice.map fun _ => [1.0])
    ((isolate 4 (noting encode) [0, 1, 2, 3, 4]).run ((), [])).2.2.length ≤ 7 := by
  intro encode
  refine ((isolate_cost 4 encode [0, 1, 2, 3, 4] ()).2.2.2 (· = 2)
    (fun slice s => ⟨fun hbad => ?_, fun hgood => ?_⟩) (by decide)).trans (by decide)
  · exact if_pos hbad
  · exact ⟨slice.map fun _ => [1.0], if_neg (Bool.not_eq_true _ ▸ hgood), List.length_map _⟩

end

end

end SemanticSidecar
