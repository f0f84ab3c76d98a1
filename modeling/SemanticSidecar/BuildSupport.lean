import SemanticSidecar.Lib.Text
import SemanticSidecar.Prepare.Acquire
import Mathlib.Logic.Relation

/-!
# The flags of a build

The identity of a native build has the compiler flags in it, as Cargo encodes them: one text, with
a separator between two words.  `identityRustflags` leaves out the flags that remap source paths,
because they hold paths of the machine that builds.  Such a flag is one word, or two of which the
second is any word whatever.

`Remaining` is what there is of a list of words without these flags, and `identityRustflags_law`
says that the identity of a build depends on this, on all of this, and on nothing else.

The scan goes over the words once, and `remaining_iff` is the fact about it: what it keeps is the
one list that `Remaining` allows.  The law is read off that.  Two builds whose flags differ in
nothing but remapped paths have the same identity, wherever such a flag is put (`Inserted`), and two
builds with the same identity have the same other flags in the same order.  The words are `Words`,
without the separator in them, or the encoding could not be taken apart.

A flag at the end that lacks its value is left out too.  The compiler would not have taken it.
-/

set_option autoImplicit false

namespace SemanticSidecar

namespace BuildSupport

/-- What Cargo puts between the words. -/
def separator : Char := Char.ofNat 0x1f

/-- The compiler flag that remaps paths, which differ from one checkout to the next. -/
def remapPathPrefix : String := "--remap-path-prefix"

/-! ## The scan -/

/-- The loop over the flags.  A flag of two words takes the next one with it. -/
def keepFlags : List String → List String
  | [] => []
  | flag :: rest =>
    if startsWith flag (remapPathPrefix ++ "=") then keepFlags rest
    else if flag = remapPathPrefix then
      match rest with
      | [] => []
      | _ :: rest => keepFlags rest
    else flag :: keepFlags rest

/-- `[&str]::join`, with the separator. -/
def encode (flags : List String) : String :=
  String.ofList (List.intercalate [separator] (flags.map String.toList))

/-- `str::split`, at the separator. -/
def split (encoded : String) : List String :=
  (encoded.toList.splitOn separator).map String.ofList

/-- `identity_rustflags`: the flags of the compiler without those that remap paths. -/
def identityRustflags (encoded : String) : String :=
  hex (Text.toUtf8 (encode (keepFlags (split encoded))))

theorem keepFlags_cons (flag : String) (rest : List String) :
    keepFlags (flag :: rest) =
      if startsWith flag (remapPathPrefix ++ "=") then keepFlags rest
      else if flag = remapPathPrefix then keepFlags rest.tail
      else flag :: keepFlags rest := by
  cases rest with
  | nil => rfl
  | cons value rest => rfl

/-! ## Sequences of flags -/

/-- The words of a sequence of flags. -/
def Words (flags : List String) : Prop := ∀ flag ∈ flags, flag ≠ "" ∧ separator ∉ flag.toList

/-- A flag that remaps paths, in one word or in two. -/
inductive IsRemap : List String → Prop
  /-- In one word, with the value behind an equals sign. -/
  | joined (value : String) : IsRemap [remapPathPrefix ++ "=" ++ value]
  /-- In two words. -/
  | apart (value : String) : IsRemap [remapPathPrefix, value]

/-- A word of some other flag. -/
def IsOther (word : String) : Prop :=
  startsWith word (remapPathPrefix ++ "=") = false ∧ word ≠ remapPathPrefix

/-- Words that end where a flag ends. -/
inductive Complete : List String → Prop
  /-- No words. -/
  | nil : Complete []
  /-- A flag that remaps paths in front of flags. -/
  | remap {unit flags : List String} (hunit : IsRemap unit) (h : Complete flags) :
    Complete (unit ++ flags)
  /-- A word of another flag in front of flags. -/
  | other {word : String} {flags : List String} (hword : IsOther word) (h : Complete flags) :
    Complete (word :: flags)

/-- What remains without the flags that remap paths.  The last of these may lack its value. -/
inductive Remaining : List String → List String → Prop
  /-- Nothing remains of nothing. -/
  | nil : Remaining [] []
  /-- The flag that lacks its value is dropped. -/
  | dangling : Remaining [remapPathPrefix] []
  /-- A flag that remaps paths is dropped. -/
  | remap {unit flags rest : List String} (hunit : IsRemap unit) (h : Remaining flags rest) :
    Remaining (unit ++ flags) rest
  /-- A word of another flag stays. -/
  | other {word : String} {flags rest : List String} (hword : IsOther word)
    (h : Remaining flags rest) : Remaining (word :: flags) (word :: rest)

/-- One more flag that remaps paths, between two flags. -/
inductive Inserted : List String → List String → Prop
  /-- The flag stands where another one ends. -/
  | at {front unit : List String} (back : List String) (hfront : Complete front)
    (hunit : IsRemap unit) : Inserted (front ++ back) (front ++ (unit ++ back))

/-! ## What the scan keeps -/

theorem startsWith_append (before after : String) : startsWith (before ++ after) before = true := by
  rw [startsWith, String.toList_append, List.isPrefixOf_iff_prefix]
  exact List.prefix_append _ _

theorem eq_append_of_startsWith {text before : String} (h : startsWith text before = true) :
    ∃ after, text = before ++ after := by
  rw [startsWith, List.isPrefixOf_iff_prefix] at h
  obtain ⟨after, hafter⟩ := h
  refine ⟨String.ofList after, String.toList_inj.mp ?_⟩
  rw [String.toList_append, String.toList_ofList, hafter]

theorem keepFlags_remap {unit : List String} (hunit : IsRemap unit) (flags : List String) :
    keepFlags (unit ++ flags) = keepFlags flags := by
  cases hunit with
  | joined value =>
    rw [List.singleton_append, keepFlags_cons, if_pos (startsWith_append _ value)]
  | apart value =>
    rw [List.cons_append, List.singleton_append, keepFlags_cons, if_neg (by decide), if_pos rfl,
      List.tail_cons]

theorem keepFlags_other {word : String} (hword : IsOther word) (flags : List String) :
    keepFlags (word :: flags) = word :: keepFlags flags := by
  rw [keepFlags_cons, if_neg (Bool.not_eq_true _ ▸ hword.1), if_neg hword.2]

/-- **What the scan keeps is what remains.** -/
theorem remaining_iff {flags rest : List String} :
    Remaining flags rest ↔ keepFlags flags = rest := by
  constructor
  · intro h
    induction h with
    | nil => rfl
    | dangling => decide
    | remap hunit _ ih => rw [keepFlags_remap hunit, ih]
    | other hword _ ih => rw [keepFlags_other hword, ih]
  · rintro rfl
    fun_induction keepFlags flags with
    | case1 => exact .nil
    | case2 flag rest hjoined ih =>
      obtain ⟨value, rfl⟩ := eq_append_of_startsWith hjoined
      exact .remap (.joined value) ih
    | case3 => exact .dangling
    | case4 value rest _ ih => exact .remap (.apart value) ih
    | case5 flag rest hjoined hapart ih => exact .other ⟨Bool.eq_false_iff.mpr hjoined, hapart⟩ ih

/-- The scan of some words starts anew where a flag ends. -/
theorem keepFlags_append {front : List String} (hfront : Complete front) (back : List String) :
    keepFlags (front ++ back) = keepFlags front ++ keepFlags back := by
  induction hfront with
  | nil => rfl
  | remap hunit _ ih => rw [List.append_assoc, keepFlags_remap hunit, keepFlags_remap hunit, ih]
  | other hword _ ih => rw [List.cons_append, keepFlags_other hword, keepFlags_other hword, ih,
      List.cons_append]

theorem keepFlags_inserted {flags flags' : List String} (h : Inserted flags flags') :
    keepFlags flags = keepFlags flags' := by
  obtain ⟨back, hfront, hunit⟩ := h
  rw [keepFlags_append hfront, keepFlags_append hfront, keepFlags_remap hunit]

theorem keepFlags_subset (flags : List String) : ∀ flag ∈ keepFlags flags, flag ∈ flags := by
  intro flag hflag
  fun_induction keepFlags flags with
  | case1 => exact hflag
  | case2 _ rest _ ih => exact List.mem_cons_of_mem _ (ih hflag)
  | case3 => cases hflag
  | case4 value rest _ ih =>
    exact List.mem_cons_of_mem _ (List.mem_cons_of_mem _ (ih hflag))
  | case5 word rest _ _ ih =>
    rcases List.mem_cons.mp hflag with rfl | hflag
    · exact List.mem_cons_self
    · exact List.mem_cons_of_mem _ (ih hflag)

/-! ## The encoding -/

theorem split_encode {flags : List String} (h : Words flags) (hne : flags ≠ []) :
    split (encode flags) = flags := by
  have hmem : ∀ word ∈ flags.map String.toList, separator ∉ word := by
    intro word hword
    obtain ⟨flag, hflag, rfl⟩ := List.mem_map.mp hword
    exact (h flag hflag).2
  rw [split, encode, String.toList_ofList,
    List.splitOn_intercalate separator hmem (List.map_eq_nil_iff.not.mpr hne), List.map_map]
  exact (List.map_congr_left fun flag _ => String.ofList_toList).trans (List.map_id flags)

/-- No words are encoded as an empty word is, which says that a sequence can be read back only
where there are no empty words. -/
theorem encode_inj {flags flags' : List String} (h : Words flags) (h' : Words flags')
    (heq : encode flags = encode flags') : flags = flags' := by
  have hempty : split (encode []) = [""] := by decide
  have hnot : ∀ {flags}, Words flags → [""] ≠ flags := fun h heq =>
    (h "" (heq ▸ List.mem_singleton_self _)).1 rfl
  rcases eq_or_ne flags [] with rfl | hne
  · rcases eq_or_ne flags' [] with rfl | hne'
    · rfl
    · have hsplit := congrArg split heq
      rw [hempty, split_encode h' hne'] at hsplit
      exact absurd hsplit (hnot h')
  · rcases eq_or_ne flags' [] with rfl | hne'
    · have hsplit := congrArg split heq
      rw [hempty, split_encode h hne] at hsplit
      exact absurd hsplit.symm (hnot h)
    · rw [← split_encode h hne, heq, split_encode h' hne']

/-- The identity is that of what is kept. -/
theorem identityRustflags_encode {flags : List String} (h : Words flags) :
    identityRustflags (encode flags) = hex (Text.toUtf8 (encode (keepFlags flags))) := by
  rcases eq_or_ne flags [] with rfl | hne
  · decide
  · rw [identityRustflags, split_encode h hne]

theorem identity_eq_iff {flags flags' : List String} (h : Words flags) (h' : Words flags') :
    identityRustflags (encode flags) = identityRustflags (encode flags') ↔
      keepFlags flags = keepFlags flags' := by
  rw [identityRustflags_encode h, identityRustflags_encode h']
  refine ⟨fun heq => ?_, fun heq => by rw [heq]⟩
  exact encode_inj (fun flag hflag => h flag (keepFlags_subset flags flag hflag))
    (fun flag hflag => h' flag (keepFlags_subset flags' flag hflag))
    (Text.toUtf8_inj (hex_injective heq))

/-- **The identity of a build** is the same whatever flags that remap paths there are, between
whichever flags, and another one where anything else differs. -/
theorem identityRustflags_law {flags flags' : List String} (h : Words flags) (h' : Words flags') :
    (Relation.EqvGen Inserted flags flags' →
      identityRustflags (encode flags) = identityRustflags (encode flags')) ∧
      ∃ rest rest', (∀ other, Remaining flags other ↔ other = rest) ∧
        (∀ other, Remaining flags' other ↔ other = rest') ∧
        (identityRustflags (encode flags) = identityRustflags (encode flags') ↔
          rest = rest') := by
  refine ⟨fun hedits => ?_, keepFlags flags, keepFlags flags', fun other => ?_, fun other => ?_,
    identity_eq_iff h h'⟩
  · rw [identity_eq_iff h h']
    clear h h'
    induction hedits with
    | rel _ _ hinserted => exact keepFlags_inserted hinserted
    | refl => rfl
    | symm _ _ _ ih => exact ih.symm
    | trans _ _ _ _ _ ih ih' => exact ih.trans ih'
  · rw [remaining_iff, eq_comm]
  · rw [remaining_iff, eq_comm]

/-- A path that is remapped between two words, and an optimization level that is another one. -/
theorem identityRustflags_law_optLevel :
    identityRustflags (encode ["-C", "opt-level=3"]) =
        identityRustflags (encode ["-C", "--remap-path-prefix", "/a=/b", "opt-level=3"]) ∧
      identityRustflags (encode ["-C", "opt-level=3"]) ≠
        identityRustflags (encode ["-C", "opt-level=2"]) := by
  have hplain : ∀ {flags : List String}, (∀ flag ∈ flags, flag ≠ "" ∧ separator ∉ flag.toList) →
      Words flags := id
  have hlevel : Words ["-C", "opt-level=3"] := hplain (by decide)
  have hother : ∀ {word rest}, startsWith word (remapPathPrefix ++ "=") = false →
      word ≠ remapPathPrefix → Complete rest → Complete (word :: rest) :=
    fun hjoined hapart h => .other ⟨hjoined, hapart⟩ h
  refine ⟨(identityRustflags_law hlevel (hplain (by decide))).1 (.rel _ _ ?_), fun heq => ?_⟩
  · exact @Inserted.at ["-C"] _ ["opt-level=3"] (hother (by decide) (by decide) .nil)
      (.apart "/a=/b")
  · have hlevel' : Words ["-C", "opt-level=2"] := hplain (by decide)
    obtain ⟨rest, rest', hrest, hrest', hiff⟩ := (identityRustflags_law hlevel hlevel').2
    have hwords := (hrest ["-C", "opt-level=3"]).mp
      (.other ⟨by decide, by decide⟩ (.other ⟨by decide, by decide⟩ .nil))
    have hwords' := (hrest' ["-C", "opt-level=2"]).mp
      (.other ⟨by decide, by decide⟩ (.other ⟨by decide, by decide⟩ .nil))
    have hsame := hiff.mp heq
    rw [← hwords, ← hwords'] at hsame
    exact absurd hsame (by decide)

end BuildSupport

end SemanticSidecar
