import SemanticSidecar.Lib.PyJson.Lexer
import Mathlib.Data.List.Lex

/-!
# JSON values, as Python has them

A dictionary is the list of its members in the order of their keys, which is the order that they
are written in with `sort_keys`; in what order they were put in is forgotten.

The parser is a machine that takes one token after the other, with a stack of the lists and
dictionaries that are open.  Two limits of CPython's are not modelled: it refuses an integer of more
than 4300 digits (`ValueError`), and it gives up on a text that is nested too deeply for its stack
(`RecursionError`).  Such a text is read here.

`loads_dumps` says that a value is read back, provided it is `Canonical`; what `loads` returns is,
and it stays so if a member is put in.
-/

set_option autoImplicit false

namespace PyJson

/-- A JSON value. -/
inductive Value (F : Type) where
  /-- A number or a constant. -/
  | atom (a : Atom F)
  /-- A string. -/
  | str (s : Str)
  /-- A list. -/
  | list (items : List (Value F))
  /-- A dictionary. -/
  | dict (members : List (Str × Value F))

/-- The members of a dictionary. -/
abbrev Members (F : Type) := List (Str × Value F)

variable {F : Type}

/-! ## Dictionaries -/

/-- `members.get(key)`. -/
def getItem (members : Members F) (key : Str) : Option (Value F) := members.lookup key

/-- `members[key] = value`. -/
def setItem : Members F → Str → Value F → Members F
  | [], key, value => [(key, value)]
  | (key', value') :: rest, key, value =>
    if key < key' then (key, value) :: (key', value') :: rest
    else if key = key' then (key, value) :: rest
    else (key', value') :: setItem rest key value

/-! ## The parser -/

/-- A list or a dictionary that is open. -/
inductive Frame (F : Type) where
  /-- A list, with its items so far. -/
  | list (before : List (Value F))
  /-- A dictionary, with its members so far and the key whose value is next. -/
  | dict (before : Members F) (key : Str)

/-- What has been read, and what may come. -/
inductive Parsing (F : Type) where
  /-- A value is next. -/
  | expectValue (stack : List (Frame F))
  /-- An item, or the end of an empty list. -/
  | expectItem (stack : List (Frame F))
  /-- A key is next. -/
  | expectKey (before : Members F) (stack : List (Frame F))
  /-- A key, or the end of an empty dictionary. -/
  | expectMember (stack : List (Frame F))
  /-- A colon is next. -/
  | expectColon (before : Members F) (key : Str) (stack : List (Frame F))
  /-- A value is complete. -/
  | done (value : Value F) (stack : List (Frame F))

namespace Parsing

/-- The beginning of a value. -/
def start (stack : List (Frame F)) : Token F → Option (Parsing F)
  | .atom a => some (.done (.atom a) stack)
  | .str s => some (.done (.str s) stack)
  | .openList => some (.expectItem stack)
  | .openDict => some (.expectMember stack)
  | .closeList | .closeDict | .colon | .comma => none

/-- One more token. -/
def step : Parsing F → Token F → Option (Parsing F)
  | .expectValue stack, token => start stack token
  | .expectItem stack, .closeList => some (.done (.list []) stack)
  | .expectItem stack, token => start (.list [] :: stack) token
  | .expectKey before stack, .str key => some (.expectColon before key stack)
  | .expectMember stack, .closeDict => some (.done (.dict []) stack)
  | .expectMember stack, .str key => some (.expectColon [] key stack)
  | .expectColon before key stack, .colon => some (.expectValue (.dict before key :: stack))
  | .done value (.list before :: stack), .comma =>
    some (.expectValue (.list (before ++ [value]) :: stack))
  | .done value (.list before :: stack), .closeList =>
    some (.done (.list (before ++ [value])) stack)
  | .done value (.dict before key :: stack), .comma =>
    some (.expectKey (setItem before key value) stack)
  | .done value (.dict before key :: stack), .closeDict =>
    some (.done (.dict (setItem before key value)) stack)
  | _, _ => none

/-- What has been read, if it is complete. -/
def result : Parsing F → Option (Value F)
  | .done value [] => some value
  | _ => none

end Parsing

/-- The value of a sequence of tokens. -/
def parse (tokens : List (Token F)) : Option (Value F) :=
  (tokens.foldlM Parsing.step (.expectValue [])).bind Parsing.result

/-- `json.loads`, or nothing if there is a `JSONDecodeError`; without CPython's limits on the digits
of an integer and on the depth of the nesting. -/
def loads (floats : Floats F) (text : List Char) : Option (Value F) :=
  (lex floats .between text).bind parse

/-! ## The serializer -/

mutual

/-- The tokens of a value. -/
def tokens : Value F → List (Token F)
  | .atom a => [.atom a]
  | .str s => [.str s]
  | .list items => .openList :: (itemTokens items ++ [.closeList])
  | .dict members => .openDict :: (memberTokens members ++ [.closeDict])

/-- The tokens of the items of a list. -/
def itemTokens : List (Value F) → List (Token F)
  | [] => []
  | [v] => tokens v
  | v :: w :: rest => tokens v ++ .comma :: itemTokens (w :: rest)

/-- The tokens of the members of a dictionary. -/
def memberTokens : List (Str × Value F) → List (Token F)
  | [] => []
  | [(key, v)] => .str key :: .colon :: tokens v
  | (key, v) :: m :: rest => .str key :: .colon :: (tokens v ++ .comma :: memberTokens (m :: rest))

end

/-- `json.dumps(value, separators=(",", ":"), sort_keys=True)`. -/
def dumps (floats : Floats F) (v : Value F) : List Char := (tokens v).flatMap (Token.text floats)

/-! ## Getting and setting -/

theorem getItem_cons (key key' : Str) (value : Value F) (rest : Members F) :
    getItem ((key, value) :: rest) key' = if key' = key then some value else getItem rest key' := by
  rw [getItem, List.lookup_cons]
  rcases eq_or_ne key' key with rfl | hne
  · rw [beq_self_eq_true, if_pos rfl]
  · rw [beq_false_of_ne hne, if_neg hne]
    rfl

theorem getItem_setItem (members : Members F) (key key' : Str) (value : Value F) :
    getItem (setItem members key value) key' =
      if key' = key then some value else getItem members key' := by
  induction members with
  | nil => rw [setItem, getItem_cons]
  | cons m rest ih =>
    obtain ⟨first, value'⟩ := m
    rw [setItem]
    by_cases hlt : key < first
    · rw [if_pos hlt, getItem_cons]
    · rw [if_neg hlt]
      rcases eq_or_ne key first with rfl | hne
      · rw [if_pos rfl, getItem_cons, getItem_cons]
        split
        · rfl
        · rfl
      · rw [if_neg hne, getItem_cons, ih, getItem_cons]
        rcases eq_or_ne key' key with rfl | hkey
        · rw [if_neg hne, if_pos rfl, if_pos rfl]
        · rw [if_neg hkey, if_neg hkey]

theorem mem_setItem {members : Members F} {key : Str} {value : Value F} {m : Str × Value F}
    (h : m ∈ setItem members key value) : m = (key, value) ∨ m ∈ members := by
  induction members with
  | nil => exact .inl (List.mem_singleton.mp h)
  | cons first rest ih =>
    rw [setItem] at h
    split_ifs at h
    · exact List.mem_cons.mp h
    · exact (List.mem_cons.mp h).imp_right (List.mem_cons_of_mem _)
    · rcases List.mem_cons.mp h with rfl | h
      · exact .inr List.mem_cons_self
      · exact (ih h).imp_right (List.mem_cons_of_mem _)

/-- The members are in the order of their keys. -/
def Sorted (members : Members F) : Prop := members.Pairwise fun m n => m.1 < n.1

theorem sorted_setItem {members : Members F} (h : Sorted members) (key : Str) (value : Value F) :
    Sorted (setItem members key value) := by
  induction members with
  | nil => exact List.pairwise_singleton _ _
  | cons first rest ih =>
    obtain ⟨hfirst, hrest⟩ := List.pairwise_cons.mp h
    rw [setItem]
    split_ifs with hlt heq
    · exact List.pairwise_cons.mpr ⟨List.forall_mem_cons.mpr
        ⟨hlt, fun m hm => List.lt_trans hlt (hfirst m hm)⟩, h⟩
    · exact List.pairwise_cons.mpr ⟨fun m hm => heq ▸ hfirst m hm, hrest⟩
    · refine List.pairwise_cons.mpr ⟨fun m hm => ?_, ih hrest⟩
      rcases mem_setItem hm with rfl | hm
      · exact lt_of_le_of_ne (not_lt.mp hlt) (Ne.symm heq)
      · exact hfirst m hm

theorem setItem_last {members : Members F} {key : Str} (h : ∀ m ∈ members, m.1 < key)
    (value : Value F) : setItem members key value = members ++ [(key, value)] := by
  induction members with
  | nil => rfl
  | cons first rest ih =>
    obtain ⟨hfirst, hrest⟩ := List.forall_mem_cons.mp h
    rw [setItem, if_neg (List.lt_asymm hfirst), if_neg (ne_of_gt hfirst), ih hrest, List.cons_append]

/-! ## Values that are read back -/

/-- Strings are joined, and the members of a dictionary are in order. -/
inductive Canonical : Value F → Prop
  /-- A number or a constant. -/
  | atom (a : Atom F) : Canonical (.atom a)
  /-- A string without surrogate pairs. -/
  | str {s : Str} (h : Joined s) : Canonical (.str s)
  /-- A list of canonical values. -/
  | list {items : List (Value F)} (h : ∀ v ∈ items, Canonical v) : Canonical (.list items)
  /-- A dictionary of canonical values, sorted by its keys. -/
  | dict {members : Members F} (hkeys : ∀ m ∈ members, Joined m.1) (hsorted : Sorted members)
    (hvalues : ∀ m ∈ members, Canonical m.2) : Canonical (.dict members)

theorem canonical_setItem {members : Members F} (h : Canonical (.dict members)) {key : Str}
    (hkey : Joined key) {value : Value F} (hvalue : Canonical value) :
    Canonical (.dict (setItem members key value)) := by
  cases h with
  | dict hkeys hsorted hvalues =>
    refine .dict (fun m hm => ?_) (sorted_setItem hsorted key value) (fun m hm => ?_)
    · rcases mem_setItem hm with rfl | hm
      · exact hkey
      · exact hkeys m hm
    · rcases mem_setItem hm with rfl | hm
      · exact hvalue
      · exact hvalues m hm

theorem canonical_getItem {members : Members F} (h : Canonical (.dict members)) {key : Str}
    {value : Value F} (hget : getItem members key = some value) : Canonical value := by
  cases h with
  | dict _ _ hvalues => exact hvalues (key, value) (mem_of_lookup hget)

theorem canonical_emptyDict : Canonical (.dict [] : Value F) := .dict nofun .nil nofun

/-! ### What the parser returns -/

/-- What is open is canonical so far. -/
def Frame.Canonical : Frame F → Prop
  | .list before => ∀ v ∈ before, PyJson.Canonical v
  | .dict before key => PyJson.Canonical (.dict before) ∧ Joined key

/-- What has been read is canonical. -/
def Parsing.Canonical : Parsing F → Prop
  | .expectValue stack | .expectItem stack | .expectMember stack => ∀ f ∈ stack, f.Canonical
  | .expectKey before stack => PyJson.Canonical (.dict before) ∧ ∀ f ∈ stack, f.Canonical
  | .expectColon before key stack =>
    PyJson.Canonical (.dict before) ∧ Joined key ∧ ∀ f ∈ stack, f.Canonical
  | .done value stack => PyJson.Canonical value ∧ ∀ f ∈ stack, f.Canonical

theorem start_canonical {stack : List (Frame F)} {token : Token F} {next : Parsing F}
    (hstack : ∀ f ∈ stack, f.Canonical) (htoken : token.Joined)
    (h : Parsing.start stack token = some next) : next.Canonical := by
  cases token with
  | atom a => exact Option.some.inj h ▸ ⟨.atom a, hstack⟩
  | str s => exact Option.some.inj h ▸ ⟨.str htoken, hstack⟩
  | openList | openDict => exact Option.some.inj h ▸ hstack
  | closeList | closeDict | colon | comma => cases h

/-- **A step keeps what has been read canonical.** -/
theorem step_canonical {p next : Parsing F} {token : Token F} (hp : p.Canonical)
    (htoken : token.Joined) (h : p.step token = some next) : next.Canonical := by
  cases p with
  | expectValue stack => exact start_canonical hp htoken h
  | expectItem stack =>
    have hempty : (Frame.list [] : Frame F).Canonical := List.forall_mem_nil _
    cases token with
    | closeList => exact Option.some.inj h ▸ ⟨.list nofun, hp⟩
    | _ => exact start_canonical (List.forall_mem_cons.mpr ⟨hempty, hp⟩) htoken h
  | expectKey before stack =>
    cases token with
    | str key => exact Option.some.inj h ▸ ⟨hp.1, htoken, hp.2⟩
    | _ => cases h
  | expectMember stack =>
    cases token with
    | closeDict => exact Option.some.inj h ▸ ⟨canonical_emptyDict, hp⟩
    | str key => exact Option.some.inj h ▸ ⟨canonical_emptyDict, htoken, hp⟩
    | _ => cases h
  | expectColon before key stack =>
    cases token with
    | colon => exact Option.some.inj h ▸ List.forall_mem_cons.mpr ⟨⟨hp.1, hp.2.1⟩, hp.2.2⟩
    | _ => cases h
  | done value stack =>
    obtain ⟨hvalue, hstack⟩ := hp
    rcases stack with _ | ⟨_ | _, stack⟩
    · cases token <;> cases h
    · obtain ⟨hbefore, hstack⟩ := List.forall_mem_cons.mp hstack
      have hitems := List.forall_mem_append.mpr ⟨hbefore, List.forall_mem_singleton.mpr hvalue⟩
      cases token with
      | comma => exact Option.some.inj h ▸ List.forall_mem_cons.mpr ⟨hitems, hstack⟩
      | closeList => exact Option.some.inj h ▸ ⟨.list hitems, hstack⟩
      | _ => cases h
    · obtain ⟨⟨hbefore, hkey⟩, hstack⟩ := List.forall_mem_cons.mp hstack
      have hmembers := canonical_setItem hbefore hkey hvalue
      cases token with
      | comma => exact Option.some.inj h ▸ ⟨hmembers, hstack⟩
      | closeDict => exact Option.some.inj h ▸ ⟨hmembers, hstack⟩
      | _ => cases h

theorem run_canonical {tokens : List (Token F)} {p next : Parsing F} (hp : p.Canonical)
    (htokens : ∀ t ∈ tokens, t.Joined) (h : tokens.foldlM Parsing.step p = some next) :
    next.Canonical := by
  induction tokens generalizing p with
  | nil => exact Option.some.inj h ▸ hp
  | cons token tokens ih =>
    obtain ⟨htoken, htokens⟩ := List.forall_mem_cons.mp htokens
    rw [List.foldlM_cons] at h
    obtain ⟨q, hq, hrest⟩ := Option.bind_eq_some_iff.mp h
    exact ih (step_canonical hp htoken hq) htokens hrest

/-- **What is loaded is canonical.** -/
theorem loads_canonical {floats : Floats F} {text : List Char} {v : Value F}
    (h : loads floats text = some v) : Canonical v := by
  obtain ⟨tokens, hlex, hparse⟩ := Option.bind_eq_some_iff.mp h
  obtain ⟨p, hrun, hresult⟩ := Option.bind_eq_some_iff.mp hparse
  have hmode : Mode.Bounded .between := trivial
  have hstart : (Parsing.expectValue [] : Parsing F).Canonical := List.forall_mem_nil _
  have hp : p.Canonical := run_canonical hstart (lex_joined hmode hlex) hrun
  rcases p with _ | _ | _ | _ | _ | ⟨value, _ | ⟨frame, stack⟩⟩
  all_goals first
    | exact Option.some.inj hresult ▸ hp.1
    | cases hresult

/-! ### Tokens of values -/

/-- No two words come next to each other. -/
def Apart (tokens : List (Token F)) : Prop := tokens.IsChain fun t u => ¬ (t.IsWord ∧ u.IsWord)

theorem apart_cons {token : Token F} {tokens : List (Token F)} (htoken : ¬ token.IsWord)
    (h : Apart tokens) : Apart (token :: tokens) :=
  List.isChain_cons.mpr ⟨fun _ _ hwords => htoken hwords.1, h⟩

theorem apart_append {token : Token F} {before after : List (Token F)} (htoken : ¬ token.IsWord)
    (hbefore : Apart before) (hafter : Apart after) : Apart (before ++ token :: after) := by
  refine List.isChain_append.mpr ⟨hbefore, apart_cons htoken hafter, fun t _ u hu hwords => ?_⟩
  obtain rfl := Option.some.inj hu
  exact htoken hwords.2

theorem apart_itemTokens : ∀ {items : List (Value F)}, (∀ v ∈ items, Apart (tokens v)) →
    Apart (itemTokens items)
  | [], _ => by rw [itemTokens]; exact .nil
  | [v], h => by rw [itemTokens]; exact h v List.mem_cons_self
  | v :: w :: rest, h => by
    obtain ⟨hv, hrest⟩ := List.forall_mem_cons.mp h
    rw [itemTokens]
    exact apart_append not_false hv (apart_itemTokens hrest)

theorem apart_memberTokens : ∀ {members : Members F}, (∀ m ∈ members, Apart (tokens m.2)) →
    Apart (memberTokens members)
  | [], _ => by rw [memberTokens]; exact .nil
  | [(key, v)], h => by
    rw [memberTokens]
    exact apart_cons not_false (apart_cons not_false (h (key, v) List.mem_cons_self))
  | (key, v) :: m :: rest, h => by
    obtain ⟨hv, hrest⟩ := List.forall_mem_cons.mp h
    rw [memberTokens]
    exact apart_cons not_false (apart_cons not_false
      (apart_append not_false hv (apart_memberTokens hrest)))

theorem apart_tokens {v : Value F} (h : Canonical v) : Apart (tokens v) := by
  induction h with
  | atom a => exact .singleton _
  | str hs => exact .singleton _
  | list _ ih =>
    rw [tokens]
    exact apart_cons not_false (apart_append not_false (apart_itemTokens ih) .nil)
  | dict _ _ _ ih =>
    rw [tokens]
    exact apart_cons not_false (apart_append not_false (apart_memberTokens ih) .nil)

theorem joined_itemTokens : ∀ {items : List (Value F)}, (∀ v ∈ items, ∀ t ∈ tokens v, t.Joined) →
    ∀ t ∈ itemTokens items, t.Joined
  | [], _ => by rw [itemTokens]; exact List.forall_mem_nil _
  | [v], h => by rw [itemTokens]; exact h v List.mem_cons_self
  | v :: w :: rest, h => by
    obtain ⟨hv, hrest⟩ := List.forall_mem_cons.mp h
    rw [itemTokens]
    exact List.forall_mem_append.mpr
      ⟨hv, List.forall_mem_cons.mpr ⟨trivial, joined_itemTokens hrest⟩⟩

theorem joined_memberTokens : ∀ {members : Members F}, (∀ m ∈ members, Joined m.1) →
    (∀ m ∈ members, ∀ t ∈ tokens m.2, t.Joined) → ∀ t ∈ memberTokens members, t.Joined
  | [], _, _ => by rw [memberTokens]; exact List.forall_mem_nil _
  | [(key, v)], hkeys, h => by
    rw [memberTokens]
    exact List.forall_mem_cons.mpr ⟨hkeys (key, v) List.mem_cons_self,
      List.forall_mem_cons.mpr ⟨trivial, h (key, v) List.mem_cons_self⟩⟩
  | (key, v) :: m :: rest, hkeys, h => by
    obtain ⟨hkey, hkeys⟩ := List.forall_mem_cons.mp hkeys
    obtain ⟨hv, hrest⟩ := List.forall_mem_cons.mp h
    rw [memberTokens]
    exact List.forall_mem_cons.mpr ⟨hkey, List.forall_mem_cons.mpr ⟨trivial,
      List.forall_mem_append.mpr
        ⟨hv, List.forall_mem_cons.mpr ⟨trivial, joined_memberTokens hkeys hrest⟩⟩⟩⟩

theorem joined_tokens {v : Value F} (h : Canonical v) : ∀ t ∈ tokens v, t.Joined := by
  induction h with
  | atom a => rw [tokens]; exact List.forall_mem_singleton.mpr trivial
  | str hs => rw [tokens]; exact List.forall_mem_singleton.mpr hs
  | list _ ih =>
    rw [tokens]
    exact List.forall_mem_cons.mpr ⟨trivial, List.forall_mem_append.mpr
      ⟨joined_itemTokens ih, List.forall_mem_singleton.mpr trivial⟩⟩
  | dict hkeys _ _ ih =>
    rw [tokens]
    exact List.forall_mem_cons.mpr ⟨trivial, List.forall_mem_append.mpr
      ⟨joined_memberTokens hkeys ih, List.forall_mem_singleton.mpr trivial⟩⟩

/-! ### The round trip -/

/-- Tokens in a row. -/
def run (p : Parsing F) (tokens : List (Token F)) : Option (Parsing F) :=
  tokens.foldlM Parsing.step p

theorem run_cons (p : Parsing F) (token : Token F) (rest : List (Token F)) :
    run p (token :: rest) = (p.step token).bind (run · rest) := List.foldlM_cons

theorem run_append (p : Parsing F) (first rest : List (Token F)) :
    run p (first ++ rest) = (run p first).bind (run · rest) := List.foldlM_append

/-- The parser reads this value, wherever it comes. -/
def IsRead (v : Value F) : Prop :=
  ∀ stack, run (.expectValue stack) (tokens v) = some (.done v stack)

theorem run_itemTokens : ∀ {items : List (Value F)}, (∀ v ∈ items, IsRead v) → items ≠ [] →
    ∀ before stack, run (.expectValue (.list before :: stack)) (itemTokens items ++ [.closeList]) =
      some (.done (.list (before ++ items)) stack)
  | [], _, hne => absurd rfl hne
  | [v], h, _ => fun before stack => by
    rw [itemTokens, run_append, h v List.mem_cons_self]
    rfl
  | v :: w :: rest, h, _ => fun before stack => by
    obtain ⟨hv, hrest⟩ := List.forall_mem_cons.mp h
    rw [itemTokens, List.append_assoc, run_append, hv, Option.bind_some, List.cons_append, run_cons,
      Parsing.step, Option.bind_some, run_itemTokens hrest (List.cons_ne_nil w rest),
      List.append_assoc, List.singleton_append]

theorem run_memberTokens : ∀ {members : Members F}, (∀ m ∈ members, IsRead m.2) → members ≠ [] →
    ∀ before stack, Sorted (before ++ members) →
      run (.expectKey before stack) (memberTokens members ++ [.closeDict]) =
        some (.done (.dict (before ++ members)) stack)
  | [], _, hne => absurd rfl hne
  | [(key, v)], h, _ => fun before stack hsorted => by
    have hlast : setItem before key v = before ++ [(key, v)] := setItem_last (fun m hm =>
      (List.pairwise_append.mp hsorted).2.2 m hm (key, v) List.mem_cons_self) v
    rw [memberTokens, List.cons_append, List.cons_append, run_cons, Parsing.step, Option.bind_some,
      run_cons, Parsing.step, Option.bind_some, run_append, h (key, v) List.mem_cons_self,
      Option.bind_some, run_cons, Parsing.step, hlast]
    rfl
  | (key, v) :: m :: rest, h, _ => fun before stack hsorted => by
    obtain ⟨hv, hrest⟩ := List.forall_mem_cons.mp h
    have hlast : setItem before key v = before ++ [(key, v)] := setItem_last (fun m hm =>
      (List.pairwise_append.mp hsorted).2.2 m hm (key, v) List.mem_cons_self) v
    have hsplit : before ++ (key, v) :: m :: rest = before ++ [(key, v)] ++ m :: rest := by
      rw [List.append_assoc, List.singleton_append]
    rw [memberTokens, List.cons_append, List.cons_append, run_cons, Parsing.step, Option.bind_some,
      run_cons, Parsing.step, Option.bind_some, List.append_assoc, run_append, hv, Option.bind_some,
      List.cons_append, run_cons, Parsing.step, Option.bind_some, hlast,
      run_memberTokens hrest (List.cons_ne_nil m rest) _ _ (hsplit ▸ hsorted), hsplit]

/-- A list that begins with a value is not empty. -/
theorem itemTokens_head (v : Value F) (rest : List (Value F)) :
    ∃ t ts, itemTokens (v :: rest) = t :: ts ∧
      ∀ stack, Parsing.step (.expectItem stack) t =
        Parsing.step (.expectValue (.list [] :: stack)) t := by
  have htokens : ∃ t ts, tokens v = t :: ts ∧ ∀ stack,
      Parsing.step (.expectItem stack) t = Parsing.step (.expectValue (.list [] :: stack)) t := by
    cases v
    all_goals exact ⟨_, _, by rw [tokens], fun _ => rfl⟩
  obtain ⟨t, ts, hv, hstep⟩ := htokens
  cases rest with
  | nil => exact ⟨t, ts, by rw [itemTokens, hv], hstep⟩
  | cons w rest => exact ⟨t, _, by rw [itemTokens, hv, List.cons_append], hstep⟩

theorem memberTokens_head (m : Str × Value F) (rest : Members F) :
    ∃ ts, memberTokens (m :: rest) = .str m.1 :: ts := by
  cases rest with
  | nil => exact ⟨_, by rw [memberTokens]⟩
  | cons n rest => exact ⟨_, by rw [memberTokens]⟩

/-- **The parser reads canonical values.** -/
theorem isRead_of_canonical {v : Value F} (h : Canonical v) : IsRead v := by
  induction h with
  | atom a => exact fun stack => by rw [tokens]; rfl
  | str hs => exact fun stack => by rw [tokens]; rfl
  | @list items _ ih =>
    intro stack
    rw [tokens, run_cons, Parsing.step, Parsing.start, Option.bind_some]
    cases items with
    | nil => rw [itemTokens]; rfl
    | cons v rest =>
      obtain ⟨t, ts, htokens, hstep⟩ := itemTokens_head v rest
      have hrun := run_itemTokens ih (List.cons_ne_nil v rest) [] stack
      rw [htokens, List.cons_append, run_cons] at hrun ⊢
      rw [hstep, hrun, List.nil_append]
  | @dict members _ hsorted _ ih =>
    intro stack
    rw [tokens, run_cons, Parsing.step, Parsing.start, Option.bind_some]
    cases members with
    | nil => rw [memberTokens]; rfl
    | cons m rest =>
      obtain ⟨ts, htokens⟩ := memberTokens_head m rest
      have hrun := run_memberTokens ih (List.cons_ne_nil m rest) [] stack hsorted
      rw [htokens, List.cons_append, run_cons] at hrun ⊢
      exact hrun

/-- **A canonical value is read back from its text.** -/
theorem loads_dumps (floats : Floats F) {v : Value F} (h : Canonical v) :
    loads floats (dumps floats v) = some v := by
  rw [loads, dumps, lex_text (joined_tokens h) (apart_tokens h), Option.bind_some, parse]
  exact congrArg (Option.bind · Parsing.result) (isRead_of_canonical h [])

theorem printable_dumps (floats : Floats F) {v : Value F} (h : Canonical v) :
    Json.Printable (dumps floats v) := by
  intro c hc
  obtain ⟨t, ht, hmem⟩ := List.mem_flatMap.mp hc
  exact printable_text (joined_tokens h t ht) c hmem

end PyJson
