import SemanticSidecar.Engine.Input

/-!
# The token budget

`fit` measures a text without the tokenizer's special tokens and without the EOS marker; the model
is given a tokenization that has both.  What ties the two together are the two reserves
`load_candidate` measures once per model, and `buildInput_isBudgeted` is the result: the tokens of
an input are never more than `max_text_tokens`, and they are a prefix of the text's own, then the
marker, with the special tokens around.

The tokenizer may fail on a text, and nothing is assumed of its rendering.  Where an error went
into the slot of `build_input` there is no input; where none did, every operation so far has
succeeded, because an error that is recorded stays (`Keeps`).

The loop that shrinks a text gives up a token at a time until what is left is rendered to a text
with just these tokens, so it takes no more turns than the budget has tokens, and `shrink_clean`
says what it leaves.  That may be the empty text.

What is relied on is collected in `RegularTokenizer`: that the special tokens come around the tokens
of a text and do not depend on it, and that a marker at its end is tokenized apart from it.  These
are facts about the two pinned tokenizers, and the source relies on them without a check.
-/

set_option autoImplicit false

namespace SemanticSidecar

namespace LlamaEngine

/-! ## The reserves -/

/-- Probe used to measure the tokenizer's overhead. -/
def overheadProbe : String := "probe"

/-- Measures how many tokens the tokenizer adds around every input beyond the text itself. -/
def measureSpecialTokenOverhead (model : LlamaModel) : Except EngineError ℕ := do
  let withSpecial ← (model.strToToken overheadProbe .always).mapError (EngineError.new "Tokenize")
  let withoutSpecial ← (model.strToToken overheadProbe .never).mapError (EngineError.new "Tokenize")
  pure (withSpecial.length - withoutSpecial.length)

/-- The tokens reserved for the EOS marker. -/
def measureEosReserve (pin : ModelPin) (model : LlamaModel) : Except EngineError ℕ :=
  match pin.eosMarker with
  | some marker =>
    ((model.strToToken marker .never).mapError (EngineError.new "Tokenize")).map List.length
  | none => pure 0

/-- What `load_candidate` measures of a model it has loaded. -/
def ofModel (pin : ModelPin) (model : LlamaModel) : Except EngineError LlamaEngine := do
  let eosReserve ← measureEosReserve pin model
  let specialTokenOverhead ← measureSpecialTokenOverhead model
  pure ⟨pin, model, eosReserve, specialTokenOverhead⟩

/-- The tokens of the marker the engine appends, if any. -/
def IsMarker (engine : LlamaEngine) (eos : List LlamaToken) : Prop :=
  match engine.pin.eosMarker with
  | some marker => engine.model.strToToken marker .never = .ok eos
  | none => eos = []

theorem eosReserve_ofModel {pin : ModelPin} {model : LlamaModel} {engine : LlamaEngine}
    (h : ofModel pin model = .ok engine) :
    ∃ eos, engine.IsMarker eos ∧ engine.eosReserve = eos.length := by
  rw [ofModel] at h
  rcases hreserve : measureEosReserve pin model with err | reserve
  · rw [hreserve] at h
    exact absurd h (by simp [bind, Except.bind])
  rcases hoverhead : measureSpecialTokenOverhead model with err | overhead
  · rw [hreserve, hoverhead] at h
    exact absurd h (by simp [bind, Except.bind])
  rw [hreserve, hoverhead] at h
  obtain rfl : (⟨pin, model, reserve, overhead⟩ : LlamaEngine) = engine := Except.ok.inj h
  rw [measureEosReserve] at hreserve
  simp only [IsMarker]
  rcases hpin : pin.eosMarker with _ | marker
  · rw [hpin] at hreserve
    exact ⟨[], rfl, (Except.ok.inj hreserve).symm⟩
  · rw [hpin] at hreserve
    dsimp only at hreserve ⊢
    rcases hmarker : model.strToToken marker .never with err | eos
    · rw [hmarker] at hreserve
      exact absurd hreserve (by simp [Except.mapError, Except.map])
    · rw [hmarker] at hreserve
      exact ⟨eos, rfl, (Except.ok.inj hreserve).symm⟩

/-! ## What is relied on of the tokenizer -/

/-- The tokenizer is regular where the budget depends on it. -/
structure RegularTokenizer (engine : LlamaEngine) : Prop where
  /-- With special tokens, a text is its plain tokens with the overhead around them. -/
  surrounds : ∀ s all, engine.model.strToToken s .always = .ok all → ∃ before ts after,
    engine.model.strToToken s .never = .ok ts ∧ all = before ++ ts ++ after ∧
      before.length + after.length = engine.specialTokenOverhead
  /-- The marker is tokenized apart from the text before it. -/
  appends : ∀ s ts all eos, engine.IsMarker eos → engine.model.strToToken s .never = .ok ts →
    engine.model.strToToken (engine.withEos s) .never = .ok all → all = ts ++ eos
  /-- The empty text has no tokens. -/
  empty : engine.model.strToToken "" .never = .ok []

/-! ## A recorded error stays -/

/-- The computation does not clear the slot. -/
def Keeps {α : Type} (x : StateM (Option String) α) : Prop :=
  ∀ err, (x.run (some err)).2 = some err

theorem Keeps.pure {α : Type} (a : α) : Keeps (pure a : StateM (Option String) α) :=
  fun _ => rfl

theorem Keeps.bind {α β : Type} {x : StateM (Option String) α}
    {f : α → StateM (Option String) β} (hx : Keeps x) (hf : ∀ a, Keeps (f a)) :
    Keeps (x >>= f) := by
  intro err
  have hslot := hx err
  rcases hrun : x.run (some err) with ⟨a, slot⟩
  rw [hrun] at hslot
  obtain rfl : slot = some err := hslot
  have hbind : (x >>= f).run (some err) = (f a).run (some err) := by
    rw [StateT.run_bind, hrun]
    rfl
  rw [hbind]
  exact hf a err

/-- A sequence that ends with the slot empty has had it empty in between. -/
theorem Keeps.clean {α β : Type} {x : StateM (Option String) α}
    {f : α → StateM (Option String) β} (hf : ∀ a, Keeps (f a)) {b : β}
    (h : (x >>= f).run none = (b, none)) :
    ∃ a, x.run none = (a, none) ∧ (f a).run none = (b, none) := by
  rcases hrun : x.run none with ⟨a, _ | err⟩
  · refine ⟨a, rfl, ?_⟩
    rw [StateT.run_bind, hrun] at h
    exact h
  · rw [StateT.run_bind, hrun] at h
    have hslot : ((f a).run (some err)).2 = none := congrArg Prod.snd h
    rw [hf a err] at hslot
    exact absurd hslot (by simp)

variable (engine : LlamaEngine)

theorem keeps_tokenizeRecording (s : String) : Keeps (engine.tokenizeRecording s) := by
  rw [tokenizeRecording]
  split
  · exact Keeps.pure _
  · exact fun err => rfl

theorem keeps_detokenizeRecording (ts : List LlamaToken) : Keeps (engine.detokenizeRecording ts) := by
  rw [detokenizeRecording]
  split
  · exact Keeps.pure _
  · exact fun err => rfl

theorem keeps_shrink (ts : List LlamaToken) (kept : ℕ) :
    Keeps (shrink engine.tokenizeRecording engine.detokenizeRecording ts kept) := by
  induction kept with
  | zero => exact Keeps.pure _
  | succ kept ih =>
    rw [shrink]
    refine (engine.keeps_detokenizeRecording _).bind fun candidate => ?_
    refine (engine.keeps_tokenizeRecording _).bind fun again => ?_
    split
    · exact Keeps.pure _
    · exact ih

variable {engine}

/-- A tokenization that leaves the slot empty has succeeded. -/
theorem strToToken_of_clean {s : String} {ts : List LlamaToken}
    (h : (engine.tokenizeRecording s).run none = (ts, none)) :
    engine.model.strToToken s .never = .ok ts := by
  rw [tokenizeRecording] at h
  split at h
  · rename_i tokens htokens
    rw [htokens, (Prod.mk.inj h).1]
  · exact absurd (Prod.mk.inj h).2 (by simp)

/-- **What the loop leaves**, when it has recorded nothing: a prefix, or nothing at all. -/
theorem shrink_clean {ts : List LlamaToken} {kept : ℕ} {fitted : String}
    (h : (shrink engine.tokenizeRecording engine.detokenizeRecording ts kept).run none =
      (fitted, none)) :
    fitted = "" ∨ ∃ n ≤ kept, engine.model.strToToken fitted .never = .ok (ts.take n) := by
  induction kept with
  | zero => exact Or.inl (Prod.mk.inj h).1.symm
  | succ kept ih =>
    rw [shrink] at h
    obtain ⟨candidate, -, h⟩ := Keeps.clean (fun candidate =>
      (engine.keeps_tokenizeRecording candidate).bind fun again => by
        split
        · exact Keeps.pure _
        · exact engine.keeps_shrink ts kept) h
    obtain ⟨again, hagain, h⟩ := Keeps.clean (fun again => by
      split
      · exact Keeps.pure _
      · exact engine.keeps_shrink ts kept) h
    split at h
    · rename_i hstable
      obtain rfl : candidate = fitted := (Prod.mk.inj h).1
      exact Or.inr ⟨kept + 1, le_rfl, hstable ▸ strToToken_of_clean hagain⟩
    · rcases ih h with hempty | ⟨n, hle, hn⟩
      · exact Or.inl hempty
      · exact Or.inr ⟨n, hle.trans (Nat.le_succ kept), hn⟩

/-- What `fit` leaves is a prefix of the text's tokens within the budget, and the whole text where
it is within the budget itself. -/
theorem fit_clean {text : String} {role : Role} {fitted : String}
    (hempty : engine.model.strToToken "" .never = .ok [])
    (h : (fit engine.tokenizeRecording engine.detokenizeRecording (engine.prefixed text role)
      engine.pin.maxTextTokens engine.eosReserve engine.specialTokenOverhead).run none =
        (fitted, none)) :
    ∃ tokens body, engine.model.strToToken (engine.prefixed text role) .never = .ok tokens ∧
      engine.model.strToToken fitted .never = .ok body ∧ body <+: tokens ∧
      body.length ≤ engine.budget ∧
      (tokens.length ≤ engine.budget → fitted = engine.prefixed text role) := by
  rw [fit] at h
  obtain ⟨tokens, htokens, h⟩ := Keeps.clean (fun tokens => by
    split
    · exact Keeps.pure _
    · exact engine.keeps_shrink tokens _) h
  have htext := strToToken_of_clean htokens
  split at h
  · rename_i hle
    obtain rfl : engine.prefixed text role = fitted := (Prod.mk.inj h).1
    exact ⟨tokens, tokens, htext, htext, List.prefix_rfl, hle, fun _ => rfl⟩
  · rename_i hover
    have hover : ¬ tokens.length ≤ engine.budget := hover
    rcases shrink_clean h with rfl | ⟨n, hle, hn⟩
    · exact ⟨tokens, [], htext, hempty, List.nil_prefix, Nat.zero_le _,
        fun hfits => absurd hfits hover⟩
    · exact ⟨tokens, tokens.take n, htext, hn, List.take_prefix n tokens,
        (List.length_take_le n tokens).trans hle, fun hfits => absurd hfits hover⟩

/-- **The token budget.**  On a pin that can hold its own reserves, whatever is built has at most
`max_text_tokens` tokens: the special tokens, around a prefix of the tokens of the instruction and
the text, followed by the whole marker; and the prefix is everything where everything fits. -/
theorem buildInput_isBudgeted {pin : ModelPin} {model : LlamaModel}
    (hload : ofModel pin model = .ok engine) (htokenizer : engine.RegularTokenizer)
    (hroom : engine.eosReserve + engine.specialTokenOverhead ≤ engine.pin.maxTextTokens)
    {text : String} {role : Role} {input : List LlamaToken}
    (h : engine.buildInput text role = .ok input) :
    input.length ≤ engine.pin.maxTextTokens ∧ ∃ before body eos after tokens,
      input = before ++ (body ++ eos) ++ after ∧
      before.length + after.length = engine.specialTokenOverhead ∧ engine.IsMarker eos ∧
      engine.model.strToToken (engine.prefixed text role) .never = .ok tokens ∧
      body <+: tokens ∧
      (tokens.length + eos.length + engine.specialTokenOverhead ≤ engine.pin.maxTextTokens →
        body = tokens) := by
  obtain ⟨eos, heos, hreserve⟩ := eosReserve_ofModel hload
  rw [buildInput] at h
  split at h
  rename_i fitted slot hfit
  split at h
  · exact absurd h (by simp)
  split at h
  · rename_i all hall
    obtain rfl := Except.ok.inj h
    obtain ⟨tokens, body, htokens, hbody, hsub, hlength, hwhole⟩ :=
      fit_clean htokenizer.empty hfit
    obtain ⟨before, plain, after, hplain, rfl, hoverhead⟩ := htokenizer.surrounds _ _ hall
    obtain rfl := htokenizer.appends fitted body plain eos heos hbody hplain
    have hbudget : engine.budget =
        engine.pin.maxTextTokens - (engine.eosReserve + engine.specialTokenOverhead) := rfl
    refine ⟨?_, before, body, eos, after, tokens, rfl, hoverhead, heos, htokens, hsub, ?_⟩
    · simp only [List.length_append]
      omega
    · intro hfits
      have hsame := hwhole (by omega)
      rw [hsame] at hbody
      exact Except.ok.inj (hbody.symm.trans htokens)
  · exact absurd h (by simp)

/-- `byteModel` with a token before and a token after every input. -/
def wrappedModel : LlamaModel where
  strToToken s addBos := .ok <| match addBos with
    | .always => (101 : LlamaToken) :: (Text.toUtf8 s).map byteToken ++ [(102 : LlamaToken)]
    | .never => (Text.toUtf8 s).map byteToken
  tokenToPieceBytes := byteModel.tokenToPieceBytes

/-- A pin with room for `room` tokens. -/
def roomyPin (room : ℕ) : ModelPin := { qwen3 with maxTextTokens := room }

/-- An engine on this model with room for so many tokens. -/
def wrappedEngine (room : ℕ) : LlamaEngine := ⟨roomyPin room, wrappedModel, 13, 2⟩

theorem ofModel_wrapped (room : ℕ) :
    ofModel (roomyPin room) wrappedModel = .ok (wrappedEngine room) := by
  have hmarker : (Text.toUtf8 "<|endoftext|>").length = 13 := by decide
  simp [ofModel, measureEosReserve, measureSpecialTokenOverhead, wrappedModel, wrappedEngine,
    roomyPin, qwen3, hmarker, Except.mapError, Except.map, bind, Except.bind, pure, Except.pure,
    Nat.add_assoc]

theorem wrappedEngine_regular (room : ℕ) : (wrappedEngine room).RegularTokenizer where
  surrounds s all h := by
    obtain rfl := (Except.ok.inj h).symm
    exact ⟨[101], _, [102], rfl, rfl, rfl⟩
  appends s ts all eos heos hs hall := by
    obtain rfl := (Except.ok.inj heos).symm
    obtain rfl := (Except.ok.inj hs).symm
    obtain rfl := (Except.ok.inj hall).symm
    have happend : (wrappedEngine room).withEos s = s ++ "<|endoftext|>" := rfl
    rw [happend, Text.toUtf8_append, List.map_append]
  empty := rfl

/-- The input of `"aaaaa"` where there is room for three tokens of it, between the special tokens
and before the marker. -/
def cutInput : List LlamaToken :=
  [101] ++ ([97, 97, 97] ++ (Text.toUtf8 "<|endoftext|>").map byteToken) ++ [102]

theorem buildInput_wrapped : (wrappedEngine 18).buildInput "aaaaa" .document = .ok cutInput := by
  have hsome : ((wrappedEngine 18).buildInput "aaaaa" .document).toOption = some cutInput := by
    decide +kernel
  rcases hbuild : (wrappedEngine 18).buildInput "aaaaa" .document with err | input
  · rw [hbuild] at hsome
    cases hsome
  · rw [hbuild] at hsome
    exact congrArg Except.ok (Option.some.inj hsome)

/-- A text of five tokens is truncated to three, and fills the room that there is. -/
theorem buildInput_isBudgeted_wrapped :
    (wrappedEngine 18).buildInput "aaaaa" .document = .ok cutInput ∧ cutInput.length ≤ 18 ∧
      ∃ before body eos after tokens,
        cutInput = before ++ (body ++ eos) ++ after ∧ before.length + after.length = 2 ∧
        (wrappedEngine 18).IsMarker eos ∧
        wrappedModel.strToToken ((wrappedEngine 18).prefixed "aaaaa" .document) .never =
          .ok tokens ∧ body <+: tokens := by
  obtain ⟨hroom, before, body, eos, after, tokens, hinput, hspecial, heos, htokens, hbody, -⟩ :=
    buildInput_isBudgeted (ofModel_wrapped 18) (wrappedEngine_regular 18) (by decide)
      buildInput_wrapped
  exact ⟨buildInput_wrapped, hroom, before, body, eos, after, tokens, hinput, hspecial, heos,
    htokens, hbody⟩

end LlamaEngine

end SemanticSidecar
