import SemanticSidecar.Engine.Truncate
import SemanticSidecar.EngineTrait
import SemanticSidecar.Manifest

/-!
# The per-input pipeline of the llama.cpp engine

`buildInput` turns a raw text into the tokens the model is given: sanitize, prefix the role's
instruction, fit to the token budget, append the EOS marker, tokenize.  The tokenizer is a part
of llama.cpp and a parameter here.

The two closures handed to `fit` cannot fail, so they record the first error in a slot and answer
with something harmless; the slot is looked at once `fit` is done.  `fit` itself moves on from a
prefix that does not render, but the slot keeps the error.  `buildInput_isFit_iff` draws the line:
the pipeline succeeds exactly where `fit` meets no such prefix on its way down.

Nothing is assumed of the tokenizer but that it tokenizes every text, `TotalTokenizer`; its tokens
may render to bytes that are no text.  The byte tokenizer of the last part is such a one, with a
token for each byte: a budget that ends inside a character of two bytes leaves a prefix that does
not render, and `buildInput` returns the error that `fit` has passed over.

What the budget comes to is not the business of this file.  `Engine/Budget` says that what is built
keeps to it.
-/

set_option autoImplicit false

namespace SemanticSidecar

/-! ## The tokenizer -/

/-- Whether the tokenizer adds its own special tokens. -/
inductive AddBos where
  /-- The markers of the model are added. -/
  | always
  /-- They are not. -/
  | never
  deriving DecidableEq, Repr

/-- Why a token has no piece.  `text` is how the error is displayed. -/
inductive TokenToStringError where
  /-- The space needed, negated. -/
  | insufficientBufferSpace (needed : ℤ) (text : String)
  /-- Any other failure, with its text. -/
  | other (text : String)

/-- The text of the failure. -/
def TokenToStringError.toString : TokenToStringError → String
  | insufficientBufferSpace _ text => text
  | other text => text

/-- What the engine uses of a loaded llama.cpp model's vocabulary. -/
structure LlamaModel where
  /-- `LlamaModel::str_to_token`. -/
  strToToken : String → AddBos → Except String (List LlamaToken)
  /-- The bytes of one token, for a buffer size, with special tokens rendered or not. -/
  tokenToPieceBytes : LlamaToken → ℕ → Bool → Option ℕ → Except TokenToStringError (List UInt8)

/-- A loaded embedding model serving one manifest pin. -/
structure LlamaEngine where
  /-- The pin that is served. -/
  pin : ModelPin
  /-- The weights that are loaded. -/
  model : LlamaModel
  /-- Tokens reserved for the EOS marker. -/
  eosReserve : ℕ
  /-- Tokens the tokenizer adds around every input. -/
  specialTokenOverhead : ℕ

namespace LlamaEngine

variable (engine : LlamaEngine)

/-- Size of the first buffer a piece is rendered into. -/
def firstGuess : ℕ := 8

/-- Renders one token's bytes, growing the buffer when the first guess is too small. -/
def tokenPiece (token : LlamaToken) : Except String (List UInt8) :=
  match engine.model.tokenToPieceBytes token firstGuess true none with
  | .error (.insufficientBufferSpace needed _) =>
    if -needed < 0 then .error "out of range integral type conversion attempted"
    else
      (engine.model.tokenToPieceBytes token (-needed).toNat true none).mapError
        TokenToStringError.toString
  | other => other.mapError TokenToStringError.toString

/-- The concatenated pieces of a token sequence. -/
def pieces : List LlamaToken → Except String (List UInt8)
  | [] => .ok []
  | token :: rest =>
    match engine.tokenPiece token with
    | .error err => .error err
    | .ok piece =>
      match pieces rest with
      | .error err => .error err
      | .ok bytes => .ok (piece ++ bytes)

/-- Renders a token sequence back to text. -/
def detokenize (tokens : List LlamaToken) : Except String String :=
  match engine.pieces tokens with
  | .error err => .error err
  | .ok bytes =>
    match Text.fromUtf8 bytes with
    | some text => .ok text
    | none => .error (Text.utf8Error bytes)

/-! ## Building an input -/

/-- The first error is kept. -/
def record (err : String) : StateM (Option String) Unit :=
  modify fun slot => slot <|> some err

/-- The tokenizing closure of `build_input`. -/
def tokenizeRecording (s : String) : StateM (Option String) (List LlamaToken) :=
  match engine.model.strToToken s .never with
  | .ok tokens => pure tokens
  | .error err => do
    record err
    pure []

/-- The rendering closure of `build_input`. -/
def detokenizeRecording (tokens : List LlamaToken) : StateM (Option String) String :=
  match engine.detokenize tokens with
  | .ok text => pure text
  | .error err => do
    record err
    pure ""

/-- The instruction of a role. -/
def instruction (role : Role) : String :=
  match role with
  | .query => engine.pin.queryInstruction
  | .document => engine.pin.documentInstruction

/-- The text that is fitted to the budget. -/
def prefixed (text : String) (role : Role) : String := engine.instruction role ++ sanitize text

/-- The text with the EOS marker, when the model declares one. -/
def withEos (fitted : String) : String :=
  match engine.pin.eosMarker with
  | some marker => fitted ++ marker
  | none => fitted

/-- `build_input`: sanitize, prefix, fit, append EOS. -/
def buildInput (text : String) (role : Role) : Except EngineError (List LlamaToken) :=
  let (fitted, tokenizeError) :=
    (fit engine.tokenizeRecording engine.detokenizeRecording (engine.prefixed text role)
      engine.pin.maxTextTokens engine.eosReserve engine.specialTokenOverhead).run none
  match tokenizeError with
  | some err => .error (.new "Tokenize" err)
  | none =>
    match engine.model.strToToken (engine.withEos fitted) .always with
    | .ok tokens => .ok tokens
    | .error err => .error (.new "Tokenize" err)

/-! ## Under a total tokenizer -/

/-- The tokenizer never fails, and rendering fails only where the bytes of the pieces are not
valid UTF-8. -/
structure TotalTokenizer (tokens : String → AddBos → List LlamaToken)
    (piece : LlamaToken → List UInt8) : Prop where
  /-- Every text has tokens. -/
  strToToken : ∀ s addBos, engine.model.strToToken s addBos = .ok (tokens s addBos)
  /-- Tokens are rendered piece by piece, where that gives a text. -/
  detokenize : ∀ ts, (engine.detokenize ts).toOption = Text.fromUtf8 (ts.flatMap piece)

/-- The tokens of a text as `fit` measures them. -/
abbrev plain (tokens : String → AddBos → List LlamaToken) (s : String) : List LlamaToken :=
  tokens s .never

/-- Rendering, as `fit` is meant to use it. -/
abbrev render (piece : LlamaToken → List UInt8) (ts : List LlamaToken) : Option String :=
  Text.fromUtf8 (ts.flatMap piece)

/-- The budget of the text body. -/
def budget : ℕ :=
  bodyBudget engine.pin.maxTextTokens engine.eosReserve engine.specialTokenOverhead

/-- The text is within the budget, or `fit` meets no prefix of it that does not render. -/
def FitRenders (tokens : String → AddBos → List LlamaToken) (piece : LlamaToken → List UInt8)
    (text : String) (role : Role) : Prop :=
  (plain tokens (engine.prefixed text role)).length ≤ engine.budget ∨
    RendersDownToStable (plain tokens) (render piece) (plain tokens (engine.prefixed text role))
      engine.budget

section

variable {engine} {tokens : String → AddBos → List LlamaToken} {piece : LlamaToken → List UInt8}
  (h : engine.TotalTokenizer tokens piece)

include h

theorem tokenizeRecording_eq (s : String) :
    engine.tokenizeRecording s = pure (plain tokens s) := by
  rw [tokenizeRecording, h.strToToken]

theorem detokenizeRecording_some {ts : List LlamaToken} {text : String}
    (hrender : render piece ts = some text) : engine.detokenizeRecording ts = pure text := by
  have htext : (engine.detokenize ts).toOption = _ := (h.detokenize ts).trans hrender
  rw [detokenizeRecording]
  cases hdetok : engine.detokenize ts with
  | ok text' =>
    rw [hdetok, Except.toOption, Option.some.injEq] at htext
    rw [htext]
  | error err =>
    rw [hdetok] at htext
    cases htext

theorem detokenizeRecording_none {ts : List LlamaToken} (hrender : render piece ts = none) :
    ∃ err, engine.detokenizeRecording ts = (do record err; pure "") := by
  have htext : (engine.detokenize ts).toOption = _ := (h.detokenize ts).trans hrender
  rw [detokenizeRecording]
  cases hdetok : engine.detokenize ts with
  | ok text' =>
    rw [hdetok] at htext
    cases htext
  | error err => exact ⟨err, rfl⟩

/-- One turn of the loop on a prefix that renders. -/
theorem shrink_some {ts : List LlamaToken} {kept : ℕ} {text : String}
    (hrender : render piece (ts.take (kept + 1)) = some text) :
    shrink engine.tokenizeRecording engine.detokenizeRecording ts (kept + 1) =
      if plain tokens text = ts.take (kept + 1) then pure text
      else shrink engine.tokenizeRecording engine.detokenizeRecording ts kept := by
  rw [shrink, detokenizeRecording_some h hrender, pure_bind, tokenizeRecording_eq h, pure_bind]

/-- An error once recorded stays. -/
theorem shrink_slot_isSome (ts : List LlamaToken) (kept : ℕ) (err : String) :
    ∃ text, (shrink engine.tokenizeRecording engine.detokenizeRecording ts kept).run (some err) =
      (text, some err) := by
  induction kept with
  | zero => exact ⟨"", rfl⟩
  | succ kept ih =>
    cases hrender : render piece (ts.take (kept + 1)) with
    | some text =>
      rw [shrink_some h hrender]
      by_cases hstable : plain tokens text = ts.take (kept + 1)
      · rw [if_pos hstable]
        exact ⟨text, rfl⟩
      · rw [if_neg hstable]
        exact ih
    | none =>
      obtain ⟨err', herr⟩ := detokenizeRecording_none h hrender
      rw [shrink, herr]
      simp only [tokenizeRecording_eq h, bind_assoc, pure_bind]
      by_cases hstable : plain tokens "" = ts.take (kept + 1)
      · simp only [hstable, if_true]
        exact ⟨"", rfl⟩
      · simp only [hstable, if_false]
        exact ih

/-- A prefix that does not render leaves its error in the slot. -/
theorem shrink_none {ts : List LlamaToken} {kept : ℕ}
    (hrender : render piece (ts.take (kept + 1)) = none) :
    ∃ text err, (shrink engine.tokenizeRecording engine.detokenizeRecording ts
      (kept + 1)).run none = (text, some err) := by
  obtain ⟨err, herr⟩ := detokenizeRecording_none h hrender
  rw [shrink, herr]
  simp only [tokenizeRecording_eq h, bind_assoc, pure_bind]
  by_cases hstable : plain tokens "" = ts.take (kept + 1)
  · simp only [hstable, if_true]
    exact ⟨"", err, rfl⟩
  · simp only [hstable, if_false]
    obtain ⟨text, htext⟩ := shrink_slot_isSome h ts kept err
    exact ⟨text, err, htext⟩

/-- **The loop**, on a slot that is empty: it ends with the longest stable prefix and the slot
still empty, or it has met a prefix that does not render. -/
theorem shrink_run (ts : List LlamaToken) (kept : ℕ) :
    (RendersDownToStable (plain tokens) (render piece) ts kept ∧
      ∃ text, (shrink engine.tokenizeRecording engine.detokenizeRecording ts kept).run none =
          (text, none) ∧
        IsLongestStable (plain tokens) (render piece) ts kept text) ∨
    (¬ RendersDownToStable (plain tokens) (render piece) ts kept ∧
      ∃ text err, (shrink engine.tokenizeRecording engine.detokenizeRecording ts kept).run none =
        (text, some err)) := by
  induction kept with
  | zero =>
    refine Or.inl ⟨rendersDownToStable_zero, "", rfl, Or.inr ⟨rfl, fun n hpos hle => ?_⟩⟩
    omega
  | succ kept ih =>
    cases hrender : render piece (ts.take (kept + 1)) with
    | none => exact Or.inr ⟨rendersDownToStable_of_none hrender, shrink_none h hrender⟩
    | some text =>
      rw [shrink_some h hrender]
      by_cases hstable : plain tokens text = ts.take (kept + 1)
      · have htrip : RoundTrips (plain tokens) (render piece) (ts.take (kept + 1)) text :=
          ⟨hrender, hstable⟩
        rw [if_pos hstable]
        exact Or.inl ⟨rendersDownToStable_of_roundTrips htrip, text, rfl, .of_roundTrips htrip⟩
      · have hnot : ∀ t, ¬ RoundTrips (plain tokens) (render piece) (ts.take (kept + 1)) t := by
          rintro t ⟨hsome, hback⟩
          rw [hrender, Option.some.injEq] at hsome
          exact hstable (hsome ▸ hback)
        rw [if_neg hstable, rendersDownToStable_succ (by simp [hrender]) hnot]
        rcases ih with ⟨hdown, t, hrun, hlongest⟩ | ⟨hdown, hrun⟩
        · exact Or.inl ⟨hdown, t, hrun, hlongest.succ hnot⟩
        · exact Or.inr ⟨hdown, hrun⟩

/-- The whole pipeline: what it returns where every prefix it tries renders, and that it fails
elsewhere. -/
theorem buildInput_cases (text : String) (role : Role) :
    (engine.FitRenders tokens piece text role ∧ ∃ fitted,
      IsFit (plain tokens) (render piece) (engine.prefixed text role) engine.budget fitted ∧
      engine.buildInput text role = .ok (tokens (engine.withEos fitted) .always)) ∨
    (¬ engine.FitRenders tokens piece text role ∧
      ∃ err, engine.buildInput text role = .error (.new "Tokenize" err)) := by
  rw [buildInput, fit, tokenizeRecording_eq h, pure_bind, ← budget, FitRenders]
  by_cases hlen : (plain tokens (engine.prefixed text role)).length ≤ engine.budget
  · refine Or.inl ⟨Or.inl hlen, engine.prefixed text role, ?_, ?_⟩
    · rw [IsFit, if_pos hlen]
    · rw [if_pos hlen]
      simp only [StateT.run_pure, h.strToToken]
      rfl
  · rw [if_neg hlen]
    rcases shrink_run h (plain tokens (engine.prefixed text role)) engine.budget with
      ⟨hdown, fitted, hrun, hlongest⟩ | ⟨hdown, fitted, err, hrun⟩
    · refine Or.inl ⟨Or.inr hdown, fitted, ?_, ?_⟩
      · rw [IsFit, if_neg hlen]
        exact hlongest
      · simp only [hrun, h.strToToken]
    · refine Or.inr ⟨fun hfit => hfit.elim hlen hdown, err, ?_⟩
      simp only [hrun]

/-- A text within the budget stands as it is. -/
theorem buildInput_whole {text : String} {role : Role}
    (hlength : (plain tokens (engine.prefixed text role)).length ≤ engine.budget) :
    engine.buildInput text role =
      .ok (tokens (engine.withEos (engine.prefixed text role)) .always) := by
  rcases buildInput_cases h text role with ⟨-, fitted, hfitted, hok⟩ | ⟨hnot, -⟩
  · rw [IsFit, if_pos hlength] at hfitted
    rw [hok, hfitted]
  · exact absurd (Or.inl hlength) hnot

/-- **When an input is built.**  The pipeline returns the tokens of the fitted text and its EOS
marker exactly when every prefix within the budget that does not render is shorter than some
stable one; and in every other case it returns an error. -/
theorem buildInput_isFit_iff (text : String) (role : Role) :
    ((∃ fitted,
      IsFit (plain tokens) (render piece) (engine.prefixed text role) engine.budget fitted ∧
      engine.buildInput text role = .ok (tokens (engine.withEos fitted) .always)) ↔
        engine.FitRenders tokens piece text role) ∧
    ((∃ ts, engine.buildInput text role = .ok ts) ↔ engine.FitRenders tokens piece text role) := by
  rcases buildInput_cases h text role with ⟨hfit, fitted, hisfit, hok⟩ | ⟨hfit, err, herr⟩
  · simp only [hfit, iff_true]
    exact ⟨⟨fitted, hisfit, hok⟩, _, hok⟩
  · simp only [hfit, herr, reduceCtorEq, and_false, exists_false, and_self]

end

/-! ## A tokenizer of bytes

The vocabulary of a byte-level model without merges: one token for each byte, so a multi-byte
character is several tokens and a cut can fall inside it. -/

/-- The token of a byte. -/
def byteToken (b : UInt8) : LlamaToken := Int32.ofNat b.toNat

/-- The byte of a token. -/
def tokenByte (token : LlamaToken) : UInt8 := UInt8.ofNat token.toInt.toNat

theorem tokenByte_byteToken (b : UInt8) : tokenByte (byteToken b) = b := by
  have hall : ∀ n : Fin 256, tokenByte (byteToken (UInt8.ofNat n.val)) = UInt8.ofNat n.val := by
    decide +kernel
  simpa using hall ⟨b.toNat, b.toNat_lt⟩

/-- A model whose tokens are bytes. -/
def byteModel : LlamaModel where
  strToToken s _ := .ok ((Text.toUtf8 s).map byteToken)
  tokenToPieceBytes token size _ _ :=
    if 1 ≤ size then .ok [tokenByte token]
    else .error (.insufficientBufferSpace (-1) "Insufficient Buffer Space -1")

/-- The engine of the byte-level model under the pin that has an EOS marker. -/
def byteEngine : LlamaEngine where
  pin := qwen3
  model := byteModel
  eosReserve := 13
  specialTokenOverhead := 0

/-- The tokens of a text under `byteModel`. -/
abbrev byteTokens (s : String) (_ : AddBos) : List LlamaToken := (Text.toUtf8 s).map byteToken

/-- The piece of a token under `byteModel`. -/
abbrev bytePiece (token : LlamaToken) : List UInt8 := [tokenByte token]

theorem pieces_of_tokenPiece {engine : LlamaEngine} {piece : LlamaToken → List UInt8}
    (h : ∀ token, engine.tokenPiece token = .ok (piece token)) (ts : List LlamaToken) :
    engine.pieces ts = .ok (ts.flatMap piece) := by
  induction ts with
  | nil => rfl
  | cons token rest ih => simp only [pieces, h, ih, List.flatMap_cons]

/-- Pieces that never fail make a tokenizer that fails on invalid UTF-8 only. -/
theorem detokenize_of_tokenPiece {engine : LlamaEngine} {piece : LlamaToken → List UInt8}
    (h : ∀ token, engine.tokenPiece token = .ok (piece token)) (ts : List LlamaToken) :
    (engine.detokenize ts).toOption = Text.fromUtf8 (ts.flatMap piece) := by
  rw [detokenize, pieces_of_tokenPiece h]
  cases htext : Text.fromUtf8 (ts.flatMap piece) <;> simp [htext, Except.toOption]

theorem byteEngine_total : byteEngine.TotalTokenizer byteTokens bytePiece where
  strToToken _ _ := rfl
  detokenize := detokenize_of_tokenPiece fun _ => rfl

/-- A text that ends in a character of two bytes. -/
def cutText (n : ℕ) : String := String.ofList (List.replicate n 'a' ++ ['é'])

theorem toUtf8_cutText (n : ℕ) :
    Text.toUtf8 (cutText n) = List.replicate n 0x61 ++ [0xC3, 0xA9] := by
  have ha : String.utf8EncodeChar 'a' = [0x61] := by decide
  have he : String.utf8EncodeChar 'é' = [0xC3, 0xA9] := by decide
  rw [cutText, Text.toUtf8_ofList, List.flatMap_append, List.flatMap_singleton, he]
  congr 1
  induction n with
  | zero => rfl
  | succ n ih => rw [List.replicate_succ, List.flatMap_cons, ih, ha, List.replicate_succ]; rfl

theorem sanitize_cutText (n : ℕ) : sanitize (cutText n) = cutText n := by
  have hkeep : (List.replicate n 'a' ++ ['é']).filter (fun c => c != Char.ofNat 0) =
      List.replicate n 'a' ++ ['é'] := by
    refine List.filter_eq_self.mpr fun c hc => ?_
    rw [List.mem_append, List.mem_replicate, List.mem_singleton] at hc
    rcases hc with ⟨-, rfl⟩ | rfl <;> decide
  have hvisible : ¬ (Text.trim (cutText n)).isEmpty = true := by
    rw [Text.trim_isEmpty]
    intro hspace
    have hlast : 'é' ∈ (cutText n).toList := by simp [cutText]
    exact absurd (hspace 'é' hlast) (by decide)
  simp only [sanitize, cutText, String.toList_ofList, hkeep]
  exact if_neg hvisible

theorem plain_prefixed_cutText (n : ℕ) :
    plain byteTokens (byteEngine.prefixed (cutText n) .document) =
      (List.replicate n (0x61 : UInt8) ++ [0xC3, 0xA9]).map byteToken := by
  have hprefixed : byteEngine.prefixed (cutText n) .document = cutText n := by
    rw [prefixed, sanitize_cutText]
    exact String.empty_append
  rw [hprefixed, ← toUtf8_cutText]

theorem flatMap_bytePiece (bytes : List UInt8) :
    (bytes.map byteToken).flatMap bytePiece = bytes := by
  induction bytes with
  | nil => rfl
  | cons b rest ih =>
    rw [List.map_cons, List.flatMap_cons, ih, bytePiece, tokenByte_byteToken]
    rfl

/-- Within the budget the text stands as it is, with the marker behind it. -/
theorem buildInput_cutText_eq {n : ℕ} (h : n + 2 ≤ byteEngine.budget) :
    byteEngine.buildInput (cutText n) .document =
      .ok ((List.replicate n (0x61 : UInt8) ++ [0xC3, 0xA9] ++
        Text.toUtf8 "<|endoftext|>").map byteToken) := by
  have hplain := plain_prefixed_cutText n
  have hmarker : ∀ s, byteEngine.withEos s = s ++ "<|endoftext|>" := fun _ => rfl
  rw [buildInput_whole byteEngine_total (by rw [hplain]; simpa using h), hmarker, byteTokens,
    Text.toUtf8_append, List.map_append, List.map_append]
  exact congrArg (fun body => Except.ok (body ++ (Text.toUtf8 "<|endoftext|>").map byteToken)) hplain

theorem buildInput_cutText_of_le {n : ℕ} (h : n + 2 ≤ byteEngine.budget) :
    ∃ input, byteEngine.buildInput (cutText n) .document = .ok input :=
  ⟨_, buildInput_cutText_eq h⟩

/-- One byte over the budget, the text is cut inside its last character, and no longer prefix is
left to fall back on before the failure is recorded. -/
theorem not_fitRenders_cutText {n : ℕ} (h : byteEngine.budget = n + 1) :
    ¬ byteEngine.FitRenders byteTokens bytePiece (cutText n) .document := by
  rw [FitRenders, plain_prefixed_cutText, h]
  rintro (hle | hdown)
  · simp at hle
  · refine rendersDownToStable_of_none ?_ hdown
    have htake : (List.replicate n (0x61 : UInt8) ++ [0xC3, 0xA9]).take (n + 1) =
        List.replicate n 0x61 ++ [0xC3] := by
      rw [List.take_append, List.length_replicate, List.take_of_length_le (by simp),
        Nat.add_sub_cancel_left]
      rfl
    rw [← List.map_take, htake, render, flatMap_bytePiece]
    exact Text.fromUtf8_append_lead (by decide) _

/-- A text the pipeline should cut to 32754 tokens makes it fail instead. -/
theorem buildInput_cutText :
    byteEngine.TotalTokenizer byteTokens bytePiece ∧
      ∃ err, byteEngine.buildInput (cutText 32754) .document = .error (.new "Tokenize" err) := by
  refine ⟨byteEngine_total, ?_⟩
  rcases buildInput_cases byteEngine_total (cutText 32754) .document with ⟨hfit, -⟩ | ⟨-, herr⟩
  · exact absurd hfit (not_fitRenders_cutText rfl)
  · exact herr

/-- The pipeline on the byte-level model. -/
theorem buildInput_isFit_iff_byteEngine :
    (∃ ts, byteEngine.buildInput (cutText 32754) .document = .ok ts) ↔
      byteEngine.FitRenders byteTokens bytePiece (cutText 32754) .document :=
  (buildInput_isFit_iff byteEngine_total (cutText 32754) .document).2

end LlamaEngine

end SemanticSidecar
