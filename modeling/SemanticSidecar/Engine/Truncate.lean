import SemanticSidecar.Lib.Text

/-!
# From a raw text to one that fits the token budget

`sanitize` and `fit` are the two text transformations an input goes through before it is
tokenized for good.  `fit` is handed its two token operations, and the caller's closures have an
effect of their own (they record errors), so `fit` is stated over a monad here; a pair of plain
functions is the case of the identity monad.

`IsFit` is what `fit` is for, with no loop in it: a text within the budget stands as it is, and
any other is cut to its longest prefix of tokens that renders to a text which tokenizes back to
it.  Rendering may fail here, and a prefix that cannot be rendered is not stable.

`shrink` is the loop, from the longest prefix down, and `fit` is the loop with the case of a text
that fits.  The results are `fit_law` and the lemma that it comes from, that what `fit` leaves is
the only text that `IsFit` allows.  Under a tokenizer that renders everything the cut depends on the
first tokens of the budget only, and a text that was cut is not cut again as long as the empty text
has no tokens.

Sanitization is a separate step before that.  NUL characters go, and what is then white space alone
is replaced by a placeholder.
-/

set_option autoImplicit false

namespace SemanticSidecar

/-! ## Sanitization -/

/-- Text substituted for an input that carries no embeddable content. -/
def emptyPlaceholder : String := "[empty]"

/-- Strips NUL characters and substitutes `emptyPlaceholder` for blank input. -/
def sanitize (text : String) : String :=
  let stripped := String.ofList (text.toList.filter fun c => c != Char.ofNat 0)
  if (Text.trim stripped).isEmpty then emptyPlaceholder else stripped

/-! ## Truncation -/

/-- A token id. -/
abbrev LlamaToken := Int32

/-- Token budget available to the text body itself; a budget smaller than its own reserves is
zero. -/
def bodyBudget (maxTextTokens eosReserve specialTokenOverhead : ℕ) : ℕ :=
  maxTextTokens - (eosReserve + specialTokenOverhead)

section

variable {m : Type → Type} [Monad m] (tokenize : String → m (List LlamaToken))
  (detokenize : List LlamaToken → m String)

/-- The loop of `fit`, on the prefixes of at most `kept` tokens. -/
def shrink (tokens : List LlamaToken) : ℕ → m String
  | 0 => pure ""
  | kept + 1 => do
    let candidate ← detokenize (tokens.take (kept + 1))
    let again ← tokenize candidate
    if again = tokens.take (kept + 1) then pure candidate else shrink tokens kept

/-- Fits `prefixed` to the model's token budget, returning the text body to embed. -/
def fit (prefixed : String) (maxTextTokens eosReserve specialTokenOverhead : ℕ) : m String := do
  let budget := bodyBudget maxTextTokens eosReserve specialTokenOverhead
  let tokens ← tokenize prefixed
  if tokens.length ≤ budget then pure prefixed else shrink tokenize detokenize tokens budget

end

/-! ## What fitting is for -/

section

variable (tokenize : String → List LlamaToken) (detokenize : List LlamaToken → Option String)

/-- The tokens render to `text`, which tokenizes back to them. -/
def RoundTrips (tokens : List LlamaToken) (text : String) : Prop :=
  detokenize tokens = some text ∧ tokenize text = tokens

/-- `text` is the longest stable prefix of at most `kept` tokens, or empty when there is none. -/
def IsLongestStable (tokens : List LlamaToken) (kept : ℕ) (text : String) : Prop :=
  (∃ n, 0 < n ∧ n ≤ kept ∧ RoundTrips tokenize detokenize (tokens.take n) text ∧
    ∀ longer, n < longer → longer ≤ kept →
      ∀ t, ¬ RoundTrips tokenize detokenize (tokens.take longer) t) ∨
  text = "" ∧ ∀ n, 0 < n → n ≤ kept →
    ∀ t, ¬ RoundTrips tokenize detokenize (tokens.take n) t

/-- `text` is what is left of `prefixed` under a budget. -/
def IsFit (prefixed : String) (budget : ℕ) (text : String) : Prop :=
  if (tokenize prefixed).length ≤ budget then text = prefixed
  else IsLongestStable tokenize detokenize (tokenize prefixed) budget text

/-- Every prefix of at most `kept` tokens that cannot be rendered is shorter than some stable
one. -/
def RendersDownToStable (tokens : List LlamaToken) (kept : ℕ) : Prop :=
  ∀ n, 0 < n → n ≤ kept → detokenize (tokens.take n) = none →
    ∃ longer, n < longer ∧ longer ≤ kept ∧
      ∃ t, RoundTrips tokenize detokenize (tokens.take longer) t

variable {tokenize detokenize} {tokens : List LlamaToken} {kept : ℕ} {text : String}

theorem IsLongestStable.of_roundTrips
    (h : RoundTrips tokenize detokenize (tokens.take (kept + 1)) text) :
    IsLongestStable tokenize detokenize tokens (kept + 1) text := by
  refine Or.inl ⟨kept + 1, by omega, le_rfl, h, fun longer hlt hle => ?_⟩
  omega

/-- A prefix that is not stable is passed over. -/
theorem IsLongestStable.succ
    (hnot : ∀ t, ¬ RoundTrips tokenize detokenize (tokens.take (kept + 1)) t)
    (h : IsLongestStable tokenize detokenize tokens kept text) :
    IsLongestStable tokenize detokenize tokens (kept + 1) text := by
  rcases h with ⟨n, hpos, hle, htrip, hlonger⟩ | ⟨rfl, hnone⟩
  · refine Or.inl ⟨n, hpos, by omega, htrip, fun longer hlt hle' => ?_⟩
    rcases Nat.lt_or_eq_of_le hle' with hlt' | rfl
    · exact hlonger longer hlt (by omega)
    · exact hnot
  · refine Or.inr ⟨rfl, fun n hpos hle => ?_⟩
    rcases Nat.lt_or_eq_of_le hle with hlt | rfl
    · exact hnone n hpos (by omega)
    · exact hnot

theorem rendersDownToStable_zero : RendersDownToStable tokenize detokenize tokens 0 := by
  intro n hpos hle
  omega

theorem rendersDownToStable_of_roundTrips
    (h : RoundTrips tokenize detokenize (tokens.take (kept + 1)) text) :
    RendersDownToStable tokenize detokenize tokens (kept + 1) := by
  intro n hpos hle hnone
  rcases Nat.lt_or_eq_of_le hle with hlt | rfl
  · exact ⟨kept + 1, hlt, le_rfl, text, h⟩
  · rw [h.1] at hnone
    cases hnone

theorem rendersDownToStable_of_none (h : detokenize (tokens.take (kept + 1)) = none) :
    ¬ RendersDownToStable tokenize detokenize tokens (kept + 1) := by
  intro hall
  obtain ⟨longer, hlt, hle, -⟩ := hall (kept + 1) (by omega) le_rfl h
  omega

/-- Where the longest prefix renders without being stable, the shorter ones decide. -/
theorem rendersDownToStable_succ (hsome : detokenize (tokens.take (kept + 1)) ≠ none)
    (hnot : ∀ t, ¬ RoundTrips tokenize detokenize (tokens.take (kept + 1)) t) :
    RendersDownToStable tokenize detokenize tokens (kept + 1) ↔
      RendersDownToStable tokenize detokenize tokens kept := by
  constructor
  · intro hall n hpos hle hnone
    obtain ⟨longer, hlt, hle', t, ht⟩ := hall n hpos (by omega) hnone
    rcases Nat.lt_or_eq_of_le hle' with hlt' | rfl
    · exact ⟨longer, hlt, by omega, t, ht⟩
    · exact absurd ht (hnot t)
  · intro hall n hpos hle hnone
    rcases Nat.lt_or_eq_of_le hle with hlt | rfl
    · obtain ⟨longer, hlt', hle', t, ht⟩ := hall n hpos (by omega) hnone
      exact ⟨longer, hlt', by omega, t, ht⟩
    · exact absurd hnone hsome

theorem IsLongestStable.congr {tokens' : List LlamaToken}
    (h : tokens.take kept = tokens'.take kept)
    (hlongest : IsLongestStable tokenize detokenize tokens kept text) :
    IsLongestStable tokenize detokenize tokens' kept text := by
  have htake : ∀ n ≤ kept, tokens.take n = tokens'.take n := by
    intro n hle
    rw [← Nat.min_eq_left hle, ← List.take_take, h, List.take_take]
  rcases hlongest with ⟨n, hpos, hle, htrip, hlonger⟩ | ⟨rfl, hnone⟩
  · refine Or.inl ⟨n, hpos, hle, htake n hle ▸ htrip, fun longer hlt hle' => ?_⟩
    rw [← htake longer hle']
    exact hlonger longer hlt hle'
  · refine Or.inr ⟨rfl, fun n hpos hle => ?_⟩
    rw [← htake n hle]
    exact hnone n hpos hle

/-- The search has one answer. -/
theorem IsLongestStable.unique {text' : String}
    (h : IsLongestStable tokenize detokenize tokens kept text)
    (h' : IsLongestStable tokenize detokenize tokens kept text') : text = text' := by
  rcases h with ⟨n, hpos, hle, htrip, hlonger⟩ | ⟨rfl, hnone⟩
  · rcases h' with ⟨n', hpos', hle', htrip', hlonger'⟩ | ⟨rfl, hnone'⟩
    · obtain rfl : n = n' := by
        rcases Nat.lt_trichotomy n n' with hlt | heq | hlt
        · exact absurd htrip' (hlonger n' hlt hle' text')
        · exact heq
        · exact absurd htrip (hlonger' n hlt hle text)
      exact Option.some.inj (htrip.1.symm.trans htrip'.1)
    · exact absurd htrip (hnone' n hpos hle text)
  · rcases h' with ⟨n', hpos', hle', htrip', -⟩ | ⟨rfl, -⟩
    · exact absurd htrip' (hnone n' hpos' hle' text')
    · rfl

end

/-! ## The truncation law

Here the two token operations are functions, any functions. -/

section

variable (tokenize : String → List LlamaToken) (detokenize : List LlamaToken → String)

/-- `fit` on two functions. -/
def plainFit (maxTextTokens eosReserve specialTokenOverhead : ℕ) (prefixed : String) : String :=
  Id.run (fit (fun text => pure (tokenize text)) (fun tokens => pure (detokenize tokens)) prefixed
    maxTextTokens eosReserve specialTokenOverhead)

/-- The loop finds the longest stable prefix. -/
theorem isLongestStable_shrink (tokens : List LlamaToken) (kept : ℕ) :
    IsLongestStable tokenize (fun tokens => some (detokenize tokens)) tokens kept
      (Id.run (shrink (fun text => pure (tokenize text)) (fun tokens => pure (detokenize tokens))
        tokens kept)) := by
  induction kept with
  | zero => exact Or.inr ⟨rfl, fun n hpos hle => absurd hle (by omega)⟩
  | succ kept ih =>
    rw [shrink]
    by_cases hstable : tokenize (detokenize (tokens.take (kept + 1))) = tokens.take (kept + 1)
    · simp only [pure_bind, if_pos hstable]
      exact .of_roundTrips ⟨rfl, hstable⟩
    · simp only [pure_bind, if_neg hstable]
      refine .succ ?_ ih
      rintro text ⟨hrender, htokens⟩
      obtain rfl := Option.some.inj hrender
      exact hstable htokens

theorem isFit_plainFit (maxTextTokens eosReserve specialTokenOverhead : ℕ) (prefixed : String) :
    IsFit tokenize (fun tokens => some (detokenize tokens)) prefixed
      (bodyBudget maxTextTokens eosReserve specialTokenOverhead)
      (plainFit tokenize detokenize maxTextTokens eosReserve specialTokenOverhead prefixed) := by
  simp only [IsFit, plainFit, fit, pure_bind]
  split
  · rfl
  · exact isLongestStable_shrink tokenize detokenize _ _

/-- **The truncation law.**  A text within the budget is kept, any other is cut to its longest
stable prefix.  The cut text has as many tokens as the prefix, depends on the first tokens of the
budget only, and is not cut again. -/
theorem fit_law (maxTextTokens eosReserve specialTokenOverhead : ℕ) :
    let budget := bodyBudget maxTextTokens eosReserve specialTokenOverhead
    let fitted := plainFit tokenize detokenize maxTextTokens eosReserve specialTokenOverhead
    (∀ text, IsFit tokenize (fun tokens => some (detokenize tokens)) text budget (fitted text)) ∧
      (∀ text, budget < (tokenize text).length → fitted text ≠ "" →
        ∃ n, 0 < n ∧ n ≤ budget ∧ fitted text = detokenize ((tokenize text).take n) ∧
          tokenize (fitted text) = (tokenize text).take n ∧ (tokenize (fitted text)).length = n) ∧
      (∀ text text', budget < (tokenize text).length → budget < (tokenize text').length →
        (tokenize text).take budget = (tokenize text').take budget → fitted text = fitted text') ∧
      (tokenize "" = [] → ∀ text, fitted (fitted text) = fitted text) := by
  intro budget fitted
  have hfit := isFit_plainFit tokenize detokenize maxTextTokens eosReserve specialTokenOverhead
  have hkept : ∀ text, (tokenize text).length ≤ budget → fitted text = text := by
    intro text hle
    have h := hfit text
    rwa [IsFit, if_pos hle] at h
  have hcut : ∀ text, budget < (tokenize text).length → IsLongestStable tokenize
      (fun tokens => some (detokenize tokens)) (tokenize text) budget (fitted text) := by
    intro text hlt
    have h := hfit text
    rwa [IsFit, if_neg (by omega)] at h
  have hcount : ∀ text, budget < (tokenize text).length → fitted text ≠ "" →
      ∃ n, 0 < n ∧ n ≤ budget ∧ fitted text = detokenize ((tokenize text).take n) ∧
        tokenize (fitted text) = (tokenize text).take n ∧
        (tokenize (fitted text)).length = n := by
    intro text hlt hne
    rcases hcut text hlt with ⟨n, hpos, hle, ⟨hrender, htokens⟩, -⟩ | ⟨hempty, -⟩
    · refine ⟨n, hpos, hle, (Option.some.inj hrender).symm, htokens, ?_⟩
      rw [htokens, List.length_take]
      omega
    · exact absurd hempty hne
  refine ⟨hfit, hcount, fun text text' hlt hlt' htake => ?_, fun hempty text => ?_⟩
  · exact (hcut text hlt).congr htake |>.unique (hcut text' hlt')
  · refine hkept _ ?_
    rcases Nat.lt_or_ge budget (tokenize text).length with hlt | hle
    · by_cases hne : fitted text = ""
      · rw [hne, hempty]
        exact Nat.zero_le _
      · obtain ⟨n, -, hle, -, -, hlength⟩ := hcount text hlt hne
        exact hlength ▸ hle
    · rw [hkept text hle]
      exact hle

end

end SemanticSidecar
