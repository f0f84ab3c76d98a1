/-!
# The model manifest

The pinned models: acquisition identity plus the knobs that determine their vectors.  This is the
single source of pin truth of the binary, so the values are those of the source, byte for byte.

There are two of them.  `bgeSmall` is the pin that is served where nothing else is asked for, a
small model with one width; `qwen3` is the larger one, whose vectors can be cut to several widths
and which tokenizes a marker at the end of every input.  A pin is data for four other parts of the
program: `prepare` takes the file, the URL, the digest and the size from it, the engine the pooling,
the instructions, the marker and the budget, `health` what is reported of a model, and the packager
the list of ids.

`byId` is the only way to get at a pin by name.  Properties that have to hold of every pin, such as
that a served width is one the model supports, can be decided by going through the list.
-/

set_option autoImplicit false

namespace SemanticSidecar

/-- Pooling mode the model's representation is read with. -/
inductive Pooling where
  /-- Final-token pooling: the EOS marker must survive truncation. -/
  | last
  /-- Leading classification-token pooling. -/
  | cls
  deriving DecidableEq, Repr

/-- Selection tier. -/
inductive Tier where
  /-- The pin served when no `--model` argument is given. -/
  | default
  /-- A smaller pin available by explicit id. -/
  | fallback
  deriving DecidableEq, Repr

/-- One pinned model. -/
structure ModelPin where
  /-- The id that `prepare --model` accepts. -/
  id : String
  /-- The name the model has upstream. -/
  model : String
  /-- GGUF file name inside the cache directory. -/
  file : String
  /-- The file is downloaded from here. -/
  url : String
  /-- Lowercase hex digest the downloaded file must match. -/
  sha256 : String
  /-- The size of the file, checked against free space before a download begins. -/
  sizeBytes : Nat
  /-- The length of the vectors that the model computes. -/
  nativeDims : Nat
  /-- The lengths to which its vectors can be cut. -/
  mrlLanes : List Nat
  /-- Lane actually served. -/
  serveDims : Nat
  /-- How the states of the tokens become one vector. -/
  pooling : Pooling
  /-- Marker appended to every input before tokenization. -/
  eosMarker : Option String
  /-- The text that `embed_query` puts in front. -/
  queryInstruction : String
  /-- The text that `embed_batch` puts in front. -/
  documentInstruction : String
  /-- Token budget covering instruction prefix, text, and EOS marker together. -/
  maxTextTokens : Nat
  /-- The revision that `health` reports. -/
  modelRevision : String
  /-- When the pin is served. -/
  tier : Tier
  deriving DecidableEq, Repr

/-- The larger pin, which is served on request. -/
def qwen3 : ModelPin where
  id := "qwen3-0.6b-f16"
  model := "Qwen3-Embedding-0.6B"
  file := "Qwen3-Embedding-0.6B-f16.gguf"
  url := "https://huggingface.co/Qwen/Qwen3-Embedding-0.6B-GGUF/resolve/main/Qwen3-Embedding-0.6B-f16.gguf"
  sha256 := "421a27e58d165478cc7acb984a688c2aa41404968b0203e7cd743ece44c54340"
  sizeBytes := 1197629632
  nativeDims := 1024
  mrlLanes := [256, 512, 1024]
  serveDims := 512
  pooling := .last
  eosMarker := some "<|endoftext|>"
  queryInstruction := "Instruct: Given a code search query, retrieve the code or documentation that answers it\nQuery: "
  documentInstruction := ""
  maxTextTokens := 32768
  modelRevision := "main"
  tier := .fallback

/-- The smaller pin, which is served by default. -/
def bgeSmall : ModelPin where
  id := "bge-small-en-v1.5-f32"
  model := "bge-small-en-v1.5"
  file := "bge-small-en-v1.5-f32.gguf"
  url := "https://huggingface.co/CompendiumLabs/bge-small-en-v1.5-gguf/resolve/main/bge-small-en-v1.5-f32.gguf"
  sha256 := "bf40c42ad7d89382e9ba7376d5c4b73f6b556cb541fab37aaa1da9c320149b65"
  sizeBytes := 133609568
  nativeDims := 384
  mrlLanes := [384]
  serveDims := 384
  pooling := .cls
  eosMarker := none
  queryInstruction := "Represent this sentence for searching relevant passages: "
  documentInstruction := ""
  maxTextTokens := 512
  modelRevision := "main"
  tier := .default

/-- `PINS`, every pinned model in stable manifest order. -/
def manifest : List ModelPin := [qwen3, bgeSmall]

/-- Resolves an exact manifest id, or `none` when the id is not pinned. -/
def byId (id : String) : Option ModelPin := manifest.find? fun pin => pin.id == id

/-- `default_model`; the manifest carries a default-tier pin. -/
def defaultModel : Option ModelPin := manifest.find? fun pin => pin.tier == .default

end SemanticSidecar
