import Mathlib.Algebra.Group.Nat.Defs
import Mathlib.Data.Nat.Notation

/-!
# SHA-256

The results about digests hold for any hash function, as far as it has no collisions where it
matters, so SHA-256 is a parameter of theirs.  This is the function that it stands for.  Words are
numbers below `2 ^ 32`.

It follows the standard step by step: the message is padded to whole blocks of 64 bytes, each block
is extended to 64 words, and 64 rounds mix these into a state of eight words, whose bytes are the
digest.  There are no results about it, as nothing is to be relied on but its values.  It can be
evaluated, and known digests, such as the one of the empty message, are computed with it where they
are needed.
-/

set_option autoImplicit false

namespace Sha256

/-- Addition of words. -/
def add (x y : ℕ) : ℕ := (x + y) % 2 ^ 32

/-- Rotation of a word. -/
def rotateRight (n x : ℕ) : ℕ := x >>> n ||| (x <<< (32 - n)) % 2 ^ 32

/-- The first mixing function of the schedule. -/
def smallSigma0 (x : ℕ) : ℕ := rotateRight 7 x ^^^ rotateRight 18 x ^^^ x >>> 3

/-- The second mixing function of the schedule. -/
def smallSigma1 (x : ℕ) : ℕ := rotateRight 17 x ^^^ rotateRight 19 x ^^^ x >>> 10

/-- The first mixing function of a round. -/
def bigSigma0 (x : ℕ) : ℕ := rotateRight 2 x ^^^ rotateRight 13 x ^^^ rotateRight 22 x

/-- The second mixing function of a round. -/
def bigSigma1 (x : ℕ) : ℕ := rotateRight 6 x ^^^ rotateRight 11 x ^^^ rotateRight 25 x

/-- Each bit is taken from `y` or `z`, as the bit of `x` says. -/
def choose (x y z : ℕ) : ℕ := (x &&& y) ^^^ ((2 ^ 32 - 1 - x) &&& z)

/-- Each bit is what most of the three have. -/
def majority (x y z : ℕ) : ℕ := (x &&& y) ^^^ (x &&& z) ^^^ (y &&& z)

/-- The constants of the rounds. -/
def roundConstants : List ℕ :=
  [0x428a2f98, 0x71374491, 0xb5c0fbcf, 0xe9b5dba5, 0x3956c25b, 0x59f111f1, 0x923f82a4, 0xab1c5ed5,
    0xd807aa98, 0x12835b01, 0x243185be, 0x550c7dc3, 0x72be5d74, 0x80deb1fe, 0x9bdc06a7, 0xc19bf174,
    0xe49b69c1, 0xefbe4786, 0x0fc19dc6, 0x240ca1cc, 0x2de92c6f, 0x4a7484aa, 0x5cb0a9dc, 0x76f988da,
    0x983e5152, 0xa831c66d, 0xb00327c8, 0xbf597fc7, 0xc6e00bf3, 0xd5a79147, 0x06ca6351, 0x14292967,
    0x27b70a85, 0x2e1b2138, 0x4d2c6dfc, 0x53380d13, 0x650a7354, 0x766a0abb, 0x81c2c92e, 0x92722c85,
    0xa2bfe8a1, 0xa81a664b, 0xc24b8b70, 0xc76c51a3, 0xd192e819, 0xd6990624, 0xf40e3585, 0x106aa070,
    0x19a4c116, 0x1e376c08, 0x2748774c, 0x34b0bcb5, 0x391c0cb3, 0x4ed8aa4a, 0x5b9cca4f, 0x682e6ff3,
    0x748f82ee, 0x78a5636f, 0x84c87814, 0x8cc70208, 0x90befffa, 0xa4506ceb, 0xbef9a3f7, 0xc67178f2]

/-- The eight words of a state. -/
structure State where
  /-- The first word. -/
  a : ℕ
  /-- The second word. -/
  b : ℕ
  /-- The third word. -/
  c : ℕ
  /-- The fourth word. -/
  d : ℕ
  /-- The fifth word. -/
  e : ℕ
  /-- The sixth word. -/
  f : ℕ
  /-- The seventh word. -/
  g : ℕ
  /-- The eighth word. -/
  h : ℕ

/-- The words at the beginning. -/
def initial : State :=
  ⟨0x6a09e667, 0xbb67ae85, 0x3c6ef372, 0xa54ff53a, 0x510e527f, 0x9b05688c, 0x1f83d9ab, 0x5be0cd19⟩

/-- The number of some bytes, the first of which is the highest. -/
def word (bytes : List UInt8) : ℕ := bytes.foldl (fun n byte => 256 * n + byte.toNat) 0

/-- The message with a one, zeros and its length in bits. -/
def padded (message : List UInt8) : List UInt8 :=
  message ++ 0x80 :: List.replicate ((119 - message.length % 64) % 64) 0 ++
    (List.range 8).map fun i => UInt8.ofNat (8 * message.length / 256 ^ (7 - i))

/-- The blocks of 64 bytes. -/
def blocks (bytes : List UInt8) : List (List UInt8) :=
  (List.range (bytes.length / 64)).map fun i => (bytes.drop (64 * i)).take 64

/-- The words that follow the last sixteen. -/
def extend : ℕ → List ℕ → List ℕ
  | 0, _ => []
  | rounds + 1, words =>
    let next := add (add (smallSigma1 (words.getD 14 0)) (words.getD 9 0))
      (add (smallSigma0 (words.getD 1 0)) (words.getD 0 0))
    next :: extend rounds (words.drop 1 ++ [next])

/-- The words of the rounds on a block. -/
def schedule (block : List UInt8) : List ℕ :=
  let words := (List.range 16).map fun i => word ((block.drop (4 * i)).take 4)
  words ++ extend 48 words

/-- One round. -/
def round (s : State) (constant w : ℕ) : State :=
  let t := add (add s.h (bigSigma1 s.e)) (add (choose s.e s.f s.g) (add constant w))
  ⟨add t (add (bigSigma0 s.a) (majority s.a s.b s.c)), s.a, s.b, s.c, add s.d t, s.e, s.f, s.g⟩

/-- The rounds on one block, added to what was there before. -/
def compress (s : State) (block : List UInt8) : State :=
  let r := (roundConstants.zip (schedule block)).foldl (fun s entry => round s entry.1 entry.2) s
  ⟨add s.a r.a, add s.b r.b, add s.c r.c, add s.d r.d, add s.e r.e, add s.f r.f, add s.g r.g,
    add s.h r.h⟩

/-- The words, big end first. -/
def State.bytes (s : State) : List UInt8 :=
  [s.a, s.b, s.c, s.d, s.e, s.f, s.g, s.h].flatMap fun x =>
    (List.range 4).map fun i => UInt8.ofNat (x / 256 ^ (3 - i))

/-- The digest of a message. -/
def digest (message : List UInt8) : List UInt8 :=
  ((blocks (padded message)).foldl compress initial).bytes

/-- The digest of `abc`. -/
example : digest [0x61, 0x62, 0x63] =
    [0xba, 0x78, 0x16, 0xbf, 0x8f, 0x01, 0xcf, 0xea, 0x41, 0x41, 0x40, 0xde, 0x5d, 0xae, 0x22, 0x23,
      0xb0, 0x03, 0x61, 0xa3, 0x96, 0x17, 0x7a, 0x9c, 0xb4, 0x10, 0xff, 0x61, 0xf2, 0x00, 0x15,
      0xad] := by
  decide +kernel

end Sha256
