import SignedEvents.Text.Basic

/-! # SHA-256

  The hash function of FIPS 180-4 over lists of bytes.

  - **pad** — the message with its end mark and its length.
  - **compress** — one block of sixteen words folded into the chaining state.
  - **hash** — the digest, 32 bytes.
  - **taggedHash** — a hash that starts with the digest of a tag, twice.
-/

namespace SignedEvents.Sha256

/-! ## Words -/

/-- Rotation to the right. -/
def rotate (x : UInt32) (n : UInt32) : UInt32 := (x >>> n) ||| (x <<< (32 - n))

def smallSigma0 (x : UInt32) : UInt32 := rotate x 7 ^^^ rotate x 18 ^^^ (x >>> 3)

def smallSigma1 (x : UInt32) : UInt32 := rotate x 17 ^^^ rotate x 19 ^^^ (x >>> 10)

def bigSigma0 (x : UInt32) : UInt32 := rotate x 2 ^^^ rotate x 13 ^^^ rotate x 22

def bigSigma1 (x : UInt32) : UInt32 := rotate x 6 ^^^ rotate x 11 ^^^ rotate x 25

def choose (x y z : UInt32) : UInt32 := (x &&& y) ^^^ (~~~x &&& z)

def majority (x y z : UInt32) : UInt32 := (x &&& y) ^^^ (x &&& z) ^^^ (y &&& z)

/-- The constants of the sixty-four rounds. -/
def roundConstants : List UInt32 :=
  [0x428a2f98, 0x71374491, 0xb5c0fbcf, 0xe9b5dba5, 0x3956c25b, 0x59f111f1, 0x923f82a4,
   0xab1c5ed5, 0xd807aa98, 0x12835b01, 0x243185be, 0x550c7dc3, 0x72be5d74, 0x80deb1fe,
   0x9bdc06a7, 0xc19bf174, 0xe49b69c1, 0xefbe4786, 0x0fc19dc6, 0x240ca1cc, 0x2de92c6f,
   0x4a7484aa, 0x5cb0a9dc, 0x76f988da, 0x983e5152, 0xa831c66d, 0xb00327c8, 0xbf597fc7,
   0xc6e00bf3, 0xd5a79147, 0x06ca6351, 0x14292967, 0x27b70a85, 0x2e1b2138, 0x4d2c6dfc,
   0x53380d13, 0x650a7354, 0x766a0abb, 0x81c2c92e, 0x92722c85, 0xa2bfe8a1, 0xa81a664b,
   0xc24b8b70, 0xc76c51a3, 0xd192e819, 0xd6990624, 0xf40e3585, 0x106aa070, 0x19a4c116,
   0x1e376c08, 0x2748774c, 0x34b0bcb5, 0x391c0cb3, 0x4ed8aa4a, 0x5b9cca4f, 0x682e6ff3,
   0x748f82ee, 0x78a5636f, 0x84c87814, 0x8cc70208, 0x90befffa, 0xa4506ceb, 0xbef9a3f7,
   0xc67178f2]

/-! ## Compression -/

/-- The chaining state. -/
structure State where
  (a b c d e f g h : UInt32)
  deriving DecidableEq

/-- The state before the first block. -/
def State.initial : State :=
  ⟨0x6a09e667, 0xbb67ae85, 0x3c6ef372, 0xa54ff53a,
    0x510e527f, 0x9b05688c, 0x1f83d9ab, 0x5be0cd19⟩

/-- The word that follows a window of sixteen words of the message schedule. -/
def nextWord (window : List UInt32) : UInt32 :=
  smallSigma1 (window.getD 14 0) + window.getD 9 0 + smallSigma0 (window.getD 1 0) +
    window.getD 0 0

/-- One round: the state is mixed with the first word of the window, and the window moves on. -/
def round (s : State × List UInt32) (k : UInt32) : State × List UInt32 :=
  let (s, window) := s
  let t₁ := s.h + bigSigma1 s.e + choose s.e s.f s.g + k + window.getD 0 0
  let t₂ := bigSigma0 s.a + majority s.a s.b s.c
  (⟨t₁ + t₂, s.a, s.b, s.c, s.d + t₁, s.e, s.f, s.g⟩, window.drop 1 ++ [nextWord window])

/-- The state after a block of sixteen words. -/
def compress (s : State) (block : List UInt32) : State :=
  let (t, _) := roundConstants.foldl round (s, block)
  ⟨s.a + t.a, s.b + t.b, s.c + t.c, s.d + t.d, s.e + t.e, s.f + t.f, s.g + t.g, s.h + t.h⟩

/-! ## Messages -/

/-- The big-endian bytes of a word. -/
def wordBytes (w : UInt32) : Bytes :=
  [(w >>> 24).toUInt8, (w >>> 16).toUInt8, (w >>> 8).toUInt8, w.toUInt8]

/-- The big-endian words of some bytes, in front of which stand `done`, last one first. -/
def wordsOnto (done : List UInt32) : Bytes → List UInt32
  | a :: b :: c :: d :: rest =>
    wordsOnto ((a.toUInt32 <<< 24 ||| b.toUInt32 <<< 16 ||| c.toUInt32 <<< 8 ||| d.toUInt32) ::
      done) rest
  | _ => done.reverse

/-- The message, a set bit, zeros, and the length in bits: a multiple of sixty-four bytes. -/
def pad (message : Bytes) : Bytes :=
  let size := message.length
  let bits := (8 * size).toUInt64
  let filling : Bytes := 0x80 :: List.replicate ((119 - size % 64) % 64) 0
  message ++ filling ++ wordBytes (bits >>> 32).toUInt32 ++
    wordBytes bits.toUInt32

/-- Takes one word; the sixteenth of a block compresses it.  The words of the block so far stand
    last one first. -/
def absorb (s : State × List UInt32) (w : UInt32) : State × List UInt32 :=
  let block := w :: s.2
  if block.length = 16 then (compress s.1 block.reverse, []) else (s.1, block)

/-- The digest of a message. -/
def hash (message : Bytes) : Bytes :=
  let (s, _) := (wordsOnto [] (pad message)).foldl absorb (State.initial, [])
  [s.a, s.b, s.c, s.d, s.e, s.f, s.g, s.h].flatMap wordBytes

@[simp] theorem length_wordBytes (w : UInt32) : (wordBytes w).length = 4 := rfl

/-- A digest has 32 bytes. -/
@[simp] theorem length_hash (message : Bytes) : (hash message).length = 32 := by
  simp [hash]

/-- The digest of a message under a tag. -/
def taggedHash (tag : String) (message : Bytes) : Bytes :=
  let mark := hash tag.toUTF8.toList
  hash (mark ++ mark ++ message)

end SignedEvents.Sha256
