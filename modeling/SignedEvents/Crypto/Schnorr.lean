import SignedEvents.Crypto.Secp256k1
import SignedEvents.Crypto.Sha256

/-! # Schnorr signatures

  The signatures of BIP-340 over secp256k1.  A public key is the `x` of a point; its `y` is
  taken to be even.

  - **verify** — does a signature of 64 bytes stand under a key of 32 bytes?
  - **publicKey**, **sign** — the key and the signature of a secret.
  - **compressedKey** — the key of a secret with the parity of its `y`, 33 bytes.
  - **SecretError** — why some bytes are no secret.
-/

namespace SignedEvents.Schnorr

open Secp256k1

/-! ## Numbers as bytes -/

/-- The number of some big-endian bytes. -/
def natOfBytes (bytes : Bytes) : Nat := bytes.foldl (fun n b => 256 * n + b.toNat) 0

/-- The lowest 32 bytes of a number, big-endian. -/
def bytes32 (n : Nat) : Bytes := (List.range 32).map fun i => .ofNat (n >>> (8 * (31 - i)))

@[simp] theorem length_bytes32 (n : Nat) : (bytes32 n).length = 32 := by simp [bytes32]

/-! ## Verification -/

/-- The number that binds a signature to its commitment, key and message. -/
def challenge (r key message : Bytes) : Nat :=
  natOfBytes (Sha256.taggedHash "BIP0340/challenge" (r ++ key ++ message)) % groupOrder

/-- Why a public key cannot be used: no point of the curve has it as its `x`. -/
inductive KeyError where
  | notOnCurve
  deriving DecidableEq

/-- The wording of a key error. -/
def KeyError.message : KeyError → String
  | notOnCurve => "invalid public key"

/-- Does the signature of 64 bytes over a message stand under the key of 32 bytes? -/
def verify (message signature key : Bytes) : Except KeyError Bool :=
  match liftX? (natOfBytes key) with
  | none => .error .notOnCurve
  | some p =>
    let r := natOfBytes (signature.take 32)
    let s := natOfBytes (signature.drop 32)
    if r ≥ fieldPrime || s ≥ groupOrder then .ok false
    else
      let e := challenge (signature.take 32) key message
      -- the commitment that the signature would have been made with
      match (Point.add (Point.mul s .generator) (Point.mul e p).neg).affine? with
      | none => .ok false
      | some (x, y) => .ok (y % 2 == 0 && x == r)

/-! ## Signing -/

/-- Why some bytes are no secret. -/
inductive SecretError where
  /-- A secret has 32 bytes. -/
  | wrongLength
  /-- A secret is neither zero nor past the order of the group. -/
  | outOfRange
  deriving DecidableEq

/-- The wording of a secret error. -/
def SecretError.message : SecretError → String
  | wrongLength => "private key must be composed of 32 bytes"
  | outOfRange => "invalid private key"

/-- The number of a secret. -/
def secretOf (bytes : Bytes) : Except SecretError Nat :=
  if bytes.length ≠ 32 then .error .wrongLength
  else
    let d := natOfBytes bytes
    if d = 0 || d ≥ groupOrder then .error .outOfRange else .ok d

/-- The `x` of a multiple of the generator, and the multiplier that gives an even `y`. -/
def evenMultiple (k : Nat) : Nat × Nat :=
  match (Point.mul k .generator).affine? with
  | none => (0, k)
  | some (x, y) => (x, if y % 2 = 0 then k else groupOrder - k)

/-- The public key of a secret. -/
def publicKey (secret : Bytes) : Except SecretError Bytes :=
  match secretOf secret with
  | .error e => .error e
  | .ok d => .ok (bytes32 (evenMultiple d).1)

/-- The byte in front of the `x` of a point whose `y` is even. -/
def evenMark : UInt8 := 0x02

/-- The byte in front of the `x` of a point whose `y` is odd. -/
def oddMark : UInt8 := 0x03

/-- The public key of a secret as a point: the parity of its `y`, then its `x`. -/
def compressedKey (secret : Bytes) : Except SecretError Bytes :=
  match secretOf secret with
  | .error e => .error e
  | .ok d =>
    -- the multiplier is kept exactly if it gives an even `y`
    let (x, k) := evenMultiple d
    .ok ((if k = d then evenMark else oddMark) :: bytes32 x)

/-- The signature over a message of any length, with 32 zero bytes as auxiliary input. -/
def sign (secret message : Bytes) : Except SecretError Bytes :=
  match secretOf secret with
  | .error e => .error e
  | .ok d =>
    let (x, d) := evenMultiple d
    let key := bytes32 x
    let mask := natOfBytes (Sha256.taggedHash "BIP0340/aux" (List.replicate 32 0))
    let seed := bytes32 (d ^^^ mask) ++ key ++ message
    let nonce := natOfBytes (Sha256.taggedHash "BIP0340/nonce" seed) % groupOrder
    let (r, k) := evenMultiple nonce
    let e := challenge (bytes32 r) key message
    .ok (bytes32 r ++ bytes32 ((k + e * d) % groupOrder))

end SignedEvents.Schnorr
