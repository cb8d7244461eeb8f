import SignedEvents.Crypto.Schnorr
import SignedEvents.Json.Value
import SignedEvents.Log
import SignedEvents.Text.Hex

/-! # Signatures as hexadecimal text

  - **verifyHex** — does a signature of 128 digits over a digest stand under a key of 64
    digits?  A key that is no point makes a record.
  - **verifyValues** — the same for any values: what is no string never stands.
  - **publicKeyHex**, **signHex** — the key and the signature of a secret in digits.
-/

namespace SignedEvents.Schnorr

/-- The wording of a record about a key that cannot be used. -/
def keyRefusal (e : KeyError) : Text := "schnorr verification error: " ++ e.message

/-- The bytes of a text of exactly `2 * size` hexadecimal digits. -/
def bytesOfHex? (size : Nat) (t : Text) : Option Bytes :=
  if t.length = 2 * size then Hex.decode? t else none

/-- Does a signature over a message of 32 bytes stand under a key? -/
def verifyHex (message : Bytes) (sig key : Text) : Trace Bool :=
  if message.length ≠ 32 then pure false
  else
    match bytesOfHex? 64 sig, bytesOfHex? 32 key with
    | some sig, some key =>
      match verify message sig key with
      | .ok b => pure b
      | .error e => do
        Trace.log .signature .debug (keyRefusal e)
        pure false
    | _, _ => pure false

/-- Does a signature stand under a key, where both may be any value? -/
def verifyValues (message : Bytes) (sig key : Json.Value) : Trace Bool :=
  match sig, key with
  | .str sig, .str key => verifyHex message sig key
  | _, _ => pure false

/-- The public key of a secret in hexadecimal digits, without the parity of its `y`. -/
def publicKeyHex (secret : Bytes) : Except SecretError Text :=
  (compressedKey secret).map fun key => Hex.encode (key.drop 1)

/-- The signature of a secret over a message, in hexadecimal digits. -/
def signHex (secret message : Bytes) : Except SecretError Text :=
  (sign secret message).map Hex.encode

end SignedEvents.Schnorr
