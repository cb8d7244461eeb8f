import SignedEvents.Text.Basic

/-! # Hexadecimal text

  Bytes written as pairs of hexadecimal digits.

  - **encode** — the lower-case digits of some bytes.
  - **decode?** — the bytes of some digits of either case.
-/

namespace SignedEvents.Hex

/-- The two lower-case digits of each byte. -/
def encode (bytes : Bytes) : Text :=
  bytes.flatMap fun b => [.hexDigit (b.toNat / 16), .hexDigit b.toNat]

/-- The bytes of pairs of digits.  Nothing else may stand in the text. -/
def decode? : Text → Option Bytes
  | [] => some []
  | [_] => none
  | a :: b :: rest =>
    match a.hexValue?, b.hexValue?, decode? rest with
    | some high, some low, some bytes => some (.ofNat (16 * high + low) :: bytes)
    | _, _, _ => none

end SignedEvents.Hex
