import SignedEvents.Text.Blank

/-! # What arrives

  A message arrives as text or as bytes.

  - **Source** — a text or some bytes.
  - **Source.trim** — without the blanks at either end.
-/

namespace SignedEvents.Json

/-- What arrives: a text, or bytes. -/
inductive Source where
  | text (t : Text)
  | bytes (b : Bytes)

namespace Source

/-- A byte that is an ASCII blank. -/
def isBlankByte (b : UInt8) : Bool := (0x09 ≤ b && b ≤ 0x0D) || b == 0x20

/-- The source without the blanks at its ends.  Of bytes only ASCII blanks are taken off. -/
def trim : Source → Source
  | text t => text (t.strip (·.isBlank))
  | bytes b => bytes ((b.dropWhile isBlankByte).reverse.dropWhile isBlankByte).reverse

/-- Is there nothing in the source? -/
def isEmpty : Source → Bool
  | text t => t.isEmpty
  | bytes b => b.isEmpty

end Source

end SignedEvents.Json
