import SignedEvents.Text.Basic

/-! # Blank characters

  Three classes of blank characters.  Which one applies depends on who trims.

  - **isAsciiBlank** — the six ASCII blanks.
  - **isWhiteSpace** — the Unicode property White_Space.
  - **isBlank** — White_Space together with the four information separators.
-/

namespace SignedEvents.CodePoint

/-- Space, tab, line feed, vertical tab, form feed or carriage return. -/
def isAsciiBlank (c : CodePoint) : Bool :=
  (0x09 ≤ c.val && c.val ≤ 0x0D) || c.val == 0x20

/-- White_Space outside ASCII. -/
def isWideBlank (c : CodePoint) : Bool :=
  c.val == 0x85 || c.val == 0xA0 || c.val == 0x1680 || (0x2000 ≤ c.val && c.val ≤ 0x200A) ||
    c.val == 0x2028 || c.val == 0x2029 || c.val == 0x202F || c.val == 0x205F || c.val == 0x3000

/-- The Unicode property White_Space. -/
def isWhiteSpace (c : CodePoint) : Bool := isAsciiBlank c || isWideBlank c

/-- White_Space and the information separators U+001C to U+001F. -/
def isBlank (c : CodePoint) : Bool := isWhiteSpace c || (0x1C ≤ c.val && c.val ≤ 0x1F)

theorem isBlank_of_isWhiteSpace {c : CodePoint} (h : c.isWhiteSpace = true) :
    c.isBlank = true := by
  simp [isBlank, h]

end SignedEvents.CodePoint
