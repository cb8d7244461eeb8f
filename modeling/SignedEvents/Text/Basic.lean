/-! # Text

  Text is a sequence of code points.  Surrogates count as code points, because escapes and
  lenient byte decoders can produce them one at a time.

  - **CodePoint** — a number below `0x110000`.
  - **Text** — a list of code points.
  - **Bytes** — a list of octets.
-/

namespace SignedEvents

/-! ## Code points -/

/-- A Unicode code point, surrogates included. -/
structure CodePoint where
  val  : Nat
  isLt : val < 0x110000
  deriving DecidableEq

namespace CodePoint

/-- The code point of a number; a number past the last one gives the replacement character. -/
def ofNat (n : Nat) : CodePoint :=
  if h : n < 0x110000 then ⟨n, h⟩ else ⟨0xFFFD, by decide⟩

theorem val_ofNat {n : Nat} (h : n < 0x110000) : (ofNat n).val = n := by
  simp [ofNat, h]

@[simp] theorem ofNat_val (c : CodePoint) : ofNat c.val = c := by
  simp [ofNat, c.isLt]

theorem ext_val {a b : CodePoint} (h : a.val = b.val) : a = b := by
  cases a; cases b; simp_all

/-- The code point of a character. -/
def ofChar (c : Char) : CodePoint :=
  ⟨c.toNat, by
    have h := c.valid
    simp only [UInt32.isValidChar, Nat.isValidChar] at h
    have e : c.toNat = c.val.toNat := rfl
    omega⟩

/-- Is this code point the character `k`? -/
def is (c : CodePoint) (k : Char) : Bool := c.val == k.toNat

/-- First half of a surrogate pair. -/
def isHighSurrogate (c : CodePoint) : Bool := 0xD800 ≤ c.val && c.val ≤ 0xDBFF

/-- Second half of a surrogate pair. -/
def isLowSurrogate (c : CodePoint) : Bool := 0xDC00 ≤ c.val && c.val ≤ 0xDFFF

/-- Either half of a surrogate pair. -/
def isSurrogate (c : CodePoint) : Bool := 0xD800 ≤ c.val && c.val ≤ 0xDFFF

/-- The code point that a high and a low surrogate stand for together. -/
def ofPair (high low : CodePoint) : CodePoint :=
  ofNat (0x10000 + (high.val - 0xD800) * 0x400 + (low.val - 0xDC00))

/-- The decimal digit of `d`, taken modulo ten. -/
def digit (d : Nat) : CodePoint := ⟨0x30 + d % 10, by omega⟩

/-- The lower-case hexadecimal digit of `d`, taken modulo sixteen. -/
def hexDigit (d : Nat) : CodePoint :=
  if d % 16 < 10 then ⟨0x30 + d % 16, by omega⟩ else ⟨0x57 + d % 16, by omega⟩

/-- The value of an ASCII decimal digit. -/
def digitValue? (c : CodePoint) : Option Nat :=
  if 0x30 ≤ c.val && c.val ≤ 0x39 then some (c.val - 0x30) else none

/-- Is this an ASCII decimal digit? -/
def isDigit (c : CodePoint) : Bool := 0x30 ≤ c.val && c.val ≤ 0x39

/-- The value of an ASCII hexadecimal digit of either case. -/
def hexValue? (c : CodePoint) : Option Nat :=
  if 0x30 ≤ c.val && c.val ≤ 0x39 then some (c.val - 0x30)
  else if 0x41 ≤ c.val && c.val ≤ 0x46 then some (c.val - 0x37)
  else if 0x61 ≤ c.val && c.val ≤ 0x66 then some (c.val - 0x57)
  else none

@[simp] theorem digitValue?_digit (d : Nat) : (digit d).digitValue? = some (d % 10) := by
  have h : d % 10 < 10 := Nat.mod_lt _ (by decide)
  have h₁ : 48 + d % 10 ≤ 57 := by omega
  simp [digit, digitValue?, h₁]

end CodePoint

/-! ## Text and bytes -/

/-- A sequence of code points. -/
abbrev Text := List CodePoint

/-- A sequence of octets. -/
abbrev Bytes := List UInt8

namespace Text

/-- The code points of a string. -/
def ofString (s : String) : Text := s.toList.map CodePoint.ofChar

instance : Coe String Text := ⟨ofString⟩

/-- Does the text hold a surrogate? -/
def hasSurrogate (t : Text) : Bool := t.any CodePoint.isSurrogate

/-- Does the text hold the code point zero? -/
def hasNul (t : Text) : Bool := t.any (·.val == 0)

/-- The text without the code points of a class at either end. -/
def strip (blank : CodePoint → Bool) (t : Text) : Text :=
  ((t.dropWhile blank).reverse.dropWhile blank).reverse

/-- Texts with a separator between each two. -/
def join (separator : Text) : List Text → Text
  | [] => []
  | t :: rest => t ++ rest.flatMap (separator ++ ·)

/-- Does the text start with these code points? -/
def startsWith (t start : Text) : Bool := start.isPrefixOf t

/-- The text up to the first code point of a class, and the text from there on. -/
def splitAtFirst (stop : CodePoint → Bool) (t : Text) : Text × Text :=
  (t.takeWhile (!stop ·), t.dropWhile (!stop ·))

/-- The texts between the code points of a class; `part` holds the code points before the front,
    last first. -/
def splitFrom (isBreak : CodePoint → Bool) (part : Text) : Text → List Text
  | [] => [part.reverse]
  | c :: rest =>
    if isBreak c then part.reverse :: splitFrom isBreak [] rest
    else splitFrom isBreak (c :: part) rest

/-- The texts between the code points of a class. -/
def splitAtAll (isBreak : CodePoint → Bool) (t : Text) : List Text := splitFrom isBreak [] t

end Text

end SignedEvents
