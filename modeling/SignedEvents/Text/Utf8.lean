import SignedEvents.Text.Basic

/-! # UTF-8

  The byte form of text.  Encoding refuses surrogates.  Decoding reads one character at a
  time; where the bytes hold none, a `Recovery` may supply a code point all the same.

  - **encode?** — the bytes of a text without surrogates.
  - **encodeEscaping** — the bytes of a text in which a surrogate may stand for a byte.
  - **read** — the character at the front of the bytes, or what is wrong there.
  - **Recovery** — what to read where there is no character.
  - **decodeWith** — reads all bytes, or finds the first fault.
  - **decodeEscaping** — reads any bytes: a byte outside a character becomes a surrogate.
-/

namespace SignedEvents.Utf8

/-! ## Encoding -/

/-- The bytes of one code point.  A surrogate gets the three bytes its number would have. -/
def encodePoint (c : CodePoint) : Bytes :=
  if c.val < 0x80 then [.ofNat c.val]
  else if c.val < 0x800 then [.ofNat (0xC0 + c.val / 0x40), .ofNat (0x80 + c.val % 0x40)]
  else if c.val < 0x10000 then
    [.ofNat (0xE0 + c.val / 0x1000), .ofNat (0x80 + c.val / 0x40 % 0x40),
      .ofNat (0x80 + c.val % 0x40)]
  else
    [.ofNat (0xF0 + c.val / 0x40000), .ofNat (0x80 + c.val / 0x1000 % 0x40),
      .ofNat (0x80 + c.val / 0x40 % 0x40), .ofNat (0x80 + c.val % 0x40)]

/-- The bytes of a text, unless it holds a surrogate. -/
def encode? (t : Text) : Option Bytes :=
  if t.hasSurrogate then none else some (t.flatMap encodePoint)

theorem encode?_eq_none_iff {t : Text} : encode? t = none ↔ t.hasSurrogate = true := by
  simp [encode?]

/-- Surrogates that stand for no byte: the offset of the first, what it is, and how many
    surrogates stand there in a row. -/
structure Unencodable where
  offset : Nat
  first  : CodePoint
  size   : Nat

/-- The byte that a low surrogate stands for: one outside ASCII. -/
def escapedByte? (c : CodePoint) : Option UInt8 :=
  if 0xDC80 ≤ c.val && c.val ≤ 0xDCFF then some (.ofNat (c.val - 0xDC00)) else none

/-- Puts the bytes of the text from `offset` on behind `done`, which holds the bytes so far, last
    first. -/
def encodeEscapingFrom (offset : Nat) (done : Bytes) : Text → Except Unencodable Bytes
  | [] => .ok done.reverse
  | c :: rest =>
    if !c.isSurrogate then
      encodeEscapingFrom (offset + 1) ((encodePoint c).reverse ++ done) rest
    else
      match escapedByte? c with
      | some b => encodeEscapingFrom (offset + 1) (b :: done) rest
      | none => .error ⟨offset, c, 1 + (rest.takeWhile (·.isSurrogate)).length⟩

/-- The bytes of a text.  A low surrogate may stand for a byte. -/
def encodeEscaping (t : Text) : Except Unencodable Bytes := encodeEscapingFrom 0 [] t

/-! ## Reading one character -/

/-- What is wrong with the bytes where a character should be. -/
inductive Fault where
  /-- The first byte starts no character. -/
  | startByte
  /-- A later byte does not continue the character. -/
  | continuationByte
  /-- The bytes end inside the character. -/
  | endOfData
  deriving DecidableEq

/-- The outcome of reading at the front of the bytes. -/
inductive Reading where
  /-- A character and the number of bytes it takes. -/
  | char (c : CodePoint) (size : Nat)
  /-- No character: the number of bytes before the fault shows, and the fault. -/
  | bad (fault : Fault) (size : Nat)

/-- A byte of the form `10xxxxxx`. -/
def isTail (b : UInt8) : Bool := 0x80 ≤ b && b ≤ 0xBF

/-- May `b` follow the first byte `a`?  This rules out long forms, surrogates and numbers past
    the last code point. -/
def isSecond (a b : UInt8) : Bool :=
  isTail b && (a != 0xE0 || 0xA0 ≤ b) && (a != 0xED || b < 0xA0) &&
    (a != 0xF0 || 0x90 ≤ b) && (a != 0xF4 || b < 0x90)

/-- The code point of a two-byte character. -/
def ofTwo (a b : UInt8) : CodePoint := .ofNat (a.toNat % 0x20 * 0x40 + b.toNat % 0x40)

/-- The code point of a three-byte character. -/
def ofThree (a b c : UInt8) : CodePoint :=
  .ofNat (a.toNat % 0x10 * 0x1000 + b.toNat % 0x40 * 0x40 + c.toNat % 0x40)

/-- The code point of a four-byte character. -/
def ofFour (a b c d : UInt8) : CodePoint :=
  .ofNat (a.toNat % 0x8 * 0x40000 + b.toNat % 0x40 * 0x1000 + c.toNat % 0x40 * 0x40 +
    d.toNat % 0x40)

/-- Reads at the byte `a` with `rest` after it. -/
def read (a : UInt8) (rest : Bytes) : Reading :=
  if a < 0x80 then .char (.ofNat a.toNat) 1
  else if a < 0xC2 then .bad .startByte 1
  else if a < 0xE0 then
    match rest with
    | [] => .bad .endOfData 1
    | b :: _ => if isTail b then .char (ofTwo a b) 2 else .bad .continuationByte 1
  else if a < 0xF0 then
    match rest with
    | [] => .bad .endOfData 1
    | b :: rest =>
      if !isSecond a b then .bad .continuationByte 1
      else match rest with
        | [] => .bad .endOfData 2
        | c :: _ => if isTail c then .char (ofThree a b c) 3 else .bad .continuationByte 2
  else if a < 0xF5 then
    match rest with
    | [] => .bad .endOfData 1
    | b :: rest =>
      if !isSecond a b then .bad .continuationByte 1
      else match rest with
        | [] => .bad .endOfData 2
        | c :: rest =>
          if !isTail c then .bad .continuationByte 2
          else match rest with
            | [] => .bad .endOfData 3
            | d :: _ => if isTail d then .char (ofFour a b c d) 4 else .bad .continuationByte 3
  else .bad .startByte 1

/-! ## Reading all bytes -/

/-- What to read where there is no character: a code point and the number of bytes it takes. -/
abbrev Recovery := UInt8 → Bytes → Option (CodePoint × Nat)

/-- Reads nothing where there is no character. -/
def Recovery.none : Recovery := fun _ _ => .none

/-- Reads the three bytes that a surrogate's number would have. -/
def Recovery.surrogates : Recovery := fun a rest =>
  match rest with
  | b :: c :: _ =>
    if a == 0xED && 0xA0 ≤ b && isTail b && isTail c then some (ofThree a b c, 3) else .none
  | _ => .none

/-- Reads each byte as the low surrogate that ends in it. -/
def Recovery.escapes : Recovery := fun a _ => some (.ofNat (0xDC00 + a.toNat), 1)

/-- The place of a fault: the offset of its first byte, the number of bytes, and its kind. -/
structure FaultAt where
  offset : Nat
  size   : Nat
  fault  : Fault

/-- Reads characters from `offset` on.  The first `skip` bytes belong to the character read
    last, and `done` holds the text so far, last character first. -/
def decodeFrom (recovery : Recovery) (offset skip : Nat) (done : Text) :
    Bytes → Except FaultAt Text
  | [] => .ok done.reverse
  | a :: rest =>
    match skip with
    | skip + 1 => decodeFrom recovery (offset + 1) skip done rest
    | 0 =>
      match read a rest with
      | .char c size => decodeFrom recovery (offset + 1) (size - 1) (c :: done) rest
      | .bad fault size =>
        match recovery a rest with
        | some (c, taken) => decodeFrom recovery (offset + 1) (taken - 1) (c :: done) rest
        | none => .error ⟨offset, size, fault⟩

/-- The text of the bytes, or the first fault that the recovery leaves. -/
def decodeWith (recovery : Recovery) (bytes : Bytes) : Except FaultAt Text :=
  decodeFrom recovery 0 0 [] bytes

/-- The text of any bytes, each byte outside a character read as a low surrogate. -/
def decodeEscaping (bytes : Bytes) : Text :=
  match decodeWith .escapes bytes with
  | .ok t => t
  | .error _ => []

/-- The text of the bytes, if they are well-formed UTF-8. -/
def decode? (bytes : Bytes) : Option Text :=
  match decodeWith .none bytes with
  | .ok t => some t
  | .error _ => none

end SignedEvents.Utf8
