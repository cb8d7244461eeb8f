import SignedEvents.Text.Numeral
import SignedEvents.Text.Utf8

/-! # Byte encodings of text

  Text may arrive as UTF-8, UTF-16 or UTF-32.  A byte-order mark decides; without one, the
  place of the zero bytes among the first four does.

  - **Encoding** — the five byte encodings.
  - **Encoding.detect** — the encoding of some bytes, and the length of their mark.
  - **Encoding.decode** — the text of some bytes, lone surrogates included.
  - **Encoding.Error** — where and why bytes cannot be read, and its message.
  - **Encoding.unencodableMessage** — the same for a text that has no bytes.
-/

namespace SignedEvents

/-- A byte encoding of text. -/
inductive Encoding where
  | utf8
  | utf16LE
  | utf16BE
  | utf32LE
  | utf32BE
  deriving DecidableEq

namespace Encoding

/-- The name of an encoding. -/
def name : Encoding → String
  | utf8 => "utf-8"
  | utf16LE => "utf-16-le"
  | utf16BE => "utf-16-be"
  | utf32LE => "utf-32-le"
  | utf32BE => "utf-32-be"

/-! ## Detection -/

/-- The encoding of bytes without a mark, from the zeros among the first four of them. -/
def detectUnmarked : Bytes → Encoding
  | [a, b] => if a == 0 then utf16BE else if b == 0 then utf16LE else utf8
  | a :: b :: c :: d :: _ =>
    if a == 0 then if b != 0 then utf16BE else utf32BE
    else if b == 0 then if c != 0 || d != 0 then utf16LE else utf32LE
    else utf8
  | _ => utf8

/-- The encoding of some bytes, and the number of bytes its mark takes. -/
def detect : Bytes → Encoding × Nat
  | 0x00 :: 0x00 :: 0xFE :: 0xFF :: _ => (utf32BE, 4)
  | 0xFF :: 0xFE :: 0x00 :: 0x00 :: _ => (utf32LE, 4)
  | 0xFE :: 0xFF :: _ => (utf16BE, 2)
  | 0xFF :: 0xFE :: _ => (utf16LE, 2)
  | 0xEF :: 0xBB :: 0xBF :: _ => (utf8, 3)
  | bytes => (detectUnmarked bytes, 0)

/-! ## Errors -/

/-- Why bytes hold no text. -/
inductive Reason where
  /-- The bytes are not UTF-8. -/
  | notUtf8 (fault : Utf8.Fault)
  /-- The bytes end inside a unit. -/
  | truncated
  /-- A unit is past the last code point. -/
  | outOfRange
  deriving DecidableEq

/-- The wording of a reason. -/
def Reason.message : Reason → String
  | notUtf8 .startByte => "invalid start byte"
  | notUtf8 .continuationByte => "invalid continuation byte"
  | notUtf8 .endOfData => "unexpected end of data"
  | truncated => "truncated data"
  | outOfRange => "code point not in range(0x110000)"

/-- Where and why bytes cannot be read. -/
structure Error where
  encoding : Encoding
  offset   : Nat
  bytes    : Bytes
  reason   : Reason

/-- The wording of an error: one bad byte is shown, more are given as a range. -/
def Error.message (e : Error) : Text :=
  let place : Text :=
    match e.bytes with
    | [b] => "byte 0x" ++ Text.ofHex 2 b.toNat ++ " in position " ++ Text.ofNat e.offset
    | _ => "bytes in position " ++ Text.ofNat e.offset ++ "-" ++
        Text.ofNat (e.offset + e.bytes.length - 1)
  "'" ++ e.encoding.name ++ "' codec can't decode " ++ place ++ ": " ++ e.reason.message

/-- The wording of an error on the way to bytes: one surrogate is shown, more are given as a
    range. -/
def unencodableMessage (e : Utf8.Unencodable) : Text :=
  let place : Text :=
    if e.size = 1 then
      "character '\\u" ++ Text.ofHex 4 e.first.val ++ "' in position " ++ Text.ofNat e.offset
    else
      "characters in position " ++ Text.ofNat e.offset ++ "-" ++
        Text.ofNat (e.offset + e.size - 1)
  "'" ++ utf8.name ++ "' codec can't encode " ++ place ++ ": surrogates not allowed"

/-! ## Decoding -/

/-- Two bytes as a number. -/
def unit16 (big : Bool) (a b : UInt8) : CodePoint :=
  .ofNat (if big then a.toNat * 0x100 + b.toNat else b.toNat * 0x100 + a.toNat)

/-- Puts a high surrogate and the low one after it together, from left to right. -/
def joinPairs (done : Text) : Text → Text
  | [] => done.reverse
  | [a] => (a :: done).reverse
  | a :: b :: rest =>
    if a.isHighSurrogate && b.isLowSurrogate then joinPairs (.ofPair a b :: done) rest
    else joinPairs (a :: done) (b :: rest)

/-- Reads units of two bytes from `offset` on; `done` holds those read so far, last first. -/
def decode16 (encoding : Encoding) (big : Bool) (offset : Nat) (done : Text) :
    Bytes → Except Error Text
  | [] => .ok (joinPairs [] done.reverse)
  | [a] => .error ⟨encoding, offset, [a], .truncated⟩
  | a :: b :: rest => decode16 encoding big (offset + 2) (unit16 big a b :: done) rest

/-- Four bytes as a number. -/
def unit32 (big : Bool) (a b c d : UInt8) : Nat :=
  if big then ((a.toNat * 0x100 + b.toNat) * 0x100 + c.toNat) * 0x100 + d.toNat
  else ((d.toNat * 0x100 + c.toNat) * 0x100 + b.toNat) * 0x100 + a.toNat

/-- Reads units of four bytes from `offset` on; `done` holds the text so far, last first. -/
def decode32 (encoding : Encoding) (big : Bool) (offset : Nat) (done : Text) :
    Bytes → Except Error Text
  | [] => .ok done.reverse
  | a :: b :: c :: d :: rest =>
    if unit32 big a b c d < 0x110000 then
      decode32 encoding big (offset + 4) (.ofNat (unit32 big a b c d) :: done) rest
    else .error ⟨encoding, offset, [a, b, c, d], .outOfRange⟩
  | rest => .error ⟨encoding, offset, rest, .truncated⟩

/-- Reads UTF-8, surrogates included. -/
def decode8 (bytes : Bytes) : Except Error Text :=
  match Utf8.decodeWith .surrogates bytes with
  | .ok t => .ok t
  | .error e => .error ⟨utf8, e.offset, (bytes.drop e.offset).take e.size, .notUtf8 e.fault⟩

/-- The text of some bytes in the encoding that they show.  Offsets in an error count the mark,
    except in UTF-8. -/
def decode (bytes : Bytes) : Except Error Text :=
  let (encoding, mark) := detect bytes
  let body := bytes.drop mark
  match encoding with
  | utf8 => decode8 body
  | utf16LE => decode16 utf16LE false mark [] body
  | utf16BE => decode16 utf16BE true mark [] body
  | utf32LE => decode32 utf32LE false mark [] body
  | utf32BE => decode32 utf32BE true mark [] body

end Encoding

end SignedEvents
