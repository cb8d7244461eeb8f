import SignedEvents.Text.Encoding
import SignedEvents.Text.Quoted

/-! # Errors of JSON text

  - **Place** — a line, a column and an offset in a text.
  - **Cause** — what is wrong at a place.
  - **Error** — why a text or some bytes give no value, and its message.
-/

namespace SignedEvents.Json

/-- A place in a text.  Lines and columns count from one, offsets from zero. -/
structure Place where
  line   : Nat
  column : Nat
  offset : Nat
  deriving DecidableEq

/-- The first place of a text. -/
def Place.start : Place := ⟨1, 1, 0⟩

/-- The place after a code point. -/
def Place.after (p : Place) (c : CodePoint) : Place :=
  if c.is '\n' then ⟨p.line + 1, 1, p.offset + 1⟩ else ⟨p.line, p.column + 1, p.offset + 1⟩

/-- The wording of a place. -/
def Place.message (p : Place) : Text :=
  "line " ++ Text.ofNat p.line ++ " column " ++ Text.ofNat p.column ++
    " (char " ++ Text.ofNat p.offset ++ ")"

/-- What is wrong at a place of the text. -/
inductive Cause where
  | byteOrderMark
  | valueExpected
  | nameExpected
  | colonExpected
  | commaExpected
  | extraData
  | unterminatedString
  | controlCharacter
  | badEscape
  | badUnicodeEscape
  deriving DecidableEq

/-- The wording of a cause. -/
def Cause.message : Cause → String
  | byteOrderMark => "Unexpected UTF-8 BOM (decode using utf-8-sig)"
  | valueExpected => "Expecting value"
  | nameExpected => "Expecting property name enclosed in double quotes"
  | colonExpected => "Expecting ':' delimiter"
  | commaExpected => "Expecting ',' delimiter"
  | extraData => "Extra data"
  | unterminatedString => "Unterminated string starting at"
  | controlCharacter => "Invalid control character at"
  | badEscape => "Invalid \\escape"
  | badUnicodeEscape => "Invalid \\uXXXX escape"

/-- The two kinds of nesting. -/
inductive Nesting where
  | array
  | object
  deriving DecidableEq

/-- Why a text or some bytes give no value. -/
inductive Error where
  /-- The bytes hold no text. -/
  | undecodable (e : Encoding.Error)
  /-- The text is no JSON text. -/
  | malformed (cause : Cause) (place : Place)
  /-- An integer has more digits than allowed. -/
  | longInteger (digits limit : Nat)
  /-- An array or object is nested deeper than allowed. -/
  | tooDeep (nesting : Nesting)
  /-- An object has two members of one name. -/
  | repeatedName (name : Text)

/-- The wording of an error. -/
def Error.message : Error → Text
  | undecodable e => e.message
  | malformed cause place => cause.message ++ ": " ++ place.message
  | longInteger digits limit =>
    "Exceeds the limit (" ++ Text.ofNat limit ++
      " digits) for integer string conversion: value has " ++ Text.ofNat digits ++
      " digits; use sys.set_int_max_str_digits() to increase the limit"
  | tooDeep nesting =>
    let kind := match nesting with
      | .array => "array"
      | .object => "object"
    "maximum recursion depth exceeded while decoding a JSON " ++ kind ++
      " from a unicode string"
  | repeatedName name => "duplicate field " ++ name.quoted

end SignedEvents.Json
