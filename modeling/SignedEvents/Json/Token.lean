import SignedEvents.Json.Error
import SignedEvents.Json.Value
import SignedEvents.Text.Numeral

/-! # Tokens of JSON text

  A text is cut into tokens, each with its place.  Blanks between tokens are dropped.  Reading
  stops at the first thing that is no token, which becomes a last token of its own: whether it
  matters, and how it is reported, depends on what the reader expects there.

  - **Numeral** — a number as it is written.
  - **Token** — brackets, delimiters, words, numbers and strings; a broken string; a stray
    code point; the end of the text.
  - **scanString**, **scanNumber**, **scanWord** — one token at the front of a text.
  - **tokens** — all tokens of a text.
-/

namespace SignedEvents.Json

/-! ## Tokens -/

/-- A number as it is written: sign, digits before the point, digits after it, exponent. -/
structure Numeral where
  negative : Bool
  whole    : List Nat
  fraction : Option (List Nat)
  exponent : Option Int
  deriving DecidableEq

/-- A piece of JSON text. -/
inductive Token where
  | openArray
  | closeArray
  | openObject
  | closeObject
  | comma
  | colon
  | null
  | bool (b : Bool)
  | nan
  | infinity (negative : Bool)
  | number (n : Numeral)
  | str (t : Text)
  /-- A string that breaks off: the cause and its place. -/
  | brokenString (cause : Cause) (place : Place)
  /-- A code point that starts no token. -/
  | stray
  /-- The end of the text. -/
  | endOfText
  deriving DecidableEq

/-- A token and the place where it starts. -/
structure Located where
  place : Place
  token : Token

/-! ## Strings -/

/-- The code point of a one-letter escape. -/
def simpleEscape? (c : CodePoint) : Option CodePoint :=
  if c.is '"' || c.is '\\' || c.is '/' then some c
  else if c.is 'b' then some (.ofNat 0x08)
  else if c.is 'f' then some (.ofNat 0x0C)
  else if c.is 'n' then some (.ofNat 0x0A)
  else if c.is 'r' then some (.ofNat 0x0D)
  else if c.is 't' then some (.ofNat 0x09)
  else none

/-- The number of four hexadecimal digits. -/
def hexQuad? (a b c d : CodePoint) : Option Nat :=
  match a.hexValue?, b.hexValue?, c.hexValue?, d.hexValue? with
  | some a, some b, some c, some d => some (((a * 16 + b) * 16 + c) * 16 + d)
  | _, _, _, _ => none

/-- Adds the code point of a numbered escape: a low surrogate completes a high one that an
    escape has just given. -/
def addEscaped (afterHigh : Bool) (done : Text) (c : CodePoint) : Text :=
  match afterHigh, done with
  | true, high :: before => if c.isLowSurrogate then .ofPair high c :: before else c :: done
  | _, _ => c :: done

/-- Where a string is read: its opening quote, the present place, and how many code points it
    takes so far. -/
structure StringCursor where
  start : Place
  here  : Place
  size  : Nat

/-- The cursor after a code point. -/
def StringCursor.after (cursor : StringCursor) (c : CodePoint) : StringCursor :=
  { cursor with here := cursor.here.after c, size := cursor.size + 1 }

/-- Reads a string after its opening quote.  `done` holds the text so far, last code point
    first; `afterHigh` says that its head is a high surrogate from an escape.  Gives the token
    and the number of code points it takes, the quotes included. -/
def scanString (cursor : StringCursor) (afterHigh : Bool) (done : Text) : Text → Token × Nat
  | [] => (.brokenString .unterminatedString cursor.start, cursor.size)
  | c :: rest =>
    if c.is '"' then (.str done.reverse, cursor.size + 1)
    else if c.is '\\' then
      match rest with
      | [] => (.brokenString .unterminatedString cursor.start, cursor.size)
      | e :: rest =>
        if e.is 'u' then
          match rest with
          | h₁ :: h₂ :: h₃ :: h₄ :: rest =>
            match hexQuad? h₁ h₂ h₃ h₄ with
            | some n =>
              if rest.isEmpty then
                (.brokenString .badUnicodeEscape (cursor.here.after c), cursor.size)
              else
                let escaped := CodePoint.ofNat n
                let next := [c, e, h₁, h₂, h₃, h₄].foldl StringCursor.after cursor
                let done := addEscaped afterHigh done escaped
                scanString next escaped.isHighSurrogate done rest
            | none => (.brokenString .badUnicodeEscape (cursor.here.after c), cursor.size)
          | _ => (.brokenString .badUnicodeEscape (cursor.here.after c), cursor.size)
        else
          match simpleEscape? e with
          | some x => scanString ((cursor.after c).after e) false (x :: done) rest
          | none => (.brokenString .badEscape cursor.here, cursor.size)
    else if c.val < 0x20 then (.brokenString .controlCharacter cursor.here, cursor.size)
    else scanString (cursor.after c) false (c :: done) rest

/-! ## Numbers -/

/-- The digits at the front of a text. -/
def leadingDigits (t : Text) : List Nat := (t.takeWhile (·.isDigit)).map (·.val - 0x30)

/-- The digits before the point: a lone zero, or digits that start with another one. -/
def scanWhole (t : Text) : Option (List Nat) :=
  match leadingDigits t with
  | [] => none
  | 0 :: _ => some [0]
  | digits => some digits

/-- The digits of the fraction at the front of a text.  It takes one code point more. -/
def scanFraction (t : Text) : Option (List Nat) :=
  match t with
  | point :: rest =>
    let digits := leadingDigits rest
    if point.is '.' && !digits.isEmpty then some digits else none
  | [] => none

/-- The sign at the front of an exponent: whether it is a minus, and the code points it takes. -/
def scanExponentSign (t : Text) : Bool × Nat :=
  match t with
  | sign :: _ => if sign.is '-' then (true, 1) else if sign.is '+' then (false, 1) else (false, 0)
  | [] => (false, 0)

/-- The exponent at the front of a text, and the number of code points it takes. -/
def scanExponent (t : Text) : Option (Int × Nat) :=
  match t with
  | mark :: rest =>
    if mark.is 'e' || mark.is 'E' then
      let (negative, signSize) := scanExponentSign rest
      let digits := leadingDigits (rest.drop signSize)
      let magnitude : Int := valueOf digits
      if digits.isEmpty then none
      else some (if negative then -magnitude else magnitude, 1 + signSize + digits.length)
    else none
  | [] => none

/-- The number at the front of a text, and the number of code points it takes. -/
def scanNumber (t : Text) : Option (Numeral × Nat) :=
  let negative := match t with
    | sign :: _ => sign.is '-'
    | [] => false
  let signSize := if negative then 1 else 0
  match scanWhole (t.drop signSize) with
  | none => none
  | some whole =>
    let wholeEnd := signSize + whole.length
    let afterWhole := t.drop wholeEnd
    let fraction := scanFraction afterWhole
    let fractionSize := match fraction with
      | some digits => 1 + digits.length
      | none => 0
    match scanExponent (afterWhole.drop fractionSize) with
    | some (exponent, size) =>
      some (⟨negative, whole, fraction, some exponent⟩, wholeEnd + fractionSize + size)
    | none => some (⟨negative, whole, fraction, none⟩, wholeEnd + fractionSize)

/-! ## Words and all tokens -/

/-- The tokens that are words. -/
def words : List (String × Token) :=
  [("null", .null), ("true", .bool true), ("false", .bool false), ("NaN", .nan),
    ("Infinity", .infinity false), ("-Infinity", .infinity true)]

/-- The word at the front of a text, and the number of code points it takes. -/
def scanWord (t : Text) : Option (Token × Nat) :=
  words.findSome? fun (word, token) =>
    if t.startsWith word then some (token, word.length) else none

/-- A blank between tokens. -/
def isSpace (c : CodePoint) : Bool :=
  c.val == 0x20 || c.val == 0x09 || c.val == 0x0A || c.val == 0x0D

/-- The token that is a single code point. -/
def punctuation? (c : CodePoint) : Option Token :=
  if c.is '[' then some .openArray
  else if c.is ']' then some .closeArray
  else if c.val = 0x7B then some .openObject
  else if c.val = 0x7D then some .closeObject
  else if c.is ',' then some .comma
  else if c.is ':' then some .colon
  else none

/-- The token at a code point that is no blank, and the number of code points it takes. -/
def scanToken (place : Place) (c : CodePoint) (rest : Text) : Token × Nat :=
  match punctuation? c with
  | some token => (token, 1)
  | none =>
    if c.is '"' then scanString ⟨place, place.after c, 1⟩ false [] rest
    else
      match scanWord (c :: rest) with
      | some found => found
      | none =>
        match scanNumber (c :: rest) with
        | some (n, size) => (.number n, size)
        | none => (.stray, 1)

/-- Does reading stop at this token? -/
def Token.isLast : Token → Bool
  | brokenString .. | stray | endOfText => true
  | _ => false

/-- Reads tokens from a place on.  The first `skip` code points belong to the token read last;
    `done` holds the tokens so far, last one first. -/
def tokensFrom (place : Place) (skip : Nat) (done : List Located) : Text → List Located
  | [] => (⟨place, .endOfText⟩ :: done).reverse
  | c :: rest =>
    match skip with
    | skip + 1 => tokensFrom (place.after c) skip done rest
    | 0 =>
      if isSpace c then tokensFrom (place.after c) 0 done rest
      else
        let (token, size) := scanToken place c rest
        if token.isLast then (⟨place, token⟩ :: done).reverse
        else tokensFrom (place.after c) (size - 1) (⟨place, token⟩ :: done) rest

/-- The tokens of a text.  The last one is the end of the text or what stopped the reading. -/
def tokens (t : Text) : List Located := tokensFrom .start 0 [] t

end SignedEvents.Json
