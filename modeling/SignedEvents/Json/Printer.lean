import SignedEvents.Binary64.Shortest
import SignedEvents.Json.Value
import SignedEvents.Text.Quoted

/-! # Writing JSON text

  One printer; a `Layout` fixes the separators and which code points are escaped.

  - **Layout.compact** — no blanks; quotes, backslashes and control characters are escaped.
  - **Layout.ascii** — a blank after each separator; all but printable ASCII is escaped.
  - **print** — the text of a value.
  - **display** — the text of a value inside a message.
-/

namespace SignedEvents.Json

/-! ## Strings -/

/-- The one-letter escape of a code point. -/
def letterEscape? (c : CodePoint) : Option Text :=
  if c.is '"' then some "\\\""
  else if c.is '\\' then some "\\\\"
  else if c.val = 0x08 then some "\\b"
  else if c.val = 0x0C then some "\\f"
  else if c.val = 0x0A then some "\\n"
  else if c.val = 0x0D then some "\\r"
  else if c.val = 0x09 then some "\\t"
  else none

/-- The numbered escape of a code point below `0x10000`. -/
def numberedEscape (n : Nat) : Text := "\\u" ++ Text.ofHex 4 n

/-- Escapes quotes, backslashes and control characters. -/
def escapeControl (c : CodePoint) : Text :=
  match letterEscape? c with
  | some t => t
  | none => if c.val < 0x20 then numberedEscape c.val else [c]

/-- Escapes all but printable ASCII; a code point past `0xFFFF` becomes a surrogate pair. -/
def escapeWide (c : CodePoint) : Text :=
  match letterEscape? c with
  | some t => t
  | none =>
    if 0x20 ≤ c.val && c.val ≤ 0x7E then [c]
    else if c.val < 0x10000 then numberedEscape c.val
    else
      let offset := c.val - 0x10000
      numberedEscape (0xD800 + offset / 0x400) ++ numberedEscape (0xDC00 + offset % 0x400)

/-! ## Values -/

/-- The separators of a printer, and how it writes one code point of a string. -/
structure Layout where
  comma  : Text
  colon  : Text
  escape : CodePoint → Text

/-- No blanks, and as few escapes as JSON allows. -/
def Layout.compact : Layout := ⟨",", ":", escapeControl⟩

/-- A blank after each separator, and ASCII only. -/
def Layout.ascii : Layout := ⟨", ", ": ", escapeWide⟩

/-- A string in its quotes. -/
def printString (layout : Layout) (t : Text) : Text :=
  "\"" ++ t.flatMap layout.escape ++ "\""

/-- The text of a number that is no integer. -/
def printFloat : Binary64 → Text
  | .nan => "NaN"
  | .infinite negative => if negative then "-Infinity" else "Infinity"
  | x => x.toText

mutual

/-- The text of a value. -/
def print (layout : Layout) : Value → Text
  | .null => "null"
  | .bool b => if b then "true" else "false"
  | .int n => Text.ofInt n
  | .float x => printFloat x
  | .str t => printString layout t
  | .arr items => "[" ++ Text.join layout.comma (printItems layout items) ++ "]"
  | .obj members => "\x7b" ++ Text.join layout.comma (printMembers layout members) ++ "\x7d"

/-- The texts of items. -/
def printItems (layout : Layout) : List Value → List Text
  | [] => []
  | v :: rest => print layout v :: printItems layout rest

/-- The texts of members. -/
def printMembers (layout : Layout) : List (Text × Value) → List Text
  | [] => []
  | (name, v) :: rest =>
    (printString layout name ++ layout.colon ++ print layout v) :: printMembers layout rest

end

mutual

/-- The text of a value inside a message: strings in quotes, words with a capital. -/
def display : Value → Text
  | .null => "None"
  | .bool b => if b then "True" else "False"
  | .int n => Text.ofInt n
  | .float x => x.toText
  | .str t => t.quoted
  | .arr items => "[" ++ Text.join ", " (displayItems items) ++ "]"
  | .obj members => "\x7b" ++ Text.join ", " (displayMembers members) ++ "\x7d"

/-- The texts of items inside a message. -/
def displayItems : List Value → List Text
  | [] => []
  | v :: rest => display v :: displayItems rest

/-- The texts of members inside a message. -/
def displayMembers : List (Text × Value) → List Text
  | [] => []
  | (name, v) :: rest => (name.quoted ++ ": " ++ display v) :: displayMembers rest

end

end SignedEvents.Json
