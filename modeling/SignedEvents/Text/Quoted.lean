import SignedEvents.Text.Numeral
import SignedEvents.Text.Printable

/-! # Quoted text

  Text shown inside a message: in quotes, on one line, printable characters only.

  - **quoteFor** — single quotes, unless only single quotes occur in the text.
  - **escapeInQuotes** — how one code point is shown.
  - **quoted** — the text in its quotes.
-/

namespace SignedEvents.Text

/-- The quote put around a text: single, unless the text has a single quote and no double one. -/
def quoteFor (t : Text) : CodePoint :=
  if t.any (·.is '\'') && !t.any (·.is '"') then .ofChar '"' else .ofChar '\''

/-- One code point as it is shown between quotes. -/
def escapeInQuotes (quote c : CodePoint) : Text :=
  if c = quote || c.is '\\' then [.ofChar '\\', c]
  else if c.is '\n' then ofString "\\n"
  else if c.is '\r' then ofString "\\r"
  else if c.is '\t' then ofString "\\t"
  else if c.isPrintable then [c]
  else if c.val < 0x100 then ofString "\\x" ++ ofHex 2 c.val
  else if c.val < 0x10000 then ofString "\\u" ++ ofHex 4 c.val
  else ofString "\\U" ++ ofHex 8 c.val

/-- The text between quotes, with quotes, backslashes and unprintable code points escaped. -/
def quoted (t : Text) : Text :=
  let quote := quoteFor t
  quote :: t.flatMap (escapeInQuotes quote) ++ [quote]

end SignedEvents.Text
