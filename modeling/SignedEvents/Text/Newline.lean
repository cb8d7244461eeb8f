import SignedEvents.Text.Basic

/-! # Line ends

  A line ends with a line feed, a carriage return, or both.

  - **normalizeNewlines** — every line end as a line feed.
  - **lines** — the lines of a text, without their ends.
-/

namespace SignedEvents.Text

/-- Puts `done`, last code point first, in front of the text with every line end as a line feed.
    `afterReturn` says that a carriage return has just been read. -/
def normalizeFrom (afterReturn : Bool) (done : Text) : Text → Text
  | [] => done.reverse
  | c :: rest =>
    if c.is '\r' then normalizeFrom true (.ofChar '\n' :: done) rest
    else if c.is '\n' && afterReturn then normalizeFrom false done rest
    else normalizeFrom false (c :: done) rest

/-- The text with every line end as a line feed. -/
def normalizeNewlines (t : Text) : Text := normalizeFrom false [] t

/-- The lines of a text in which each ends with a line feed; `line` and `done` hold the line
    and the lines so far, last first.  After the last line feed no further line begins. -/
def linesFrom (line : Text) (done : List Text) : Text → List Text
  | [] => (if line.isEmpty then done else line.reverse :: done).reverse
  | c :: rest =>
    if c.is '\n' then linesFrom [] (line.reverse :: done) rest
    else linesFrom (c :: line) done rest

/-- The lines of a text. -/
def lines (t : Text) : List Text := linesFrom [] [] t.normalizeNewlines

end SignedEvents.Text
