import SignedEvents.Problem
import SignedEvents.Text.Blank
import SignedEvents.Text.IntegerLiteral
import SignedEvents.Text.Utf8

/-! # Numerals of settings

  An integer as people write it: White_Space around it, a sign, zeros in front, underscores
  between the digits, and a point with zeros after it.  All of that is taken off first; what is
  left must be plain digits, with a minus or without.

  - **Numeral.dropFraction**, **Numeral.dropZeros?**, **Numeral.dropMarks** — what is taken off.
  - **Numeral.readPlain** — plain digits.
  - **Numeral.read**, **Numeral.readBytes** — the integer that a text or some bytes show.
-/

namespace SignedEvents.Settings.Numeral

/-- The text without a point and one or more zeros at its end. -/
def dropFraction (t : Text) : Text :=
  let (whole, tail) := t.splitAtFirst (·.is '.')
  let zeros := tail.drop 1
  if !zeros.isEmpty && zeros.all (·.is '0') then whole else t

/-- Passes over zeros and underscores, the last of which is `last`, up to a digit or a minus.  If
    nothing else follows, the last of them stays. -/
def dropZerosFrom (last : CodePoint) : Text → Option Text
  | [] => some [last]
  | c :: rest =>
    if c.is '0' || c.is '_' then dropZerosFrom c rest
    else if c.isDigit || c.is '-' then some (c :: rest)
    else none

/-- The text without the zeros in front, and without the underscores among them.  It must start
    with a digit. -/
def dropZeros? : Text → Option Text
  | [] => none
  | c :: rest =>
    if c.is '0' then dropZerosFrom c rest
    else if c.isDigit then some (c :: rest)
    else none

/-- Do two underscores stand side by side? -/
def hasDoubleMark : Text → Bool
  | a :: b :: rest => (a.is '_' && b.is '_') || hasDoubleMark (b :: rest)
  | _ => false

/-- The text without underscores.  If one stands at the end or two side by side, all of them
    stay. -/
def dropMarks (t : Text) : Text :=
  if t.getLast?.any (·.is '_') || hasDoubleMark t then t else t.filter (!·.is '_')

/-- The number of plain digits, with a minus or without.  A zero in front must stand alone.  The
    length is looked at before what follows the digits, and a minus counts. -/
def readPlain (t : Text) : Except ProblemKind Int :=
  let isNegative := t.head?.any (·.is '-')
  let unsigned := if isNegative then t.drop 1 else t
  let row := unsigned.takeWhile CodePoint.isDigit
  let after := unsigned.dropWhile CodePoint.isDigit
  if row.isEmpty || (row.head?.any (·.is '0') && row.length ≠ 1) then .error .notNumeral
  else if t.length - after.length > IntegerLiteral.digitLimit then .error .numeralTooLong
  else if !after.isEmpty then .error .notNumeral
  else .ok (signed isNegative (valueOf (row.filterMap CodePoint.digitValue?)))

/-- The integer that a text shows. -/
def read (t : Text) : Except ProblemKind Int :=
  let (isNegative, unsigned) := takeSign (t.strip (·.isWhiteSpace))
  match dropZeros? (dropFraction unsigned) with
  | none => .error .notNumeral
  | some digits =>
    readPlain ((if isNegative then [.ofChar '-'] else []) ++ dropMarks digits)

/-- The integer that some bytes show in UTF-8. -/
def readBytes (b : Bytes) : Except ProblemKind Int :=
  match Utf8.decode? b with
  | none => .error .notNumeral
  | some t => read t

end SignedEvents.Settings.Numeral
