import SignedEvents.Text.Blank
import SignedEvents.Text.DecimalDigit
import SignedEvents.Text.Numeral

/-! # Integers written as text

  - **separatedDigits?** — digits with single underscores between them.
  - **IntegerLiteral.read** — an integer with blanks around it, a sign, and digits of any
    script.
  - **IntegerLiteral.Fault** — why a text is no integer.
-/

namespace SignedEvents

/-- The digits of a text in which single underscores may stand between two digits.
    `afterDigit` says that a digit has just been read. -/
def separatedDigits? (value? : CodePoint → Option Nat) (afterDigit : Bool) :
    Text → Option (List Nat)
  | [] => if afterDigit then some [] else none
  | c :: rest =>
    match value? c with
    | some d => (separatedDigits? value? true rest).map (d :: ·)
    | none => if c.is '_' && afterDigit then separatedDigits? value? false rest else none

/-- Takes the sign off the front of a text: whether it is a minus, and the rest. -/
def takeSign (t : Text) : Bool × Text :=
  match t with
  | sign :: rest =>
    if sign.is '-' then (true, rest) else if sign.is '+' then (false, rest) else (false, t)
  | [] => (false, t)

/-- An integer with a sign of its own. -/
def signed (negative : Bool) (magnitude : Nat) : Int :=
  if negative then -(magnitude : Int) else magnitude

namespace IntegerLiteral

/-- Why a text is no integer. -/
inductive Fault where
  /-- The text is not of the form of an integer. -/
  | malformed
  /-- There are more digits than allowed. -/
  | tooLong (digits : Nat)
  deriving DecidableEq

/-- The most digits an integer may have. -/
def digitLimit : Nat := 4300

/-- Is this a digit of any script, or an underscore? -/
def isDigitOrMark (c : CodePoint) : Bool := c.decimalValue?.isSome || c.is '_'

/-- The integer that a text shows.  The number of digits is looked at before what follows
    them. -/
def read (t : Text) : Except Fault Int :=
  let (negative, unsigned) := takeSign (t.dropWhile (·.isWhiteSpace))
  let row := unsigned.takeWhile isDigitOrMark
  let after := unsigned.dropWhile isDigitOrMark
  match separatedDigits? CodePoint.decimalValue? false row with
  | none => .error .malformed
  | some digits =>
    if digits.length > digitLimit then .error (.tooLong digits.length)
    else if after.all (·.isWhiteSpace) then .ok (signed negative (valueOf digits))
    else .error .malformed

end IntegerLiteral

end SignedEvents
