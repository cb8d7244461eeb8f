import SignedEvents.Json.Value
import SignedEvents.Text.IntegerLiteral
import SignedEvents.Text.Quoted

/-! # Capacities

  The capacity of a channel is an integer.  A number is cut to one, a truth value counts as one,
  and a text may show one.

  - **Capacity.read** — the integer that a value stands for.
  - **Capacity.Fault** — why a value stands for none.
-/

namespace SignedEvents.Capacity

open Json (Value)

/-- Why a value stands for no capacity. -/
inductive Fault where
  /-- Null, an array or an object. -/
  | wrongType
  | notANumber
  | infinite
  /-- A text that shows no integer. -/
  | malformed (t : Text)
  /-- A text that shows an integer of too many digits. -/
  | tooLong (digits : Nat)

/-- The most code points of a quoted text that a message shows. -/
def quoteLimit : Nat := 200

/-- The wording of a fault. -/
def Fault.message : Fault → Text
  | wrongType => "no number"
  | notANumber => "cannot convert float NaN to integer"
  | infinite => "cannot convert float infinity to integer"
  | malformed t => "invalid literal for int() with base 10: " ++ t.quoted.take quoteLimit
  | tooLong digits =>
    "Exceeds the limit (" ++ Text.ofNat IntegerLiteral.digitLimit ++
      " digits) for integer string conversion: value has " ++ Text.ofNat digits ++
      " digits; use sys.set_int_max_str_digits() to increase the limit"

/-- The capacity that a value stands for. -/
def read : Value → Except Fault Int
  | .int n => .ok n
  | .bool b => .ok (if b then 1 else 0)
  | .float .nan => .error .notANumber
  | .float (.infinite _) => .error .infinite
  | .float x => .ok (x.truncate?.getD 0)
  | .str t =>
    match IntegerLiteral.read t with
    | .ok n => .ok n
    | .error .malformed => .error (.malformed t)
    | .error (.tooLong digits) => .error (.tooLong digits)
  | _ => .error .wrongType

end SignedEvents.Capacity
