import SignedEvents.Binary64.Basic

/-! # Clocks

  The time in whole seconds since 1970.

  - **Clock** — a given time, or the system's time as a binary64 number.
  - **unixTime** — the system's time: the fraction is cut off, and a time before 1970 reads as
    zero.
  - **Clock.read** — one reading.
-/

namespace SignedEvents

/-- Why the system's time gives no number of seconds. -/
inductive ClockFault where
  | notANumber
  | infinite
  deriving DecidableEq

/-- The wording of a clock fault. -/
def ClockFault.message : ClockFault → String
  | notANumber => "cannot convert float NaN to integer"
  | infinite => "cannot convert float infinity to integer"

/-- The whole seconds of a system time. -/
def unixTime (wall : Binary64) : Except ClockFault Nat :=
  match wall with
  | .nan => .error .notANumber
  | .infinite _ => .error .infinite
  | .finite .. => .ok (wall.truncate?.getD 0).toNat

/-- A source of the time. -/
inductive Clock where
  /-- A clock that shows a given time, before 1970 too. -/
  | given (now : Int)
  /-- The system's clock. -/
  | system (wall : Binary64)

/-- The time that a clock shows. -/
def Clock.read : Clock → Except ClockFault Int
  | given now => .ok now
  | system wall => (unixTime wall).map Int.ofNat

end SignedEvents
