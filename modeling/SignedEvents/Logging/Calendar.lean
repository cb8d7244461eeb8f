import SignedEvents.Text.Numeral

/-! # Dates

  The date and time of day of a number of seconds since 1970, in the proleptic Gregorian
  calendar, without a time zone.

  - **Date.ofDays** — the date of a day.
  - **timestamp** — date and time as text.
-/

namespace SignedEvents

/-- A day of the calendar. -/
structure Date where
  year  : Int
  month : Nat
  day   : Nat
  deriving DecidableEq

/-- The date that is some days after the first of January 1970.  Years are counted from March on,
    so that a leap day is the last day of its year, in eras of four hundred years. -/
def Date.ofDays (days : Int) : Date :=
  -- day zero is now the first of March of the year zero; an era has 146097 days
  let shifted := days + 719468
  let era := shifted.fdiv 146097
  let dayOfEra := (shifted - era * 146097).toNat
  let yearOfEra := (dayOfEra - dayOfEra / 1460 + dayOfEra / 36524 - dayOfEra / 146096) / 365
  let dayOfYear := dayOfEra - (365 * yearOfEra + yearOfEra / 4 - yearOfEra / 100)
  -- five months from March on have 153 days together
  let fromMarch := (5 * dayOfYear + 2) / 153
  let day := dayOfYear - (153 * fromMarch + 2) / 5 + 1
  let month := if fromMarch < 10 then fromMarch + 3 else fromMarch - 9
  let year := (yearOfEra : Int) + era * 400 + (if month ≤ 2 then 1 else 0)
  ⟨year, month, day⟩

/-- The text of a time: `2001-09-09 01:46:40`. -/
def timestamp (seconds : Int) : Text :=
  let days := seconds.fdiv 86400
  let rest := (seconds - days * 86400).toNat
  let date := Date.ofDays days
  let two := Text.ofNatPadded 2
  Text.ofInt date.year ++ "-" ++ two date.month ++ "-" ++ two date.day ++ " " ++
    two (rest / 3600) ++ ":" ++ two (rest / 60 % 60) ++ ":" ++ two (rest % 60)

end SignedEvents
