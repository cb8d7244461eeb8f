import SignedEvents.Text.Numeral

/-! # Levels of loggers

  A level is an integer; some have names.

  - **namedLevels** — the levels that have a name.
  - **levelText** — how a level is shown.
  - **levelOf** — the level that a variable names.
-/

namespace SignedEvents

/-- The levels that have a name.  The first name of a level is the one that is shown. -/
def namedLevels : List (String × Int) :=
  [("CRITICAL", 50), ("FATAL", 50), ("ERROR", 40), ("WARNING", 30), ("WARN", 30), ("INFO", 20),
    ("DEBUG", 10), ("NOTSET", 0)]

/-- The level of loggers where nothing else is said. -/
def usualLevel : Int := 20

/-- The level of warnings. -/
def warningLevel : Int := 30

/-- How a level is shown. -/
def levelText (level : Int) : Text :=
  match namedLevels.find? (·.2 = level) with
  | some (name, _) => name
  | none => "Level " ++ Text.ofInt level

/-- A letter in upper case, as far as it can occur in the name of a level: besides the ASCII
    letters these are the dotless i and the long s. -/
def upperLetter (c : CodePoint) : CodePoint :=
  if 0x61 ≤ c.val && c.val ≤ 0x7A then .ofNat (c.val - 0x20)
  else if c.val = 0x131 then .ofChar 'I'
  else if c.val = 0x17F then .ofChar 'S'
  else c

/-- The level that a variable names.  Letters count the same in either case, and a text that
    names no level stands for the usual one. -/
def levelOf (setting : Option Text) : Int :=
  match setting with
  | none => usualLevel
  | some t =>
    match namedLevels.find? fun l => Text.ofString l.1 = t.map upperLetter with
    | some (_, level) => level
    | none => usualLevel

end SignedEvents
