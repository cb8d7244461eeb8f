import SignedEvents.Json.Value
import SignedEvents.Text.Numeral

/-! # Problems of a value's shape

  A value that should have a certain shape is checked as a whole: every problem is reported,
  each with its place.

  - **Problem** — a path into the value and what is wrong there.
  - **Checked** — a result, or all problems.
  - **collect** — checks of many values together.
-/

namespace SignedEvents

/-- One step of a path into a value. -/
inductive PathStep where
  | name (n : String)
  | index (i : Nat)
  deriving DecidableEq

/-- The text of a step. -/
def PathStep.text : PathStep → Text
  | name n => n
  | index i => Text.ofNat i

/-- What can be wrong with a value. -/
inductive ProblemKind where
  | missing
  | notObject
  | wrongArity
  | notString
  | notArray
  | notInteger
  | negative
  | tooLarge
  | notNumeral
  | numeralTooLong
  | hasFraction
  | notFinite
  | notUnicode
  deriving DecidableEq

/-- The code of a kind of problem. -/
def ProblemKind.code : ProblemKind → String
  | missing => "missing"
  | notObject => "model_type"
  | wrongArity => "value_error"
  | notString => "string_type"
  | notArray => "tuple_type"
  | notInteger => "int_type"
  | negative => "greater_than_equal"
  | tooLarge => "less_than_equal"
  | notNumeral => "int_parsing"
  | numeralTooLong => "int_parsing_size"
  | hasFraction => "int_from_float"
  | notFinite => "finite_number"
  | notUnicode => "string_unicode"

/-- A problem and its place. -/
structure Problem where
  path : List PathStep
  kind : ProblemKind
  deriving DecidableEq

namespace Problem

/-- The path of a problem as one text. -/
def place (p : Problem) : Text := Text.join "." (p.path.map PathStep.text)

/-- The problem seen from one step further out. -/
def under (step : PathStep) (p : Problem) : Problem := { p with path := step :: p.path }

/-- How many problems a value of some kind has. -/
def summary (subject : String) (problems : List Problem) : Text :=
  subject ++ ": " ++ Text.ofNat problems.length ++ " error(s)"

end Problem

/-! ## Checks -/

/-- A result, or all problems on the way to it. -/
abbrev Checked (α : Type) := Except (List Problem) α

namespace Checked

variable {α : Type}

/-- The problems of a check. -/
def problems : Checked α → List Problem
  | .ok _ => []
  | .error ps => ps

/-- A check that fails with one problem. -/
def fail (kind : ProblemKind) : Checked α := .error [⟨[], kind⟩]

/-- The check seen from one step further out. -/
def under (step : PathStep) : Checked α → Checked α
  | .ok a => .ok a
  | .error ps => .error (ps.map (Problem.under step))

/-- All results, or all problems. -/
def collect (checks : List (Checked α)) : Checked (List α) :=
  checks.foldr
    (fun check rest =>
      match check, rest with
      | .ok a, .ok as => .ok (a :: as)
      | check, rest => .error (problems check ++ problems rest))
    (.ok [])

/-- The check of the member with a name. -/
def member (members : Json.Members) (name : String) (check : Json.Value → Checked α) :
    Checked α :=
  match members.get? name with
  | some v => (check v).under (.name name)
  | none => (fail .missing).under (.name name)

/-- A string. -/
def string : Json.Value → Checked Text
  | .str t => .ok t
  | _ => fail .notString

/-- An integer of 64 bits without a sign. -/
def word : Json.Value → Checked UInt64
  | .int n =>
    if n < 0 then fail .negative
    else if n > 0xFFFFFFFFFFFFFFFF then fail .tooLarge
    else .ok (.ofNat n.toNat)
  | _ => fail .notInteger

/-- An array of things of one shape. -/
def array (check : Json.Value → Checked α) : Json.Value → Checked (List α)
  | .arr items => collect (items.zipIdx.map fun (v, i) => (check v).under (.index i))
  | _ => fail .notArray

end Checked

end SignedEvents
