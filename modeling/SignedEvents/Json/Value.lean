import SignedEvents.Binary64.Basic
import SignedEvents.Text.Basic

/-! # JSON values

  - **Value** — null, a truth value, an integer, a binary64 number, a text, an array or an
    object.  Integers have any size and are kept apart from other numbers; an object keeps the
    order of its members.
  - **Value.member?** — the first member of an object with a name.
-/

namespace SignedEvents.Json

/-- A JSON value. -/
inductive Value where
  | null
  | bool (b : Bool)
  | int (n : Int)
  | float (x : Binary64)
  | str (t : Text)
  | arr (items : List Value)
  | obj (members : List (Text × Value))
  deriving Inhabited

/-- The members of an object, in order. -/
abbrev Members := List (Text × Value)

/-- The value of the first member with a name. -/
def Members.get? (members : Members) (name : Text) : Option Value :=
  (members.find? (·.1 = name)).map (·.2)

end SignedEvents.Json
