import SignedEvents.Text.Encoding

/-! # Variables

  The variables of a process: names with texts.

  - **Environment** — variables and their values.
  - **Environment.add** — one variable more.
  - **VariableFault** — why a process cannot have a variable.
-/

namespace SignedEvents

/-- Variables and their values; the first one of a name counts. -/
abbrev Environment := List (Text × Text)

/-- Why a process cannot have a variable. -/
inductive VariableFault where
  /-- A surrogate in the name or the value stands for no byte. -/
  | unencodable (e : Utf8.Unencodable)
  /-- The name or the value holds the code point zero. -/
  | holdsNul
  /-- The name holds an equals sign. -/
  | holdsEquals
  /-- The name is empty. -/
  | nameless

/-- The wording of a fault. -/
def VariableFault.message : VariableFault → Text
  | unencodable e => Encoding.unencodableMessage e
  | holdsNul => "embedded null byte"
  | holdsEquals => "illegal environment variable name"
  | nameless => "invalid argument"

namespace Environment

/-- The value of a variable. -/
def get? (env : Environment) (name : Text) : Option Text :=
  (env.find? (·.1 = name)).map (·.2)

/-- Why a process cannot have a variable of this name and value, if it cannot. -/
def fault? (name value : Text) : Option VariableFault :=
  match Utf8.encodeEscaping name, Utf8.encodeEscaping value with
  | .error e, _ => some (.unencodable e)
  | _, .error e => some (.unencodable e)
  | .ok _, .ok _ =>
    if name.hasNul || value.hasNul then some .holdsNul
    else if name.any (·.is '=') then some .holdsEquals
    else if name.isEmpty then some .nameless
    else none

/-- The environment with one variable more. -/
def add (env : Environment) (name value : Text) : Except VariableFault Environment :=
  match fault? name value with
  | some fault => .error fault
  | none => .ok (env ++ [(name, value)])

/-- The environment of some names with their values. -/
def ofList (given : List (Text × Text)) : Except VariableFault Environment :=
  given.foldlM (fun env v => env.add v.1 v.2) []

end Environment

end SignedEvents
