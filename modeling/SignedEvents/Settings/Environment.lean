import SignedEvents.Json.Source
import SignedEvents.Settings.Basic
import SignedEvents.Settings.EnvFile

/-! # Settings from the environment

  - **Settings.ofEnvironment** — the settings that variables give; an unset or blank variable
    means no limit.
  - **Settings.ofProcess** — the same, with a file of variables beside the process's own.
-/

namespace SignedEvents.Settings

/-- The variable that holds the allowance. -/
def allowanceVariable : String := "RELAYGATE_REJECT_FUTURE_SECONDS"

/-- The settings that the variable of the allowance gives.  An unset or blank one means no
    limit. -/
def ofVariable (given : Option Json.Source) : Checked Settings :=
  match given with
  | none => .ok unlimited
  | some raw =>
    let raw := raw.trim
    if raw.isEmpty then .ok unlimited
    else
      match raw with
      | .text t => ofMembers [(allowanceName, .str t)]
      | .bytes b => ofChecked (checkAllowance (Numeral.readBytes b))

/-- The settings that variables give. -/
def ofEnvironment (env : Environment) : Checked Settings :=
  ofVariable ((env.get? allowanceVariable).map .text)

/-- Why a process has no settings. -/
inductive LoadError where
  /-- The file of variables is not UTF-8. -/
  | undecodable (e : Encoding.Error)
  /-- The file gives a variable that a process cannot have. -/
  | variable (fault : VariableFault)
  /-- The allowance has a problem. -/
  | invalid (problems : List Problem)

/-- The text of a file that must be UTF-8. -/
def readStrict (bytes : Bytes) : Except Encoding.Error Text :=
  match Utf8.decodeWith .none bytes with
  | .ok t => .ok t
  | .error e => .error ⟨.utf8, e.offset, (bytes.drop e.offset).take e.size, .notUtf8 e.fault⟩

/-- The variables of a process with those of a file, if there is one and it is to be read. -/
def withFile (env : Environment) (file : Option Bytes) : Except LoadError Environment :=
  match file with
  | none => .ok env
  | some bytes =>
    if EnvFile.isSwitchedOff env then .ok env
    else do
      let t ← (readStrict bytes).mapError .undecodable
      (EnvFile.load env t).mapError .variable

/-- The settings of a process: its own variables come before those of a file, if there is
    one. -/
def ofProcess (env : Environment) (file : Option Bytes) : Except LoadError Settings := do
  let env ← withFile env file
  (ofEnvironment env).mapError .invalid

end SignedEvents.Settings
