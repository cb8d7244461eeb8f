import SignedEvents.Settings.Numeral

/-! # Settings

  How far ahead of the clock an event may be dated.

  - **Settings** — the allowance in seconds, or none for no limit.
  - **readAllowance** — the allowance from a value: an integer, or what stands for one.
  - **Settings.ofMembers** — settings from named values; names of no meaning are ignored.
  - **LiveSettings** — a snapshot that can be swapped for another.
  - **SettingsSource** — what a caller says about settings.
-/

namespace SignedEvents

open Json (Value Members)

/-- Options of the examination of events. -/
structure Settings where
  /-- How many seconds ahead of the clock an event may be dated; without it there is no
      limit. -/
  allowance : Option Nat
  deriving DecidableEq

namespace Settings

/-- No limit. -/
def unlimited : Settings := ⟨none⟩

/-- The name of the only setting. -/
def allowanceName : String := "reject_future_seconds"

/-! ## Allowances -/

/-- The integer that a number without a fraction stands for, within 64 bits. -/
def readFloat (x : Binary64) : Except ProblemKind Int :=
  match x.truncate? with
  | none => .error .notFinite
  | some n =>
    if !x.isIntegral then .error .hasFraction
    else if -0x8000000000000000 < n && n < 0x8000000000000000 then .ok n
    else .error .numeralTooLong

/-- The integer that a value stands for. -/
def readInteger : Value → Except ProblemKind Int
  | .bool b => .ok (if b then 1 else 0)
  | .int n => .ok n
  | .float x => readFloat x
  | .str t => if t.hasSurrogate then .error .notUnicode else Numeral.read t
  | _ => .error .notInteger

/-- The allowance of an integer that has been read: none is below zero. -/
def checkAllowance : Except ProblemKind Int → Checked (Option Nat)
  | .error kind => Checked.fail kind
  | .ok n => if n < 0 then Checked.fail .negative else .ok (some n.toNat)

/-- The allowance that a value stands for.  Null stands for none. -/
def readAllowance : Value → Checked (Option Nat)
  | .null => .ok none
  | v => checkAllowance (readInteger v)

/-- The value of an allowance. -/
def allowanceValue : Option Nat → Value
  | none => .null
  | some n => .int n

/-- The settings with an allowance that has been checked. -/
def ofChecked (allowance : Checked (Option Nat)) : Checked Settings :=
  match allowance.under (.name allowanceName) with
  | .ok a => .ok ⟨a⟩
  | .error ps => .error ps

/-- The settings of named values. -/
def ofMembers (members : Members) : Checked Settings :=
  match members.get? allowanceName with
  | none => .ok unlimited
  | some v => ofChecked (readAllowance v)

end Settings

/-! ## Live settings -/

/-- A holder of the current settings.  The version tells snapshots apart, equal ones too. -/
structure LiveSettings where
  current : Settings
  version : Nat
  deriving DecidableEq

namespace LiveSettings

/-- Some settings, not swapped yet. -/
def ofSettings (s : Settings) : LiveSettings := ⟨s, 0⟩

/-- Swaps in other settings. -/
def replace (h : LiveSettings) (s : Settings) : LiveSettings := ⟨s, h.version + 1⟩

/-- The settings after some changes.  A setting that is not named keeps its value, which has been
    checked already. -/
def merged (h : LiveSettings) (changes : Members) : Checked Settings :=
  match changes.get? Settings.allowanceName with
  | none => .ok h.current
  | some _ => Settings.ofMembers changes

/-- Swaps in the settings after some changes. -/
def update (h : LiveSettings) (changes : Members) : Checked LiveSettings :=
  match h.merged changes with
  | .ok s => .ok (h.replace s)
  | .error ps => .error ps

end LiveSettings

/-! ## Settings of a call -/

/-- What a caller says about settings. -/
inductive SettingsSource where
  /-- Nothing. -/
  | absent
  | snapshot (s : Settings)
  | live (h : LiveSettings)

namespace SettingsSource

/-- The settings of the call.  Live settings are read once. -/
def resolve : SettingsSource → Settings
  | absent => .unlimited
  | snapshot s => s
  | live h => h.current

/-- The live settings of a caller who keeps them: those that are passed, or a new holder. -/
def holder : SettingsSource → LiveSettings
  | absent => .ofSettings .unlimited
  | snapshot s => .ofSettings s
  | live h => h

@[simp] theorem current_holder (source : SettingsSource) :
    source.holder.current = source.resolve := by
  cases source <;> rfl

end SettingsSource

end SignedEvents
