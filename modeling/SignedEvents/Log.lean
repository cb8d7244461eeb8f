import SignedEvents.Text.Basic

/-! # Log records

  What the library has to say about a message on the way, returned beside the result.

  - **Log.Record** — where a record comes from, how grave it is, and its text.
  - **Trace** — a result, the records made on the way, and how often the clock was read.
-/

namespace SignedEvents

namespace Log

/-- The parts of the library that make records. -/
inductive Origin where
  | canonicalForm
  | signature
  | examination
  | intake
  deriving DecidableEq

/-- The name under which a part makes its records. -/
def Origin.name : Origin → String
  | canonicalForm => "relaygate.canonical"
  | signature => "relaygate.crypto"
  | examination => "relaygate.validation"
  | intake => "relaygate.ingress"

/-- How grave a record is. -/
inductive Level where
  | debug
  | info
  | warning
  | error
  | critical
  deriving DecidableEq

/-- The name of a level. -/
def Level.name : Level → String
  | debug => "DEBUG"
  | info => "INFO"
  | warning => "WARNING"
  | error => "ERROR"
  | critical => "CRITICAL"

/-- One line of a log. -/
structure Record where
  origin  : Origin
  level   : Level
  message : Text
  deriving DecidableEq

end Log

/-! ## Traces -/

/-- A result, the records made on the way, and how often the clock was read. -/
structure Trace (α : Type) where
  value    : α
  records  : List Log.Record
  readings : Nat

namespace Trace

variable {α β : Type}

instance : Monad Trace where
  pure a := ⟨a, [], 0⟩
  bind x f :=
    ⟨(f x.value).value, x.records ++ (f x.value).records, x.readings + (f x.value).readings⟩

@[simp] theorem pure_value (a : α) : (pure a : Trace α).value = a := rfl

@[simp] theorem pure_records (a : α) : (pure a : Trace α).records = [] := rfl

@[simp] theorem pure_readings (a : α) : (pure a : Trace α).readings = 0 := rfl

@[simp] theorem bind_value (x : Trace α) (f : α → Trace β) :
    (x >>= f).value = (f x.value).value := rfl

@[simp] theorem bind_records (x : Trace α) (f : α → Trace β) :
    (x >>= f).records = x.records ++ (f x.value).records := rfl

@[simp] theorem bind_readings (x : Trace α) (f : α → Trace β) :
    (x >>= f).readings = x.readings + (f x.value).readings := rfl

instance : LawfulMonad Trace :=
  LawfulMonad.mk' Trace
    (fun x => by simp [Functor.map])
    (fun a f => by simp [bind, pure])
    (fun x f g => by simp [bind, Nat.add_assoc])

/-- Makes one record. -/
def log (origin : Log.Origin) (level : Log.Level) (message : Text) : Trace Unit :=
  ⟨(), [⟨origin, level, message⟩], 0⟩

/-- Counts one reading of the clock. -/
def reading : Trace Unit := ⟨(), [], 1⟩

end Trace

end SignedEvents
