import SignedEvents.Text.Basic

/-! # Verdicts

  - **Failure** — the check that an event did not pass.
  - **Verdict** — an event stands, or the first check that it did not pass.
-/

namespace SignedEvents

/-- The check that an event did not pass. -/
inductive Failure where
  | futureTimestamp
  | canonicalizationFailed
  | idMismatch
  | badSignature
  deriving DecidableEq

/-- The name of a failure. -/
def Failure.name : Failure → String
  | futureTimestamp => "future_timestamp"
  | canonicalizationFailed => "canonicalization_failed"
  | idMismatch => "id_mismatch"
  | badSignature => "bad_signature"

/-- The outcome of examining an event. -/
inductive Verdict where
  /-- The event stands; its digest in hexadecimal digits. -/
  | stands (digest : Text)
  /-- The first check that failed, and the digest if it was computed by then. -/
  | fails (reason : Failure) (digest : Option Text)
  deriving DecidableEq

namespace Verdict

/-- Does the event stand? -/
def isOk : Verdict → Bool
  | stands _ => true
  | fails _ _ => false

/-- The check that failed. -/
def reason? : Verdict → Option Failure
  | stands _ => none
  | fails reason _ => some reason

/-- The digest, if it was computed. -/
def digest? : Verdict → Option Text
  | stands digest => some digest
  | fails _ digest => digest

end Verdict

end SignedEvents
