import SignedEvents.Clock
import SignedEvents.Crypto.HexSignature
import SignedEvents.Event.CanonicalForm
import SignedEvents.Settings.Basic
import SignedEvents.Verdict

/-! # Examining events

  The checks of an event, in order, up to the first that fails: its date, its canonical form,
  its id, its signature.

  - **Event.isAhead** — is the event dated past the allowance?
  - **Event.examine** — the checks that do not depend on the time.
  - **Event.judge** — all checks.  The clock is read only when there is an allowance.
  - **Event.validate** — all checks, with what a caller says about settings.
-/

namespace SignedEvents

/-! ## Records -/

/-- The wording of a record about an event dated past the allowance. -/
def aheadRecord (idPrefix : Text) (seconds : Int) : Text :=
  "event " ++ idPrefix ++ " is too far in the future (" ++ Text.ofInt seconds ++
    " seconds), rejecting"

/-- The wording of a record about an id that is not the digest. -/
def mismatchRecord (idPrefix digest : Text) : Text :=
  "event " ++ idPrefix ++ " id does not match computed digest " ++ digest.take 8

/-- The wording of a record about a signature that does not stand. -/
def signatureRecord (idPrefix : Text) : Text :=
  "event " ++ idPrefix ++ " signature does not verify"

/-! ## Checks -/

namespace Event

/-- Is the event dated more than the allowance ahead of the time? -/
def isAhead (e : Event) (allowance : Nat) (now : Int) : Bool :=
  (e.createdAt.toNat : Int) > now + allowance

/-- The checks of the canonical form, the id and the signature. -/
def examine (e : Event) : Trace Verdict := do
  match ← e.canonicalize with
  | none => pure (.fails .canonicalizationFailed none)
  | some bytes =>
    let digest := Sha256.hash bytes
    let hex := Hex.encode digest
    if e.id ≠ hex then
      Trace.log .examination .debug (mismatchRecord e.idPrefix hex)
      pure (.fails .idMismatch (some hex))
    else if ← Schnorr.verifyHex digest e.sig e.pubkey then
      pure (.stands hex)
    else
      Trace.log .examination .debug (signatureRecord e.idPrefix)
      pure (.fails .badSignature (some hex))

/-- All checks. -/
def judge (settings : Settings) (clock : Clock) (e : Event) :
    Trace (Except ClockFault Verdict) :=
  match settings.allowance with
  | none => do return .ok (← e.examine)
  | some allowance => do
    Trace.reading
    match clock.read with
    | .error fault => pure (.error fault)
    | .ok now =>
      if e.isAhead allowance now then
        Trace.log .examination .debug (aheadRecord e.idPrefix (e.createdAt.toNat - now))
        pure (.ok (.fails .futureTimestamp none))
      else return .ok (← e.examine)

/-- All checks, under the settings of a call. -/
def validate (source : SettingsSource) (clock : Clock) (e : Event) :
    Trace (Except ClockFault Verdict) := e.judge source.resolve clock

end Event

end SignedEvents
