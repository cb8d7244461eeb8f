import SignedEvents.Bus.Basic
import SignedEvents.Envelope
import SignedEvents.Settings.Steps

/-! # Intake

  The place where messages of peers come in.  Accepted events go to one channel of the bus; for
  anything else a notice goes to another.  A notice never says which check failed.

  - **Outcome** — what became of a message.
  - **Tally** — how many messages had each status.
  - **Intake** — the settings, the tally and the bus.
  - **Intake.ofSource** — an intake with what a caller says about settings.
  - **Intake.take**, **Intake.takeAndForward** — takes in one message, without and with the bus.
-/

namespace SignedEvents

/-! ## Outcomes -/

/-- The coarse result of a message. -/
inductive Status where
  | accepted
  | decodeError
  | unknownCommand
  | invalid
  deriving DecidableEq

namespace Status

/-- All statuses, in the order in which they are counted. -/
def all : List Status := [accepted, decodeError, unknownCommand, invalid]

/-- The name of a status. -/
def name : Status → String
  | accepted => "accepted"
  | decodeError => "decode_error"
  | unknownCommand => "unknown_command"
  | invalid => "invalid"

/-- What the peer is told. -/
def notice? : Status → Option Text
  | accepted => none
  | decodeError => some "error: could not parse command"
  | unknownCommand => some "error: unknown command"
  | invalid => some "invalid: event rejected"

end Status

/-- What became of a message. -/
inductive Outcome where
  | accepted (event : Event)
  | undecodable (e : DecodeError)
  | unknownCommand (command : Text)
  | invalid (reason : Failure) (event : Event)

namespace Outcome

/-- The coarse result. -/
def status : Outcome → Status
  | accepted _ => .accepted
  | undecodable _ => .decodeError
  | unknownCommand _ => .unknownCommand
  | invalid .. => .invalid

/-- Was the message accepted? -/
def isAccepted (o : Outcome) : Bool := o.status = .accepted

/-- The event of an accepted message. -/
def event? : Outcome → Option Event
  | accepted event => some event
  | _ => none

/-- The check that the event did not pass. -/
def reason? : Outcome → Option Failure
  | invalid reason _ => some reason
  | _ => none

/-- The exact wording of what went wrong. -/
def detail? : Outcome → Option Text
  | accepted _ => none
  | undecodable e => some e.message
  | unknownCommand command => some (unknownCommandMessage command.quoted)
  | invalid reason _ => some (invalidMessage reason.name)

/-- What the peer is told. -/
def notice? (o : Outcome) : Option Text := o.status.notice?

/-- The wording of the record about an outcome. -/
def record : Outcome → Text
  | accepted event => "event " ++ event.idPrefix ++ " accepted"
  | undecodable e => "dropping undecodable message: " ++ e.message
  | unknownCommand command => "unknown command " ++ command.quoted
  | invalid reason event => "event " ++ event.idPrefix ++ " rejected: " ++ reason.name

end Outcome

/-- The outcome of a message, with a record of it. -/
def takeIn (settings : Settings) (clock : Clock) (source : Json.Source) :
    Trace (Except ClockFault Outcome) := do
  let outcome : Except ClockFault Outcome ←
    match Envelope.decode source with
    | .error e => pure (.ok (.undecodable e))
    | .ok envelope =>
      match ← envelope.openEvent settings clock with
      | .ok event => pure (.ok (.accepted event))
      | .error (.undecodable e) => pure (.ok (.undecodable e))
      | .error (.unknownCommand command) => pure (.ok (.unknownCommand command))
      | .error (.invalid reason _) => pure (.ok (.invalid reason envelope.event))
      | .error (.clock fault) => pure (.error fault)
  match outcome with
  | .ok o => do
    Trace.log .intake .debug o.record
    pure (.ok o)
  | .error fault => pure (.error fault)

/-! ## Tallies -/

/-- How many messages had each status. -/
structure Tally where
  accepted       : Nat
  decodeError    : Nat
  unknownCommand : Nat
  invalid        : Nat
  deriving DecidableEq

namespace Tally

/-- No messages. -/
def empty : Tally := ⟨0, 0, 0, 0⟩

/-- One message more. -/
def add (t : Tally) : Status → Tally
  | .accepted => { t with accepted := t.accepted + 1 }
  | .decodeError => { t with decodeError := t.decodeError + 1 }
  | .unknownCommand => { t with unknownCommand := t.unknownCommand + 1 }
  | .invalid => { t with invalid := t.invalid + 1 }

/-- How many messages had a status. -/
def count (t : Tally) : Status → Nat
  | .accepted => t.accepted
  | .decodeError => t.decodeError
  | .unknownCommand => t.unknownCommand
  | .invalid => t.invalid

end Tally

/-! ## Intake -/

/-- What goes over the bus. -/
inductive Parcel where
  | event (e : Event)
  | notice (t : Text)
  deriving DecidableEq

/-- The place where messages come in. -/
structure Intake where
  settings : LiveSettings
  tally    : Tally
  bus      : Bus Parcel

namespace Intake

/-- An intake that has taken in nothing, with what a caller says about settings. -/
def ofSource (settings : SettingsSource) (bus : Bus Parcel) : Intake :=
  ⟨settings.holder, .empty, bus⟩

/-- It judges under the settings that this comes to, until others are swapped in. -/
theorem current_ofSource (settings : SettingsSource) (bus : Bus Parcel) :
    (ofSource settings bus).settings.current = settings.resolve := settings.current_holder

/-- An intake that has taken in nothing. -/
def ofSettings (settings : Settings) (bus : Bus Parcel) : Intake := ofSource (.snapshot settings) bus

/-- Takes in a message and counts it. -/
def take (g : Intake) (clock : Clock) (source : Json.Source) :
    Trace (Except ClockFault (Intake × Outcome)) := do
  match ← takeIn g.settings.current clock source with
  | .ok o => pure (.ok ({ g with tally := g.tally.add o.status }, o))
  | .error fault => pure (.error fault)

/-- The channel of accepted events. -/
def eventChannel : Text := "events_out"

/-- The channel of notices. -/
def noticeChannel : Text := "notices"

/-- The wording of a record about an event that found no room. -/
def fullRecord (event : Event) : Text := "events_out full, dropped event " ++ event.idPrefix

/-- Hands an outcome to the bus. -/
def forward (g : Intake) (o : Outcome) : Trace Intake :=
  match o with
  | .accepted event =>
    let (bus, delivery) := g.bus.publish eventChannel (.event event) .immediate
    if delivery = .put then pure { g with bus }
    else do
      Trace.log .intake .warning (fullRecord event)
      pure { g with bus }
  | o =>
    let (bus, _) := g.bus.publish noticeChannel (.notice (o.notice?.getD [])) .immediate
    pure { g with bus }

/-- Takes in a message and hands the outcome to the bus. -/
def takeAndForward (g : Intake) (clock : Clock) (source : Json.Source) :
    Trace (Except ClockFault (Intake × Outcome)) := do
  match ← g.take clock source with
  | .ok (g, o) => return .ok (← g.forward o, o)
  | .error fault => pure (.error fault)

/-- Changes some settings, which are passed by name. -/
def update (g : Intake) (changes : Json.Members) : Except LiveSettings.Refusal Intake :=
  (g.settings.change changes).map fun settings => { g with settings }

/-- Swaps in other settings. -/
def replace (g : Intake) (s : Settings) : Intake := { g with settings := g.settings.replace s }

end Intake

end SignedEvents
