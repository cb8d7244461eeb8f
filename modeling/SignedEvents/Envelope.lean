import SignedEvents.Event.Examination

/-! # Envelopes

  A message carries a command and an event, as an array of the two or as an object with the
  members `cmd` and `event`.

  - **Envelope.decode** — the envelope of a message.
  - **Envelope.intoEvent**, **openEnvelope** — the event, once the command is known and the event
    has passed all checks.
  - **Envelope.openEvent**, **openMessage** — the same, under settings that have been read.
  - **DecodeError**, **OpenError** — why there is none.
-/

namespace SignedEvents

open Json (Value)

/-- A command and an event. -/
structure Envelope where
  command : Text
  event   : Event
  deriving DecidableEq

/-- The only command that is known. -/
def eventCommand : Text := "EVENT"

/-- Why a message holds no envelope. -/
inductive DecodeError where
  /-- The message is no JSON. -/
  | json (e : Json.Error)
  /-- The JSON value is no envelope. -/
  | shape (problems : List Problem)

/-- The wording of a decode error. -/
def DecodeError.message : DecodeError → Text
  | json e => "malformed json: " ++ e.message
  | shape problems => "malformed envelope: " ++ Text.ofNat problems.length ++ " error(s)"

/-- Why a message gives no event. -/
inductive OpenError where
  /-- The message holds no envelope. -/
  | undecodable (e : DecodeError)
  /-- The command is not known. -/
  | unknownCommand (command : Text)
  /-- The event did not pass a check. -/
  | invalid (reason : Failure) (id : Text)
  /-- The clock shows no time. -/
  | clock (fault : ClockFault)

/-- The wording for a command that is not known. -/
def unknownCommandMessage (command : Text) : Text := "unknown command: " ++ command

/-- The wording for an event that did not pass a check. -/
def invalidMessage (reason : Text) : Text := "event invalid: " ++ reason

/-- The wording of an open error. -/
def OpenError.message : OpenError → Text
  | undecodable e => e.message
  | unknownCommand command => unknownCommandMessage command.quoted
  | invalid reason _ => invalidMessage reason.name
  | clock fault => fault.message

namespace Envelope

/-- The envelope of named values. -/
def ofMembers (members : Json.Members) : Checked Envelope :=
  let command := Checked.member members "cmd" Checked.string
  let event := Checked.member members "event" Event.ofValue
  match command, event with
  | .ok command, .ok event => .ok { command, event }
  | _, _ => .error (command.problems ++ event.problems)

/-- The envelope of a value. -/
def ofValue : Value → Checked Envelope
  | .arr [command, event] => ofMembers [("cmd", command), ("event", event)]
  | .arr _ => Checked.fail .wrongArity
  | .obj members => ofMembers members
  | _ => Checked.fail .notObject

/-- The envelope of a message. -/
def decode (source : Json.Source) : Except DecodeError Envelope :=
  match Json.read .wire source with
  | .error e => .error (.json e)
  | .ok v =>
    match ofValue v with
    | .error problems => .error (.shape problems)
    | .ok envelope => .ok envelope

/-- The event of an envelope, once the command is known and the event has passed all checks under
    the settings of a call. -/
def intoEvent (settings : SettingsSource) (clock : Clock) (envelope : Envelope) :
    Trace (Except OpenError Event) :=
  if envelope.command ≠ eventCommand then pure (.error (.unknownCommand envelope.command))
  else do
    match ← envelope.event.validate settings clock with
    | .error fault => pure (.error (.clock fault))
    | .ok (.stands _) => pure (.ok envelope.event)
    | .ok (.fails reason _) => pure (.error (.invalid reason envelope.event.id))

/-- The event of an envelope under some settings. -/
def openEvent (settings : Settings) (clock : Clock) (envelope : Envelope) :
    Trace (Except OpenError Event) := envelope.intoEvent (.snapshot settings) clock

theorem openEvent_eq (settings : Settings) (clock : Clock) (envelope : Envelope) :
    envelope.openEvent settings clock =
      if envelope.command ≠ eventCommand then pure (.error (.unknownCommand envelope.command))
      else (do
        match ← envelope.event.judge settings clock with
        | .error fault => pure (.error (.clock fault))
        | .ok (.stands _) => pure (.ok envelope.event)
        | .ok (.fails reason _) => pure (.error (.invalid reason envelope.event.id))) := rfl

/-- Of what a caller says about settings only the settings that it comes to matter. -/
theorem intoEvent_eq (settings : SettingsSource) (clock : Clock) (envelope : Envelope) :
    envelope.intoEvent settings clock = envelope.openEvent settings.resolve clock := rfl

end Envelope

/-- The event of a message, once it has passed all checks under the settings of a call. -/
def openEnvelope (settings : SettingsSource) (clock : Clock) (source : Json.Source) :
    Trace (Except OpenError Event) :=
  match Envelope.decode source with
  | .error e => pure (.error (.undecodable e))
  | .ok envelope => envelope.intoEvent settings clock

/-- The event of a message under some settings. -/
def openMessage (settings : Settings) (clock : Clock) (source : Json.Source) :
    Trace (Except OpenError Event) := openEnvelope (.snapshot settings) clock source

theorem openMessage_eq (settings : Settings) (clock : Clock) (source : Json.Source) :
    openMessage settings clock source =
      match Envelope.decode source with
      | .error e => pure (.error (.undecodable e))
      | .ok envelope => envelope.openEvent settings clock := rfl

theorem openEnvelope_eq (settings : SettingsSource) (clock : Clock) (source : Json.Source) :
    openEnvelope settings clock source = openMessage settings.resolve clock source := rfl

end SignedEvents
