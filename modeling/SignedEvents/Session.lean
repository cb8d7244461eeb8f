import SignedEvents.Intake

/-! # Sessions

  What happens at an intake over time: messages come in, settings and the clock change, channels
  are made, and parcels are taken from them.

  - **Session** — an intake and its clock.
  - **Session.Action**, **Session.Report** — what happens, and what is told of it.
  - **Session.step**, **Session.run** — one action with its records, and a list of them with their
    reports.
-/

namespace SignedEvents

/-- An intake and its clock. -/
structure Session where
  intake : Intake
  clock  : Clock

namespace Session

/-- What happens at an intake. -/
inductive Action where
  /-- A message is taken in. -/
  | process (source : Json.Source)
  /-- A message is taken in and forwarded. -/
  | handle (source : Json.Source)
  /-- Some settings are changed. -/
  | update (changes : Json.Members)
  /-- Other settings are swapped in, if they pass their check. -/
  | replace (settings : Checked Settings)
  | setClock (clock : Clock)
  /-- A name of the bus gets a new channel. -/
  | register (name : Text) (capacity : Option Int)
  /-- The first parcel of a channel is taken. -/
  | get (name : Text)
  /-- All parcels of a channel are taken. -/
  | drain (name : Text)

/-- What is told of an action. -/
inductive Report where
  | processed (o : Outcome)
  | handled (o : Outcome)
  /-- The clock did not show a time, and the message was not taken in. -/
  | fault (fault : ClockFault)
  /-- The settings from now on. -/
  | settled (settings : Settings)
  | refused (refusal : LiveSettings.Refusal)
  | clockSet (clock : Clock)
  | registered (name : Text)
  | taken (name : Text) (parcels : List Parcel)

/-- Settings are swapped in. -/
def settle (s : Session) : Except LiveSettings.Refusal Intake → Session × Report
  | .ok g => ({ s with intake := g }, .settled g.settings.current)
  | .error refusal => (s, .refused refusal)

/-- The session after an action, and the report on it. -/
def step (s : Session) : Action → Trace (Session × Report)
  | .process source => do
    match ← s.intake.take s.clock source with
    | .ok (g, o) => return ({ s with intake := g }, .processed o)
    | .error fault => return (s, .fault fault)
  | .handle source => do
    match ← s.intake.takeAndForward s.clock source with
    | .ok (g, o) => return ({ s with intake := g }, .handled o)
    | .error fault => return (s, .fault fault)
  | .update changes => return s.settle (s.intake.update changes)
  | .replace settings => return s.settle ((settings.map s.intake.replace).mapError .invalid)
  | .setClock clock => return ({ s with clock }, .clockSet clock)
  | .register name capacity =>
    let bus := (s.intake.bus.register name capacity).1
    return ({ s with intake := { s.intake with bus } }, .registered name)
  | .get name =>
    let (bus, id) := s.intake.bus.subscribe name
    let (bus, parcel?) := bus.get id
    return ({ s with intake := { s.intake with bus } }, .taken name parcel?.toList)
  | .drain name =>
    let (bus, id) := s.intake.bus.subscribe name
    let (bus, parcels) := bus.drain id
    return ({ s with intake := { s.intake with bus } }, .taken name parcels)

/-- The session after some actions, and the reports on them, first one first. -/
def run (s : Session) (actions : List Action) : Session × List Report :=
  actions.foldl
    (fun (s, reports) a =>
      let (s, report) := (s.step a).value
      (s, reports ++ [report]))
    (s, [])

end Session

end SignedEvents
