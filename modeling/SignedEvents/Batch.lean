import SignedEvents.Intake

/-! # Batches

  Many messages at once.

  - **report** — the outcome of each line that is not blank, with its number, and the tally.
  - **Report.lines**, **Report.isClean** — the report as lines of JSON, and whether all
    messages were accepted.
  - **judgeAll** — the verdicts on many events.
-/

namespace SignedEvents.Batch

open Json (Value Source)

/-! ## Reports -/

/-- The outcome of one line. -/
structure Row where
  line    : Nat
  outcome : Outcome

/-- The outcomes of some lines, and their tally. -/
structure Report where
  rows  : List Row
  tally : Tally

/-- The row of a line.  A blank line has none. -/
def row? (settings : Settings) (clock : Clock) (n : Nat) (line : Source) :
    Except ClockFault (Option Row) :=
  let line := line.trim
  if line.isEmpty then .ok none
  else (takeIn settings clock line).value.map fun o => some ⟨n, o⟩

/-- The rows of some lines, the first of which has the number `n`. -/
def rowsFrom (settings : Settings) (clock : Clock) (n : Nat) :
    List Source → Except ClockFault (List Row)
  | [] => .ok []
  | line :: rest =>
    match row? settings clock n line with
    | .error fault => .error fault
    | .ok row =>
      match rowsFrom settings clock (n + 1) rest with
      | .error fault => .error fault
      | .ok rows => .ok (row.toList ++ rows)

/-- The tally of some rows. -/
def tallyOf (rows : List Row) : Tally := rows.foldl (fun t r => t.add r.outcome.status) .empty

/-- The report on some lines. -/
def report (settings : Settings) (clock : Clock) (lines : List Source) :
    Except ClockFault Report :=
  (rowsFrom settings clock 1 lines).map fun rows => ⟨rows, tallyOf rows⟩

/-- A row as a JSON value: the id of an accepted event, the check that an invalid one did not
    pass. -/
def Row.value (r : Row) : Value :=
  let id := r.outcome.event?.map fun e => (("id" : Text), Value.str e.id)
  let reason := r.outcome.reason?.map fun f => (("reason" : Text), Value.str f.name)
  let head : Json.Members := [("line", .int r.line), ("status", .str r.outcome.status.name)]
  .obj (head ++ id.toList ++ reason.toList)

/-- A tally as a JSON value. -/
def tallyValue (t : Tally) : Value :=
  .obj (Status.all.map fun s => (s.name, .int (t.count s)))

/-- The lines of a report: a row each, and the tally. -/
def Report.lines (r : Report) : List Text :=
  r.rows.map (fun row => Json.print .ascii row.value) ++
    [Json.print .ascii (.obj [("summary", tallyValue r.tally)])]

/-- Were all messages accepted? -/
def Report.isClean (r : Report) : Bool := r.tally.accepted == r.rows.length

/-! ## Many events -/

/-- Why there are no verdicts. -/
inductive Error where
  /-- There must be at least one worker. -/
  | noWorkers
  | clock (fault : ClockFault)

/-- The wording of an error. -/
def Error.message : Error → String
  | noWorkers => "max_workers must be greater than 0"
  | clock fault => fault.message

/-- The verdicts of some events, in order, under settings that are read once.  The number of workers
    does not change them. -/
def judgeAll (settings : SettingsSource) (clock : Clock) (workers : Option Int)
    (events : List Event) : Except Error (List Verdict) :=
  let current := settings.resolve
  if workers.any (· ≤ 0) then .error .noWorkers
  else
    (events.mapM fun (e : Event) => (e.validate (.snapshot current) clock).value).mapError .clock

end SignedEvents.Batch
