import SignedEvents.Proofs.CommandLine.Undecodable

/-! # What a report says

  A report is what one intake makes of the lines, one after the other, and each row is what a fresh
  intake makes of its line alone.  So the report on two lists of lines can be put together from
  their reports.

  - **Tally.plus** — the tally of two batches.
  - **Batch.kept**, **Batch.Row.IsOf** — the lines that have rows, and what a row says.
  - **Batch.Row.Shows** — how it says it in JSON.
  - **Batch.scan**, **Batch.scan_eq** — one intake goes through all lines.
  - **Batch.Report.followedBy**, **Batch.report_append** — reports one after the other.
  - **Batch.report_exact** — what a report says, and what the program makes of it.
-/

namespace SignedEvents

/-! ## Section 1: Tallies and outcomes -/

/-- The messages of two tallies. -/
def Tally.plus (t other : Tally) : Tally where
  accepted       := t.accepted + other.accepted
  decodeError    := t.decodeError + other.decodeError
  unknownCommand := t.unknownCommand + other.unknownCommand
  invalid        := t.invalid + other.invalid

theorem Tally.plus_add (t other : Tally) (s : Status) :
    t.plus (other.add s) = (t.plus other).add s := by
  cases s <;> rfl

theorem Tally.empty_plus (t : Tally) : Tally.empty.plus t = t := by
  simp [plus, empty]

/-- There is an event exactly if the message was accepted. -/
theorem Outcome.isSome_event? (o : Outcome) : o.event?.isSome = true ↔ o.status = .accepted := by
  cases o <;> simp [event?, status]

/-- There is a check that failed exactly if the event was invalid. -/
theorem Outcome.isSome_reason? (o : Outcome) : o.reason?.isSome = true ↔ o.status = .invalid := by
  cases o <;> simp [reason?, status]

namespace Batch

variable {settings : Settings} {clock : Clock} {n : Nat} {lines : List Json.Source}
  {rows : List Row}

/-! ## Section 2: Rows -/

/-- The lines that trimming leaves something of, with their numbers, the first of which is `n`. -/
def kept (n : Nat) (lines : List Json.Source) : List (Json.Source × Nat) :=
  (lines.zipIdx n).filter fun (line, _) => !line.trim.isEmpty

/-- The row has the number of the line, and the outcome that a fresh intake has for the line alone,
    trimmed. -/
def Row.IsOf (settings : Settings) (clock : Clock) (numbered : Json.Source × Nat) (row : Row) :
    Prop :=
  row.line = numbered.2 ∧ ∀ bus,
    let g := Intake.ofSettings settings bus
    (g.take clock numbered.1.trim).value =
      .ok ({ g with tally := g.tally.add row.outcome.status }, row.outcome)

theorem Lists.rows_of_kept (h : Lists settings clock n lines rows) :
    List.Forall₂ (Row.IsOf settings clock) (kept n lines) rows := by
  induction h with
  | done n => exact .nil
  | @blank n line lines rows hempty _ ih =>
    -- the line is left out on both sides
    unfold kept
    rw [List.zipIdx_cons, List.filter_cons_of_neg (by simpa using hempty)]
    exact ih
  | @row n line o lines rows hleft ho _ ih =>
    unfold kept
    rw [List.zipIdx_cons, List.filter_cons_of_pos (by simpa using hleft)]
    exact .cons ⟨rfl, fun bus => Intake.take_of_takeIn ho⟩ ih

/-- An object shows a row: its number, its status, the id if it is accepted and only then, and the
    check that failed if it is invalid and only then. -/
structure Row.Shows (row : Row) (members : Json.Members) : Prop where
  line       : members.get? "line" = some (.int row.line)
  status     : members.get? "status" = some (.str row.outcome.status.name)
  id         : members.get? "id" = row.outcome.event?.map fun e => .str e.id
  reason     : members.get? "reason" = row.outcome.reason?.map fun f => .str f.name
  id_iff     : (members.get? "id").isSome = true ↔ row.outcome.status = .accepted
  reason_iff : (members.get? "reason").isSome = true ↔ row.outcome.status = .invalid

theorem Row.shows_value (row : Row) : ∃ members, row.value = .obj members ∧ row.Shows members := by
  let id := row.outcome.event?.map fun e => (("id" : Text), Json.Value.str e.id)
  let reason := row.outcome.reason?.map fun f => (("reason" : Text), Json.Value.str f.name)
  let head : Json.Members :=
    [("line", .int row.line), ("status", .str row.outcome.status.name)]
  have hmembers : (head ++ id.toList ++ reason.toList).get? "id" =
        row.outcome.event?.map (fun e => .str e.id) ∧
      (head ++ id.toList ++ reason.toList).get? "reason" =
        row.outcome.reason?.map fun f => .str f.name := by
    -- of the two optional members, an outcome has at most one
    simp only [id, reason]
    cases row.outcome <;> exact ⟨rfl, rfl⟩
  refine ⟨head ++ id.toList ++ reason.toList, rfl, rfl, rfl, hmembers.1, hmembers.2, ?_, ?_⟩
  · rw [hmembers.1, Option.isSome_map]
    exact row.outcome.isSome_event?
  · rw [hmembers.2, Option.isSome_map]
    exact row.outcome.isSome_reason?

/-! ## Section 3: One intake for all lines -/

/-- An intake goes through some lines, the first of which has the number `n`, and counts them.  It
    gives the rows. -/
def scan (clock : Clock) (g : Intake) (n : Nat) :
    List Json.Source → Except ClockFault (Intake × List Row)
  | [] => .ok (g, [])
  | line :: rest =>
    let line := line.trim
    if line.isEmpty then scan clock g (n + 1) rest
    else do
      let (g, o) ← (g.take clock line).value
      let (g, rows) ← scan clock g (n + 1) rest
      return (g, ⟨n, o⟩ :: rows)

/-- Counting rows adds their tally. -/
theorem foldl_add_status (t : Tally) (rows : List Row) :
    rows.foldl (fun t r => t.add r.outcome.status) t = t.plus (tallyOf rows) := by
  induction rows using List.reverseRecOn with
  | nil => rfl
  | append_singleton rows row ih =>
    rw [tallyOf, List.foldl_append, List.foldl_append, ih]
    exact (t.plus_add (tallyOf rows) row.outcome.status).symm

/-- The rows do not depend on what the intake has counted, and it counts the rows. -/
theorem scan_eq (clock : Clock) (g : Intake) (n : Nat) (lines : List Json.Source) :
    scan clock g n lines = (rowsFrom g.settings.current clock n lines).map fun rows =>
      ({ g with tally := g.tally.plus (tallyOf rows) }, rows) := by
  induction lines generalizing g n with
  | nil => rfl
  | cons line lines ih =>
    rw [scan, rowsFrom, row?]
    dsimp only
    by_cases hempty : line.trim.isEmpty = true
    · rw [if_pos hempty, if_pos hempty, ih]
      cases rowsFrom g.settings.current clock (n + 1) lines <;> rfl
    · rw [if_neg hempty, if_neg hempty, Intake.take, Trace.bind_value]
      cases (takeIn g.settings.current clock line.trim).value with
      | error fault => rfl
      | ok o =>
        -- the intake has counted the line before it goes on
        have hrest := ih { g with tally := g.tally.add o.status } (n + 1)
        have hcount (rows : List Row) : g.tally.plus (tallyOf (⟨n, o⟩ :: rows)) =
            (g.tally.add o.status).plus (tallyOf rows) := by
          rw [← foldl_add_status, ← foldl_add_status]
          rfl
        show (scan clock _ (n + 1) lines).bind _ = _
        rw [hrest]
        dsimp only
        cases rowsFrom g.settings.current clock (n + 1) lines with
        | error fault => rfl
        | ok rows =>
          exact congrArg (fun t => Except.ok ({ g with tally := t }, ⟨n, o⟩ :: rows))
            (hcount rows).symm

/-! ## Section 4: Reports one after the other -/

/-- The row some lines further down. -/
def Row.shift (k : Nat) (row : Row) : Row := { row with line := row.line + k }

/-- A report, and after it one on the lines from number `k + 1` on. -/
def Report.followedBy (k : Nat) (r other : Report) : Report :=
  ⟨r.rows ++ other.rows.map (·.shift k), r.tally.plus other.tally⟩

theorem tallyOf_append (rows others : List Row) :
    tallyOf (rows ++ others) = (tallyOf rows).plus (tallyOf others) := by
  rw [tallyOf, List.foldl_append]
  exact foldl_add_status (tallyOf rows) others

theorem tallyOf_shift (k : Nat) (rows : List Row) :
    tallyOf (rows.map (·.shift k)) = tallyOf rows := by
  unfold tallyOf
  rw [List.foldl_map]
  rfl

theorem row?_shift (settings : Settings) (clock : Clock) (n k : Nat) (line : Json.Source) :
    row? settings clock (n + k) line =
      (row? settings clock n line).map (Option.map (·.shift k)) := by
  unfold row?
  dsimp only
  split
  · rfl
  · cases (takeIn settings clock line.trim).value <;> rfl

theorem rowsFrom_shift (settings : Settings) (clock : Clock) (n k : Nat)
    (lines : List Json.Source) :
    rowsFrom settings clock (n + k) lines =
      (rowsFrom settings clock n lines).map (List.map (·.shift k)) := by
  induction lines generalizing n with
  | nil => rfl
  | cons line lines ih =>
    have hrest := ih (n + 1)
    rw [Nat.add_right_comm] at hrest
    rw [rowsFrom, rowsFrom, row?_shift, hrest]
    cases row? settings clock n line with
    | error fault => rfl
    | ok row =>
      cases rowsFrom settings clock (n + 1) lines with
      | error fault => rfl
      | ok rows => cases row <;> rfl

theorem rowsFrom_append (settings : Settings) (clock : Clock) (n : Nat)
    (lines more : List Json.Source) :
    rowsFrom settings clock n (lines ++ more) =
      (rowsFrom settings clock n lines).bind fun rows =>
        (rowsFrom settings clock (n + lines.length) more).map (rows ++ ·) := by
  induction lines generalizing n with
  | nil =>
    show rowsFrom settings clock n more = (rowsFrom settings clock n more).map fun rows => rows
    cases rowsFrom settings clock n more <;> rfl
  | cons line lines ih =>
    have hnumber : n + (line :: lines).length = n + 1 + lines.length := by
      rw [List.length_cons]
      omega
    rw [List.cons_append, rowsFrom, rowsFrom, ih, hnumber]
    cases row? settings clock n line with
    | error fault => rfl
    | ok row =>
      cases rowsFrom settings clock (n + 1) lines with
      | error fault => rfl
      | ok rows =>
        cases rowsFrom settings clock (n + 1 + lines.length) more with
        | error fault => rfl
        | ok others => exact congrArg Except.ok (List.append_assoc _ _ _).symm

/-- The report on two lists of lines, or the first fault of the clock, comes from their reports. -/
theorem report_append (settings : Settings) (clock : Clock) (lines more : List Json.Source) :
    report settings clock (lines ++ more) =
      (report settings clock lines).bind fun r =>
        (report settings clock more).map (r.followedBy lines.length) := by
  unfold report
  rw [rowsFrom_append, rowsFrom_shift]
  cases rowsFrom settings clock 1 lines with
  | error fault => rfl
  | ok rows =>
    cases rowsFrom settings clock 1 more with
    | error fault => rfl
    | ok others =>
      have htally : tallyOf (rows ++ others.map (·.shift lines.length)) =
          (tallyOf rows).plus (tallyOf others) := by
        rw [tallyOf_append, tallyOf_shift]
      exact congrArg (fun t => Except.ok (Report.mk _ t)) htally

/-! ## Section 5: The program -/

/-- While the clock shows a time, there is a report on any lines.  It has one row, in order, for each
    line that trimming leaves something of, with the number of the line among all lines and the
    outcome that a fresh intake has for the line alone; in JSON the row has an id exactly if the
    message is accepted, and a reason exactly if it is invalid.  The rows and the tally are what one
    fresh intake gives and counts when it goes through all lines, and the tally counts the rows.  The
    report on more lines after these is this one and then theirs, further down, with the tallies
    added.  If the lines are those that the program reads, and the arguments and the settings are
    usable, then the program writes this report, and the exit code is 0 exactly if all rows are
    accepted. -/
theorem report_exact (settings : Settings) (clock : Clock) (now : Int)
    (hclock : clock.read = .ok now) (lines : List Json.Source) :
    ∃ r, report settings clock lines = .ok r ∧
      List.Forall₂ (Row.IsOf settings clock) (kept 1 lines) r.rows ∧
      (∀ row ∈ r.rows, ∃ members, row.value = .obj members ∧ row.Shows members) ∧
      (∀ bus, scan clock (.ofSettings settings bus) 1 lines =
        .ok ({ Intake.ofSettings settings bus with tally := r.tally }, r.rows)) ∧
      (∀ s, r.tally.count s = r.rows.countP (·.outcome.status = s)) ∧
      (∀ more, report settings clock (lines ++ more) =
        (report settings clock more).map (r.followedBy lines.length)) ∧
      ∀ world words operand allowance content,
        Arguments.parse words = .ok (.run operand allowance) →
        settingsFor world allowance = .ok settings →
        openOperand world operand = .ok content →
        world.clock = clock → messagesOf content = lines →
        runProgram world words = .done (r.lines.flatMap (· ++ Text.ofString "\n")) r.isClean ∧
          ((runProgram world words).code? = some 0 ↔
            ∀ row ∈ r.rows, row.outcome.status = .accepted) := by
  obtain ⟨rows, hrows, hlists⟩ := rowsFrom_lists settings hclock 1 lines
  have hreport := report_of_rowsFrom hrows
  refine ⟨⟨rows, tallyOf rows⟩, hreport, hlists.rows_of_kept, fun row _ => row.shows_value,
    fun bus => ?_, count_tallyOf rows, fun more => ?_, ?_⟩
  · -- the intake is fresh, so it counts the rows and nothing else
    have hcurrent : (Intake.ofSettings settings bus).settings.current = settings := rfl
    rw [scan_eq, hcurrent, hrows]
    exact congrArg (fun t => Except.ok ({ Intake.ofSettings settings bus with tally := t }, rows))
      (tallyOf rows).empty_plus
  · rw [report_append, hreport]
    rfl
  · rintro world words operand allowance content hwords hsettings hcontent rfl rfl
    obtain ⟨r, hreport', -, hdone⟩ := runProgram_done hwords hsettings hcontent hclock
    obtain rfl := Except.ok.inj (hreport.symm.trans hreport')
    refine ⟨hdone, ?_⟩
    rw [hdone, Exit.code?, ← isClean_iff hreport]
    cases Report.isClean _ <;> simp

/-- An accepted line, a line of nothing, and a line that is no message. -/
theorem report_exact_of_lines :
    let content := hidingLine ++ [0x0A, 0x0A, 0x78]
    let world := worldOf content
    Arguments.parse [] = .ok (.run defaultOperand none) ∧
    settingsFor world none = .ok .unlimited ∧
    openOperand world defaultOperand = .ok content ∧
    world.clock.read = .ok 1700000000 ∧
    ∃ r, report .unlimited world.clock (messagesOf content) = .ok r ∧
      r.rows.map (·.line) = [1, 3] ∧ r.tally = ⟨1, 1, 0, 0⟩ ∧
      (runProgram world []).code? ≠ some 0 := by
  intro content world
  have hwords : Arguments.parse [] = .ok (.run defaultOperand none) := by rfl
  have hsettings : settingsFor world none = .ok .unlimited := by rfl
  have hcontent : openOperand world defaultOperand = .ok content := by rfl
  have hclock : world.clock.read = .ok 1700000000 := by rfl
  obtain ⟨r, hreport, -, -, -, hcount, -, hprogram⟩ :=
    report_exact .unlimited world.clock 1700000000 hclock (messagesOf content)
  have hshown : (report .unlimited world.clock (messagesOf content)).toOption.map
      (fun r => (r.rows.map (·.line), r.tally)) = some ([1, 3], ⟨1, 1, 0, 0⟩) := by
    decide +kernel
  rw [hreport] at hshown
  obtain ⟨hlines, htally⟩ := Prod.mk.inj (Option.some.inj hshown)
  refine ⟨hwords, hsettings, hcontent, hclock, r, hreport, hlines, htally, fun hcode => ?_⟩
  -- one row is counted that is not accepted
  have hall := (hprogram world [] defaultOperand none content hwords hsettings hcontent rfl
    rfl).2.mp hcode
  have hone : r.rows.countP (·.outcome.status = .decodeError) = 1 := by
    rw [← hcount .decodeError, htally]
    rfl
  obtain ⟨row, hrow, hstatus⟩ := List.countP_pos_iff.mp (hone ▸ Nat.one_pos)
  rw [hall row hrow] at hstatus
  cases of_decide_eq_true hstatus

end Batch

end SignedEvents
