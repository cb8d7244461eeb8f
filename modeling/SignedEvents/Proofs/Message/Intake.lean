import SignedEvents.Intake
import SignedEvents.Proofs.Event.Acceptance
import SignedEvents.Proofs.Message.Bytes

/-! # The intake reports what became of a message

  An intake opens a message on its own path and reports an outcome in place of an event or an
  error.  While the clock shows a time, there is an outcome for every message.

  - **Outcome.Reports** — an outcome says the same as an opened message.
  - **Envelope.openEvent_readable** — while the clock shows a time, an envelope has no other errors
    than the two that are reported.
  - **takeIn_reports** — both paths end alike.
  - **Tally.add_exact** — a message is counted once.
  - **take_reports** — what an intake makes of a message.
-/

namespace SignedEvents

/-! ## Section 1: Outcomes -/

namespace Outcome

/-- An outcome says what became of a message that was opened. -/
inductive Reports : Except OpenError Event → Outcome → Prop where
  | accepted (e : Event) : Reports (.ok e) (.accepted e)
  | undecodable (fault : DecodeError) :
      Reports (.error (.undecodable fault)) (.undecodable fault)
  | unknownCommand (command : Text) :
      Reports (.error (.unknownCommand command)) (.unknownCommand command)
  | invalid (reason : Failure) (e : Event) :
      Reports (.error (.invalid reason e.id)) (.invalid reason e)

variable {opened : Except OpenError Event} {o : Outcome}

theorem Reports.accepted_iff (h : Reports opened o) (e : Event) :
    o.status = .accepted ∧ o.event? = some e ↔ opened = .ok e := by
  cases h <;> simp [status, event?]

theorem Reports.undecodable_iff (h : Reports opened o) :
    o.status = .decodeError ↔ ∃ fault, opened = .error (.undecodable fault) := by
  cases h <;> simp [status]

theorem Reports.unknownCommand_iff (h : Reports opened o) :
    o.status = .unknownCommand ↔ ∃ command, opened = .error (.unknownCommand command) := by
  cases h <;> simp [status]

theorem Reports.invalid_iff (h : Reports opened o) (reason : Failure) :
    o.status = .invalid ∧ o.reason? = some reason ↔
      ∃ id, opened = .error (.invalid reason id) := by
  cases h <;> simp [status, reason?]

/-- A fault of the clock is not reported. -/
theorem Reports.ne_clock {e : OpenError} (h : Reports (.error e) o) (fault : ClockFault) :
    e ≠ .clock fault := by
  rintro rfl
  cases h

/-- The detail is the wording of the error. -/
theorem Reports.detail_eq (h : Reports opened o) :
    o.detail? = match opened with
      | .ok _ => none
      | .error e => some e.message := by
  cases h <;> rfl

end Outcome

/-! ## Section 2: Two paths -/

section readable

variable (settings : Settings) {clock : Clock} {now : Int}

theorem Event.judge_readable (hclock : clock.read = .ok now) (e : Event) :
    ∃ verdict, (e.judge settings clock).value = .ok verdict := by
  rw [judge_value]
  -- the clock is the only thing that can keep the verdict back
  cases settings.allowance with
  | none => exact ⟨_, rfl⟩
  | some allowance =>
    rw [hclock]
    by_cases hahead : e.isAhead allowance now = true
    · exact ⟨_, if_pos hahead⟩
    · exact ⟨_, if_neg hahead⟩

/-- While the clock shows a time, an envelope gives its event, or its command is not known, or the
    event has not passed a check. -/
theorem Envelope.openEvent_readable (hclock : clock.read = .ok now) (envelope : Envelope) :
    (envelope.openEvent settings clock).value = .ok envelope.event ∨
    (envelope.openEvent settings clock).value = .error (.unknownCommand envelope.command) ∨
    ∃ reason, (envelope.openEvent settings clock).value =
      .error (.invalid reason envelope.event.id) := by
  rw [openEvent_eq]
  by_cases hcommand : envelope.command = eventCommand
  · obtain ⟨verdict, hverdict⟩ := envelope.event.judge_readable settings hclock
    rw [if_neg (Decidable.not_not.mpr hcommand), Trace.bind_value, hverdict]
    cases verdict with
    | stands digest => exact .inl rfl
    | fails reason digest => exact .inr (.inr ⟨reason, rfl⟩)
  · rw [if_pos hcommand]
    exact .inr (.inl rfl)

/-- While the clock shows a time, there is an outcome, and it says what became of the message that
    was opened. -/
theorem takeIn_reports (hclock : clock.read = .ok now) (source : Json.Source) :
    ∃ o, (takeIn settings clock source).value = .ok o ∧
      Outcome.Reports (openMessage settings clock source).value o := by
  unfold takeIn
  rw [openMessage_eq]
  cases Envelope.decode source with
  | error fault => exact ⟨_, rfl, .undecodable fault⟩
  | ok envelope =>
    -- the intake looks at the result of the same check, and has a name for each of its errors
    rcases envelope.openEvent_readable settings hclock with h | h | ⟨reason, h⟩
    · simp only [Trace.bind_value, h]
      exact ⟨_, rfl, .accepted envelope.event⟩
    · simp only [Trace.bind_value, h]
      exact ⟨_, rfl, .unknownCommand envelope.command⟩
    · simp only [Trace.bind_value, h]
      exact ⟨_, rfl, .invalid reason envelope.event⟩

end readable

/-! ## Section 3: Counts -/

/-- A message is counted once, under its own status. -/
theorem Tally.add_exact (t : Tally) (s : Status) :
    (t.add s).count s = t.count s + 1 ∧
      ∀ other, other ≠ s → (t.add s).count other = t.count other := by
  refine ⟨?_, fun other hother => ?_⟩
  · cases s <;> rfl
  · -- of the sixteen pairs, the four of equal statuses are ruled out
    cases s <;> cases other <;> first | rfl | exact absurd rfl hother

/-! ## Section 4: The intake -/

theorem Intake.take_of_takeIn {g : Intake} {clock : Clock} {source : Json.Source} {o : Outcome}
    (h : (takeIn g.settings.current clock source).value = .ok o) :
    (g.take clock source).value = .ok ({ g with tally := g.tally.add o.status }, o) := by
  rw [take, Trace.bind_value, h]
  rfl

/-- While the clock shows a time, an intake has an outcome for every message and counts it once.
    The outcome says what becomes of the message when it is opened under the present settings: it is
    accepted with the event that is given, and otherwise there is one of three errors, with the
    detail in the words of the error. -/
theorem Intake.take_reports (g : Intake) (clock : Clock) (now : Int)
    (hclock : clock.read = .ok now) (source : Json.Source) :
    ∃ o, (g.take clock source).value = .ok ({ g with tally := g.tally.add o.status }, o) ∧
      ((g.tally.add o.status).count o.status = g.tally.count o.status + 1 ∧
        ∀ s, s ≠ o.status → (g.tally.add o.status).count s = g.tally.count s) ∧
      (∀ e, o.status = .accepted ∧ o.event? = some e ↔
        (openMessage g.settings.current clock source).value = .ok e) ∧
      (o.status = .decodeError ↔
        ∃ fault, (openMessage g.settings.current clock source).value =
          .error (.undecodable fault)) ∧
      (o.status = .unknownCommand ↔
        ∃ command, (openMessage g.settings.current clock source).value =
          .error (.unknownCommand command)) ∧
      (∀ reason, o.status = .invalid ∧ o.reason? = some reason ↔
        ∃ id, (openMessage g.settings.current clock source).value =
          .error (.invalid reason id)) ∧
      (∀ e, (openMessage g.settings.current clock source).value = .error e →
        o.detail? = some e.message ∧ ∀ fault, e ≠ .clock fault) := by
  obtain ⟨o, htake, hreports⟩ := takeIn_reports g.settings.current hclock source
  refine ⟨o, take_of_takeIn htake, g.tally.add_exact o.status, hreports.accepted_iff,
    hreports.undecodable_iff, hreports.unknownCommand_iff, hreports.invalid_iff, fun e he => ?_⟩
  rw [he] at hreports
  exact ⟨hreports.detail_eq, hreports.ne_clock⟩

/-- A blank message is dated too far ahead of a clock before 1970. -/
theorem Intake.take_reports_of_future :
    let g := Intake.ofSettings ⟨some 60⟩ (.ofCapacity 1)
    let clock := Clock.given (-100)
    clock.read = .ok (-100) ∧
      ∃ o, (g.take clock (.text (Envelope.blankMessage []))).value =
          .ok ({ g with tally := ⟨0, 0, 0, 1⟩ }, o) ∧
        o.status = .invalid ∧ o.reason? = some .futureTimestamp ∧
        o.detail? = some "event invalid: future_timestamp" := by
  intro g clock
  have hopen : (openMessage g.settings.current clock (.text (Envelope.blankMessage []))).value =
      .error (.invalid .futureTimestamp []) := by
    have hdecode : Envelope.decode (.text (Envelope.blankMessage [])) = .ok Envelope.blank := by
      decide +kernel
    rw [openMessage_eq, hdecode]
    rfl
  obtain ⟨o, htake, -, -, -, -, hinvalid, hdetail⟩ := Intake.take_reports g clock (-100) rfl
    (.text (Envelope.blankMessage []))
  obtain ⟨hstatus, hreason⟩ := (hinvalid .futureTimestamp).mpr ⟨[], hopen⟩
  rw [hstatus] at htake
  exact ⟨rfl, o, htake, hstatus, hreason, (hdetail _ hopen).1⟩

end SignedEvents
