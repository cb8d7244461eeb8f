import SignedEvents.Intake
import SignedEvents.Proofs.Event.Acceptance

/-! # The order of the checks

  The first check that fails is the one that a verdict names.  The date comes first and has nothing
  to do with the others: with an allowance an event is either dated past it, or gets the verdict
  that it gets without one.

  - **Event.Gets** — the verdict on an event, but for its date.
  - **Event.judge_readings**, **openMessage_readings_of_event**, **takeIn_readings** — how often
    the clock is read.
  - **Under** — what is allowed in a call, and what time it is.
  - **Event.validate_exact** — all verdicts and all readings.
-/

namespace SignedEvents

/-! ## Section 1: Verdicts -/

namespace Event

variable {e : Event} {v : Verdict}

/-- The verdict on an event without a look at its date, one rule for each check that can fail. -/
inductive Gets (e : Event) : Verdict → Prop where
  | surrogate (h : e.signsSurrogate = true) : e.Gets (.fails .canonicalizationFailed none)
  | mismatch {bytes : Bytes} (hbytes : e.canonicalBytes? = some bytes)
      (hid : e.id ≠ Hex.encode (Sha256.hash bytes)) :
      e.Gets (.fails .idMismatch (some (Hex.encode (Sha256.hash bytes))))
  | badSignature {bytes : Bytes} (hbytes : e.canonicalBytes? = some bytes)
      (hid : e.id = Hex.encode (Sha256.hash bytes))
      (hverify : (Schnorr.verifyHex (Sha256.hash bytes) e.sig e.pubkey).value = false) :
      e.Gets (.fails .badSignature (some (Hex.encode (Sha256.hash bytes))))
  | stands {bytes : Bytes} (hbytes : e.canonicalBytes? = some bytes)
      (hid : e.id = Hex.encode (Sha256.hash bytes))
      (hverify : (Schnorr.verifyHex (Sha256.hash bytes) e.sig e.pubkey).value = true) :
      e.Gets (.stands e.id)

theorem gets_examine (e : Event) : e.Gets e.examine.value := by
  -- along the branches of the examination
  rw [examine_value]
  cases hbytes : e.canonicalBytes? with
  | none => exact .surrogate (e.canonicalBytes?_eq_none_iff.mp hbytes)
  | some bytes =>
    dsimp only
    split
    · next hid => exact .mismatch hbytes hid
    next hid =>
    have hid := Decidable.not_not.mp hid
    split
    · next hverify =>
      rw [← hid]
      exact .stands hbytes hid hverify
    · next hverify => exact .badSignature hbytes hid (Bool.eq_false_iff.mpr hverify)

/-- The rules rule each other out. -/
theorem Gets.eq_examine (h : e.Gets v) : v = e.examine.value := by
  -- what a rule asks for leaves one branch of the examination
  rw [examine_value]
  cases h with
  | surrogate h => rw [e.canonicalBytes?_eq_none_iff.mpr h]
  | mismatch hbytes hid =>
    rw [hbytes]
    exact (if_pos hid).symm
  | badSignature hbytes hid hverify =>
    rw [hbytes]
    dsimp only
    rw [if_neg (Decidable.not_not.mpr hid), hverify]
    rfl
  | stands hbytes hid hverify =>
    rw [hbytes]
    dsimp only
    rw [if_neg (Decidable.not_not.mpr hid), if_pos hverify, hid]

theorem gets_iff (e : Event) (v : Verdict) : e.Gets v ↔ v = e.examine.value := by
  constructor
  · exact Gets.eq_examine
  · rintro rfl
    exact e.gets_examine

/-- No rule looks at the date. -/
theorem Gets.ne_futureTimestamp (h : e.Gets v) (digest : Option Text) :
    v ≠ .fails .futureTimestamp digest := by
  cases h <;> simp

end Event

/-! ## Section 2: Readings of the clock -/

theorem Schnorr.verifyHex_readings (message : Bytes) (sig key : Text) :
    (verifyHex message sig key).readings = 0 := by
  unfold verifyHex
  split
  · rfl
  split
  · split <;> rfl
  · rfl

namespace Event

theorem canonicalize_readings (e : Event) : e.canonicalize.readings = 0 := by
  unfold canonicalize
  split <;> rfl

/-- The checks but for the date do without the clock. -/
theorem examine_readings (e : Event) : e.examine.readings = 0 := by
  rw [examine, Trace.bind_readings, canonicalize_readings, Nat.zero_add]
  split
  · rfl
  dsimp only
  split
  · rfl
  rw [Trace.bind_readings, Schnorr.verifyHex_readings, Nat.zero_add]
  split <;> rfl

/-- The clock is read once if there is an allowance, and otherwise it is not read. -/
theorem judge_readings (settings : Settings) (clock : Clock) (e : Event) :
    (e.judge settings clock).readings = if settings.allowance.isSome then 1 else 0 := by
  unfold judge
  cases settings.allowance with
  | none =>
    dsimp only
    rw [Trace.bind_readings, examine_readings]
    rfl
  | some allowance =>
    have hone : Trace.reading.readings = 1 := rfl
    dsimp only
    rw [Trace.bind_readings, hone]
    split
    · rfl
    split
    · rfl
    · rw [Trace.bind_readings, examine_readings]
      rfl

end Event

theorem Envelope.openEvent_readings (settings : Settings) (clock : Clock) (envelope : Envelope) :
    (envelope.openEvent settings clock).readings =
      if envelope.command = eventCommand then (envelope.event.judge settings clock).readings
      else 0 := by
  rw [openEvent_eq]
  by_cases hcommand : envelope.command = eventCommand
  · rw [if_neg (Decidable.not_not.mpr hcommand), if_pos hcommand, Trace.bind_readings]
    split <;> rfl
  · rw [if_pos hcommand, if_neg hcommand]
    rfl

theorem openMessage_readings (settings : Settings) (clock : Clock) (source : Json.Source) :
    (openMessage settings clock source).readings =
      match Envelope.decode source with
      | .ok envelope => (envelope.openEvent settings clock).readings
      | .error _ => 0 := by
  rw [openMessage_eq]
  split
  · next h => rw [h]; rfl
  · next h => rw [h]

/-- The clock is read for a message of the known command as often as for its event. -/
theorem openMessage_readings_of_event (settings : Settings) (clock : Clock) {source : Json.Source}
    {e : Event} (h : Envelope.decode source = .ok ⟨eventCommand, e⟩) :
    (openMessage settings clock source).readings = if settings.allowance.isSome then 1 else 0 := by
  rw [openMessage_readings, h]
  dsimp only
  rw [Envelope.openEvent_readings, if_pos rfl, Event.judge_readings]

/-- It is not read for any other message. -/
theorem openMessage_readings_of_other (settings : Settings) (clock : Clock) {source : Json.Source}
    (h : ¬ ∃ e, Envelope.decode source = .ok ⟨eventCommand, e⟩) :
    (openMessage settings clock source).readings = 0 := by
  rw [openMessage_readings]
  cases hdecode : Envelope.decode source with
  | error fault => rfl
  | ok envelope =>
    have hcommand : envelope.command ≠ eventCommand := by
      rintro hcommand
      exact h ⟨envelope.event, by rw [hdecode, ← hcommand]⟩
    dsimp only
    rw [Envelope.openEvent_readings, if_neg hcommand]

/-- The intake reads the clock as often. -/
theorem takeIn_readings (settings : Settings) (clock : Clock) (source : Json.Source) :
    (takeIn settings clock source).readings = (openMessage settings clock source).readings := by
  rw [openMessage_readings]
  unfold takeIn
  cases Envelope.decode source with
  | error fault => rfl
  | ok envelope =>
    dsimp only
    rw [Trace.bind_readings]
    -- whatever comes of the envelope is only recorded
    split <;> rfl

/-! ## Section 3: The date -/

/-- A call allows so many seconds, and its clock shows such a time. -/
structure Under (allowance : Nat) (now : Int) (source : SettingsSource) (clock : Clock) : Prop where
  allowed : source.resolve.allowance = some allowance
  shown   : clock.read = .ok now

namespace Event

variable {e : Event} {allowance : Nat} {now : Int} {source : SettingsSource} {clock : Clock}

theorem validate_of_unlimited (h : source.resolve.allowance = none) (e : Event) (clock : Clock) :
    (e.validate source clock).value = .ok e.examine.value := by
  rw [validate, judge_value, h]

theorem validate_of_ahead (h : Under allowance now source clock)
    (hahead : now + allowance < e.createdAt.toNat) :
    (e.validate source clock).value = .ok (.fails .futureTimestamp none) := by
  have hahead : e.isAhead allowance now = true := decide_eq_true hahead
  rw [validate, judge_value, h.allowed, h.shown]
  exact if_pos hahead

theorem validate_of_timely (h : Under allowance now source clock)
    (htimely : ¬ now + allowance < e.createdAt.toNat) :
    (e.validate source clock).value = .ok e.examine.value := by
  have htimely : ¬ e.isAhead allowance now = true := fun h => htimely (of_decide_eq_true h)
  rw [validate, judge_value, h.allowed, h.shown]
  exact if_neg htimely

/-- An event is refused for its date exactly if it is dated past the allowance. -/
theorem validate_ahead_iff (h : Under allowance now source clock) :
    (e.validate source clock).value = .ok (.fails .futureTimestamp none) ↔
      now + allowance < e.createdAt.toNat := by
  constructor
  · intro hahead
    by_contra htimely
    rw [validate_of_timely h htimely, Except.ok.injEq] at hahead
    exact e.gets_examine.ne_futureTimestamp none hahead
  · exact validate_of_ahead h

/-- What stands at some time stands at any later time, and with any greater allowance. -/
theorem validate_stands_mono (h : Under allowance now source clock) {allowance' : Nat} {now' : Int}
    {source' : SettingsSource} {clock' : Clock} (h' : Under allowance' now' source' clock')
    (hallowance : allowance ≤ allowance') (hnow : now ≤ now') {digest : Text}
    (hstands : (e.validate source clock).value = .ok (.stands digest)) :
    (e.validate source' clock').value = .ok (.stands digest) := by
  have htimely : ¬ now + allowance < e.createdAt.toNat := by
    intro hahead
    rw [validate_of_ahead h hahead] at hstands
    cases hstands
  have htimely' : ¬ now' + allowance' < e.createdAt.toNat := by omega
  rw [validate_of_timely h htimely] at hstands
  rw [validate_of_timely h' htimely', hstands]

/-- There is one verdict on an event but for its date, and it names the first check that fails.  It
    is given without an allowance, and with one unless the event is dated past it, which comes
    first.  So what stands keeps standing as time goes on and as more is allowed.  The clock is read
    once for each event with an allowance, and never else; a message whose command is not known, or
    that cannot be decoded, is no such event. -/
theorem validate_exact (e : Event) :
    (∃ verdict, (∀ v, e.Gets v ↔ v = verdict) ∧
      (∀ source clock, source.resolve.allowance = none →
        (e.validate source clock).value = .ok verdict) ∧
      ∀ allowance now source clock, Under allowance now source clock →
        ((e.validate source clock).value = .ok (.fails .futureTimestamp none) ↔
          (e.createdAt.toNat : Int) > now + allowance) ∧
        (¬ (e.createdAt.toNat : Int) > now + allowance →
          (e.validate source clock).value = .ok verdict)) ∧
    (∀ allowance now source clock allowance' now' source' clock',
      Under allowance now source clock → Under allowance' now' source' clock' →
      allowance ≤ allowance' → now ≤ now' → ∀ digest,
        (e.validate source clock).value = .ok (.stands digest) →
        (e.validate source' clock').value = .ok (.stands digest)) ∧
    (∀ source clock, (e.validate source clock).readings =
      if source.resolve.allowance.isSome then 1 else 0) ∧
    ∀ (source : SettingsSource) (clock : Clock) (message : Json.Source),
      ((∃ event, Envelope.decode message = .ok ⟨"EVENT", event⟩) →
        (openMessage source.resolve clock message).readings =
            (if source.resolve.allowance.isSome then 1 else 0) ∧
          (takeIn source.resolve clock message).readings =
            if source.resolve.allowance.isSome then 1 else 0) ∧
      ((¬ ∃ event, Envelope.decode message = .ok ⟨"EVENT", event⟩) →
        (openMessage source.resolve clock message).readings = 0 ∧
          (takeIn source.resolve clock message).readings = 0) := by
  refine ⟨⟨e.examine.value, e.gets_iff, fun source clock h => validate_of_unlimited h e clock, ?_⟩,
    ?_, fun source clock => judge_readings source.resolve clock e, fun source clock message => ?_⟩
  · intro allowance now source clock h
    exact ⟨validate_ahead_iff h, validate_of_timely h⟩
  · intro _ _ _ _ _ _ _ _ h h' hallowance hnow _ hstands
    exact validate_stands_mono h h' hallowance hnow hstands
  · rw [takeIn_readings]
    constructor
    · rintro ⟨event, hevent⟩
      have hreadings := openMessage_readings_of_event source.resolve clock hevent
      exact ⟨hreadings, hreadings⟩
    · intro hother
      have hreadings := openMessage_readings_of_other source.resolve clock hother
      exact ⟨hreadings, hreadings⟩

/-- A blank event at the last moment that fits, with an allowance of a week: at the very second
    from which it is allowed it gets the verdict on its id, and a second before it is refused for
    its date. -/
theorem validate_exact_of_lastMoment :
    let e : Event := ⟨"", "", 18446744073709551615, 0, [], "", ""⟩
    let week : SettingsSource := .live (.ofSettings ⟨some 604800⟩)
    (e.validate week (.given 18446744073708946815)).value = (e.validate .absent (.given 0)).value ∧
      (e.validate week (.given 18446744073708946814)).value =
        .ok (.fails .futureTimestamp none) := by
  intro e week
  obtain ⟨⟨verdict, -, hunlimited, hdated⟩, -⟩ := validate_exact e
  have hallowed : week.resolve.allowance = some 604800 := rfl
  obtain ⟨-, htimely⟩ := hdated _ _ week (.given 18446744073708946815) ⟨hallowed, rfl⟩
  obtain ⟨hahead, -⟩ := hdated _ _ week (.given 18446744073708946814) ⟨hallowed, rfl⟩
  refine ⟨?_, hahead.mpr (by decide)⟩
  rw [htimely (by decide), hunlimited .absent (.given 0) rfl]

end Event

end SignedEvents
