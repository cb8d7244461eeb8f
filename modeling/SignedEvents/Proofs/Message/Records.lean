import SignedEvents.Proofs.Message.Intake
import SignedEvents.Proofs.Text.OneLine

/-! # Records of a message

  What is recorded of a message is put together from constants, numerals, quoted text and digits,
  all of which stay on one line, and from the start of the id, which is shown as it is.  So that is
  the only place where a message can break the line of a record.

  - **Text.Shows** — a text with another one in it, and nothing else that leaves the line.
  - **Json.Error.isInline_message** — no error quotes text as it is.
  - **Event.judge_records**, **takeIn_records** — records on the way.
  - **Intake.take_records** — all records of an intake.
-/

namespace SignedEvents

/-! ## Section 1: Texts -/

namespace Text

/-- A text is shown in another one, and what stands before and after it stays on the line. -/
def Shows (t shown : Text) : Prop :=
  ∃ before after, t = before ++ (shown ++ after) ∧ before.IsInline ∧ after.IsInline

theorem Shows.isInline_iff {t shown : Text} (h : t.Shows shown) :
    t.IsInline ↔ shown.IsInline := by
  obtain ⟨before, after, rfl, hbefore, hafter⟩ := h
  simp [hbefore, hafter]

theorem IsInline.take {t : Text} (h : t.IsInline) (n : Nat) : IsInline (t.take n) :=
  fun c hc => h c (List.mem_of_mem_take hc)

end Text

theorem Hex.isInline_encode (bytes : Bytes) : (Hex.encode bytes).IsInline := by
  intro c hc
  have hlower := Hex.encode_lower bytes c hc
  simp only [CodePoint.IsLowerHex, CodePoint.isDigit, Bool.and_eq_true, decide_eq_true_eq] at hlower
  exact CodePoint.isInline_of_ascii (by omega) (by omega)

/-! ## Section 2: Errors -/

/-- The bytes that cannot be read are shown in digits. -/
theorem Encoding.Error.isInline_message (e : Encoding.Error) : e.message.IsInline := by
  have hname : Text.IsInline e.encoding.name := by cases e.encoding <;> decide
  have hreason : Text.IsInline e.reason.message := by
    cases e.reason with
    | notUtf8 fault => cases fault <;> decide
    | _ => decide
  unfold message
  split
  · simp +decide [hname, hreason]
  · simp +decide [hname, hreason]

/-- A repeated name is quoted; of all else only places and lengths are told. -/
theorem Json.Error.isInline_message (e : Json.Error) : e.message.IsInline := by
  cases e with
  | undecodable e => exact e.isInline_message
  | malformed cause place =>
    have hcause : Text.IsInline cause.message := by cases cause <;> decide
    simp +decide [message, Place.message, hcause]
  | longInteger digits limit => simp +decide [message]
  | tooDeep nesting => cases nesting <;> decide
  | repeatedName name => simp +decide [message]

theorem DecodeError.isInline_message (e : DecodeError) : e.message.IsInline := by
  cases e with
  | json e => simp +decide [message, e.isInline_message]
  | shape problems => simp +decide [message]

/-! ## Section 3: Checks -/

namespace Event

/-- What a record of an event may hold: the start of the id, or nothing that leaves the line. -/
def Tells (e : Event) (r : Log.Record) : Prop :=
  r.message.IsInline ∨ r.message.Shows e.idPrefix

end Event

theorem Schnorr.verifyHex_records (message : Bytes) (sig key : Text) :
    ∀ r ∈ (verifyHex message sig key).records, r.message.IsInline := by
  unfold verifyHex
  split
  · simp
  split
  · split
    · simp
    · next fault _ =>
      cases fault
      exact List.forall_mem_singleton.mpr (by decide)
  · simp

namespace Event

variable (e : Event)

theorem canonicalize_records : ∀ r ∈ e.canonicalize.records, e.Tells r := by
  unfold canonicalize
  split
  · simp
  · refine List.forall_mem_singleton.mpr (.inr ⟨"event ", " could not be canonicalized: " ++
      notEncodable, ?_, by decide, by decide⟩)
    simp [canonicalRefusal]

/-- The digest is shown in hexadecimal digits. -/
theorem examine_records : ∀ r ∈ e.examine.records, e.Tells r := by
  rw [examine, Trace.bind_records, List.forall_mem_append]
  refine ⟨e.canonicalize_records, ?_⟩
  split
  · simp
  next bytes _ =>
  have hdigest := (Hex.isInline_encode (Sha256.hash bytes)).take 8
  dsimp only
  split
  · refine List.forall_mem_singleton.mpr (.inr ⟨"event ",
      " id does not match computed digest " ++ (Hex.encode (Sha256.hash bytes)).take 8, ?_,
      by decide, ?_⟩)
    · simp [mismatchRecord]
    · simp +decide [hdigest]
  -- the library may have refused the signature, which is recorded before the verdict
  rw [Trace.bind_records, List.forall_mem_append]
  refine ⟨fun r hr => .inl (Schnorr.verifyHex_records _ _ _ r hr), ?_⟩
  split
  · simp
  · refine List.forall_mem_singleton.mpr (.inr ⟨"event ", " signature does not verify", ?_,
      by decide, by decide⟩)
    simp [signatureRecord]

theorem judge_records (settings : Settings) (clock : Clock) :
    ∀ r ∈ (e.judge settings clock).records, e.Tells r := by
  unfold judge
  split
  · rw [Trace.bind_records, List.forall_mem_append]
    exact ⟨e.examine_records, by simp⟩
  · rw [Trace.bind_records, List.forall_mem_append]
    refine ⟨by simp [Trace.reading], ?_⟩
    split
    · simp
    next now _ =>
    split
    · refine List.forall_mem_singleton.mpr (.inr ⟨"event ", " is too far in the future (" ++
        Text.ofInt (e.createdAt.toNat - now) ++ " seconds), rejecting", ?_, by decide, ?_⟩)
      · simp [aheadRecord]
      · simp +decide
    · rw [Trace.bind_records, List.forall_mem_append]
      exact ⟨e.examine_records, by simp⟩

end Event

/-! ## Section 4: The intake -/

/-- The record about an event shows the start of its id. -/
theorem Outcome.record_shows {o : Outcome} {e : Event}
    (h : o = .accepted e ∨ ∃ reason, o = .invalid reason e) : o.record.Shows e.idPrefix := by
  rcases h with rfl | ⟨reason, rfl⟩
  · exact ⟨"event ", " accepted", by simp [record], by decide, by decide⟩
  · have hreason : Text.IsInline reason.name := by cases reason <;> decide
    refine ⟨"event ", " rejected: " ++ reason.name, by simp [record], by decide, ?_⟩
    simp +decide [hreason]

section

variable (settings : Settings) {clock : Clock} {now : Int} {source : Json.Source}

/-- The records of a message that holds no envelope. -/
theorem takeIn_records_of_error {fault : DecodeError} (h : Envelope.decode source = .error fault) :
    ∀ r ∈ (takeIn settings clock source).records, r.message.IsInline := by
  unfold takeIn
  rw [h]
  refine List.forall_mem_singleton.mpr ?_
  show Text.IsInline ("dropping undecodable message: " ++ fault.message)
  simp +decide [fault.isInline_message]

/-- The records of an envelope with an unknown command: one, which quotes the command. -/
theorem takeIn_records_of_unknown {envelope : Envelope}
    (h : Envelope.decode source = .ok envelope) (hcommand : envelope.command ≠ eventCommand) :
    ∀ r ∈ (takeIn settings clock source).records, r.message.IsInline := by
  have hopen : envelope.openEvent settings clock =
      pure (.error (.unknownCommand envelope.command)) := if_pos hcommand
  unfold takeIn
  rw [h]
  simp only [hopen, pure_bind]
  refine List.forall_mem_singleton.mpr ?_
  show Text.IsInline ("unknown command " ++ envelope.command.quoted)
  simp +decide

/-- The records of an event: those of the checks, and one about the outcome. -/
theorem takeIn_records_of_event {e : Event}
    (h : Envelope.decode source = .ok ⟨eventCommand, e⟩) (hclock : clock.read = .ok now) :
    ∃ o : Outcome, o.record.Shows e.idPrefix ∧ (takeIn settings clock source).records =
      (e.judge settings clock).records ++ [⟨.intake, .debug, o.record⟩] := by
  obtain ⟨verdict, hverdict⟩ := e.judge_readable settings hclock
  have hrecords : ((⟨eventCommand, e⟩ : Envelope).openEvent settings clock).records =
      (e.judge settings clock).records := by
    rw [Envelope.openEvent_eq, if_neg (not_not_intro rfl), Trace.bind_records, hverdict]
    cases verdict <;> exact List.append_nil _
  unfold takeIn
  rw [h]
  cases verdict with
  | stands digest =>
    have hvalue : ((⟨eventCommand, e⟩ : Envelope).openEvent settings clock).value = .ok e := by
      rw [Envelope.openEvent_eq, if_neg (not_not_intro rfl), Trace.bind_value, hverdict]
      rfl
    refine ⟨.accepted e, Outcome.record_shows (.inl rfl), ?_⟩
    simp only [Trace.bind_records, hvalue, hrecords]
    rfl
  | fails reason digest =>
    have hvalue : ((⟨eventCommand, e⟩ : Envelope).openEvent settings clock).value =
        .error (.invalid reason e.id) := by
      rw [Envelope.openEvent_eq, if_neg (not_not_intro rfl), Trace.bind_value, hverdict]
      rfl
    refine ⟨.invalid reason e, Outcome.record_shows (.inr ⟨reason, rfl⟩), ?_⟩
    simp only [Trace.bind_records, hvalue, hrecords]
    rfl

theorem takeIn_records (source : Json.Source) (hclock : clock.read = .ok now) :
    ∀ r ∈ (takeIn settings clock source).records, r.message.IsInline ∨
      ∃ e, Envelope.decode source = .ok ⟨eventCommand, e⟩ ∧ r.message.Shows e.idPrefix := by
  intro r hr
  cases hdecode : Envelope.decode source with
  | error fault => exact .inl (takeIn_records_of_error settings hdecode r hr)
  | ok envelope =>
    obtain ⟨command, e⟩ := envelope
    by_cases hcommand : command = eventCommand
    · subst hcommand
      obtain ⟨o, hshows, hrecords⟩ := takeIn_records_of_event settings hdecode hclock
      rw [hrecords] at hr
      rcases List.mem_append.mp hr with hr | hr
      · exact (e.judge_records settings clock r hr).imp_right fun h => ⟨e, rfl, h⟩
      · obtain rfl := List.mem_singleton.mp hr
        exact .inr ⟨e, rfl, hshows⟩
    · exact .inl (takeIn_records_of_unknown settings hdecode hcommand r hr)

end

/-- Each record stays on one line, or shows the start of the id of an event as it is.  So all of
    them stay on one line exactly if the start of that id does, as it does if the event is
    accepted. -/
theorem Intake.take_records (g : Intake) (clock : Clock) (now : Int)
    (hclock : clock.read = .ok now) (source : Json.Source) :
    (∀ r ∈ (g.take clock source).records, r.message.IsInline ∨
      ∃ e, Envelope.decode source = .ok ⟨eventCommand, e⟩ ∧ r.message.Shows e.idPrefix) ∧
    ((∀ r ∈ (g.take clock source).records, r.message.IsInline) ↔
      ∀ e, Envelope.decode source = .ok ⟨eventCommand, e⟩ → e.idPrefix.IsInline) ∧
    (∀ e, (openMessage g.settings.current clock source).value = .ok e →
      ∀ r ∈ (g.take clock source).records, r.message.IsInline) := by
  have htake : (g.take clock source).records =
      (takeIn g.settings.current clock source).records := by
    rw [take, Trace.bind_records]
    split <;> exact List.append_nil _
  rw [htake]
  have hrecords := takeIn_records g.settings.current source hclock
  have hinline (hid : ∀ e, Envelope.decode source = .ok ⟨eventCommand, e⟩ → e.idPrefix.IsInline) :
      ∀ r ∈ (takeIn g.settings.current clock source).records, r.message.IsInline := by
    intro r hr
    rcases hrecords r hr with h | ⟨e, hdecode, hshows⟩
    · exact h
    · exact hshows.isInline_iff.mpr (hid e hdecode)
  refine ⟨hrecords, ⟨fun hall e hdecode => ?_, hinline⟩, fun e hopen => hinline fun _ hdecode => ?_⟩
  · -- the record about the outcome shows the id
    obtain ⟨o, hshows, hlast⟩ := takeIn_records_of_event g.settings.current hdecode hclock
    rw [hlast] at hall
    exact hshows.isInline_iff.mp (hall _ (List.mem_append_right _ (List.mem_singleton_self _)))
  · -- the id of an accepted event is written in digits
    obtain ⟨envelope, hdecode', -, rfl, -, bytes, -, hid, -⟩ := (openMessage_ok_iff ..).mp hopen
    obtain rfl := Except.ok.inj (hdecode'.symm.trans hdecode)
    rw [Event.idPrefix, hid]
    exact (Hex.isInline_encode _).take 8

/-- A message with an event whose id is a line feed and whose date is one second after 1970. -/
def feedMessage (command : Text) : Text :=
  "[\"" ++ command ++ "\",\x7b\"id\":\"\\n\",\"pubkey\":\"\",\"created_at\":1,\"kind\":0," ++
    "\"content\":\"\",\"sig\":\"\"\x7d]"

/-- The event of these messages. -/
def feedEvent : Event where
  id := "\n"
  pubkey := []
  createdAt := 1
  kind := 0
  tags := []
  content := []
  sig := []

/-- A command of one line feed is quoted, and the id behind it is not shown. -/
theorem Intake.take_records_of_command :
    let g := Intake.ofSettings .unlimited (.ofCapacity 1)
    Clock.read (.given 0) = .ok 0 ∧
      ∀ r ∈ (g.take (.given 0) (.text (feedMessage "\\n"))).records, r.message.IsInline := by
  intro g
  obtain ⟨-, hall, -⟩ := Intake.take_records g (.given 0) 0 rfl (.text (feedMessage "\\n"))
  refine ⟨rfl, hall.mpr fun e hdecode => ?_⟩
  have hcommand : Envelope.decode (.text (feedMessage "\\n")) = .ok ⟨"\n", feedEvent⟩ := by
    decide +kernel
  obtain ⟨hfeed, -⟩ := Envelope.mk.inj (Except.ok.inj (hcommand.symm.trans hdecode))
  exact absurd hfeed (by decide)

/-- An id of one line feed breaks the lines of both records on an event dated too far ahead. -/
theorem Intake.records_break_lines :
    let g := Intake.ofSettings ⟨some 0⟩ (.ofCapacity 1)
    let records := (g.take (.given 0) (.text (feedMessage "EVENT"))).records
    records.map (·.message) =
      ["event \n is too far in the future (1 seconds), rejecting",
        "event \n rejected: future_timestamp"] ∧
    ¬ ∀ r ∈ records, r.message.IsInline := by
  decide +kernel

end SignedEvents
