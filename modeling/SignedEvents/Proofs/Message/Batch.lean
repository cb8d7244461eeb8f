import SignedEvents.Batch
import SignedEvents.Proofs.Json.Margins
import SignedEvents.Proofs.Message.Intake

/-! # Reports on lines

  A report lists the outcomes of lines, each trimmed first, where an intake takes a message as it
  is.  The two agree wherever JSON allows the blanks that were trimmed off.

  - **Batch.Lists**, **Batch.rowsFrom_lists** — which rows a report has.
  - **Envelope.decode_ok_iff_strip** — envelopes before and after trimming.
  - **Outcome.LooksLike** — two outcomes that a report shows alike.
  - **takeIn_strip_iff** — when trimming does not show.
  - **Batch.report_agrees** — where a report agrees with an intake.
  - **Batch.count_tallyOf**, **Batch.isClean_iff** — the tally of a report.
  - **Batch.report_differs** — a line on which they differ.
-/

namespace SignedEvents

/-! ## Section 1: Rows -/

namespace Batch

/-- The rows of some lines, the first of which has the number `n`: one for each line that trimming
    leaves something of. -/
inductive Lists (settings : Settings) (clock : Clock) :
    Nat → List Json.Source → List Row → Prop where
  | done (n : Nat) : Lists settings clock n [] []
  | blank {n : Nat} {line : Json.Source} {lines : List Json.Source} {rows : List Row} :
      line.trim.isEmpty = true → Lists settings clock (n + 1) lines rows →
      Lists settings clock n (line :: lines) rows
  | row {n : Nat} {line : Json.Source} {o : Outcome} {lines : List Json.Source}
      {rows : List Row} :
      line.trim.isEmpty = false → (takeIn settings clock line.trim).value = .ok o →
      Lists settings clock (n + 1) lines rows →
      Lists settings clock n (line :: lines) (⟨n, o⟩ :: rows)

variable {settings : Settings} {clock : Clock} {n : Nat} {lines : List Json.Source}
  {rows : List Row}

/-- While the clock shows a time, the rows can be listed. -/
theorem rowsFrom_lists (settings : Settings) {now : Int} (hclock : clock.read = .ok now) (n : Nat)
    (lines : List Json.Source) :
    ∃ rows, rowsFrom settings clock n lines = .ok rows ∧ Lists settings clock n lines rows := by
  induction lines generalizing n with
  | nil => exact ⟨[], rfl, .done n⟩
  | cons line lines ih =>
    obtain ⟨rows, hrows, hlists⟩ := ih (n + 1)
    cases hempty : line.trim.isEmpty with
    | true =>
      have hrow : row? settings clock n line = .ok none := if_pos hempty
      refine ⟨rows, ?_, .blank hempty hlists⟩
      rw [rowsFrom, hrow, hrows]
      rfl
    | false =>
      obtain ⟨o, ho, -⟩ := takeIn_reports settings hclock line.trim
      have hrow : row? settings clock n line = .ok (some ⟨n, o⟩) := by
        show (if line.trim.isEmpty = true then _ else _) = _
        rw [if_neg (Bool.eq_false_iff.mp hempty), ho]
        rfl
      refine ⟨⟨n, o⟩ :: rows, ?_, .row hempty ho hlists⟩
      rw [rowsFrom, hrow, hrows]
      rfl

theorem report_of_rowsFrom (h : rowsFrom settings clock 1 lines = .ok rows) :
    report settings clock lines = .ok ⟨rows, tallyOf rows⟩ := by
  rw [report, h]
  rfl

/-- A row stands for its line. -/
theorem Lists.mem_iff (h : Lists settings clock n lines rows) (k : Nat) (o : Outcome) :
    ⟨k, o⟩ ∈ rows ↔
      ∃ i line, lines[i]? = some line ∧ k = n + i ∧ line.trim.isEmpty = false ∧
        (takeIn settings clock line.trim).value = .ok o := by
  induction h with
  | done n => simp
  | @blank n line lines rows hempty _ ih =>
    rw [ih]
    constructor
    · rintro ⟨i, found, hfound, rfl, hrest⟩
      exact ⟨i + 1, found, hfound, by omega, hrest⟩
    · rintro ⟨i, found, hfound, rfl, hleft, ho⟩
      cases i with
      | zero =>
        -- the blank line has no row
        obtain rfl := Option.some.inj hfound
        rw [hempty] at hleft
        cases hleft
      | succ i => exact ⟨i, found, hfound, by omega, hleft, ho⟩
  | @row n line o' lines rows hempty ho' _ ih =>
    rw [List.mem_cons, ih]
    constructor
    · rintro (hfirst | ⟨i, found, hfound, rfl, hrest⟩)
      · obtain ⟨rfl, rfl⟩ := Row.mk.inj hfirst
        exact ⟨0, line, rfl, rfl, hempty, ho'⟩
      · exact ⟨i + 1, found, hfound, by omega, hrest⟩
    · rintro ⟨i, found, hfound, rfl, hleft, ho⟩
      cases i with
      | zero =>
        obtain rfl := Option.some.inj hfound
        obtain rfl := Except.ok.inj (ho'.symm.trans ho)
        exact .inl rfl
      | succ i => exact .inr ⟨i, found, hfound, by omega, hleft, ho⟩

/-- No line has two rows, and they stand in the order of the lines. -/
theorem Lists.ordered (h : Lists settings clock n lines rows) :
    rows.Pairwise fun a b => a.line < b.line := by
  induction h with
  | done n => exact .nil
  | blank _ _ ih => exact ih
  | @row n line o lines rows _ _ hrest ih =>
    refine List.pairwise_cons.mpr ⟨fun later hlater => ?_, ih⟩
    obtain ⟨i, -, -, hline, -⟩ := (hrest.mem_iff later.line later.outcome).mp hlater
    show n < later.line
    omega

theorem isEmpty_trim_text (t : Text) :
    (Json.Source.text t).trim.isEmpty = false ↔ ∃ c ∈ t, c.isBlank = false := by
  have hnil : (Json.Source.text t).trim.isEmpty = true ↔ ∀ c ∈ t, c.isBlank = true := by
    rw [← Text.strip_eq_nil_iff]
    exact List.isEmpty_iff
  rw [← Bool.not_eq_true, hnil]
  simp

end Batch

/-! ## Section 2: Trimming -/

/-- A text holds an envelope exactly if what trimming leaves holds it, and JSON allows the blanks
    that trimming takes off. -/
theorem Envelope.decode_ok_iff_strip {t : Text} {envelope : Envelope} :
    decode (.text t) = .ok envelope ↔
      Json.Blank (t.margin (·.isBlank)) ∧ decode (.text (t.strip (·.isBlank))) = .ok envelope := by
  simp only [decode_ok_iff]
  constructor
  · rintro ⟨v, hv, henvelope⟩
    obtain ⟨hmargin, hstrip⟩ := Json.read_ok_iff_strip.mp hv
    exact ⟨hmargin, v, hstrip, henvelope⟩
  · rintro ⟨hmargin, v, hstrip, henvelope⟩
    exact ⟨v, Json.read_ok_iff_strip.mpr ⟨hmargin, hstrip⟩, henvelope⟩

/-- A report shows the status, the id of an accepted event and the check that failed. -/
def Outcome.LooksLike (o other : Outcome) : Prop :=
  o.status = other.status ∧ o.event?.map Event.id = other.event?.map Event.id ∧
    o.reason? = other.reason?

theorem takeIn_undecodable (settings : Settings) (clock : Clock) {source : Json.Source}
    {fault : DecodeError} (h : Envelope.decode source = .error fault) :
    (takeIn settings clock source).value = .ok (.undecodable fault) := by
  unfold takeIn
  rw [h]
  rfl

/-- What is taken in depends on the envelope, not on its spelling. -/
theorem takeIn_congr (settings : Settings) (clock : Clock) {source other : Json.Source}
    (h : Envelope.decode source = Envelope.decode other) :
    takeIn settings clock source = takeIn settings clock other := by
  unfold takeIn
  rw [h]

theorem status_of_takeIn {settings : Settings} {clock : Clock} {source : Json.Source}
    {envelope : Envelope} {o : Outcome} (h : Envelope.decode source = .ok envelope)
    (ho : (takeIn settings clock source).value = .ok o) : o.status ≠ .decodeError := by
  unfold takeIn at ho
  rw [h] at ho
  intro hstatus
  cases o with
  | undecodable fault =>
    -- an envelope gives an event or one of the later errors
    have hopen : (envelope.openEvent settings clock).value ≠ .error (.undecodable fault) := by
      rw [Envelope.openEvent_eq]
      split
      · intro heq
        cases heq
      · rw [Trace.bind_value]
        cases (envelope.event.judge settings clock).value with
        | error fault =>
          intro heq
          cases heq
        | ok verdict =>
          cases verdict <;> intro heq <;> cases heq
    generalize hopened : (envelope.openEvent settings clock).value = opened at hopen
    simp only [Trace.bind_value, hopened] at ho
    cases opened with
    | ok e => cases ho
    | error e =>
      cases e with
      | undecodable other =>
        obtain rfl : other = fault := Outcome.undecodable.inj (Except.ok.inj ho)
        exact hopen rfl
      | _ => cases ho
  | _ => cases hstatus

/-- While the clock shows a time, a text is taken in with or without the blanks at its ends.  Both
    look alike exactly if JSON allows these blanks, or if there is no envelope without them.  In any
    other case the text itself cannot be decoded. -/
theorem takeIn_strip_iff (settings : Settings) {clock : Clock} {now : Int}
    (hclock : clock.read = .ok now) {t : Text} {o : Outcome}
    (ho : (takeIn settings clock (.text (t.strip (·.isBlank)))).value = .ok o) :
    ∃ live, (takeIn settings clock (.text t)).value = .ok live ∧
      (o.LooksLike live ↔
        o.status = .decodeError ∨ ∀ c ∈ t.margin (·.isBlank), Json.isSpace c = true) ∧
      (live.status ≠ .decodeError → o.LooksLike live) := by
  have hrefl (o : Outcome) : o.LooksLike o := ⟨rfl, rfl, rfl⟩
  obtain ⟨live, hlive, -⟩ := takeIn_reports settings hclock (.text t)
  refine ⟨live, hlive, ?_⟩
  cases hstrip : Envelope.decode (.text (t.strip (·.isBlank))) with
  | error fault =>
    -- no envelope in either
    obtain rfl := Except.ok.inj ((takeIn_undecodable settings clock hstrip).symm.trans ho)
    obtain ⟨other, hother⟩ : ∃ other, Envelope.decode (.text t) = .error other := by
      cases htext : Envelope.decode (.text t) with
      | error other => exact ⟨other, rfl⟩
      | ok envelope =>
        have hok := (Envelope.decode_ok_iff_strip.mp htext).2
        rw [hstrip] at hok
        cases hok
    obtain rfl := Except.ok.inj ((takeIn_undecodable settings clock hother).symm.trans hlive)
    have halike : (Outcome.undecodable fault).LooksLike (.undecodable other) := ⟨rfl, rfl, rfl⟩
    exact ⟨⟨fun _ => .inl rfl, fun _ => halike⟩, fun _ => halike⟩
  | ok envelope =>
    have hstatus := status_of_takeIn hstrip ho
    by_cases hmargin : Json.Blank (t.margin (·.isBlank))
    · -- the same envelope in both
      have htext : Envelope.decode (.text t) = .ok envelope :=
        Envelope.decode_ok_iff_strip.mpr ⟨hmargin, hstrip⟩
      have hsame := takeIn_congr settings clock (htext.trans hstrip.symm)
      rw [hsame] at hlive
      obtain rfl := Except.ok.inj (ho.symm.trans hlive)
      exact ⟨⟨fun _ => .inr hmargin, fun _ => hrefl o⟩, fun _ => hrefl o⟩
    · -- an envelope that the blanks hide
      obtain ⟨other, hother⟩ : ∃ other, Envelope.decode (.text t) = .error other := by
        cases htext : Envelope.decode (.text t) with
        | error other => exact ⟨other, rfl⟩
        | ok envelope => exact absurd (Envelope.decode_ok_iff_strip.mp htext).1 hmargin
      obtain rfl := Except.ok.inj ((takeIn_undecodable settings clock hother).symm.trans hlive)
      refine ⟨⟨fun halike => absurd halike.1 hstatus, ?_⟩, fun hne => absurd rfl hne⟩
      rintro (herror | hblank)
      · exact absurd herror hstatus
      · exact absurd hblank hmargin

/-! ## Section 3: Reports -/

namespace Batch

/-- While the clock shows a time, there is a report on any lines of text.  It has one row for each
    line that is not blank, in order.  A row looks like the outcome of the line itself, as an intake
    with the same settings takes it in, exactly if JSON allows the blanks at the ends of the line or
    the line cannot be decoded even without them; if they look different, then the intake cannot
    decode the line. -/
theorem report_agrees (g : Intake) (clock : Clock) (now : Int) (hclock : clock.read = .ok now)
    (lines : List Text) :
    ∃ r, report g.settings.current clock (lines.map .text) = .ok r ∧
      r.rows.Pairwise (fun a b => a.line < b.line) ∧
      (∀ n, (∃ o, ⟨n, o⟩ ∈ r.rows) ↔
        ∃ i t, lines[i]? = some t ∧ n = i + 1 ∧ ∃ c ∈ t, c.isBlank = false) ∧
      ∀ i t o, lines[i]? = some t → ⟨i + 1, o⟩ ∈ r.rows →
        ∃ live, (g.take clock (.text t)).value =
            .ok ({ g with tally := g.tally.add live.status }, live) ∧
          (o.LooksLike live ↔
            o.status = .decodeError ∨ ∀ c ∈ t.margin (·.isBlank), Json.isSpace c = true) ∧
          (live.status ≠ .decodeError → o.LooksLike live) := by
  obtain ⟨rows, hrows, hlists⟩ :=
    rowsFrom_lists g.settings.current hclock 1 (lines.map .text)
  have hline (i : Nat) (line : Json.Source) :
      (lines.map Json.Source.text)[i]? = some line ↔ ∃ t, lines[i]? = some t ∧ .text t = line := by
    rw [List.getElem?_map, Option.map_eq_some_iff]
  refine ⟨⟨rows, tallyOf rows⟩, ?_, hlists.ordered, fun n => ?_, fun i t o ht hmem => ?_⟩
  · rw [report, hrows]
    rfl
  · constructor
    · rintro ⟨o, hmem⟩
      obtain ⟨i, line, hfound, rfl, hleft, -⟩ := (hlists.mem_iff n o).mp hmem
      obtain ⟨t, ht, rfl⟩ := (hline i line).mp hfound
      exact ⟨i, t, ht, Nat.add_comm 1 i, (isEmpty_trim_text t).mp hleft⟩
    · rintro ⟨i, t, ht, rfl, hleft⟩
      obtain ⟨o, ho, -⟩ := takeIn_reports g.settings.current hclock (Json.Source.text t).trim
      refine ⟨o, (hlists.mem_iff (i + 1) o).mpr ?_⟩
      exact ⟨i, .text t, (hline i _).mpr ⟨t, ht, rfl⟩, Nat.add_comm i 1,
        (isEmpty_trim_text t).mpr hleft, ho⟩
  · -- the row of a number belongs to the line of that number
    obtain ⟨j, line, hfound, hnumber, -, ho⟩ := (hlists.mem_iff (i + 1) o).mp hmem
    obtain rfl : j = i := by omega
    obtain ⟨u, hu, rfl⟩ := (hline j line).mp hfound
    obtain rfl := Option.some.inj (ht.symm.trans hu)
    obtain ⟨live, hlive, halike⟩ := takeIn_strip_iff g.settings.current hclock ho
    exact ⟨live, Intake.take_of_takeIn hlive, halike⟩

/-- The tally of rows counts the rows of each status. -/
theorem count_tallyOf (rows : List Row) (s : Status) :
    (tallyOf rows).count s = rows.countP (·.outcome.status = s) := by
  have hfold (t : Tally) : (rows.foldl (fun t r => t.add r.outcome.status) t).count s =
      t.count s + rows.countP (·.outcome.status = s) := by
    induction rows generalizing t with
    | nil => rfl
    | cons row rows ih =>
      obtain ⟨hsame, hothers⟩ := t.add_exact row.outcome.status
      rw [List.foldl_cons, ih, List.countP_cons]
      by_cases hs : row.outcome.status = s
      · rw [if_pos (decide_eq_true hs), ← hs, hsame]
        omega
      · rw [if_neg (by simpa using hs), hothers s (Ne.symm hs)]
        omega
  have hempty : Tally.empty.count s = 0 := by
    cases s <;> rfl
  rw [tallyOf, hfold, hempty, Nat.zero_add]

/-- A report is clean exactly if all its messages were accepted. -/
theorem isClean_iff {settings : Settings} {clock : Clock} {lines : List Json.Source} {r : Report}
    (h : report settings clock lines = .ok r) :
    r.isClean = true ↔ ∀ row ∈ r.rows, row.outcome.status = .accepted := by
  have htally : r.tally = tallyOf r.rows := by
    unfold report at h
    cases hrows : rowsFrom settings clock 1 lines with
    | error fault =>
      rw [hrows] at h
      cases h
    | ok rows =>
      rw [hrows] at h
      obtain rfl := Except.ok.inj h
      rfl
  have hcount : r.tally.accepted = r.rows.countP (·.outcome.status = .accepted) := by
    rw [htally]
    exact count_tallyOf r.rows .accepted
  rw [Report.isClean, hcount, beq_iff_eq, List.countP_eq_length]
  simp

/-- A message of another command, with a blank event. -/
def otherMessage : Text :=
  "[\"NOTICE\",\x7b\"id\":\"\",\"pubkey\":\"\",\"created_at\":0,\"kind\":0,\"content\":\"\"," ++
    "\"sig\":\"\"\x7d]"

/-- A line that ends with a line feed, as it is read from a file, looks the same to both. -/
theorem report_agrees_of_line_feed :
    let g := Intake.ofSettings ⟨some 60⟩ (.ofCapacity 1)
    let clock := Clock.given (-100)
    let line : Text := otherMessage ++ "\n"
    clock.read = .ok (-100) ∧
      ∃ r o live, report ⟨some 60⟩ clock [.text line] = .ok r ∧ ⟨1, o⟩ ∈ r.rows ∧
        (g.take clock (.text line)).value =
          .ok ({ g with tally := g.tally.add live.status }, live) ∧ o.LooksLike live := by
  intro g clock line
  obtain ⟨r, hreport, -, hrows, halike⟩ := Batch.report_agrees g clock (-100) rfl [line]
  obtain ⟨o, ho⟩ := (hrows 1).mpr ⟨0, line, rfl, rfl, by decide⟩
  obtain ⟨live, hlive, hiff, -⟩ := halike 0 line o rfl ho
  have hmargin : ∀ c ∈ line.margin (·.isBlank), Json.isSpace c = true := by decide
  exact ⟨rfl, r, o, live, hreport, ho, hlive, hiff.mpr (.inr hmargin)⟩

/-- A blank that JSON does not allow is trimmed off before a report looks at the line, but an intake
    cannot decode it. -/
theorem report_differs :
    let line : Text := .ofNat 0xA0 :: otherMessage
    let shown := (report .unlimited (.given 0) [.text line]).toOption.map fun r =>
      r.rows.map fun row => (row.line, row.outcome.status)
    let taken := ((Intake.ofSettings .unlimited (.ofCapacity 1)).take (.given 0)
      (.text line)).value.toOption.map fun result => result.2.status
    shown = some [(1, .unknownCommand)] ∧ taken = some .decodeError := by
  decide +kernel

end Batch

end SignedEvents
