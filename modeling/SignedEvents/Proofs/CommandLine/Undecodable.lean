import SignedEvents.CommandLine.Run
import SignedEvents.Proofs.Event.Shape
import SignedEvents.Proofs.Json.Surrogates
import SignedEvents.Proofs.Message.Batch
import SignedEvents.Proofs.Message.Producer
import SignedEvents.Proofs.Text.Lines

/-! # Lines that are not well-formed

  A byte outside characters is read as a surrogate.  An event whose own strings hold one is never
  accepted, but members that are ignored may hold it.

  - **Envelope.withoutIgnored** — a message without the members that are ignored.
  - **Envelope.HidesSurrogates** — a text whose surrogates all stand in ignored members.
  - **hidesSurrogates_of_accepted** — no other text with surrogates is accepted.
  - **runProgram_done** — the program ends with a report.
  - **runProgram_undecodable** — what it reports on lines that are not well-formed UTF-8.
-/

namespace SignedEvents

open Json (Value Members)

/-! ## Section 1: Ignored members -/

/-- The members of some names. -/
def Json.Members.restrict (members : Members) (names : List Text) : Members :=
  names.filterMap fun name => (members.get? name).map fun v => (name, v)

theorem Json.Members.mem_restrict {members : Members} {names : List Text} {m : Text × Value} :
    m ∈ members.restrict names ↔ m.1 ∈ names ∧ members.get? m.1 = some m.2 := by
  unfold Json.Members.restrict
  rw [List.mem_filterMap]
  constructor
  · rintro ⟨name, hname, h⟩
    obtain ⟨v, hv, rfl⟩ := Option.map_eq_some_iff.mp h
    exact ⟨hname, hv⟩
  · rintro ⟨hname, hv⟩
    exact ⟨m.1, hname, Option.map_eq_some_iff.mpr ⟨m.2, hv, rfl⟩⟩

theorem hasSurrogate_obj_eq_false_iff {members : Members} :
    (Value.obj members).hasSurrogate = false ↔
      ∀ m ∈ members, m.1.hasSurrogate = false ∧ m.2.hasSurrogate = false := by
  rw [Value.hasSurrogate, Json.membersHaveSurrogate_eq_any, List.any_eq_false]
  simp only [Bool.not_eq_true, Bool.or_eq_false_iff]

namespace Event

/-- The value without the members that an event ignores. -/
def withoutIgnored : Value → Value
  | .obj members => .obj (Members.restrict members memberNames)
  | v => v

/-- If no string of the event holds a surrogate, then only ignored members can. -/
theorem hasSurrogate_withoutIgnored {members : Members} {e : Event}
    (h : ofMembers members = .ok e) (hclean : e.hasSurrogate = false) :
    (withoutIgnored (.obj members)).hasSurrogate = false := by
  obtain ⟨hid, hpubkey, hcreated, hkind, htags, hcontent, hsig⟩ := ofMembers_ok_iff.mp h
  simp only [hasSurrogate, Bool.or_eq_false_iff] at hclean
  obtain ⟨⟨⟨⟨hid', hpubkey'⟩, htags'⟩, hcontent'⟩, hsig'⟩ := hclean
  rw [withoutIgnored, hasSurrogate_obj_eq_false_iff]
  rintro ⟨name, v⟩ hm
  obtain ⟨hname, hv⟩ := Json.Members.mem_restrict.mp hm
  have hnames : ∀ name ∈ memberNames, name.hasSurrogate = false := by decide
  refine ⟨hnames name hname, ?_⟩
  -- what stands under a name is the field of that name
  have hfield {w : Value} (hw : members.get? name = some w) (hnone : w.hasSurrogate = false) :
      v.hasSurrogate = false := by
    obtain rfl := Option.some.inj (hv.symm.trans hw)
    exact hnone
  simp only [memberNames, List.mem_cons, List.not_mem_nil, or_false] at hname
  rcases hname with rfl | rfl | rfl | rfl | rfl | rfl | rfl
  · exact hfield hid hid'
  · exact hfield hpubkey hpubkey'
  · exact hfield hcreated rfl
  · exact hfield hkind rfl
  · rcases htags with ⟨hblank | hnull, -⟩ | htags
    · rw [hv] at hblank
      cases hblank
    · exact hfield hnull rfl
    · exact hfield htags ((hasSurrogate_tagsValue e.tags).trans htags')
  · exact hfield hcontent hcontent'
  · exact hfield hsig hsig'

end Event

namespace Envelope

/-- The value without the members that an envelope and its event ignore. -/
def withoutIgnored : Value → Value
  | .arr [command, event] => .arr [command, Event.withoutIgnored event]
  | .obj members =>
    .obj (Members.restrict members ["cmd"] ++
      (Members.restrict members ["event"]).map fun m => (m.1, Event.withoutIgnored m.2))
  | v => v

theorem hasSurrogate_withoutIgnored {v : Value} {envelope : Envelope}
    (h : ofValue v = .ok envelope) (hcommand : envelope.command.hasSurrogate = false)
    (hevent : envelope.event.hasSurrogate = false) :
    (withoutIgnored v).hasSurrogate = false := by
  unfold ofValue at h
  split at h
  · -- an array: only the event can hold more than is looked at
    next command event =>
    obtain ⟨hc, fields, he, hfields⟩ := ofMembers_ok_iff.mp h
    obtain rfl : command = .str envelope.command := Option.some.inj hc
    obtain rfl : event = .obj fields := Option.some.inj he
    rw [withoutIgnored, Value.hasSurrogate, Json.itemsHaveSurrogate_eq_any, List.any_cons,
      List.any_cons, Event.hasSurrogate_withoutIgnored hfields hevent]
    simpa [Value.hasSurrogate] using hcommand
  · cases h
  · next members =>
    obtain ⟨hc, fields, he, hfields⟩ := ofMembers_ok_iff.mp h
    have hnames : (Text.ofString "cmd").hasSurrogate = false ∧
        (Text.ofString "event").hasSurrogate = false := by
      decide
    rw [withoutIgnored, hasSurrogate_obj_eq_false_iff, List.forall_mem_append, List.forall_mem_map]
    constructor
    · rintro ⟨name, v⟩ hm
      obtain ⟨hname, hv⟩ := Json.Members.mem_restrict.mp hm
      obtain rfl := List.mem_singleton.mp hname
      obtain rfl := Option.some.inj (hv.symm.trans hc)
      exact ⟨hnames.1, hcommand⟩
    · rintro ⟨name, v⟩ hm
      obtain ⟨hname, hv⟩ := Json.Members.mem_restrict.mp hm
      obtain rfl := List.mem_singleton.mp hname
      obtain rfl := Option.some.inj (hv.symm.trans he)
      exact ⟨hnames.2, Event.hasSurrogate_withoutIgnored hfields hevent⟩
  · cases h

/-- A text that can be read, with surrogates in it, but none once ignored members are left out. -/
def HidesSurrogates (t : Text) : Prop :=
  ∃ v, Json.read .wire (.text t) = .ok v ∧ v.hasSurrogate = true ∧
    (withoutIgnored v).hasSurrogate = false

end Envelope

/-- If a text with surrogates is accepted, then ignored members hide them. -/
theorem hidesSurrogates_of_accepted {settings : Settings} {clock : Clock} {t : Text} {e : Event}
    (hsurrogate : t.hasSurrogate = true)
    (h : (openMessage settings clock (.text t)).value = .ok e) : Envelope.HidesSurrogates t := by
  obtain ⟨envelope, hdecode, hcommand, rfl, -, hauthentic⟩ := (openMessage_ok_iff ..).mp h
  obtain ⟨v, hv, henvelope⟩ := Envelope.decode_ok_iff.mp hdecode
  have hclean : envelope.command.hasSurrogate = false := by
    rw [hcommand]
    decide
  exact ⟨v, hv, Json.hasSurrogate_of_read rfl hv hsurrogate,
    Envelope.hasSurrogate_withoutIgnored henvelope hclean hauthentic.wellFormed.2.2.2⟩

/-! ## Section 2: Lines -/

theorem CodePoint.isSurrogate_of_isBlank {c : CodePoint} (h : c.isBlank = true) :
    c.isSurrogate = false := by
  simp only [isBlank, isWhiteSpace, isAsciiBlank, isWideBlank, Bool.or_eq_true, Bool.and_eq_true,
    beq_iff_eq, decide_eq_true_eq] at h
  exact isSurrogate_of_lt (by omega)

/-- Trimming takes off no surrogates. -/
theorem Text.hasSurrogate_strip (t : Text) :
    (t.strip (·.isBlank)).hasSurrogate = t.hasSurrogate := by
  have hblank {u : Text} (hu : ∀ c ∈ u, c.isBlank = true) : u.hasSurrogate = false := by
    rw [hasSurrogate, List.any_eq_false]
    intro c hc
    rw [CodePoint.isSurrogate_of_isBlank (hu c hc)]
    exact Bool.false_ne_true
  have hsplit := congrArg hasSurrogate (t.front_strip_back (·.isBlank))
  rw [Json.hasSurrogate_append, Json.hasSurrogate_append, hblank fun c => blank_of_mem_front,
    hblank fun c => blank_of_mem_back, Bool.false_or, Bool.or_false] at hsplit
  exact hsplit

namespace Batch

/-- A line with surrogates has a row, and it is accepted only if ignored members hide them. -/
theorem Lists.row_of_surrogate {settings : Settings} {clock : Clock} {now : Int}
    (hclock : clock.read = .ok now) {n i : Nat} {lines : List Json.Source} {rows : List Row}
    (h : Lists settings clock n lines rows) {t : Text} (ht : lines[i]? = some (.text t))
    (hsurrogate : t.hasSurrogate = true) :
    ∃ o, ⟨n + i, o⟩ ∈ rows ∧ (∀ other, ⟨n + i, other⟩ ∈ rows → other = o) ∧
      (o.status = .accepted → Envelope.HidesSurrogates (t.strip (·.isBlank))) := by
  -- a surrogate is not blank, so the line is not passed over
  have hleft : (Json.Source.text t).trim.isEmpty = false := by
    obtain ⟨c, hc, hsurrogate⟩ := List.any_eq_true.mp hsurrogate
    refine (isEmpty_trim_text t).mpr ⟨c, hc, ?_⟩
    rw [Bool.eq_false_iff]
    intro hblank
    rw [CodePoint.isSurrogate_of_isBlank hblank] at hsurrogate
    cases hsurrogate
  obtain ⟨o, ho, hreports⟩ := takeIn_reports settings hclock (Json.Source.text t).trim
  refine ⟨o, (h.mem_iff _ o).mpr ⟨i, _, ht, rfl, hleft, ho⟩, fun other hother => ?_, fun haccepted => ?_⟩
  · obtain ⟨j, line, hline, hj, -, hother⟩ := (h.mem_iff _ other).mp hother
    obtain rfl : i = j := by omega
    obtain rfl := Option.some.inj (ht.symm.trans hline)
    exact Except.ok.inj (hother.symm.trans ho)
  · -- what is accepted was opened, after trimming
    cases o with
    | accepted e =>
      have hopen := (hreports.accepted_iff e).mp ⟨rfl, rfl⟩
      exact hidesSurrogates_of_accepted ((Text.hasSurrogate_strip t).trans hsurrogate) hopen
    | _ => cases haccepted

end Batch

/-! ## Section 3: The program -/

section run

variable {world : World} {words : List Text} {operand : Text} {allowance : Option GivenAllowance}
  {settings : Settings} {content : Bytes} {now : Int}

/-- With usable arguments and settings, bytes to read, and a clock that shows a time, the program
    ends with a report on the lines. -/
theorem runProgram_done (hwords : Arguments.parse words = .ok (.run operand allowance))
    (hsettings : settingsFor world allowance = .ok settings)
    (hcontent : openOperand world operand = .ok content) (hclock : world.clock.read = .ok now) :
    ∃ r, Batch.report settings world.clock (messagesOf content) = .ok r ∧
      Batch.Lists settings world.clock 1 (messagesOf content) r.rows ∧
      runProgram world words =
        .done (r.lines.flatMap (· ++ Text.ofString "\n")) r.isClean := by
  obtain ⟨rows, hrows, hlists⟩ := Batch.rowsFrom_lists settings hclock 1 (messagesOf content)
  have hreport := Batch.report_of_rowsFrom hrows
  refine ⟨_, hreport, hlists, ?_⟩
  rw [runProgram, hwords]
  simp only [runParsed, hsettings, hcontent, hreport, bind, Except.bind]
  rfl

/-- The bytes of a file or of standard input are cut into lines.  A line that is not well-formed
    UTF-8 has one row in the report, and it is accepted only if all its surrogates stand in ignored
    members.  The exit code is 0 if every row is accepted, and 1 if any is not, so it is 1 if there
    is a line that is not well-formed and hides no surrogates in ignored members. -/
theorem runProgram_undecodable (hwords : Arguments.parse words = .ok (.run operand allowance))
    (hsettings : settingsFor world allowance = .ok settings)
    (hcontent : openOperand world operand = .ok content) (hclock : world.clock.read = .ok now) :
    ∃ lines r, CutIntoLines 0x0D 0x0A content lines ∧
      Batch.report settings world.clock (messagesOf content) = .ok r ∧
      runProgram world words = .done (r.lines.flatMap (· ++ Text.ofString "\n")) r.isClean ∧
      (∀ i line, lines[i]? = some line → Utf8.decode? line = none →
        ∃ o, ⟨i + 1, o⟩ ∈ r.rows ∧ (∀ other, ⟨i + 1, other⟩ ∈ r.rows → other = o) ∧
          (o.status = .accepted →
            Envelope.HidesSurrogates ((Utf8.decodeEscaping line).strip (·.isBlank)))) ∧
      (runProgram world words).code? =
        some (if ∀ row ∈ r.rows, row.outcome.status = .accepted then 0 else 1) ∧
      ((∃ line ∈ lines, Utf8.decode? line = none ∧
        ¬ Envelope.HidesSurrogates ((Utf8.decodeEscaping line).strip (·.isBlank))) →
          (runProgram world words).code? = some 1) := by
  obtain ⟨lines, hcut, hlines⟩ := Utf8.lines_decodeEscaping content
  obtain ⟨r, hreport, hlists, hdone⟩ := runProgram_done hwords hsettings hcontent hclock
  have hrow (i : Nat) (line : Bytes) (hline : lines[i]? = some line)
      (hill : Utf8.decode? line = none) :
      ∃ o, ⟨i + 1, o⟩ ∈ r.rows ∧ (∀ other, ⟨i + 1, other⟩ ∈ r.rows → other = o) ∧
        (o.status = .accepted →
          Envelope.HidesSurrogates ((Utf8.decodeEscaping line).strip (·.isBlank))) := by
    -- the program reads all bytes at once, and cuts the text
    have hmessage : (messagesOf content)[i]? = some (.text (Utf8.decodeEscaping line)) := by
      rw [messagesOf, hlines, List.getElem?_map, List.getElem?_map, hline]
      rfl
    rw [Nat.add_comm i 1]
    exact hlists.row_of_surrogate hclock hmessage
      ((Utf8.decode?_eq_none_iff_hasSurrogate line).mp hill)
  have hcode : (runProgram world words).code? =
      some (if ∀ row ∈ r.rows, row.outcome.status = .accepted then 0 else 1) := by
    rw [hdone, Exit.code?]
    simp only [Batch.isClean_iff hreport]
  refine ⟨lines, r, hcut, hreport, hdone, hrow, hcode, ?_⟩
  rintro ⟨line, hmem, hill, hhides⟩
  -- the row of this line is not accepted
  obtain ⟨i, hi⟩ := List.mem_iff_getElem?.mp hmem
  obtain ⟨o, ho, -, haccepted⟩ := hrow i line hi hill
  rw [hcode, if_neg fun hall => hhides (haccepted (hall _ ho))]

end run

/-- A world with nothing but some bytes on standard input, in which the program reads them. -/
def worldOf (stdin : Bytes) : World where
  env := []
  envFile := none
  contents _ := .error .notFound
  stdin := stdin
  clock := .given 1700000000

/-- A line of one byte outside characters. -/
theorem runProgram_undecodable_of_stray :
    Arguments.parse [] = .ok (.run defaultOperand none) ∧
      settingsFor (worldOf [0xFF, 0x0A]) none = .ok .unlimited ∧
      openOperand (worldOf [0xFF, 0x0A]) defaultOperand = .ok [0xFF, 0x0A] ∧
      (worldOf [0xFF, 0x0A]).clock.read = .ok 1700000000 ∧
      (runProgram (worldOf [0xFF, 0x0A]) []).code? = some 1 := by
  have hwords : Arguments.parse [] = .ok (.run defaultOperand none) := by rfl
  have hsettings : settingsFor (worldOf [0xFF, 0x0A]) none = .ok .unlimited := by rfl
  have hcontent : openOperand (worldOf [0xFF, 0x0A]) defaultOperand = .ok [0xFF, 0x0A] := by rfl
  have hclock : (worldOf [0xFF, 0x0A]).clock.read = .ok 1700000000 := by rfl
  obtain ⟨lines, r, hcut, -, -, -, -, hcode⟩ :=
    runProgram_undecodable hwords hsettings hcontent hclock
  refine ⟨hwords, hsettings, hcontent, hclock, hcode ⟨[0xFF], ?_, by decide, ?_⟩⟩
  · have hline : CutIntoLines (0x0D : UInt8) 0x0A ([0xFF] ++ ([0x0A] ++ [])) [[0xFF]] :=
      .ended (by decide) (by decide) (.feed []) .nil
    rw [CutIntoLines.unique (by decide) hcut hline]
    exact List.mem_singleton_self _
  · rintro ⟨v, hv, -⟩
    have hnone : (Json.read .wire (.text ((Utf8.decodeEscaping [0xFF]).strip
        (·.isBlank)))).toOption.isNone = true := by
      decide +kernel
    rw [hv] at hnone
    cases hnone

/-- The message of an event with one member more, whose value is a byte outside characters. -/
def hidingLine : Bytes :=
  let fields := (Json.print .compact Event.sample.toValue).dropLast
  let front : Text := "[\"EVENT\"," ++ fields ++ ",\"note\":\""
  let back : Text := "\"\x7d]"
  front.flatMap Utf8.encodePoint ++ [0xFF] ++ back.flatMap Utf8.encodePoint

/-- The line is not well-formed UTF-8, but the event is accepted. -/
theorem runProgram_accepts_undecodable :
    Utf8.decode? hidingLine = none ∧ (runProgram (worldOf hidingLine) []).code? = some 0 := by
  decide +kernel

end SignedEvents
