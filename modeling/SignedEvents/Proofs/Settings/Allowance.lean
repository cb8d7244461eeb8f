import SignedEvents.CommandLine.Run
import SignedEvents.Proofs.CommandLine.Undecodable
import SignedEvents.Proofs.Settings.Numeral
import SignedEvents.Proofs.Settings.Snapshots
import SignedEvents.Settings.Environment

/-! # The allowance from the environment and from the command line

  The variable and the option do not read integers alike: the one passes over more of what stands
  around digits, the other takes digits of any script.  They agree on the spellings that are
  common to both, and never read two integers from one text.

  - **Settings.Spells** — a text spells an allowance for the variable.
  - **Settings.ofVariable_ok_iff** — what the variable gives.
  - **parse_allowanceWord** — what the option gives.
  - **plain_of_both** — what both take is spelled plainly.
  - **allowances_agree_iff** — where the two agree.
-/

namespace SignedEvents

/-! ## Section 1: The variable -/

namespace Text

variable {blank : CodePoint → Bool} {front core back : Text}

/-- Trimming leaves what stands between blanks and is none. -/
theorem strip_append (hfront : ∀ c ∈ front, blank c = true) (hback : ∀ c ∈ back, blank c = true)
    (hcore : ∀ c ∈ core, blank c = false) : (front ++ (core ++ back)).strip blank = core := by
  by_cases hnil : core = []
  · subst hnil
    exact strip_eq_nil_iff.mpr (List.forall_mem_append.mpr ⟨hfront, by simpa using hback⟩)
  · have hstart : ∀ c ∈ (core ++ back).head?, blank c = false := by
      intro c hc
      rw [List.head?_append_of_ne_nil _ hnil] at hc
      exact hcore c (List.mem_of_mem_head? hc)
    have hend : ∀ c ∈ core.reverse.head?, blank c = false := by
      intro c hc
      exact hcore c (List.mem_reverse.mp (List.mem_of_mem_head? hc))
    have hreverse : ∀ c ∈ back.reverse, blank c = true := by
      intro c hc
      exact hback c (List.mem_reverse.mp hc)
    rw [strip, dropWhile_append_of_stop hfront hstart, List.reverse_append,
      dropWhile_append_of_stop hreverse hend, List.reverse_reverse]

theorem strip_self (hcore : ∀ c ∈ core, blank c = false) : core.strip blank = core := by
  have h := strip_append (List.forall_mem_nil _) (List.forall_mem_nil _) hcore
  rwa [List.nil_append, List.append_nil] at h

end Text

namespace Settings

theorem Numeral.Spells.graphic {t : Text} {n : Nat} (h : Numeral.Spells t n) :
    t ≠ [] ∧ ∀ c ∈ t, c.IsGraphic := by
  cases h with
  | @intro sign body fraction negative n hsign hbody hfraction =>
  obtain ⟨c, rest, hstart, -⟩ := hbody.exists_cons
  have hdigit (c : CodePoint) (hc : c.isDigit = true) : c.IsGraphic := by
    simp only [CodePoint.isDigit, Bool.and_eq_true, decide_eq_true_eq] at hc
    exact ⟨by omega, by omega⟩
  refine ⟨by simp [hstart], List.forall_mem_append.mpr ⟨?_, List.forall_mem_append.mpr ⟨?_, ?_⟩⟩⟩
  · cases hsign <;> decide
  · intro c hc
    obtain hc | rfl | rfl := hbody.characters c hc
    · exact hdigit c hc
    · decide
    · decide
  · cases hfraction with
    | none => simp
    | point _ hzeros =>
      refine List.forall_mem_cons.mpr ⟨by decide, fun c hc => ?_⟩
      rw [CodePoint.is_iff.mp (hzeros c hc)]
      decide

/-- A text spells an allowance: a numeral between blanks. -/
inductive Spells : Text → Nat → Prop where
  | intro {front core back : Text} {n : Nat} (hfront : ∀ c ∈ front, c.isBlank = true)
      (hcore : Numeral.Spells core n) (hback : ∀ c ∈ back, c.isBlank = true) :
      Spells (front ++ (core ++ back)) n

/-- Both trimmings leave the numeral. -/
theorem spells_iff_strip {t : Text} {n : Nat} :
    Spells t n ↔ Numeral.Spells ((t.strip (·.isBlank)).strip (·.isWhiteSpace)) n := by
  constructor
  · intro h
    cases h with
    | @intro front core back n hfront hcore hback =>
    have hnarrow (c : CodePoint) (hc : c ∈ core) : c.isBlank = false :=
      (hcore.graphic.2 c hc).not_blank
    have hwide (c : CodePoint) (hc : c ∈ core) : c.isWhiteSpace = false := by
      refine Bool.eq_false_iff.mpr fun hwhite => ?_
      have hblank := CodePoint.isBlank_of_isWhiteSpace hwhite
      rw [hnarrow c hc] at hblank
      cases hblank
    rw [Text.strip_append hfront hback hnarrow, Text.strip_self hwide]
    exact hcore
  · intro h
    -- what the two take off at one end stands side by side
    generalize hu : t.strip (·.isBlank) = u at h
    have hsplit : t = (t.front (·.isBlank) ++ u.front (·.isWhiteSpace)) ++
        (u.strip (·.isWhiteSpace) ++ (u.back (·.isWhiteSpace) ++ t.back (·.isBlank))) :=
      calc t = t.front (·.isBlank) ++ (u ++ t.back (·.isBlank)) := by
            rw [← hu, t.front_strip_back]
        _ = t.front (·.isBlank) ++ ((u.front (·.isWhiteSpace) ++
              (u.strip (·.isWhiteSpace) ++ u.back (·.isWhiteSpace))) ++ t.back (·.isBlank)) := by
            rw [u.front_strip_back]
        _ = _ := by simp only [List.append_assoc]
    rw [hsplit]
    refine .intro ?_ h ?_
    · exact List.forall_mem_append.mpr ⟨fun c hc => Text.blank_of_mem_front hc,
        fun c hc => CodePoint.isBlank_of_isWhiteSpace (Text.blank_of_mem_front hc)⟩
    · exact List.forall_mem_append.mpr
        ⟨fun c hc => CodePoint.isBlank_of_isWhiteSpace (Text.blank_of_mem_back hc),
          fun c hc => Text.blank_of_mem_back hc⟩

/-- A numeral between blanks holds no surrogate. -/
theorem hasSurrogate_of_spells {u : Text} {n : Nat}
    (h : Numeral.Spells (u.strip (·.isWhiteSpace)) n) : u.hasSurrogate = false := by
  refine List.any_eq_false.mpr fun c hc => Bool.eq_false_iff.mp ?_
  have hblank (hwhite : c.isWhiteSpace = true) : c.isSurrogate = false :=
    CodePoint.isSurrogate_of_isBlank (CodePoint.isBlank_of_isWhiteSpace hwhite)
  rw [← u.front_strip_back (·.isWhiteSpace), List.mem_append, List.mem_append] at hc
  obtain hc | hc | hc := hc
  · exact hblank (Text.blank_of_mem_front hc)
  · have hgraphic := h.graphic.2 c hc
    exact CodePoint.isSurrogate_of_lt (Nat.lt_of_le_of_lt hgraphic.2 (by decide))
  · exact hblank (Text.blank_of_mem_back hc)

/-- The variable gives what is spelled. -/
theorem ofVariable_ok_iff {t : Text} {n : Nat} :
    ofVariable (some (.text t)) = .ok ⟨some n⟩ ↔ Spells t n := by
  rw [spells_iff_strip]
  show (if (t.strip (·.isBlank)).isEmpty then .ok unlimited
    else ofMembers [(allowanceName, .str (t.strip (·.isBlank)))]) = _ ↔ _
  generalize t.strip (·.isBlank) = u
  cases u with
  | nil =>
    constructor
    · intro h
      cases h
    · intro h
      exact absurd rfl h.graphic.1
  | cons c rest =>
    rw [List.isEmpty_cons, if_neg Bool.false_ne_true, ofMembers_ok_iff, ← Numeral.read_ok_iff]
    show StandsFor (.str (c :: rest)) (some n) ↔ _
    constructor
    · intro h
      cases h with
      | numeral _ hread => exact hread
    · intro h
      exact .numeral (hasSurrogate_of_spells (Numeral.read_ok_iff.mp h)) h

/-- The variable either gives an allowance or is refused, if there is anything in it. -/
theorem ofVariable_error_iff {t : Text} (ht : ∃ c ∈ t, c.isBlank = false) :
    (∃ problems, ofVariable (some (.text t)) = .error problems) ↔ ∀ n, ¬ Spells t n := by
  constructor
  · rintro ⟨problems, hproblems⟩ n hn
    rw [ofVariable_ok_iff.mpr hn] at hproblems
    cases hproblems
  · intro h
    cases hvariable : ofVariable (some (.text t)) with
    | error problems => exact ⟨problems, rfl⟩
    | ok settings =>
      obtain ⟨allowance⟩ := settings
      cases allowance with
      | some n => exact absurd (ofVariable_ok_iff.mp hvariable) (h n)
      | none =>
        -- only a text of blanks stands for no limit
        have hleft : (t.strip (·.isBlank)).isEmpty = false := by
          refine List.isEmpty_eq_false_iff.mpr fun hnil => ?_
          obtain ⟨c, hc, hblank⟩ := ht
          rw [Text.strip_eq_nil_iff.mp hnil c hc] at hblank
          cases hblank
        have hread : ofMembers [(allowanceName, .str (t.strip (·.isBlank)))] = .ok ⟨none⟩ := by
          rw [← hvariable]
          show _ = if (t.strip (·.isBlank)).isEmpty then Except.ok unlimited
            else ofMembers [(allowanceName, .str (t.strip (·.isBlank)))]
          rw [hleft, if_neg Bool.false_ne_true]
        have hstands : StandsFor (.str (t.strip (·.isBlank))) none := ofMembers_ok_iff.mp hread
        cases hstands

end Settings

/-! ## Section 2: The option -/

/-- The option with a value joined to it. -/
def allowanceWord (value : Text) : Text := "--reject-future-seconds=" ++ value

/-- The word is taken apart at its equals sign, whatever the value is. -/
theorem classify_allowanceWord (value : Text) :
    classify [allowanceWord value] = .ok [.option .allowance false (some value)] := by
  rfl

/-- What the option says. -/
theorem parse_allowanceWord (value : Text) :
    Arguments.parse [allowanceWord value] =
      (readAllowanceValue value).map fun given => .run defaultOperand (some given) := by
  have hparsed : parseSlots .empty [] [.option .allowance false (some value)] =
      (readAllowanceValue value).map fun given => some ⟨none, some given, [], true⟩ := by
    simp only [parseSlots]
    cases readAllowanceValue value <;> rfl
  unfold Arguments.parse
  rw [classify_allowanceWord]
  show (parseSlots .empty [] [.option .allowance false (some value)] >>= _) = _
  rw [hparsed]
  cases readAllowanceValue value <;> rfl

section option

variable (world : World) {t : Text} {n : Nat}

/-- The program is to run with an allowance. -/
def OptionGives (t : Text) (n : Nat) : Prop :=
  ∃ operand given, Arguments.parse [allowanceWord t] = .ok (.run operand given) ∧
    settingsFor world given = .ok ⟨some n⟩

/-- The program ends with a usage error. -/
def OptionRefuses (t : Text) : Prop := ∃ e, runProgram world [allowanceWord t] = .usage e

/-- With two dashes for a value the program breaks off. -/
theorem runProgram_dashes :
    runProgram world [allowanceWord "--"] = .failed .emptyAllowance := by
  unfold runProgram
  rw [parse_allowanceWord]
  rfl

theorem parse_of_read {m : Int} (h : IntegerLiteral.read t = .ok m) :
    Arguments.parse [allowanceWord t] = .ok (.run defaultOperand (some (.integer m))) := by
  have ht : t ≠ Text.ofString "--" := by
    rintro rfl
    cases h
  rw [parse_allowanceWord, readAllowanceValue, if_neg ht, h]
  rfl

theorem parse_of_fault {fault : IntegerLiteral.Fault} (ht : t ≠ Text.ofString "--")
    (h : IntegerLiteral.read t = .error fault) :
    Arguments.parse [allowanceWord t] = .error (.notAnInteger .allowance t) := by
  rw [parse_allowanceWord, readAllowanceValue, if_neg ht, h]
  rfl

/-- The option gives what is spelled, with digits of any script. -/
theorem optionGives_iff :
    OptionGives world t n ↔ IntegerLiteral.Spells CodePoint.decimalValue? t (n : Int) := by
  rw [← IntegerLiteral.read_ok_iff]
  constructor
  · rintro ⟨operand, given, hparse, hsettings⟩
    cases hread : IntegerLiteral.read t with
    | ok m =>
      rw [parse_of_read hread] at hparse
      cases hparse
      rw [settingsFor] at hsettings
      split at hsettings
      · cases hsettings
      · next hm =>
        obtain rfl : m.toNat = n := by simpa using hsettings
        rw [Int.toNat_of_nonneg (Int.not_lt.mp hm)]
    | error fault =>
      by_cases ht : t = Text.ofString "--"
      · subst ht
        cases hparse
        cases hsettings
      · rw [parse_of_fault ht hread] at hparse
        cases hparse
  · intro h
    refine ⟨_, _, parse_of_read h, ?_⟩
    rw [settingsFor, if_neg (Int.not_lt.mpr (Int.natCast_nonneg n)), Int.toNat_natCast]

/-- An operand that cannot be opened is no usage error. -/
theorem exists_fault_of_openOperand {operand : Text} {exit : Exit}
    (h : openOperand world operand = .error exit) : ∃ fault, exit = .failed (.file fault) := by
  unfold openOperand at h
  split at h
  · cases h
  · cases hcontents : world.contents operand with
    | error fault =>
      rw [hcontents] at h
      exact ⟨fault, (Except.error.inj h).symm⟩
    | ok bytes =>
      rw [hcontents] at h
      cases h

/-- With settings the program runs, and what ends it then is no usage error. -/
theorem runProgram_ne_usage {words : List Text} {operand : Text} {given : Option GivenAllowance}
    {settings : Settings} (hparse : Arguments.parse words = .ok (.run operand given))
    (hsettings : settingsFor world given = .ok settings) (e : UsageError) :
    runProgram world words ≠ .usage e := by
  intro h
  rw [runProgram, hparse] at h
  cases hbytes : openOperand world operand with
  | error exit =>
    obtain ⟨fault, rfl⟩ := exists_fault_of_openOperand world hbytes
    simp only [runParsed, hsettings, hbytes, bind, Except.bind] at h
    cases h
  | ok bytes =>
    cases hreport : Batch.report settings world.clock (messagesOf bytes) with
    | error fault =>
      simp only [runParsed, hsettings, hbytes, hreport, bind, Except.bind] at h
      cases h
    | ok report =>
      simp only [runParsed, hsettings, hbytes, hreport, bind, Except.bind] at h
      cases h

/-- The option is refused if nothing is spelled, but for the two dashes. -/
theorem optionRefuses_iff :
    OptionRefuses world t ↔ t ≠ Text.ofString "--" ∧
      ∀ n : Nat, ¬ IntegerLiteral.Spells CodePoint.decimalValue? t (n : Int) := by
  constructor
  · rintro ⟨e, he⟩
    refine ⟨?_, fun n hn => ?_⟩
    · rintro rfl
      rw [runProgram_dashes] at he
      cases he
    · obtain ⟨operand, given, hparse, hsettings⟩ := (optionGives_iff world).mpr hn
      exact runProgram_ne_usage world hparse hsettings e he
  · rintro ⟨ht, hnone⟩
    unfold OptionRefuses runProgram
    cases hread : IntegerLiteral.read t with
    | error fault =>
      rw [parse_of_fault ht hread]
      exact ⟨_, rfl⟩
    | ok m =>
      have hnegative : m < 0 := by
        by_contra hm
        refine hnone m.toNat (IntegerLiteral.read_ok_iff.mp ?_)
        rw [hread, Int.toNat_of_nonneg (Int.not_lt.mp hm)]
      rw [parse_of_read hread]
      refine ⟨.negativeAllowance, ?_⟩
      dsimp only
      unfold runParsed
      rw [settingsFor, if_pos hnegative]
      rfl

end option

/-! ## Section 3: What both take -/

section both

variable {t : Text} {m n : Nat}

/-- A text that spells an allowance holds blanks and ASCII. -/
theorem Settings.Spells.characters (h : Settings.Spells t n) :
    ∀ c ∈ t, c.isWhiteSpace = true ∨ c.val < 0x80 := by
  have hblank {c : CodePoint} (hc : c.isBlank = true) : c.isWhiteSpace = true ∨ c.val < 0x80 := by
    refine ((Bool.or_eq_true_iff ..).mp hc).imp_right fun h => ?_
    simp only [Bool.and_eq_true, decide_eq_true_eq] at h
    omega
  cases h with
  | intro hfront hcore hback =>
  refine List.forall_mem_append.mpr ⟨fun c hc => hblank (hfront c hc),
    List.forall_mem_append.mpr ⟨fun c hc => .inr ?_, fun c hc => hblank (hback c hc)⟩⟩
  exact Nat.lt_of_le_of_lt (hcore.graphic.2 c hc).2 (by decide)

/-- What both take is spelled with ASCII digits. -/
theorem plain_of_both (h : Settings.Spells t m)
    (h' : IntegerLiteral.Spells CodePoint.decimalValue? t (n : Int)) :
    IntegerLiteral.Spells CodePoint.digitValue? t (n : Int) := by
  generalize (n : Int) = k at h' ⊢
  cases h' with
  | @intro front sign row back negative ds hfront hsign hrow hlength hback =>
  refine .intro hfront hsign (hrow.mono fun c hc d hd => ?_) hlength hback
  -- blanks are no digits of any script
  obtain hwhite | hascii := h.characters c (by simp [hc])
  · rw [CodePoint.decimalValue?_of_isWhiteSpace hwhite] at hd
    cases hd
  · exact CodePoint.digitValue?_of_decimalValue? hd hascii

theorem spells_decimal_of_plain {k : Int} (h : IntegerLiteral.Spells CodePoint.digitValue? t k) :
    IntegerLiteral.Spells CodePoint.decimalValue? t k := by
  cases h with
  | intro hfront hsign hrow hlength hback =>
    exact .intro hfront hsign
      (hrow.mono fun c _ d hd => CodePoint.decimalValue?_of_digitValue? hd) hlength hback

open Settings.Numeral (Body IsZeros isZeroOrMark)

theorem all_zeros {zeros : Text} (h : zeros = [] ∨ IsZeros zeros) :
    ∀ c ∈ zeros, isZeroOrMark c = true := by
  obtain rfl | h := h
  · simp
  · cases h with
    | intro hrest => exact List.forall_mem_cons.mpr ⟨rfl, hrest⟩

/-- A row of digits is nothing but zeros, or zeros in front of a row that starts with another
    digit. -/
inductive ZerosFirst : Text → List Nat → Prop where
  | zeros {row : Text} {ds : List Nat} (hzeros : IsZeros row)
      (hlast : row.getLast? = some (.ofChar '0')) (hvalue : valueOf ds = 0) : ZerosFirst row ds
  | number {zeros row : Text} {d : Nat} {ds all : List Nat} (hzeros : zeros = [] ∨ IsZeros zeros)
      (hrow : DigitRow CodePoint.digitValue? row (d :: ds)) (hfirst : d ≠ 0)
      (hlength : (d :: ds).length ≤ all.length) (hvalue : valueOf (d :: ds) = valueOf all) :
      ZerosFirst (zeros ++ row) all

/-- One more zero in front does not count. -/
theorem ZerosFirst.cons {row : Text} {ds : List Nat} (h : ZerosFirst row ds) (mark : Text)
    (hmark : ∀ c ∈ mark, isZeroOrMark c = true) :
    ZerosFirst (.ofChar '0' :: (mark ++ row)) (0 :: ds) := by
  cases h with
  | zeros hzeros hlast hvalue =>
    refine .zeros (.intro (List.forall_mem_append.mpr ⟨hmark, all_zeros (.inr hzeros)⟩)) ?_ hvalue
    rw [← List.cons_append, List.getLast?_append, hlast]
    rfl
  | number hzeros hrow hfirst hlength hvalue =>
    rw [← List.append_assoc, ← List.cons_append]
    exact .number (.inr (.intro (List.forall_mem_append.mpr ⟨hmark, all_zeros hzeros⟩))) hrow hfirst
      (Nat.le_succ_of_le hlength) hvalue

theorem zerosFirst_of_row {row : Text} {ds : List Nat}
    (h : DigitRow CodePoint.digitValue? row ds) : ZerosFirst row ds := by
  have hdigit {c : CodePoint} (hc : c.digitValue? = some 0) : c = .ofChar '0' := by
    obtain ⟨hrange, hzero⟩ := CodePoint.isDigit_of_digitValue? hc
    exact (CodePoint.value_eq_zero_iff hrange).mp hzero.symm
  induction h with
  | @last c d hvalue =>
    by_cases hd : d = 0
    · subst hd
      rw [hdigit hvalue]
      exact .zeros (.intro (List.forall_mem_nil _)) rfl rfl
    · exact .number (.inl rfl) (.last hvalue) hd (Nat.le_refl _) rfl
  | @digit c d row ds hvalue hrow ih =>
    by_cases hd : d = 0
    · subst hd
      rw [hdigit hvalue]
      exact ih.cons [] (List.forall_mem_nil _)
    · exact .number (.inl rfl) (.digit hvalue hrow) hd (Nat.le_refl _) rfl
  | @marked c d row ds hvalue hrow ih =>
    by_cases hd : d = 0
    · subst hd
      rw [hdigit hvalue]
      exact ih.cons [.ofChar '_'] (by decide)
    · exact .number (.inl rfl) (.marked hvalue hrow) hd (Nat.le_refl _) rfl

/-- The variable takes all that is spelled plainly. -/
theorem spells_of_plain (h : IntegerLiteral.Spells CodePoint.digitValue? t (n : Int)) :
    Settings.Spells t n := by
  generalize hk : (n : Int) = k at h
  cases h with
  | @intro front sign row back negative ds hfront hsign hrow hlength hback =>
  have hbody : Body negative row n := by
    cases zerosFirst_of_row hrow with
    | zeros hzeros hlast hvalue =>
      obtain rfl : n = 0 := by
        rw [signed, hvalue] at hk
        split at hk <;> simpa using hk
      exact .zeros hzeros hlast
    | @number zeros row' d ds' all hzeros hrow' hfirst hshorter hvalue =>
      -- what is above zero has no minus in front
      have hpositive := valueOf_cons_ne_zero hfirst ds'
      rw [hvalue] at hpositive
      cases negative with
      | true =>
        rw [signed, if_pos rfl] at hk
        omega
      | false =>
        obtain rfl : n = valueOf ds := Int.ofNat.inj hk
        rw [← hvalue]
        exact .number hzeros hrow' hfirst (Nat.le_trans hshorter hlength)
  have hsplit : front ++ (sign ++ (row ++ back)) = front ++ ((sign ++ (row ++ [])) ++ back) := by
    simp only [List.append_nil, List.append_assoc]
  rw [hsplit]
  exact .intro (fun c hc => CodePoint.isBlank_of_isWhiteSpace (hfront c hc))
    (.intro hsign hbody .none) fun c hc => CodePoint.isBlank_of_isWhiteSpace (hback c hc)

theorem Settings.Spells.unique (h : Settings.Spells t m) (h' : Settings.Spells t n) : m = n := by
  have hm := Settings.ofVariable_ok_iff.mpr h
  rw [Settings.ofVariable_ok_iff.mpr h'] at hm
  simpa using hm.symm

/-- Both take what is spelled plainly, and nothing else. -/
theorem spells_both_iff :
    Settings.Spells t n ∧ IntegerLiteral.Spells CodePoint.decimalValue? t (n : Int) ↔
      IntegerLiteral.Spells CodePoint.digitValue? t (n : Int) := by
  constructor
  · rintro ⟨h, h'⟩
    exact plain_of_both h h'
  · intro h
    exact ⟨spells_of_plain h, spells_decimal_of_plain h⟩

/-- No text is taken for two integers. -/
theorem eq_of_spells_both (h : Settings.Spells t m)
    (h' : IntegerLiteral.Spells CodePoint.decimalValue? t (n : Int)) : m = n :=
  h.unique (spells_of_plain (plain_of_both h h'))

end both

/-! ## Section 4: Agreement -/

/-- The settings of an environment whose variable of the allowance holds a text. -/
def variableSettings (others : Environment) (t : Text) : Checked Settings :=
  Settings.ofEnvironment ((Text.ofString Settings.allowanceVariable, t) :: others)

/-- The variable and the option give the same allowance, or the settings are invalid and the
    program ends with a usage error. -/
def Agree (others : Environment) (world : World) (t : Text) : Prop :=
  (∃ n : Nat, variableSettings others t = .ok ⟨some n⟩ ∧ OptionGives world t n) ∨
    ((∃ problems, variableSettings others t = .error problems) ∧ OptionRefuses world t)

section agree

variable (others : Environment) (world : World) {t : Text}

theorem variableSettings_eq (t : Text) :
    variableSettings others t = Settings.ofVariable (some (.text t)) := by
  have hget : Environment.get? ((Text.ofString Settings.allowanceVariable, t) :: others)
      Settings.allowanceVariable = some t := by
    rw [Environment.get?, List.find?_cons_of_pos (by simp)]
    rfl
  rw [variableSettings, Settings.ofEnvironment, hget]
  rfl

theorem variableSettings_ok_iff {n : Nat} :
    variableSettings others t = .ok ⟨some n⟩ ↔ Settings.Spells t n := by
  rw [variableSettings_eq, Settings.ofVariable_ok_iff]

/-- What both give is spelled plainly, so neither gives anything else. -/
theorem plain_of_gives {m n : Nat} (hn : variableSettings others t = .ok ⟨some n⟩)
    (hn' : OptionGives world t n)
    (hm : Settings.Spells t m ∨ IntegerLiteral.Spells CodePoint.decimalValue? t (m : Int)) :
    IntegerLiteral.Spells CodePoint.digitValue? t (m : Int) := by
  rw [variableSettings_ok_iff] at hn
  rw [optionGives_iff] at hn'
  have hplain := plain_of_both hn hn'
  obtain hm | hm := hm
  · rw [eq_of_spells_both hm hn']
    exact hplain
  · rw [← eq_of_spells_both hn hm]
    exact hplain

theorem ne_dashes_of_gives {n : Nat} (h : OptionGives world t n) : t ≠ Text.ofString "--" := by
  rintro rfl
  have hread := IntegerLiteral.read_ok_iff.mpr ((optionGives_iff world).mp h)
  cases hread

/-- Both refuse a text exactly if it is spelled for neither, but for the two dashes. -/
theorem refuse_iff (ht : ∃ c ∈ t, c.isBlank = false) :
    (∃ problems, variableSettings others t = .error problems) ∧ OptionRefuses world t ↔
      t ≠ Text.ofString "--" ∧ ∀ n : Nat,
        ¬ (Settings.Spells t n ∨ IntegerLiteral.Spells CodePoint.decimalValue? t (n : Int)) := by
  rw [variableSettings_eq, Settings.ofVariable_error_iff ht, optionRefuses_iff]
  simp only [not_or, forall_and]
  exact and_left_comm

end agree

/-- The variable gives what is spelled for it, and the option what is spelled with digits of any
    script.  What both give is spelled plainly, and then they give the same.  On a text that is not
    blank they agree exactly if it is spelled plainly wherever it is spelled at all, and if it is
    not the two dashes that leave the option without a value. -/
theorem allowances_agree_iff (others : Environment) (world : World) (t : Text)
    (ht : ∃ c ∈ t, c.isBlank = false) :
    (∀ n, variableSettings others t = .ok ⟨some n⟩ ↔ Settings.Spells t n) ∧
    (∀ n : Nat, OptionGives world t n ↔ IntegerLiteral.Spells CodePoint.decimalValue? t n) ∧
    (∀ n : Nat, variableSettings others t = .ok ⟨some n⟩ ∧ OptionGives world t n ↔
      IntegerLiteral.Spells CodePoint.digitValue? t n) ∧
    (∀ m n, variableSettings others t = .ok ⟨some m⟩ → OptionGives world t n → m = n) ∧
    (Agree others world t ↔ t ≠ Text.ofString "--" ∧
      ∀ n : Nat, Settings.Spells t n ∨ IntegerLiteral.Spells CodePoint.decimalValue? t n →
        IntegerLiteral.Spells CodePoint.digitValue? t n) := by
  have hboth (n : Nat) : variableSettings others t = .ok ⟨some n⟩ ∧ OptionGives world t n ↔
      IntegerLiteral.Spells CodePoint.digitValue? t n := by
    rw [variableSettings_ok_iff, optionGives_iff, spells_both_iff]
  refine ⟨fun n => variableSettings_ok_iff others, fun n => optionGives_iff world, hboth,
    fun m n hm hn => eq_of_spells_both ((variableSettings_ok_iff others).mp hm)
      ((optionGives_iff world).mp hn), ?_⟩
  constructor
  · rintro (⟨n, hvariable, hoption⟩ | hrefused)
    · exact ⟨ne_dashes_of_gives world hoption,
        fun m hm => plain_of_gives others world hvariable hoption hm⟩
    · obtain ⟨hdashes, hnone⟩ := (refuse_iff others world ht).mp hrefused
      exact ⟨hdashes, fun n hn => absurd hn (hnone n)⟩
  · rintro ⟨hdashes, hplain⟩
    by_cases hspelled : ∃ n : Nat,
        Settings.Spells t n ∨ IntegerLiteral.Spells CodePoint.decimalValue? t n
    · obtain ⟨n, hn⟩ := hspelled
      exact .inl ⟨n, (hboth n).mpr (hplain n hn)⟩
    · exact .inr ((refuse_iff others world ht).mpr ⟨hdashes, not_exists.mp hspelled⟩)

/-- Seven in a text with a sign, a zero in front, an underscore and a blank. -/
theorem allowances_agree_on_plain :
    let t : Text := "+0_7 "
    (∃ c ∈ t, c.isBlank = false) ∧ Agree [] (worldOf []) t ∧
      variableSettings [] t = .ok ⟨some 7⟩ := by
  intro t
  have ht : ∃ c ∈ t, c.isBlank = false := ⟨.ofChar '7', by decide, by decide⟩
  obtain ⟨-, -, hboth, -, -⟩ := allowances_agree_iff [] (worldOf []) t ht
  have hrow : DigitRow CodePoint.digitValue? "0_7" [0, 7] := .marked rfl (.last rfl)
  have hplain : IntegerLiteral.Spells CodePoint.digitValue?
      ([] ++ (Text.ofString "+" ++ (Text.ofString "0_7" ++ Text.ofString " ")))
      (signed false (valueOf [0, 7])) :=
    .intro (List.forall_mem_nil _) .plus hrow (by decide) (by decide)
  obtain ⟨hvariable, hoption⟩ := (hboth 7).mpr hplain
  exact ⟨ht, .inl ⟨7, hvariable, hoption⟩, hvariable⟩

/-- A fraction of zeros counts only for the variable, and a digit of another script only for the
    option. -/
theorem allowances_differ :
    (variableSettings [] "1.0" = .ok ⟨some 1⟩ ∧
      runProgram (worldOf []) [allowanceWord "1.0"] = .usage (.notAnInteger .allowance "1.0") ∧
      ¬ Agree [] (worldOf []) "1.0") ∧
    (variableSettings [] [.ofNat 0x663]).toOption = none ∧
      OptionGives (worldOf []) [.ofNat 0x663] 3 := by
  have hvariable : variableSettings [] "1.0" = .ok ⟨some 1⟩ := by rfl
  have hother : IntegerLiteral.read [.ofNat 0x663] = .ok 3 := by decide +kernel
  refine ⟨⟨hvariable, by rfl, ?_⟩, by decide +kernel,
    (optionGives_iff _).mpr (IntegerLiteral.read_ok_iff.mp hother)⟩
  rintro (⟨n, -, hgives⟩ | ⟨⟨problems, hproblems⟩, -⟩)
  · have hread := IntegerLiteral.read_ok_iff.mpr ((optionGives_iff _).mp hgives)
    cases hread
  · rw [hvariable] at hproblems
    cases hproblems

end SignedEvents
