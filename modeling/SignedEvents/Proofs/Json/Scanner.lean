import SignedEvents.Proofs.Json.Grammar
import SignedEvents.Proofs.Text.Hex

/-! # The scanner and the grammar

  The scanner takes the longest token at the front of a text, and what it takes is written as the
  grammar says.

  - **scanString_text**, **pieces_of_scanString** — strings.
  - **scanNumber_written**, **written_of_scanNumber** — numbers.
  - **scanToken_lexeme**, **lexeme_of_scanToken** — all tokens.
-/

namespace SignedEvents.Json

/-! ## Section 1: Strings -/

theorem is_of_val {c : CodePoint} {k : Char} (h : c.val = k.toNat) : c.is k = true := by
  rw [CodePoint.is, h, beq_self_eq_true]

theorem is_of_val_ne {c : CodePoint} {k : Char} (h : c.val ≠ k.toNat) : c.is k = false := by
  rw [CodePoint.is, beq_eq_false_iff_ne]
  exact h

theorem val_of_is {c : CodePoint} {k : Char} (h : c.is k = true) : c.val = k.toNat := by
  rwa [CodePoint.is, beq_iff_eq] at h

theorem simpleEscape?_entries : ∀ entry ∈ letterEscapes,
    simpleEscape? (.ofNat entry.1) = some (.ofNat entry.2) ∧
      (CodePoint.ofNat entry.1).is 'u' = false := by
  decide

theorem simpleEscape?_of_mem {e c : CodePoint} (h : (e.val, c.val) ∈ letterEscapes) :
    simpleEscape? e = some c ∧ e.is 'u' = false := by
  have hentry := simpleEscape?_entries _ h
  rwa [CodePoint.ofNat_val, CodePoint.ofNat_val] at hentry

theorem mem_of_simpleEscape? {e c : CodePoint} (h : simpleEscape? e = some c) :
    (e.val, c.val) ∈ letterEscapes := by
  unfold simpleEscape? at h
  split at h
  · next he =>
    cases h
    simp only [Bool.or_eq_true] at he
    rcases he with (he | he) | he <;> rw [val_of_is he] <;> decide
  split at h
  · next he => cases h; rw [val_of_is he]; decide
  split at h
  · next he => cases h; rw [val_of_is he]; decide
  split at h
  · next he => cases h; rw [val_of_is he]; decide
  split at h
  · next he => cases h; rw [val_of_is he]; decide
  split at h
  · next he => cases h; rw [val_of_is he]; decide
  cases h

section step

variable (cursor : StringCursor) (afterHigh : Bool) (done : Text)

theorem scanString_quote (rest : Text) :
    scanString cursor afterHigh done (quoteMark :: rest) =
      (.str done.reverse, cursor.size + 1) := by
  rw [scanString.eq_def]
  rfl

theorem scanString_plain {c : CodePoint} (hc : 0x20 ≤ c.val ∧ c.val ≠ 0x22 ∧ c.val ≠ 0x5C)
    (rest : Text) :
    scanString cursor afterHigh done (c :: rest) =
      scanString (cursor.after c) false (c :: done) rest := by
  have hquote : c.is '"' = false := is_of_val_ne hc.2.1
  have hslash : c.is '\\' = false := is_of_val_ne hc.2.2
  have hlow : ¬ c.val < 0x20 := by omega
  rw [scanString.eq_def]
  simp only [hquote, hslash, hlow, Bool.false_eq_true, if_false]

theorem scanString_letter {e c : CodePoint} (he : (e.val, c.val) ∈ letterEscapes) (rest : Text) :
    scanString cursor afterHigh done (backslash :: e :: rest) =
      scanString ((cursor.after backslash).after e) false (c :: done) rest := by
  obtain ⟨hsimple, hu⟩ := simpleEscape?_of_mem he
  rw [scanString.eq_def]
  have hquote : backslash.is '"' = false := rfl
  have hslash : backslash.is '\\' = true := rfl
  simp only [hquote, hslash, hu, hsimple, Bool.false_eq_true, if_false, if_true]

theorem scanString_numbered {h₁ h₂ h₃ h₄ c : CodePoint} (hn : hexQuad? h₁ h₂ h₃ h₄ = some c.val)
    {rest : Text} (hrest : rest ≠ []) :
    ∃ next : StringCursor, next.size = cursor.size + 6 ∧
      scanString cursor afterHigh done
          (backslash :: .ofChar 'u' :: h₁ :: h₂ :: h₃ :: h₄ :: rest) =
        scanString next c.isHighSurrogate (addEscaped afterHigh done c) rest := by
  refine ⟨[backslash, .ofChar 'u', h₁, h₂, h₃, h₄].foldl StringCursor.after cursor, rfl, ?_⟩
  rw [scanString.eq_def]
  have hquote : backslash.is '"' = false := rfl
  have hslash : backslash.is '\\' = true := rfl
  have hu : (CodePoint.ofChar 'u').is 'u' = true := rfl
  have hempty : rest.isEmpty = false := by
    cases rest with
    | nil => exact absurd rfl hrest
    | cons c rest => rfl
  simp only [hquote, hslash, hu, hn, hempty, CodePoint.ofNat_val, Bool.false_eq_true, if_false,
    if_true]

end step

/-- What the scanner has read: the text `before`, and perhaps the first half of a pair, which the
    next piece may complete. -/
inductive Pending : Bool → Text → List Piece → Text → Prop where
  | none (before : Text) : Pending false before [] before
  | half {p : Piece} (before : Text) (hp : p.isHigh = true) :
      Pending true (p.point :: before) [p] before

section pending

variable {afterHigh : Bool} {done before : Text} {pending : List Piece}

/-- A piece that completes no pair leaves what was read before it as it is. -/
theorem Pending.meaning_eq (h : Pending afterHigh done pending before) {q : Piece}
    (ps : List Piece) (hq : q.isLow = false ∨ pending = []) :
    before.reverse ++ Piece.meaning (pending ++ q :: ps) =
      done.reverse ++ Piece.meaning (q :: ps) := by
  cases h with
  | none before => rfl
  | half before hp =>
    have hlow : q.isLow = false := hq.resolve_right (List.cons_ne_nil _ _)
    rw [List.singleton_append, Piece.meaning_cons_cons _ hlow, List.reverse_cons,
      List.append_assoc, List.singleton_append]

/-- A piece that neither starts nor completes a pair stands for its own code point. -/
theorem Pending.meaning_single (h : Pending afterHigh done pending before) {q : Piece}
    (hhigh : q.isHigh = false) (hlow : q.isLow = false ∨ pending = []) (ps : List Piece) :
    (q.point :: done).reverse ++ Piece.meaning ([] ++ ps) =
      before.reverse ++ Piece.meaning (pending ++ q :: ps) := by
  rw [h.meaning_eq ps hlow, Piece.meaning_cons ps hhigh, List.reverse_cons, List.append_assoc]
  rfl

/-- A number that completes no pair is added as it is. -/
theorem Pending.addEscaped_eq (h : Pending afterHigh done pending before) {c : CodePoint}
    (hc : c.isLowSurrogate = false ∨ pending = []) : addEscaped afterHigh done c = c :: done := by
  cases h with
  | none before => rfl
  | half before hp =>
    have hlow : c.isLowSurrogate = false := hc.resolve_right (List.cons_ne_nil _ _)
    simp only [addEscaped, hlow, Bool.false_eq_true, if_false]

theorem isHighSurrogate_of_isLowSurrogate {c : CodePoint} (h : c.isLowSurrogate = true) :
    c.isHighSurrogate = false := by
  simp only [CodePoint.isLowSurrogate, Bool.and_eq_true, decide_eq_true_eq] at h
  simp only [CodePoint.isHighSurrogate, Bool.and_eq_false_iff, decide_eq_false_iff_not]
  omega

/-- One piece: the scanner moves behind it, and what it has read and the pieces to come still
    stand for the same text. -/
theorem scanString_piece (h : Pending afterHigh done pending before) (cursor : StringCursor)
    (q : Piece) {rest : Text} (hrest : rest ≠ []) :
    ∃ (next : StringCursor) (afterHigh' : Bool) (done' : Text) (pending' : List Piece)
        (before' : Text),
      Pending afterHigh' done' pending' before' ∧
        next.size = cursor.size + q.text.length ∧
        (∀ ps, before'.reverse ++ Piece.meaning (pending' ++ ps) =
          before.reverse ++ Piece.meaning (pending ++ q :: ps)) ∧
        scanString cursor afterHigh done (q.text ++ rest) =
          scanString next afterHigh' done' rest := by
  cases q with
  | plain c hc =>
    exact ⟨_, _, _, _, _, .none _, rfl, h.meaning_single rfl (.inl rfl),
      scanString_plain _ _ _ hc rest⟩
  | letter e c he =>
    exact ⟨_, _, _, _, _, .none _, rfl, h.meaning_single rfl (.inl rfl),
      scanString_letter _ _ _ he rest⟩
  | numbered h₁ h₂ h₃ h₄ c hn =>
    obtain ⟨next, hsize, hstep⟩ := scanString_numbered cursor afterHigh done hn hrest
    by_cases hpair : c.isLowSurrogate = true ∧ pending ≠ []
    · -- the second half of a pair: the pending first half goes with it
      obtain ⟨hlow, hne⟩ := hpair
      cases h with
      | none before => exact absurd rfl hne
      | @half p before hp =>
        refine ⟨next, false, .ofPair p.point c :: before, [], _, .none _, hsize, fun ps => ?_, ?_⟩
        · have hmeaning := Piece.meaning_pair (q := .numbered h₁ h₂ h₃ h₄ c hn) ps hp hlow
          rw [List.singleton_append, hmeaning, List.reverse_cons, List.append_assoc]
          rfl
        · rw [isHighSurrogate_of_isLowSurrogate hlow, addEscaped, if_pos hlow] at hstep
          exact hstep
    · have hkeep : c.isLowSurrogate = false ∨ pending = [] := by
        by_cases hlow : c.isLowSurrogate = true
        · exact .inr (Decidable.not_not.mp fun hne => hpair ⟨hlow, hne⟩)
        · exact .inl (Bool.eq_false_iff.mpr hlow)
      rw [h.addEscaped_eq hkeep] at hstep
      cases hhigh : c.isHighSurrogate with
      | true =>
        -- the first half of a pair, or of none: the next piece decides
        rw [hhigh] at hstep
        have hhalf := Pending.half (p := .numbered h₁ h₂ h₃ h₄ c hn) done hhigh
        have hmeaning ps := h.meaning_eq (q := .numbered h₁ h₂ h₃ h₄ c hn) ps hkeep
        exact ⟨next, true, c :: done, _, done, hhalf, hsize, fun ps => (hmeaning ps).symm, hstep⟩
      | false =>
        rw [hhigh] at hstep
        have hmeaning := h.meaning_single (q := .numbered h₁ h₂ h₃ h₄ c hn) hhigh hkeep
        exact ⟨next, false, c :: done, [], _, .none _, hsize, hmeaning, hstep⟩

/-- The scanner reads written pieces up to the quote as what they stand for. -/
theorem scanString_text (h : Pending afterHigh done pending before) (cursor : StringCursor)
    (ps : List Piece) (rest : Text) :
    scanString cursor afterHigh done (ps.flatMap Piece.text ++ quoteMark :: rest) =
      (.str (before.reverse ++ Piece.meaning (pending ++ ps)),
        cursor.size + (ps.flatMap Piece.text).length + 1) := by
  induction ps generalizing cursor afterHigh done before pending with
  | nil =>
    rw [List.flatMap_nil, List.nil_append, scanString_quote, List.append_nil]
    cases h with
    | none before => rw [Piece.meaning, List.append_nil]; rfl
    | half before hp => rw [Piece.meaning, List.reverse_cons]; rfl
  | cons q ps ih =>
    have hrest : ps.flatMap Piece.text ++ quoteMark :: rest ≠ [] :=
      List.append_ne_nil_of_right_ne_nil _ (List.cons_ne_nil _ _)
    obtain ⟨next, _, _, _, _, hnext, hsize, hmeaning, hstep⟩ := scanString_piece h cursor q hrest
    rw [List.flatMap_cons, List.append_assoc, hstep, ih hnext next, hmeaning, hsize,
      List.length_append, Nat.add_assoc cursor.size]

end pending

theorem hexQuad?_lt {a b c d : CodePoint} {n : Nat} (h : hexQuad? a b c d = some n) :
    n < 0x10000 := by
  unfold hexQuad? at h
  split at h
  · next a b c d ha hb hc hd =>
    have hn := Option.some.inj h
    have ha := (CodePoint.isHex_of_hexValue? ha).2
    have hb := (CodePoint.isHex_of_hexValue? hb).2
    have hc := (CodePoint.isHex_of_hexValue? hc).2
    have hd := (CodePoint.isHex_of_hexValue? hd).2
    omega
  · cases h

/-- A string that the scanner does not break off is written in pieces, up to a quote. -/
theorem pieces_of_scanString {cursor : StringCursor} {afterHigh : Bool} {done t : Text}
    (h : (scanString cursor afterHigh done t).1.isLast = false) :
    ∃ ps rest, t = List.flatMap Piece.text ps ++ quoteMark :: rest := by
  fun_induction scanString cursor afterHigh done t with
  | case2 _ _ _ c rest hc =>
    rw [CodePoint.is_iff] at hc
    exact ⟨[], rest, congrArg (· :: rest) hc⟩
  | case5 _ _ _ c _ hc e he h₁ h₂ h₃ h₄ rest n hn _ _ _ _ ih =>
    obtain ⟨ps, rest, rfl⟩ := ih h
    have hval : (CodePoint.ofNat n).val = n :=
      CodePoint.val_ofNat (Nat.lt_trans (hexQuad?_lt hn) (by decide))
    refine ⟨.numbered h₁ h₂ h₃ h₄ (.ofNat n) (by rw [hval, hn]) :: ps, rest, ?_⟩
    rw [CodePoint.is_iff.mp hc, CodePoint.is_iff.mp he]
    rfl
  | case8 _ _ _ c _ hc e rest _ x hx ih =>
    obtain ⟨ps, rest, rfl⟩ := ih h
    refine ⟨.letter e x (mem_of_simpleEscape? hx) :: ps, rest, ?_⟩
    rw [CodePoint.is_iff.mp hc]
    rfl
  | case11 _ _ _ c rest hquote hslash hlow ih =>
    obtain ⟨ps, rest, rfl⟩ := ih h
    have hplain : 0x20 ≤ c.val ∧ c.val ≠ 0x22 ∧ c.val ≠ 0x5C :=
      ⟨Nat.le_of_not_lt hlow, fun hc => hquote (is_of_val hc), fun hc => hslash (is_of_val hc)⟩
    exact ⟨.plain c hplain :: ps, rest, rfl⟩
  | _ => cases h

/-! ## Section 2: Numbers -/

theorem isDigit_digit (d : Nat) : (CodePoint.digit d).isDigit = true := by
  have h : d % 10 < 10 := Nat.mod_lt _ (by decide)
  show (decide (0x30 ≤ 0x30 + d % 10) && decide (0x30 + d % 10 ≤ 0x39)) = true
  rw [Bool.and_eq_true, decide_eq_true_eq, decide_eq_true_eq]
  omega

theorem val_digit {d : Nat} (h : d < 10) : (CodePoint.digit d).val - 0x30 = d := by
  show 0x30 + d % 10 - 0x30 = d
  omega

theorem digit_val {c : CodePoint} (h : c.isDigit = true) :
    CodePoint.digit (c.val - 0x30) = c ∧ c.val - 0x30 < 10 := by
  simp only [CodePoint.isDigit, Bool.and_eq_true, decide_eq_true_eq] at h
  refine ⟨CodePoint.ext_val ?_, by omega⟩
  show 0x30 + (c.val - 0x30) % 10 = c.val
  omega

/-- Digits are taken up to the first code point that is none. -/
theorem leadingDigits_append {digits : List Nat} {rest : Text} (hsmall : ∀ d ∈ digits, d < 10)
    (hrest : ∀ c ∈ rest.head?, c.isDigit = false) :
    leadingDigits (digits.map CodePoint.digit ++ rest) = digits := by
  induction digits with
  | nil =>
    cases rest with
    | nil => rfl
    | cons c rest =>
      have hc := hrest c rfl
      rw [List.map_nil, List.nil_append, leadingDigits, List.takeWhile_cons, hc]
      rfl
  | cons d digits ih =>
    have hd := val_digit (hsmall d (List.mem_cons_self ..))
    have hdigits := ih fun d hd => hsmall d (List.mem_cons_of_mem _ hd)
    rw [leadingDigits] at hdigits ⊢
    rw [List.map_cons, List.cons_append, List.takeWhile_cons, isDigit_digit, if_pos rfl,
      List.map_cons, hd, hdigits]

theorem leadingDigits_split (t : Text) :
    ∃ rest, t = (leadingDigits t).map CodePoint.digit ++ rest ∧
      ∀ d ∈ leadingDigits t, d < 10 := by
  induction t with
  | nil => exact ⟨[], rfl, fun d hd => absurd hd (List.not_mem_nil)⟩
  | cons c t ih =>
    unfold leadingDigits at ih ⊢
    rw [List.takeWhile_cons]
    split
    · next hc =>
      obtain ⟨rest, hrest, hsmall⟩ := ih
      obtain ⟨hdigit, hlt⟩ := digit_val hc
      refine ⟨rest, ?_, ?_⟩
      · rw [List.map_cons, List.map_cons, List.cons_append, hdigit, ← hrest]
      · intro d hd
        rw [List.map_cons, List.mem_cons] at hd
        rcases hd with rfl | hd
        · exact hlt
        · exact hsmall d hd
    · exact ⟨c :: t, rfl, fun d hd => absurd hd (List.not_mem_nil)⟩

/-- A code point that a number goes on with: a digit, a point or the mark of an exponent. -/
def continuesNumber (c : CodePoint) : Bool := c.isDigit || c.is '.' || c.is 'e' || c.is 'E'

theorem continuesNumber_eq_false_iff {c : CodePoint} : continuesNumber c = false ↔
    c.isDigit = false ∧ c.is '.' = false ∧ c.is 'e' = false ∧ c.is 'E' = false := by
  simp only [continuesNumber, Bool.or_eq_false_iff, and_assoc]

theorem not_is_of_isDigit {c : CodePoint} {k : Char} (h : c.isDigit = true)
    (hk : k.toNat < 0x30 ∨ 0x39 < k.toNat) : c.is k = false := by
  simp only [CodePoint.isDigit, Bool.and_eq_true, decide_eq_true_eq] at h
  exact is_of_val_ne (by omega)

namespace DigitsWritten

variable {digits : List Nat} {t : Text}

theorem head (h : DigitsWritten digits t) : ∃ c rest, t = c :: rest ∧ c.isDigit = true := by
  obtain ⟨hne, -, rfl⟩ := h
  obtain ⟨d, digits, rfl⟩ := List.exists_cons_of_ne_nil hne
  exact ⟨_, _, rfl, isDigit_digit d⟩

theorem isEmpty_eq (h : DigitsWritten digits t) : digits.isEmpty = false :=
  List.isEmpty_eq_false_iff.mpr h.nonempty

theorem length_eq (h : DigitsWritten digits t) : t.length = digits.length := by
  rw [h.text, List.length_map]

/-- Written digits are read up to the first code point that is none. -/
theorem leadingDigits_eq (h : DigitsWritten digits t) {rest : Text}
    (hrest : ∀ c ∈ rest.head?, c.isDigit = false) : leadingDigits (t ++ rest) = digits := by
  rw [h.text]
  exact leadingDigits_append h.small hrest

end DigitsWritten

/-- What follows the digits of a number goes on with no digit and no point. -/
theorem exponent_head {exponent : Option Int} {e rest : Text} (h : ExponentWritten exponent e)
    (hrest : ∀ c ∈ rest.head?, continuesNumber c = false) :
    ∀ c ∈ (e ++ rest).head?, c.isDigit = false ∧ c.is '.' = false := by
  intro c hc
  cases h with
  | absent =>
    obtain ⟨hdigit, hpoint, -⟩ := continuesNumber_eq_false_iff.mp (hrest c hc)
    exact ⟨hdigit, hpoint⟩
  | present hmark hsign hdigits =>
    obtain rfl := Option.some.inj hc
    rcases hmark with rfl | rfl
    · exact ⟨rfl, rfl⟩
    · exact ⟨rfl, rfl⟩

theorem scanExponentSign_written {negative : Bool} {sign t : Text} (h : SignWritten negative sign)
    (ht : ∃ c rest, t = c :: rest ∧ c.isDigit = true) :
    scanExponentSign (sign ++ t) = (negative, sign.length) := by
  cases h with
  | plus => rfl
  | minus => rfl
  | absent =>
    obtain ⟨c, rest, rfl, hc⟩ := ht
    have hminus : c.is '-' = false := not_is_of_isDigit hc (by decide)
    have hplus : c.is '+' = false := not_is_of_isDigit hc (by decide)
    simp [scanExponentSign, hminus, hplus]

theorem scanExponent_written {exponent : Option Int} {e rest : Text}
    (h : ExponentWritten exponent e) (hrest : ∀ c ∈ rest.head?, continuesNumber c = false) :
    scanExponent (e ++ rest) = exponent.map fun n => (n, e.length) := by
  cases h with
  | absent =>
    cases rest with
    | nil => rfl
    | cons c rest =>
      obtain ⟨-, -, hlower, hupper⟩ := continuesNumber_eq_false_iff.mp (hrest c rfl)
      rw [List.nil_append, scanExponent]
      simp [hlower, hupper]
  | @present mark negative digits sign t hmark hsign hdigits =>
    have hexp : (mark.is 'e' || mark.is 'E') = true := by
      rcases hmark with rfl | rfl
      · rfl
      · rfl
    have hdigit : leadingDigits (t ++ rest) = digits := by
      refine hdigits.leadingDigits_eq fun c hc => ?_
      exact (continuesNumber_eq_false_iff.mp (hrest c hc)).1
    have hscan : scanExponentSign (sign ++ (t ++ rest)) = (negative, sign.length) := by
      obtain ⟨c, tail, rfl, hc⟩ := hdigits.head
      exact scanExponentSign_written hsign ⟨c, tail ++ rest, rfl, hc⟩
    rw [List.cons_append, scanExponent, List.append_assoc]
    simp only [hexp, if_true, hscan, List.drop_left, hdigit, hdigits.isEmpty_eq,
      Bool.false_eq_true, if_false, Option.map_some, List.length_cons, List.length_append,
      hdigits.length_eq]
    congr 2
    omega

theorem scanFraction_written {fraction : Option (List Nat)} {f rest : Text}
    (h : FractionWritten fraction f)
    (hrest : ∀ c ∈ rest.head?, c.isDigit = false ∧ c.is '.' = false) :
    scanFraction (f ++ rest) = fraction := by
  cases h with
  | absent =>
    cases rest with
    | nil => rfl
    | cons c rest =>
      have hc := (hrest c rfl).2
      rw [List.nil_append, scanFraction]
      simp [hc]
  | @present digits t hdigits =>
    have hdigit : leadingDigits (t ++ rest) = digits :=
      hdigits.leadingDigits_eq fun c hc => (hrest c hc).1
    have hpoint : (CodePoint.ofChar '.').is '.' = true := rfl
    rw [List.cons_append, scanFraction]
    simp only [hdigit, hdigits.isEmpty_eq, hpoint, Bool.not_false, Bool.and_true, if_true]

theorem FractionWritten.length_eq {fraction : Option (List Nat)} {f : Text}
    (h : FractionWritten fraction f) : f.length = (fraction.map (1 + ·.length)).getD 0 := by
  cases h with
  | absent => rfl
  | @present digits t hdigits =>
    show t.length + 1 = 1 + digits.length
    rw [hdigits.length_eq, Nat.add_comm]

/-- What follows the digits before the point goes on with no digit. -/
theorem FractionWritten.head {fraction : Option (List Nat)} {f rest : Text}
    (h : FractionWritten fraction f) (hrest : ∀ c ∈ rest.head?, c.isDigit = false) :
    ∀ c ∈ (f ++ rest).head?, c.isDigit = false := by
  cases h with
  | absent => exact hrest
  | present hdigits =>
    intro c hc
    obtain rfl := Option.some.inj hc
    rfl

theorem scanWhole_written {whole : List Nat} {t rest : Text} (h : DigitsWritten whole t)
    (hzero : whole.head? = some 0 → whole = [0])
    (hrest : ∀ c ∈ rest.head?, c.isDigit = false) : scanWhole (t ++ rest) = some whole := by
  unfold scanWhole
  rw [h.leadingDigits_eq hrest]
  cases whole with
  | nil => exact absurd rfl h.nonempty
  | cons d whole =>
    cases d with
    | zero =>
      rw [hzero rfl]
      rfl
    | succ d => rfl

/-- The parts of a number and the number of code points that they take. -/
theorem scanNumber_eq {t afterWhole : Text} {negative : Bool} {whole : List Nat}
    {fraction : Option (List Nat)} {size : Nat}
    (hnegative : t.head?.any (·.is '-') = negative)
    (hwhole : scanWhole (t.drop negative.toNat) = some whole)
    (hafter : t.drop (negative.toNat + whole.length) = afterWhole)
    (hfraction : scanFraction afterWhole = fraction)
    (hsize : (fraction.map (1 + ·.length)).getD 0 = size) :
    scanNumber t =
      match scanExponent (afterWhole.drop size) with
      | some (exponent, expSize) =>
        some (⟨negative, whole, fraction, some exponent⟩,
          negative.toNat + whole.length + size + expSize)
      | none =>
        some (⟨negative, whole, fraction, none⟩, negative.toNat + whole.length + size) := by
  unfold scanNumber
  cases t with
  | nil =>
    subst hnegative
    change scanWhole [] = some whole at hwhole
    cases hwhole
  | cons c t =>
    have hsign : c.is '-' = negative := hnegative
    have hsignSize : (if negative = true then 1 else 0) = negative.toNat := by
      cases negative <;> rfl
    simp only [hsign, hsignSize, hwhole, hafter, hfraction]
    cases fraction with
    | none =>
      cases hsize
      rfl
    | some digits =>
      cases hsize
      rfl

theorem drop_minusSign (negative : Bool) (t : Text) :
    (minusSign negative ++ t).drop negative.toNat = t := by
  rw [← length_minusSign, List.drop_left]

theorem head_minusSign (negative : Bool) {t : Text}
    (ht : ∃ c rest, t = c :: rest ∧ c.isDigit = true) :
    (minusSign negative ++ t).head?.any (·.is '-') = negative := by
  cases negative with
  | true => rfl
  | false =>
    obtain ⟨c, rest, rfl, hc⟩ := ht
    exact not_is_of_isDigit hc (by decide)

/-- A written number is read whole, if nothing after it goes on with it. -/
theorem scanNumber_written {n : Numeral} {t rest : Text} (h : n.Written t)
    (hrest : ∀ c ∈ rest.head?, continuesNumber c = false) :
    scanNumber (t ++ rest) = some (n, t.length) := by
  cases h with
  | @mk negative whole fraction exponent t f e hwhole hzero hfraction hexponent =>
    have hafter := exponent_head hexponent hrest
    have hafterWhole := hfraction.head fun c hc => (hafter c hc).1
    have hnegative : (minusSign negative ++ (t ++ (f ++ (e ++ rest)))).head?.any (·.is '-') =
        negative := by
      obtain ⟨c, tail, rfl, hc⟩ := hwhole.head
      exact head_minusSign negative ⟨c, _, rfl, hc⟩
    have hint : scanWhole ((minusSign negative ++ (t ++ (f ++ (e ++ rest)))).drop
        negative.toNat) = some whole := by
      rw [drop_minusSign]
      exact scanWhole_written hwhole hzero hafterWhole
    have hdrop : (minusSign negative ++ (t ++ (f ++ (e ++ rest)))).drop
        (negative.toNat + whole.length) = f ++ (e ++ rest) := by
      rw [← List.drop_drop, drop_minusSign, ← hwhole.length_eq, List.drop_left]
    rw [List.append_assoc, List.append_assoc, List.append_assoc,
      scanNumber_eq hnegative hint hdrop (scanFraction_written hfraction hafter)
        hfraction.length_eq.symm,
      List.drop_left, scanExponent_written hexponent hrest]
    simp only [List.length_append, length_minusSign, hwhole.length_eq]
    cases hexponent with
    | absent => simp [Nat.add_assoc]
    | present => simp [Nat.add_assoc]

theorem digitsWritten_leadingDigits {t : Text} (h : leadingDigits t ≠ []) :
    ∃ rest, t = (leadingDigits t).map CodePoint.digit ++ rest ∧
      DigitsWritten (leadingDigits t) ((leadingDigits t).map CodePoint.digit) := by
  obtain ⟨rest, hsplit, hsmall⟩ := leadingDigits_split t
  exact ⟨rest, hsplit, h, hsmall, rfl⟩

theorem written_of_scanWhole {t : Text} {whole : List Nat} (h : scanWhole t = some whole) :
    ∃ rest, t = whole.map CodePoint.digit ++ rest ∧
      DigitsWritten whole (whole.map CodePoint.digit) ∧
      (whole.head? = some 0 → whole = [0]) := by
  obtain ⟨rest, hsplit, hsmall⟩ := leadingDigits_split t
  unfold scanWhole at h
  split at h
  · cases h
  · next zeros hdigits =>
    cases h
    rw [hdigits] at hsplit
    have hzero : ∀ d ∈ [0], d < 10 := by decide
    exact ⟨_, hsplit, ⟨List.cons_ne_nil _ _, hzero, rfl⟩, fun _ => rfl⟩
  · next hne hzero =>
    cases h
    refine ⟨rest, hsplit, ⟨hne, hsmall, rfl⟩, fun hhead => ?_⟩
    obtain ⟨tail, htail⟩ := List.head?_eq_some_iff.mp hhead
    exact absurd htail (hzero tail)

theorem written_of_scanFraction (t : Text) :
    ∃ f rest, t = f ++ rest ∧ FractionWritten (scanFraction t) f := by
  cases t with
  | nil => exact ⟨[], [], rfl, .absent⟩
  | cons point t =>
    by_cases hpoint : (point.is '.' && !(leadingDigits t).isEmpty) = true
    · simp only [scanFraction, hpoint, if_true]
      rw [Bool.and_eq_true, Bool.not_eq_true', List.isEmpty_eq_false_iff] at hpoint
      obtain ⟨rest, hsplit, hwritten⟩ := digitsWritten_leadingDigits hpoint.2
      rw [CodePoint.is_iff.mp hpoint.1]
      exact ⟨_, rest, congrArg _ hsplit, .present hwritten⟩
    · simp only [scanFraction, hpoint, Bool.false_eq_true, if_false]
      exact ⟨[], point :: t, rfl, .absent⟩

theorem written_of_scanExponentSign (t : Text) :
    ∃ sign, t = sign ++ t.drop (scanExponentSign t).2 ∧ sign.length = (scanExponentSign t).2 ∧
      SignWritten (scanExponentSign t).1 sign := by
  cases t with
  | nil => exact ⟨[], rfl, rfl, .absent⟩
  | cons c t =>
    by_cases hminus : c.is '-' = true
    · rw [CodePoint.is_iff.mp hminus]
      exact ⟨_, rfl, rfl, .minus⟩
    by_cases hplus : c.is '+' = true
    · rw [CodePoint.is_iff.mp hplus]
      exact ⟨_, rfl, rfl, .plus⟩
    · simp only [scanExponentSign, hminus, hplus, Bool.false_eq_true, if_false]
      exact ⟨[], rfl, rfl, .absent⟩

theorem written_of_scanExponent {t : Text} {exponent : Int} {size : Nat}
    (h : scanExponent t = some (exponent, size)) :
    ∃ e rest, t = e ++ rest ∧ e.length = size ∧ ExponentWritten (some exponent) e := by
  unfold scanExponent at h
  cases t with
  | nil => cases h
  | cons mark t =>
    obtain ⟨sign, hsign, hlength, hwritten⟩ := written_of_scanExponentSign t
    simp only at h
    split at h
    · next hmark =>
      split at h
      · cases h
      · next hdigits =>
        rw [Bool.not_eq_true, List.isEmpty_eq_false_iff] at hdigits
        obtain ⟨rest, hsplit, hpresent⟩ := digitsWritten_leadingDigits hdigits
        cases h
        rw [Bool.or_eq_true, CodePoint.is_iff, CodePoint.is_iff] at hmark
        refine ⟨_, rest, ?_, ?_, .present hmark hwritten hpresent⟩
        · rw [List.cons_append, List.append_assoc, ← hsplit, ← hsign]
        · rw [List.length_cons, List.length_append, List.length_map, hlength]
          omega
    · cases h

/-- A number that is read is written as the text at the front. -/
theorem written_of_scanNumber {t : Text} {n : Numeral} {size : Nat}
    (h : scanNumber t = some (n, size)) :
    ∃ w rest, t = w ++ rest ∧ w.length = size ∧ n.Written w := by
  obtain ⟨negative, hnegative⟩ : ∃ negative, t.head?.any (·.is '-') = negative := ⟨_, rfl⟩
  have hminus : t = minusSign negative ++ t.drop negative.toNat := by
    cases t with
    | nil => subst hnegative; rfl
    | cons c t =>
      cases negative with
      | false => rfl
      | true =>
        rw [CodePoint.is_iff.mp hnegative]
        rfl
  cases hwhole : scanWhole (t.drop negative.toNat) with
  | none =>
    unfold scanNumber at h
    cases t with
    | nil => cases h
    | cons c t =>
      have hsign : c.is '-' = negative := hnegative
      have hsize : (if negative = true then 1 else 0) = negative.toNat := by
        cases negative <;> rfl
      simp only [hsign, hsize, hwhole] at h
      cases h
  | some whole =>
    obtain ⟨afterWhole, hsplit, hdigits, hzero⟩ := written_of_scanWhole hwhole
    obtain ⟨f, afterFraction, hfraction, hwritten⟩ := written_of_scanFraction afterWhole
    have hafter : t.drop (negative.toNat + whole.length) = afterWhole := by
      have hwidth : whole.length = (whole.map CodePoint.digit).length := List.length_map _ |>.symm
      rw [← List.drop_drop, hsplit, hwidth, List.drop_left]
    have hdrop : afterWhole.drop f.length = afterFraction := by
      rw [hfraction, List.drop_left]
    rw [scanNumber_eq hnegative hwhole hafter rfl hwritten.length_eq.symm, hdrop] at h
    split at h
    · next exponent expSize hexp =>
      obtain ⟨e, rest, rfl, hlength, hexponent⟩ := written_of_scanExponent hexp
      cases h
      refine ⟨_, rest, ?_, ?_, .mk hdigits hzero hwritten hexponent⟩
      · rw [hminus, hsplit, hfraction]
        simp only [List.append_assoc]
      · simp only [List.length_append, length_minusSign, List.length_map, hlength]
        omega
    · cases h
      refine ⟨_, afterFraction, ?_, ?_, .mk hdigits hzero hwritten .absent⟩
      · rw [hminus, hsplit, hfraction]
        simp only [List.append_assoc, List.nil_append]
      · simp only [List.length_append, length_minusSign, List.length_map, List.length_nil]
        omega

/-! ## Section 3: All tokens -/

theorem words_start : ∀ entry ∈ words, 2 ≤ (Text.ofString entry.1).length ∧
    ((Text.ofString entry.1).take 2).any CodePoint.isDigit = false := by
  decide

theorem lexeme_word : ∀ entry ∈ words, Lexeme entry.2 entry.1 := by
  simp only [words, List.forall_mem_cons, List.not_mem_nil, false_implies, implies_true, and_true]
  exact ⟨.null, .true, .false, .nan, .infinity, .minusInfinity⟩

/-- No word starts like a number. -/
theorem scanWord_of_digit {t : Text} (h : (t.take 2).any CodePoint.isDigit = true) :
    scanWord t = none := by
  unfold scanWord
  rw [List.findSome?_eq_none_iff]
  intro entry hentry
  obtain ⟨hlength, hdigit⟩ := words_start entry hentry
  refine if_neg fun hstart => ?_
  obtain ⟨rest, rfl⟩ := List.isPrefixOf_iff_prefix.mp hstart
  rw [List.take_append_of_le_length hlength, hdigit] at h
  cases h

theorem Numeral.Written.head {n : Numeral} {t : Text} (h : n.Written t) :
    ∃ c rest, t = c :: rest ∧ (c.isDigit = true ∨ c = .ofChar '-') ∧
      (t.take 2).any CodePoint.isDigit = true := by
  cases h with
  | @mk negative whole fraction exponent t f e hwhole =>
    obtain ⟨c, rest, rfl, hdigit⟩ := hwhole.head
    cases negative with
    | false => exact ⟨c, _, rfl, .inl hdigit, by simp [minusSign, hdigit]⟩
    | true => exact ⟨_, _, rfl, .inr rfl, by simp [minusSign, hdigit]⟩

theorem punctuation?_of_number {c : CodePoint} (h : c.isDigit = true ∨ c = .ofChar '-') :
    punctuation? c = none ∧ c.is '"' = false ∧ isSpace c = false := by
  rcases h with hdigit | rfl
  · have hne (k : Char) := not_is_of_isDigit (k := k) hdigit
    simp only [CodePoint.isDigit, Bool.and_eq_true, decide_eq_true_eq] at hdigit
    have hopen : ¬ c.val = 0x7B := by omega
    have hclose : ¬ c.val = 0x7D := by omega
    refine ⟨?_, hne _ (by decide), ?_⟩
    · unfold punctuation?
      simp only [hne '[' (by decide), hne ']' (by decide), hne ',' (by decide),
        hne ':' (by decide), hopen, hclose, Bool.false_eq_true, if_false]
    · simp only [isSpace, Bool.or_eq_false_iff, beq_eq_false_iff_ne]
      omega
  · exact ⟨rfl, rfl, rfl⟩

/-- A number goes on with what could belong to it; any other token ends by itself. -/
def Token.EndsBefore (token : Token) (rest : Text) : Prop :=
  match token with
  | .number _ => ∀ c ∈ rest.head?, continuesNumber c = false
  | _ => True

/-- A written token is read whole. -/
theorem scanToken_lexeme {token : Token} {w : Text} (h : Lexeme token w) (place : Place)
    {rest : Text} (hrest : token.EndsBefore rest) :
    ∃ c tail, w = c :: tail ∧ isSpace c = false ∧ token.isLast = false ∧
      scanToken place c (tail ++ rest) = (token, w.length) := by
  cases h with
  | number hwritten =>
    obtain ⟨c, tail, hw, hc, hdigit⟩ := hwritten.head
    obtain ⟨hpunctuation, hquote, hspace⟩ := punctuation?_of_number hc
    refine ⟨c, tail, hw, hspace, rfl, ?_⟩
    have hlong : ((w ++ rest).take 2).any CodePoint.isDigit = true := by
      rw [List.take_append, List.any_append, hdigit, Bool.true_or]
    have hnumber := scanNumber_written hwritten hrest
    unfold scanToken
    rw [hpunctuation, hquote, ← List.cons_append, ← hw, scanWord_of_digit hlong, hnumber]
    rfl
  | str ps =>
    refine ⟨quoteMark, _, rfl, rfl, rfl, ?_⟩
    have hstring := scanString_text (.none []) ⟨place, place.after quoteMark, 1⟩ ps rest
    rw [List.append_assoc, List.singleton_append]
    refine (Eq.trans ?_ hstring).trans ?_
    · rfl
    · simp only [List.reverse_nil, List.nil_append, List.length_cons, List.length_append,
        List.length_nil]
      congr 1
      omega
  | _ => exact ⟨_, _, rfl, rfl, rfl, rfl⟩

theorem lexeme_of_punctuation? {c : CodePoint} {token : Token} (h : punctuation? c = some token) :
    Lexeme token [c] := by
  unfold punctuation? at h
  split at h
  · next hc => cases h; rw [CodePoint.is_iff.mp hc]; exact .openArray
  split at h
  · next hc => cases h; rw [CodePoint.is_iff.mp hc]; exact .closeArray
  split at h
  · next hc => cases h; rw [CodePoint.ext_val (b := .ofChar '\x7b') hc]; exact .openObject
  split at h
  · next hc => cases h; rw [CodePoint.ext_val (b := .ofChar '\x7d') hc]; exact .closeObject
  split at h
  · next hc => cases h; rw [CodePoint.is_iff.mp hc]; exact .comma
  split at h
  · next hc => cases h; rw [CodePoint.is_iff.mp hc]; exact .colon
  · cases h

theorem lexeme_of_scanWord {t : Text} {token : Token} {size : Nat}
    (h : scanWord t = some (token, size)) :
    ∃ w rest, t = w ++ rest ∧ w.length = size ∧ Lexeme token w := by
  obtain ⟨⟨word, found⟩, hentry, hfound⟩ := List.exists_of_findSome?_eq_some h
  simp only at hfound
  split at hfound
  · next hstart =>
    cases hfound
    obtain ⟨rest, rfl⟩ := List.isPrefixOf_iff_prefix.mp hstart
    exact ⟨_, rest, rfl, by rw [Text.ofString, List.length_map, String.length_toList],
      lexeme_word _ hentry⟩
  · cases hfound

/-- What the scanner takes for a token is written as the text at the front. -/
theorem lexeme_of_scanToken {place : Place} {c : CodePoint} {rest : Text} {token : Token}
    {size : Nat} (h : scanToken place c rest = (token, size)) (hlast : token.isLast = false) :
    ∃ w after, c :: rest = w ++ after ∧ w.length = size ∧ Lexeme token w := by
  unfold scanToken at h
  split at h
  · next token hpunctuation =>
    cases h
    exact ⟨[c], rest, rfl, rfl, lexeme_of_punctuation? hpunctuation⟩
  split at h
  · next hquote =>
    have hwhole : (scanString ⟨place, place.after c, 1⟩ false [] rest).1.isLast = false := by
      rw [h]
      exact hlast
    obtain ⟨ps, after, rfl⟩ := pieces_of_scanString hwhole
    rw [scanString_text (.none [])] at h
    cases h
    refine ⟨_, after, ?_, ?_, .str ps⟩
    · rw [CodePoint.is_iff.mp hquote]
      simp only [List.cons_append, List.append_assoc, List.nil_append]
      rfl
    · simp only [List.length_cons, List.length_append, List.length_nil]
      omega
  split at h
  · next found hword =>
    cases h
    exact lexeme_of_scanWord hword
  split at h
  · next n size hnumber =>
    cases h
    obtain ⟨w, after, hsplit, hlength, hwritten⟩ := written_of_scanNumber hnumber
    exact ⟨w, after, hsplit, hlength, .number hwritten⟩
  · cases h
    cases hlast

theorem Lexeme.ne_nil {token : Token} {w : Text} (h : Lexeme token w) : w ≠ [] := by
  rintro rfl
  cases h with
  | number hwritten =>
    obtain ⟨c, rest, hcons, -⟩ := hwritten.head
    cases hcons

theorem scanString_ne_endOfText (cursor : StringCursor) (afterHigh : Bool) (done t : Text) :
    (scanString cursor afterHigh done t).1 ≠ .endOfText := by
  fun_induction scanString cursor afterHigh done t with
  | case5 | case8 | case11 => assumption
  | _ => exact Token.noConfusion

theorem scanWord_ne_endOfText {t : Text} {found : Token × Nat} (h : scanWord t = some found) :
    found.1 ≠ .endOfText := by
  obtain ⟨w, rest, -, -, hlexeme⟩ := lexeme_of_scanWord h
  intro heq
  rw [heq] at hlexeme
  cases hlexeme

/-- The end of the text is found at no code point. -/
theorem scanToken_ne_endOfText (place : Place) (c : CodePoint) (rest : Text) :
    (scanToken place c rest).1 ≠ .endOfText := by
  unfold scanToken
  split
  · next token hpunctuation =>
    rintro rfl
    cases lexeme_of_punctuation? hpunctuation
  split
  · exact scanString_ne_endOfText _ _ _ _
  split
  · next found hword => exact scanWord_ne_endOfText hword
  split
  · exact Token.noConfusion
  · exact Token.noConfusion

end SignedEvents.Json
