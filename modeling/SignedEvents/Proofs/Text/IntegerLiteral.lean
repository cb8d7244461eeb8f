import Mathlib.Data.List.TakeWhile
import SignedEvents.Proofs.Json.Grammar
import SignedEvents.Text.IntegerLiteral

/-! # The spellings of integers

  Which texts are read as integers, and as which.

  - **DigitRow** — digits with single underscores between them.
  - **IsSign** — a sign, or none.
  - **IntegerLiteral.Spells** — a text spells an integer.
  - **IntegerLiteral.read_ok_iff** — what is read is what is spelled.
-/

namespace SignedEvents

/-! ## Section 1: Digits -/

namespace CodePoint

variable {c : CodePoint} {d : Nat}

/-- A digit of any script stands in the row of its zero. -/
theorem exists_row_of_decimalValue? (h : c.decimalValue? = some d) :
    ∃ first ∈ decimalZeros, first ≤ c.val ∧ c.val ≤ first + 9 := by
  obtain ⟨first, hfirst, hrow⟩ := List.exists_of_findSome?_eq_some h
  split at hrow
  · next hc => exact ⟨first, hfirst, by simpa using hc⟩
  · cases hrow

/-- What may stand around the digits of an integer: White_Space, signs and underscores. -/
def literalMarks : List Nat :=
  [0x09, 0x0A, 0x0B, 0x0C, 0x0D, 0x20, 0x85, 0xA0, 0x1680, 0x2000, 0x2001, 0x2002, 0x2003, 0x2004,
    0x2005, 0x2006, 0x2007, 0x2008, 0x2009, 0x200A, 0x2028, 0x2029, 0x202F, 0x205F, 0x3000, 0x2B,
    0x2D, 0x5F]

theorem decimalValue?_of_mem_literalMarks (h : c.val ∈ literalMarks) : c.decimalValue? = none := by
  have hapart : ∀ n ∈ literalMarks, ∀ first ∈ decimalZeros, ¬ (first ≤ n ∧ n ≤ first + 9) := by
    decide +kernel
  refine Option.eq_none_iff_forall_ne_some.mpr fun d hd => ?_
  obtain ⟨first, hfirst, hrow⟩ := exists_row_of_decimalValue? hd
  exact hapart _ h first hfirst hrow

theorem decimalValue?_of_isWhiteSpace (h : c.isWhiteSpace = true) : c.decimalValue? = none := by
  refine decimalValue?_of_mem_literalMarks ?_
  simp only [isWhiteSpace, isAsciiBlank, isWideBlank, Bool.or_eq_true, Bool.and_eq_true,
    decide_eq_true_eq, beq_iff_eq] at h
  simp only [literalMarks, List.mem_cons, List.not_mem_nil, or_false]
  omega

/-- The row of the ASCII digits comes first. -/
theorem decimalValue?_eq_or : c.decimalValue? = c.digitValue?.or
    (decimalZeros.tail.findSome? fun first =>
      if first ≤ c.val && c.val ≤ first + 9 then some (c.val - first) else none) := by
  rw [decimalValue?, show decimalZeros = 0x30 :: decimalZeros.tail from rfl, List.findSome?_cons,
    digitValue?]
  by_cases hrow : (0x30 ≤ c.val && c.val ≤ 0x39) = true
  · rw [if_pos hrow]
    rfl
  · rw [if_neg hrow]
    rfl

theorem decimalValue?_of_digitValue? (h : c.digitValue? = some d) : c.decimalValue? = some d := by
  rw [decimalValue?_eq_or, h, Option.some_or]

/-- No other script has digits in ASCII. -/
theorem digitValue?_of_decimalValue? (h : c.decimalValue? = some d) (hascii : c.val < 0x80) :
    c.digitValue? = some d := by
  have hothers : ∀ first ∈ decimalZeros.tail, 0x80 ≤ first := by decide +kernel
  rw [decimalValue?_eq_or] at h
  cases hdigit : c.digitValue? with
  | some n => rwa [hdigit, Option.some_or] at h
  | none =>
    rw [hdigit, Option.none_or] at h
    obtain ⟨first, hfirst, hrow⟩ := List.exists_of_findSome?_eq_some h
    have := hothers first hfirst
    rw [if_neg (by simp; omega)] at hrow
    cases hrow

end CodePoint

/-! ## Section 2: Parts of texts -/

namespace Text

variable {p : CodePoint → Bool} {t u : Text}

/-- A part of one class ends where the class ends. -/
theorem takeWhile_append_of_stop (ht : ∀ c ∈ t, p c = true) (hu : ∀ c ∈ u.head?, p c = false) :
    (t ++ u).takeWhile p = t := by
  rw [List.takeWhile_append_of_pos ht]
  cases u with
  | nil => rw [List.takeWhile_nil, List.append_nil]
  | cons c rest => rw [List.takeWhile_cons, hu c rfl, if_neg Bool.false_ne_true, List.append_nil]

theorem dropWhile_append_of_stop (ht : ∀ c ∈ t, p c = true) (hu : ∀ c ∈ u.head?, p c = false) :
    (t ++ u).dropWhile p = u := by
  rw [List.dropWhile_append_of_pos ht]
  cases u with
  | nil => rfl
  | cons c rest => rw [List.dropWhile_cons, hu c rfl, if_neg Bool.false_ne_true]

theorem stop_of_mem_head?_dropWhile {c : CodePoint} (hc : c ∈ (t.dropWhile p).head?) :
    p c = false := by
  have h := List.head?_dropWhile_not p t
  rw [hc] at h
  exact h

end Text

/-! ## Section 3: Rows of digits -/

/-- Digits with single underscores between them, and their values. -/
inductive DigitRow (value? : CodePoint → Option Nat) : Text → List Nat → Prop where
  | last {c : CodePoint} {d : Nat} (hdigit : value? c = some d) : DigitRow value? [c] [d]
  | digit {c : CodePoint} {d : Nat} {row : Text} {ds : List Nat} (hdigit : value? c = some d)
      (hrow : DigitRow value? row ds) : DigitRow value? (c :: row) (d :: ds)
  | marked {c : CodePoint} {d : Nat} {row : Text} {ds : List Nat} (hdigit : value? c = some d)
      (hrow : DigitRow value? row ds) : DigitRow value? (c :: .ofChar '_' :: row) (d :: ds)

namespace DigitRow

variable {value? : CodePoint → Option Nat} {row : Text} {ds : List Nat}

theorem digit_or_mark (h : DigitRow value? row ds) :
    ∀ c ∈ row, (value? c).isSome = true ∨ c = .ofChar '_' := by
  induction h with
  | last hdigit => simp [hdigit]
  | digit hdigit _ ih => exact List.forall_mem_cons.mpr ⟨.inl (by simp [hdigit]), ih⟩
  | marked hdigit _ ih =>
    exact List.forall_mem_cons.mpr
      ⟨.inl (by simp [hdigit]), List.forall_mem_cons.mpr ⟨.inr rfl, ih⟩⟩

/-- A row starts with a digit. -/
theorem exists_cons (h : DigitRow value? row ds) :
    ∃ c rest d ds', row = c :: rest ∧ ds = d :: ds' ∧ value? c = some d := by
  cases h with
  | last hdigit | digit hdigit | marked hdigit => exact ⟨_, _, _, _, rfl, rfl, hdigit⟩

/-- Digits may be taken for digits of a larger class. -/
theorem mono {other? : CodePoint → Option Nat} (h : DigitRow value? row ds)
    (hdigits : ∀ c ∈ row, ∀ d, value? c = some d → other? c = some d) :
    DigitRow other? row ds := by
  induction h with
  | last hdigit => exact .last (hdigits _ List.mem_cons_self _ hdigit)
  | digit hdigit _ ih =>
    exact .digit (hdigits _ List.mem_cons_self _ hdigit)
      (ih fun c hc => hdigits c (List.mem_cons_of_mem _ hc))
  | marked hdigit _ ih =>
    exact .marked (hdigits _ List.mem_cons_self _ hdigit)
      (ih fun c hc => hdigits c (List.mem_cons_of_mem _ (List.mem_cons_of_mem _ hc)))

end DigitRow

section digitRow

variable {value? : CodePoint → Option Nat} {row : Text} {ds : List Nat}

/-- What may follow a digit: nothing, a row of digits, or a row behind an underscore. -/
inductive AfterDigit (value? : CodePoint → Option Nat) : Text → List Nat → Prop where
  | nothing : AfterDigit value? [] []
  | row {row : Text} {ds : List Nat} (hrow : DigitRow value? row ds) : AfterDigit value? row ds
  | marked {row : Text} {ds : List Nat} (hrow : DigitRow value? row ds) :
      AfterDigit value? (.ofChar '_' :: row) ds

theorem AfterDigit.cons {c : CodePoint} {d : Nat} (h : AfterDigit value? row ds)
    (hdigit : value? c = some d) : DigitRow value? (c :: row) (d :: ds) := by
  cases h with
  | nothing => exact .last hdigit
  | row hrow => exact .digit hdigit hrow
  | marked hrow => exact .marked hdigit hrow

theorem digitRow_of_digits? :
    (separatedDigits? value? false row = some ds → DigitRow value? row ds) ∧
      (separatedDigits? value? true row = some ds → AfterDigit value? row ds) := by
  induction row generalizing ds with
  | nil =>
    refine ⟨fun h => (by cases h), fun h => ?_⟩
    obtain rfl := Option.some.inj h
    exact .nothing
  | cons c rest ih =>
    cases hdigit : value? c with
    | some d =>
      -- after a digit it does not matter what stands in front of it
      have hrow (afterDigit : Bool) (h : separatedDigits? value? afterDigit (c :: rest) = some ds) :
          DigitRow value? (c :: rest) ds := by
        simp only [separatedDigits?, hdigit, Option.map_eq_some_iff] at h
        obtain ⟨ds', hrest, rfl⟩ := h
        exact (ih.2 hrest).cons hdigit
      exact ⟨hrow false, fun h => .row (hrow true h)⟩
    | none =>
      simp only [separatedDigits?, hdigit, Bool.and_false, Bool.and_true, Bool.false_eq_true,
        ↓reduceIte, reduceCtorEq, false_imp_iff, true_and]
      intro h
      split at h
      · next hmark =>
        obtain rfl := CodePoint.is_iff.mp hmark
        exact .marked (ih.1 h)
      · cases h

theorem digits?_of_digitRow (hplain : value? (.ofChar '_') = none)
    (h : DigitRow value? row ds) (afterDigit : Bool) :
    separatedDigits? value? afterDigit row = some ds := by
  induction h generalizing afterDigit with
  | last hdigit => simp [separatedDigits?, hdigit]
  | digit hdigit _ ih => simp [separatedDigits?, hdigit, ih]
  | marked hdigit _ ih =>
    have hmark : (CodePoint.ofChar '_').is '_' = true := rfl
    simp [separatedDigits?, hdigit, hplain, hmark, ih]

theorem separatedDigits?_eq_some_iff (hplain : value? (.ofChar '_') = none) :
    separatedDigits? value? false row = some ds ↔ DigitRow value? row ds :=
  ⟨digitRow_of_digits?.1, fun h => digits?_of_digitRow hplain h false⟩

end digitRow

/-! ## Section 4: Signs -/

/-- A sign, or none.  The truth value says whether it is a minus. -/
inductive IsSign : Text → Bool → Prop where
  | none : IsSign [] false
  | plus : IsSign [.ofChar '+'] false
  | minus : IsSign [.ofChar '-'] true

theorem exists_sign (t : Text) :
    ∃ sign, IsSign sign (takeSign t).1 ∧ t = sign ++ (takeSign t).2 := by
  unfold takeSign
  cases t with
  | nil => exact ⟨[], .none, rfl⟩
  | cons c rest =>
    dsimp only
    split
    · next hminus =>
      obtain rfl := CodePoint.is_iff.mp hminus
      exact ⟨_, .minus, rfl⟩
    · split
      · next hplus =>
        obtain rfl := CodePoint.is_iff.mp hplus
        exact ⟨_, .plus, rfl⟩
      · exact ⟨[], .none, rfl⟩

theorem takeSign_append {sign t : Text} {negative : Bool} (hsign : IsSign sign negative)
    (ht : ∀ c ∈ t.head?, c.is '-' = false ∧ c.is '+' = false) :
    takeSign (sign ++ t) = (negative, t) := by
  cases hsign with
  | none =>
    cases t with
    | nil => rfl
    | cons c rest =>
      obtain ⟨hminus, hplus⟩ := ht c rfl
      simp [takeSign, hminus, hplus]
  | plus | minus => rfl

/-! ## Section 5: Integers -/

namespace IntegerLiteral

/-- A text spells an integer: White_Space, a sign, digits with single underscores between them, no
    more than the limit, and White_Space. -/
inductive Spells (value? : CodePoint → Option Nat) : Text → Int → Prop where
  | intro {front sign row back : Text} {negative : Bool} {ds : List Nat}
      (hfront : ∀ c ∈ front, c.isWhiteSpace = true) (hsign : IsSign sign negative)
      (hrow : DigitRow value? row ds) (hlength : ds.length ≤ digitLimit)
      (hback : ∀ c ∈ back, c.isWhiteSpace = true) :
      Spells value? (front ++ (sign ++ (row ++ back))) (signed negative (valueOf ds))

theorem isDigitOrMark_of_isWhiteSpace {c : CodePoint} (h : c.isWhiteSpace = true) :
    isDigitOrMark c = false := by
  have hmark : c.is '_' = false := by
    refine Bool.eq_false_iff.mpr fun hmark => ?_
    obtain rfl := CodePoint.is_iff.mp hmark
    revert h
    decide
  rw [isDigitOrMark, CodePoint.decimalValue?_of_isWhiteSpace h, hmark]
  rfl

theorem read_of_spells {t : Text} {n : Int} (h : Spells CodePoint.decimalValue? t n) :
    read t = .ok n := by
  cases h with
  | @intro front sign row back negative ds hfront hsign hrow hlength hback =>
  obtain ⟨c, rest, d, ds', hstart, -, hdigit⟩ := hrow.exists_cons
  have hother (k : Char) (hk : k.toNat ∈ CodePoint.literalMarks) : c.is k = false := by
    refine Bool.eq_false_iff.mpr fun hc => ?_
    obtain rfl := CodePoint.is_iff.mp hc
    rw [CodePoint.decimalValue?_of_mem_literalMarks hk] at hdigit
    cases hdigit
  -- the blanks end at the sign or at the first digit, and the digits before the blanks behind them
  have hunblank : ∀ b ∈ (sign ++ (row ++ back)).head?, b.isWhiteSpace = false := by
    cases hsign with
    | none =>
      intro b hb
      rw [hstart, List.nil_append, List.cons_append, List.head?_cons, Option.mem_some_iff] at hb
      subst hb
      refine Bool.eq_false_iff.mpr fun hblank => ?_
      rw [CodePoint.decimalValue?_of_isWhiteSpace hblank] at hdigit
      cases hdigit
    | plus | minus =>
      intro b hb
      obtain rfl := Option.some.inj hb
      decide
  have hunsigned : ∀ b ∈ (row ++ back).head?, b.is '-' = false ∧ b.is '+' = false := by
    intro b hb
    rw [hstart, List.cons_append, List.head?_cons, Option.mem_some_iff] at hb
    subst hb
    exact ⟨hother '-' (by decide), hother '+' (by decide)⟩
  have hmarks : ∀ b ∈ row, isDigitOrMark b = true := fun b hb => by
    obtain hvalue | rfl := hrow.digit_or_mark b hb
    · rw [isDigitOrMark, hvalue, Bool.true_or]
    · rfl
  have hstop : ∀ b ∈ back.head?, isDigitOrMark b = false := fun b hb =>
    isDigitOrMark_of_isWhiteSpace (hback b (List.mem_of_mem_head? hb))
  have hdigits := (separatedDigits?_eq_some_iff (by decide +kernel)).mpr hrow
  unfold read
  rw [Text.dropWhile_append_of_stop hfront hunblank, takeSign_append hsign hunsigned]
  dsimp only
  rw [Text.takeWhile_append_of_stop hmarks hstop, Text.dropWhile_append_of_stop hmarks hstop,
    hdigits]
  dsimp only
  rw [if_neg (Nat.not_lt.mpr hlength), if_pos (List.all_eq_true.mpr hback)]

theorem spells_of_read {t : Text} {n : Int} (h : read t = .ok n) :
    Spells CodePoint.decimalValue? t n := by
  unfold read at h
  obtain ⟨sign, hsign, hsplit⟩ := exists_sign (t.dropWhile (·.isWhiteSpace))
  generalize takeSign (t.dropWhile (·.isWhiteSpace)) = taken at h hsign hsplit
  obtain ⟨negative, unsigned⟩ := taken
  dsimp only at h hsign hsplit
  split at h
  · cases h
  · next ds hrow =>
    split at h
    · cases h
    · next hlength =>
      split at h
      · next hback =>
        obtain rfl := Except.ok.inj h
        -- the parts that have been read make up the text
        have ht : t = t.takeWhile (·.isWhiteSpace) ++ (sign ++
            (unsigned.takeWhile isDigitOrMark ++ unsigned.dropWhile isDigitOrMark)) := by
          rw [List.takeWhile_append_dropWhile, ← hsplit, List.takeWhile_append_dropWhile]
        rw [ht]
        exact .intro (List.all_eq_true.mp List.all_takeWhile) hsign
          ((separatedDigits?_eq_some_iff (by decide +kernel)).mp hrow) (Nat.not_lt.mp hlength)
          (List.all_eq_true.mp hback)
      · cases h

/-- What is read is what is spelled, with digits of any script. -/
theorem read_ok_iff {t : Text} {n : Int} :
    read t = .ok n ↔ Spells CodePoint.decimalValue? t n :=
  ⟨spells_of_read, read_of_spells⟩

end IntegerLiteral

end SignedEvents
