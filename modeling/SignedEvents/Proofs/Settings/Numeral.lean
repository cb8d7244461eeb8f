import SignedEvents.Proofs.Json.Margins
import SignedEvents.Proofs.Text.IntegerLiteral
import SignedEvents.Settings.Numeral

/-! # The numerals of settings

  Which texts are read as natural numbers, and as which.  Much may stand in front of the digits and
  behind them that does not count.

  - **digitRow_iff_dropMarks** — underscores that are taken off.
  - **Numeral.readPlain_ok_iff** — plain digits.
  - **Numeral.Body** — digits with what may stand among them.
  - **Numeral.Spells** — a text spells a natural number.
  - **Numeral.read_ok_iff** — what is read is what is spelled.
-/

namespace SignedEvents

/-! ## Section 1: Values of digits -/

theorem foldl_digits_ne_zero {n : Nat} (h : n ≠ 0) (ds : List Nat) :
    ds.foldl (fun n d => 10 * n + d) n ≠ 0 := by
  induction ds generalizing n with
  | nil => exact h
  | cons d ds ih =>
    have hstep : 10 * n + d ≠ 0 := by omega
    exact ih hstep

theorem valueOf_cons_ne_zero {d : Nat} (hd : d ≠ 0) (ds : List Nat) : valueOf (d :: ds) ≠ 0 := by
  have hfirst : 10 * 0 + d ≠ 0 := by omega
  exact foldl_digits_ne_zero hfirst ds

namespace CodePoint

variable {c : CodePoint}

theorem digitValue?_of_isDigit (h : c.isDigit = true) : c.digitValue? = some (c.val - 0x30) :=
  if_pos h

theorem isDigit_of_digitValue? {d : Nat} (h : c.digitValue? = some d) :
    c.isDigit = true ∧ d = c.val - 0x30 := by
  rw [digitValue?] at h
  split at h
  · next hc => exact ⟨hc, (Option.some.inj h).symm⟩
  · cases h

/-- Only the digit zero has the value zero. -/
theorem value_eq_zero_iff (h : c.isDigit = true) : c.val - 0x30 = 0 ↔ c = .ofChar '0' := by
  have hrange : 0x30 ≤ c.val := by simpa using (Bool.and_eq_true_iff.mp h).1
  constructor
  · intro hzero
    exact ext_val (show c.val = 0x30 by omega)
  · rintro rfl
    rfl

end CodePoint

namespace Settings.Numeral

open IntegerLiteral (digitLimit)

/-! ## Section 2: Underscores -/

/-- No underscore stands at the end, and no two side by side. -/
def IsRegular (t : Text) : Prop := (t.getLast?.any (·.is '_') || hasDoubleMark t) = false

theorem dropMarks_of_isRegular {t : Text} (h : IsRegular t) :
    dropMarks t = t.filter (!·.is '_') := by
  rw [dropMarks, h, if_neg Bool.false_ne_true]

theorem mark_mem_of_hasDoubleMark {t : Text} (h : hasDoubleMark t = true) :
    CodePoint.ofChar '_' ∈ t := by
  induction t with
  | nil => cases h
  | cons a rest ih =>
    cases rest with
    | nil => cases h
    | cons b rest =>
      rw [hasDoubleMark, Bool.or_eq_true, Bool.and_eq_true] at h
      obtain ⟨ha, -⟩ | hrest := h
      · rw [CodePoint.is_iff.mp ha]
        exact List.mem_cons_self
      · exact List.mem_cons_of_mem _ (ih hrest)

/-- All underscores stay only where there is one. -/
theorem dropMarks_of_not_isRegular {t : Text} (h : ¬ IsRegular t) :
    dropMarks t = t ∧ CodePoint.ofChar '_' ∈ t := by
  have hmarks := (Bool.not_eq_false _).mp h
  refine ⟨by rw [dropMarks, hmarks, if_pos rfl], ?_⟩
  obtain hlast | hdouble := (Bool.or_eq_true_iff ..).mp hmarks
  · cases hend : t.getLast? with
    | none =>
      rw [hend] at hlast
      cases hlast
    | some c =>
      rw [hend, Option.any_some] at hlast
      rw [← CodePoint.is_iff.mp hlast]
      exact List.mem_of_getLast? hend
  · exact mark_mem_of_hasDoubleMark hdouble

section digitRow

variable {t : Text} {ds : List Nat}

/-- What is regular behind the first code point is so by itself. -/
theorem IsRegular.of_cons {c : CodePoint} (h : IsRegular (c :: t)) : IsRegular t := by
  cases t with
  | nil => rfl
  | cons b rest =>
    rw [IsRegular, List.getLast?_cons_cons, hasDoubleMark, Bool.or_eq_false_iff,
      Bool.or_eq_false_iff] at h
    rw [IsRegular, Bool.or_eq_false_iff]
    exact ⟨h.1, h.2.2⟩

/-- Behind an underscore there is something else. -/
theorem IsRegular.exists_cons (h : IsRegular (.ofChar '_' :: t)) :
    ∃ c rest, t = c :: rest ∧ c.is '_' = false := by
  cases t with
  | nil => cases h
  | cons c rest =>
    rw [IsRegular, hasDoubleMark, Bool.or_eq_false_iff, Bool.or_eq_false_iff] at h
    have hmark : (CodePoint.ofChar '_').is '_' = true := rfl
    rw [hmark, Bool.true_and] at h
    exact ⟨c, rest, rfl, h.2.1⟩

theorem isRegular_cons {c : CodePoint} (ht : IsRegular t) (hne : t ≠ [])
    (hc : c.is '_' = false ∨ ∀ b ∈ t.head?, b.is '_' = false) : IsRegular (c :: t) := by
  obtain ⟨b, rest, rfl⟩ := List.exists_cons_of_ne_nil hne
  rw [IsRegular, Bool.or_eq_false_iff] at ht
  rw [IsRegular, List.getLast?_cons_cons, hasDoubleMark, ht.1, ht.2, Bool.or_false, Bool.false_or,
    Bool.and_eq_false_iff]
  exact hc.imp_right fun h => h b rfl

/-- Digits with regular underscores are read one after the other. -/
theorem digits?_of_isRegular (hregular : IsRegular t)
    (hdigits : ∀ c ∈ t, c.is '_' = false → c.isDigit = true) (afterDigit : Bool)
    (hfirst : afterDigit = false → ∃ c ∈ t.head?, c.is '_' = false) :
    separatedDigits? CodePoint.digitValue? afterDigit t =
      some (t.filterMap CodePoint.digitValue?) := by
  induction t generalizing afterDigit with
  | nil =>
    cases afterDigit with
    | false =>
      obtain ⟨c, hc, -⟩ := hfirst rfl
      cases hc
    | true => rfl
  | cons c rest ih =>
    replace ih := ih hregular.of_cons fun b hb => hdigits b (List.mem_cons_of_mem _ hb)
    cases hmark : c.is '_' with
    | false =>
      have hvalue := CodePoint.digitValue?_of_isDigit (hdigits c List.mem_cons_self hmark)
      have hrest := ih true (by simp)
      rw [separatedDigits?, hvalue, List.filterMap_cons, hvalue]
      dsimp only
      rw [hrest, Option.map_some]
    | true =>
      -- what stands in front of an underscore is a digit, and what stands behind it is none
      obtain rfl := CodePoint.is_iff.mp hmark
      obtain rfl : afterDigit = true := by
        refine (Bool.not_eq_false _).mp fun hfalse => ?_
        obtain ⟨b, hb, hother⟩ := hfirst hfalse
        obtain rfl := Option.some.inj hb
        cases hother
      obtain ⟨b, rest', rfl, hb⟩ := hregular.exists_cons
      exact ih false fun _ => ⟨b, rfl, hb⟩

/-- What stays of a row of digits are its digits. -/
theorem regular_of_digitRow (h : DigitRow CodePoint.digitValue? t ds) :
    IsRegular t ∧ t.filterMap CodePoint.digitValue? = ds ∧
      ∀ c ∈ t, c.is '_' = false → c.isDigit = true := by
  induction h with
  | @last c d hdigit =>
    have hc := (CodePoint.isDigit_of_digitValue? hdigit).1
    refine ⟨?_, by rw [List.filterMap_cons, hdigit]; rfl, fun b hb _ => ?_⟩
    · show ((some c).any (·.is '_') || false) = false
      rw [Option.any_some, Json.not_is_of_isDigit hc (by decide)]
      rfl
    · rwa [List.mem_singleton.mp hb]
  | @digit c d row ds hdigit hrow ih =>
    have hc := (CodePoint.isDigit_of_digitValue? hdigit).1
    obtain ⟨hregular, hvalues, hdigits⟩ := ih
    obtain ⟨b, rest, -, -, rfl, -, -⟩ := hrow.exists_cons
    refine ⟨isRegular_cons hregular (List.cons_ne_nil _ _)
      (.inl (Json.not_is_of_isDigit hc (by decide))), ?_, ?_⟩
    · rw [List.filterMap_cons, hdigit, hvalues]
    · exact List.forall_mem_cons.mpr ⟨fun _ => hc, hdigits⟩
  | @marked c d row ds hdigit hrow ih =>
    have hc := (CodePoint.isDigit_of_digitValue? hdigit).1
    obtain ⟨hregular, hvalues, hdigits⟩ := ih
    obtain ⟨b, rest, d', -, rfl, -, hb⟩ := hrow.exists_cons
    have hnext : ∀ a ∈ (b :: rest).head?, a.is '_' = false := by
      intro a ha
      obtain rfl := Option.some.inj ha
      exact Json.not_is_of_isDigit (CodePoint.isDigit_of_digitValue? hb).1 (by decide)
    refine ⟨isRegular_cons (isRegular_cons hregular (List.cons_ne_nil _ _) (.inr hnext))
      (List.cons_ne_nil _ _) (.inl (Json.not_is_of_isDigit hc (by decide))), ?_, ?_⟩
    · have hmark : (CodePoint.ofChar '_').digitValue? = none := by decide
      rw [List.filterMap_cons, hdigit, List.filterMap_cons, hmark]
      dsimp only
      rw [hvalues]
    · exact List.forall_mem_cons.mpr ⟨fun _ => hc, List.forall_mem_cons.mpr
        ⟨fun h => absurd h (by decide), hdigits⟩⟩

theorem filterMap_filter_mark (t : Text) :
    (t.filter (!·.is '_')).filterMap CodePoint.digitValue? =
      t.filterMap CodePoint.digitValue? := by
  rw [List.filterMap_filter]
  congr 1
  funext c
  cases hmark : c.is '_' with
  | false => rfl
  | true =>
    rw [CodePoint.is_iff.mp hmark]
    rfl

/-- What stays is all digits just for a row of digits. -/
theorem digitRow_iff_dropMarks {c : CodePoint} (hc : c.isDigit = true) :
    DigitRow CodePoint.digitValue? (c :: t) ds ↔
      (∀ b ∈ dropMarks (c :: t), b.isDigit = true) ∧
        (dropMarks (c :: t)).filterMap CodePoint.digitValue? = ds := by
  constructor
  · intro h
    obtain ⟨hregular, hvalues, hdigits⟩ := regular_of_digitRow h
    rw [dropMarks_of_isRegular hregular, filterMap_filter_mark]
    refine ⟨fun b hb => ?_, hvalues⟩
    obtain ⟨hmem, hmark⟩ := List.mem_filter.mp hb
    exact hdigits b hmem (by simpa using hmark)
  · rintro ⟨hdigits, rfl⟩
    by_cases hregular : IsRegular (c :: t)
    · rw [dropMarks_of_isRegular hregular] at hdigits ⊢
      rw [filterMap_filter_mark]
      refine (separatedDigits?_eq_some_iff (by decide)).mp
        (digits?_of_isRegular hregular (fun b hb hmark => ?_) false fun _ => ?_)
      · exact hdigits b (List.mem_filter.mpr ⟨hb, by rw [hmark]; rfl⟩)
      · exact ⟨c, rfl, Json.not_is_of_isDigit hc (by decide)⟩
    · -- the underscores have stayed, and are no digits
      obtain ⟨hsame, hmark⟩ := dropMarks_of_not_isRegular hregular
      rw [hsame] at hdigits
      exact absurd (hdigits _ hmark) (by decide)

end digitRow

/-! ## Section 3: Plain digits -/

/-- The minus in front of a negative number. -/
def minusOf (negative : Bool) : Text := if negative then [.ofChar '-'] else []

/-- Digits, the first of which is no zero unless it is the only one. -/
structure IsPlain (t : Text) : Prop where
  nonempty : t ≠ []
  digits : ∀ c ∈ t, c.isDigit = true
  lone : t.head? = some (.ofChar '0') → t.length = 1

/-- Plain digits that stand for zero are the digit zero. -/
theorem IsPlain.eq_zero {t : Text} (h : IsPlain t)
    (hzero : valueOf (t.filterMap CodePoint.digitValue?) = 0) : t = [.ofChar '0'] := by
  obtain ⟨c, rest, rfl⟩ := List.exists_cons_of_ne_nil h.nonempty
  have hc := h.digits c List.mem_cons_self
  rw [List.filterMap_cons, CodePoint.digitValue?_of_isDigit hc] at hzero
  obtain rfl : c = .ofChar '0' := by
    refine (CodePoint.value_eq_zero_iff hc).mp ?_
    by_contra hne
    exact valueOf_cons_ne_zero hne _ hzero
  have hlength := h.lone rfl
  rw [List.length_cons] at hlength
  rw [List.eq_nil_of_length_eq_zero (by omega : rest.length = 0)]

theorem isPlain_iff {t : Text} (hdigits : ∀ c ∈ t, c.isDigit = true) :
    IsPlain t ↔ (t.isEmpty || t.head?.any (·.is '0') && decide (t.length ≠ 1)) = false := by
  cases t with
  | nil => exact ⟨fun h => absurd rfl h.nonempty, fun h => by cases h⟩
  | cons c rest =>
    have hzero : (some c).any (·.is '0') = true ↔ some c = some (.ofChar '0') := by
      rw [Option.any_some, CodePoint.is_iff, Option.some.injEq]
    rw [List.isEmpty_cons, Bool.false_or, List.head?_cons, Bool.and_eq_false_iff,
      decide_eq_false_iff_not, Decidable.not_not, ← Bool.not_eq_true, hzero]
    constructor
    · intro h
      exact Decidable.imp_iff_not_or.mp h.lone
    · intro h
      exact ⟨List.cons_ne_nil _ _, hdigits, Decidable.imp_iff_not_or.mpr h⟩

theorem readPlain_ok_iff (negative : Bool) {t : Text} {m : Int}
    (ht : negative = false → ∀ c ∈ t.head?, c.is '-' = false) :
    readPlain (minusOf negative ++ t) = .ok m ↔
      IsPlain t ∧ (minusOf negative ++ t).length ≤ digitLimit ∧
        m = signed negative (valueOf (t.filterMap CodePoint.digitValue?)) := by
  have hminus : (minusOf negative ++ t).head?.any (·.is '-') = negative := by
    cases negative with
    | true => rfl
    | false =>
      cases hhead : t.head? with
      | none => simp [minusOf, hhead]
      | some c => simpa [minusOf, hhead] using ht rfl c hhead
  have hunsigned : (if negative then (minusOf negative ++ t).drop 1 else minusOf negative ++ t) =
      t := by
    cases negative <;> rfl
  unfold readPlain
  rw [hminus]
  dsimp only
  rw [hunsigned]
  by_cases hdigits : ∀ c ∈ t, c.isDigit = true
  · rw [List.takeWhile_eq_self_iff.mpr hdigits, List.dropWhile_eq_nil_iff.mpr hdigits,
      isPlain_iff hdigits, List.length_nil, Nat.sub_zero]
    generalize (t.isEmpty || t.head?.any (·.is '0') && decide (t.length ≠ 1)) = odd
    cases odd with
    | true => exact ⟨fun h => (by cases h), fun h => (by cases h.1)⟩
    | false =>
      rw [if_neg Bool.false_ne_true]
      constructor
      · intro h
        split at h
        · cases h
        · next hlength => exact ⟨rfl, Nat.not_lt.mp hlength, (Except.ok.inj h).symm⟩
      · rintro ⟨-, hlength, rfl⟩
        rw [if_neg (Nat.not_lt.mpr hlength)]
        rfl
  · -- what follows the digits is refused, if only because of it
    have hafter : t.dropWhile CodePoint.isDigit ≠ [] := fun h =>
      hdigits (List.dropWhile_eq_nil_iff.mp h)
    constructor
    · intro h
      split at h
      · cases h
      split at h
      · cases h
      split at h
      · cases h
      · next hnone => exact absurd (by simpa using hnone) hafter
    · rintro ⟨hplain, -⟩
      exact absurd hplain.digits hdigits

/-! ## Section 4: What is left of the digits -/

section left

variable {negative : Bool} {c : CodePoint} {rest : Text} {n : Nat}

theorem length_digits {t : Text} (h : ∀ c ∈ t, c.isDigit = true) :
    (t.filterMap CodePoint.digitValue?).length = t.length := by
  induction t with
  | nil => rfl
  | cons c rest ih =>
    obtain ⟨hc, hrest⟩ := List.forall_mem_cons.mp h
    rw [List.filterMap_cons, CodePoint.digitValue?_of_isDigit hc]
    dsimp only
    rw [List.length_cons, List.length_cons, ih hrest]

/-- What is no underscore stays in front. -/
theorem exists_dropMarks_cons (hc : c.is '_' = false) (rest : Text) :
    ∃ rest', dropMarks (c :: rest) = c :: rest' := by
  by_cases hregular : IsRegular (c :: rest)
  · rw [dropMarks_of_isRegular hregular, List.filter_cons, hc]
    exact ⟨_, rfl⟩
  · exact ⟨rest, (dropMarks_of_not_isRegular hregular).1⟩

/-- A row of digits without a zero in front is above zero, and so has no minus. -/
theorem row_ok_iff (hc : c.isDigit = true) (hne : c ≠ .ofChar '0') :
    readPlain (minusOf negative ++ dropMarks (c :: rest)) = .ok (n : Int) ↔
      negative = false ∧ ∃ ds, DigitRow CodePoint.digitValue? (c :: rest) ds ∧
        ds.length ≤ digitLimit ∧ n = valueOf ds := by
  obtain ⟨rest', hleft⟩ :=
    exists_dropMarks_cons (Json.not_is_of_isDigit hc (by decide)) rest
  have hunsigned : ∀ b ∈ (dropMarks (c :: rest)).head?, b.is '-' = false := by
    intro b hb
    rw [hleft] at hb
    obtain rfl := Option.some.inj hb
    exact Json.not_is_of_isDigit hc (by decide)
  rw [readPlain_ok_iff negative fun _ => hunsigned]
  constructor
  · rintro ⟨hplain, hlength, hvalue⟩
    have hpositive : valueOf ((dropMarks (c :: rest)).filterMap CodePoint.digitValue?) ≠ 0 := by
      rw [hleft, List.filterMap_cons, CodePoint.digitValue?_of_isDigit hc]
      exact valueOf_cons_ne_zero (mt (CodePoint.value_eq_zero_iff hc).mp hne) _
    cases negative with
    | true =>
      rw [signed, if_pos rfl] at hvalue
      omega
    | false =>
      refine ⟨rfl, _, (digitRow_iff_dropMarks hc).mpr ⟨hplain.digits, rfl⟩, ?_,
        Int.ofNat.inj hvalue⟩
      rw [length_digits hplain.digits]
      exact hlength
  · rintro ⟨rfl, ds, hrow, hlength, rfl⟩
    obtain ⟨hdigits, rfl⟩ := (digitRow_iff_dropMarks hc).mp hrow
    rw [length_digits hdigits] at hlength
    refine ⟨⟨by rw [hleft]; exact List.cons_ne_nil _ _, hdigits, fun hzero => ?_⟩, hlength, rfl⟩
    rw [hleft] at hzero
    exact absurd (Option.some.inj hzero) hne

/-- Of a single code point only the digit zero is a number. -/
theorem single_ok_iff (hc : c = .ofChar '0' ∨ c = .ofChar '_') :
    readPlain (minusOf negative ++ dropMarks [c]) = .ok (n : Int) ↔ c = .ofChar '0' ∧ n = 0 := by
  obtain rfl | rfl := hc
  · have hzero : readPlain (minusOf negative ++ dropMarks [.ofChar '0']) = .ok 0 := by
      cases negative <;> rfl
    rw [hzero]
    constructor
    · intro h
      exact ⟨rfl, (Int.ofNat.inj (Except.ok.inj h)).symm⟩
    · rintro ⟨-, rfl⟩
      rfl
  · have hmark : readPlain (minusOf negative ++ dropMarks [.ofChar '_']) = .error .notNumeral := by
      cases negative <;> rfl
    rw [hmark]
    constructor
    · intro h
      cases h
    · rintro ⟨h, -⟩
      cases h

theorem eq_nil_of_filter {t : Text} (h : IsRegular t) (hfilter : t.filter (!·.is '_') = []) :
    t = [] := by
  cases t with
  | nil => rfl
  | cons c rest =>
    have hmarks := List.filter_eq_nil_iff.mp hfilter
    obtain rfl : c = .ofChar '_' := CodePoint.is_iff.mp (by simpa using hmarks c List.mem_cons_self)
    obtain ⟨b, rest', rfl, hb⟩ := h.exists_cons
    exact absurd (by rw [hb]; rfl) (hmarks b (List.mem_cons_of_mem _ List.mem_cons_self))

/-- What a single code point is left of has one underscore more at most. -/
theorem eq_of_filter {t : Text} {d : CodePoint} (h : IsRegular t)
    (hfilter : t.filter (!·.is '_') = [d]) : t = [d] ∨ t = [.ofChar '_', d] := by
  have hother {c : CodePoint} {rest : Text} (hrest : IsRegular (c :: rest)) (hc : c.is '_' = false)
      (hleft : (c :: rest).filter (!·.is '_') = [d]) : c :: rest = [d] := by
    rw [List.filter_cons, hc, Bool.not_false, if_pos rfl] at hleft
    obtain ⟨rfl, hnil⟩ := List.cons.inj hleft
    rw [eq_nil_of_filter hrest.of_cons hnil]
  cases t with
  | nil => cases hfilter
  | cons c rest =>
    cases hc : c.is '_' with
    | false => exact .inl (hother h hc hfilter)
    | true =>
      obtain rfl := CodePoint.is_iff.mp hc
      obtain ⟨b, rest', rfl, hb⟩ := h.exists_cons
      rw [List.filter_cons, hc, Bool.not_true, if_neg Bool.false_ne_true] at hfilter
      rw [hother h.of_cons hb hfilter]
      exact .inr rfl

/-- Behind a minus only zero is not below zero, with an underscore in between or without. -/
theorem minus_ok_iff :
    readPlain (minusOf negative ++ dropMarks (.ofChar '-' :: rest)) = .ok (n : Int) ↔
      negative = false ∧ (rest = [.ofChar '0'] ∨ rest = [.ofChar '_', .ofChar '0']) ∧ n = 0 := by
  obtain ⟨rest', hleft⟩ := exists_dropMarks_cons (c := .ofChar '-') rfl rest
  constructor
  · intro h
    cases negative with
    | true =>
      -- of two minuses one is left
      obtain ⟨hplain, -⟩ := (readPlain_ok_iff true (by simp)).mp h
      rw [hleft] at hplain
      exact absurd (hplain.digits _ List.mem_cons_self) (by decide)
    | false =>
      rw [hleft] at h
      obtain ⟨hplain, -, hvalue⟩ := (readPlain_ok_iff true (by simp)).mp h
      rw [signed, if_pos rfl] at hvalue
      have hzero := hplain.eq_zero (by omega)
      subst hzero
      refine ⟨rfl, ?_, Int.ofNat.inj hvalue⟩
      by_cases hregular : IsRegular (.ofChar '-' :: rest)
      · rw [dropMarks_of_isRegular hregular] at hleft
        exact eq_of_filter hregular.of_cons (List.cons.inj hleft).2
      · rw [(dropMarks_of_not_isRegular hregular).1] at hleft
        exact .inl (List.cons.inj hleft).2
  · rintro ⟨rfl, rfl | rfl, rfl⟩ <;> rfl

end left

/-! ## Section 5: Zeros in front -/

/-- Is this a zero or an underscore? -/
def isZeroOrMark (c : CodePoint) : Bool := c.is '0' || c.is '_'

theorem dropZerosFrom_eq (last : CodePoint) (t : Text) :
    dropZerosFrom last t =
      match t.dropWhile isZeroOrMark with
      | [] => some [t.getLastD last]
      | c :: rest => if c.isDigit || c.is '-' then some (c :: rest) else none := by
  induction t generalizing last with
  | nil => rfl
  | cons c rest ih =>
    rw [dropZerosFrom, List.dropWhile_cons, isZeroOrMark]
    split
    · rw [ih, List.getLastD_cons]
    · rfl

/-- Zeros and underscores, a zero in front. -/
inductive IsZeros : Text → Prop where
  | intro {rest : Text} (hrest : ∀ c ∈ rest, isZeroOrMark c = true) : IsZeros (.ofChar '0' :: rest)

/-- Zeros in front are passed over up to a digit or a minus. -/
theorem IsZeros.dropZeros?_append {zeros : Text} {c : CodePoint} {rest : Text} (h : IsZeros zeros)
    (hc : isZeroOrMark c = false) (hnext : (c.isDigit || c.is '-') = true) :
    dropZeros? (zeros ++ c :: rest) = some (c :: rest) := by
  cases h with
  | @intro zeros hzeros =>
    have hstop : ∀ b ∈ (c :: rest).head?, isZeroOrMark b = false := by
      intro b hb
      obtain rfl := Option.some.inj hb
      exact hc
    show dropZerosFrom (.ofChar '0') (zeros ++ c :: rest) = some (c :: rest)
    rw [dropZerosFrom_eq, Text.dropWhile_append_of_stop hzeros hstop]
    exact if_pos hnext

/-- Nothing but zeros in front leaves the last one. -/
theorem IsZeros.dropZeros?_eq {zeros : Text} (h : IsZeros zeros) :
    ∃ c, zeros.getLast? = some c ∧ isZeroOrMark c = true ∧ dropZeros? zeros = some [c] := by
  cases h with
  | @intro rest hrest =>
    refine ⟨rest.getLastD (.ofChar '0'), ?_, ?_, ?_⟩
    · rw [List.getLast?_cons, List.getLastD_eq_getLast?]
    · cases hend : rest.getLast? with
      | none => rw [List.getLastD_eq_getLast?, hend]; rfl
      | some c =>
        rw [List.getLastD_eq_getLast?, hend]
        exact hrest c (List.mem_of_getLast? hend)
    · show dropZerosFrom (.ofChar '0') rest = _
      rw [dropZerosFrom_eq, List.dropWhile_eq_nil_iff.mpr hrest]

/-- What is left when zeros have been passed over: the text itself if it starts with another digit,
    and else what follows its zeros, or the last of them. -/
theorem exists_zeros_of_dropZeros? {t ds : Text} (h : dropZeros? t = some ds) :
    (∃ c rest, t = c :: rest ∧ ds = t ∧ c.isDigit = true ∧ c ≠ .ofChar '0') ∨
      IsZeros t ∨
      ∃ zeros c rest, IsZeros zeros ∧ t = zeros ++ c :: rest ∧ ds = c :: rest ∧
        isZeroOrMark c = false ∧ (c.isDigit = true ∨ c = .ofChar '-') := by
  cases t with
  | nil => cases h
  | cons c rest =>
    rw [dropZeros?] at h
    split at h
    · next hzero =>
      obtain rfl := CodePoint.is_iff.mp hzero
      rw [dropZerosFrom_eq] at h
      cases hstop : rest.dropWhile isZeroOrMark with
      | nil => exact .inr (.inl (.intro (List.dropWhile_eq_nil_iff.mp hstop)))
      | cons b rest' =>
        have hb : isZeroOrMark b = false :=
          Text.stop_of_mem_head?_dropWhile (t := rest) (by rw [hstop]; rfl)
        rw [hstop] at h
        dsimp only at h
        split at h
        · next hnext =>
          refine .inr (.inr ⟨.ofChar '0' :: rest.takeWhile isZeroOrMark, b, rest',
            .intro (List.all_eq_true.mp List.all_takeWhile), ?_, (Option.some.inj h).symm, hb, ?_⟩)
          · rw [List.cons_append, ← hstop, List.takeWhile_append_dropWhile]
          · exact ((Bool.or_eq_true_iff ..).mp hnext).imp_right CodePoint.is_iff.mp
        · cases h
    · next hzero =>
      split at h
      · next hdigit =>
        exact .inl ⟨c, rest, rfl, (Option.some.inj h).symm, hdigit,
          fun hc => hzero (CodePoint.is_iff.mpr hc)⟩
      · cases h

/-- The digits of a natural number as settings take them. -/
inductive Body : Bool → Text → Nat → Prop where
  /-- Zeros that do not count, and digits with single underscores between them. -/
  | number {zeros row : Text} {d : Nat} {ds : List Nat} (hzeros : zeros = [] ∨ IsZeros zeros)
      (hrow : DigitRow CodePoint.digitValue? row (d :: ds)) (hfirst : d ≠ 0)
      (hlength : (d :: ds).length ≤ digitLimit) : Body false (zeros ++ row) (valueOf (d :: ds))
  /-- Nothing but zeros. -/
  | zeros {negative : Bool} {zeros : Text} (hzeros : IsZeros zeros)
      (hlast : zeros.getLast? = some (.ofChar '0')) : Body negative zeros 0
  /-- A zero with a minus, behind other zeros. -/
  | minusZero {zeros mark : Text} (hzeros : IsZeros zeros)
      (hmark : mark = [] ∨ mark = [.ofChar '_']) :
      Body false (zeros ++ .ofChar '-' :: (mark ++ [.ofChar '0'])) 0

theorem body_of_row {negative : Bool} {zeros rest : Text} {c : CodePoint} {n : Nat}
    (hzeros : zeros = [] ∨ IsZeros zeros) (hc : c.isDigit = true) (hne : c ≠ .ofChar '0')
    (h : readPlain (minusOf negative ++ dropMarks (c :: rest)) = .ok (n : Int)) :
    Body negative (zeros ++ c :: rest) n := by
  obtain ⟨rfl, ds, hrow, hlength, rfl⟩ := (row_ok_iff hc hne).mp h
  obtain ⟨c', rest', d, ds', hstart, rfl, hdigit⟩ := hrow.exists_cons
  obtain rfl := (List.cons.inj hstart).1
  obtain ⟨-, rfl⟩ := CodePoint.isDigit_of_digitValue? hdigit
  exact .number hzeros hrow (mt (CodePoint.value_eq_zero_iff hc).mp hne) hlength

theorem body_ok_iff {negative : Bool} {t : Text} {n : Nat} :
    (∃ ds, dropZeros? t = some ds ∧ readPlain (minusOf negative ++ dropMarks ds) = .ok (n : Int)) ↔
      Body negative t n := by
  constructor
  · rintro ⟨ds, hdrop, hread⟩
    -- no zero in front, nothing but zeros, or zeros up to another digit or a minus
    obtain ⟨c, rest, rfl, rfl, hc, hne⟩ | hzeros | ⟨zeros, c, rest, hzeros, rfl, rfl, hother, hc⟩ :=
      exists_zeros_of_dropZeros? hdrop
    · exact body_of_row (.inl rfl) hc hne hread
    · obtain ⟨c, hlast, hc, hone⟩ := hzeros.dropZeros?_eq
      obtain rfl := Option.some.inj (hdrop.symm.trans hone)
      rw [isZeroOrMark, Bool.or_eq_true, CodePoint.is_iff, CodePoint.is_iff] at hc
      obtain ⟨rfl, rfl⟩ := (single_ok_iff hc).mp hread
      exact .zeros hzeros hlast
    · obtain hc | rfl := hc
      · refine body_of_row (.inr hzeros) hc ?_ hread
        rintro rfl
        cases hother
      · obtain ⟨rfl, rfl | rfl, rfl⟩ := minus_ok_iff.mp hread
        · exact .minusZero hzeros (.inl rfl)
        · exact .minusZero hzeros (.inr rfl)
  · intro h
    cases h with
    | @number zeros row d ds hzeros hrow hfirst hlength =>
      obtain ⟨c, rest, d', ds', rfl, hvalues, hdigit⟩ := hrow.exists_cons
      obtain ⟨rfl, -⟩ := List.cons.inj hvalues
      obtain ⟨hc, rfl⟩ := CodePoint.isDigit_of_digitValue? hdigit
      have hne : c ≠ .ofChar '0' := mt (CodePoint.value_eq_zero_iff hc).mpr hfirst
      refine ⟨c :: rest, ?_, (row_ok_iff hc hne).mpr ⟨rfl, _, hrow, hlength, rfl⟩⟩
      have hzero : c.is '0' = false := Bool.eq_false_iff.mpr (mt CodePoint.is_iff.mp hne)
      obtain rfl | hzeros := hzeros
      · rw [List.nil_append, dropZeros?, hzero, if_neg Bool.false_ne_true, if_pos hc]
      · refine hzeros.dropZeros?_append ?_ (by rw [hc, Bool.true_or])
        rw [isZeroOrMark, hzero, Json.not_is_of_isDigit hc (by decide)]
        rfl
    | zeros hzeros hlast =>
      obtain ⟨c, hc, -, hone⟩ := hzeros.dropZeros?_eq
      obtain rfl := Option.some.inj (hc.symm.trans hlast)
      exact ⟨_, hone, (single_ok_iff (.inl rfl)).mpr ⟨rfl, rfl⟩⟩
    | minusZero hzeros hmark =>
      refine ⟨_, hzeros.dropZeros?_append rfl rfl, minus_ok_iff.mpr ⟨rfl, ?_, rfl⟩⟩
      obtain rfl | rfl := hmark
      · exact .inl rfl
      · exact .inr rfl

namespace Body

variable {negative : Bool} {t : Text} {n : Nat}

theorem exists_cons (h : Body negative t n) : ∃ c rest, t = c :: rest ∧ c.isDigit = true := by
  have hzeros {zeros : Text} (h : IsZeros zeros) (rest : Text) :
      ∃ c rest', zeros ++ rest = c :: rest' ∧ c.isDigit = true := by
    cases h with
    | intro => exact ⟨_, _, rfl, rfl⟩
  cases h with
  | number hnumber hrow =>
    obtain rfl | hnumber := hnumber
    · obtain ⟨c, rest, d, ds, rfl, -, hdigit⟩ := hrow.exists_cons
      exact ⟨c, rest, rfl, (CodePoint.isDigit_of_digitValue? hdigit).1⟩
    · exact hzeros hnumber _
  | zeros hnumber => rw [← List.append_nil t]; exact hzeros hnumber []
  | minusZero hnumber => exact hzeros hnumber _

theorem characters (h : Body negative t n) :
    ∀ c ∈ t, c.isDigit = true ∨ c = .ofChar '_' ∨ c = .ofChar '-' := by
  have hzeros {zeros : Text} (h : IsZeros zeros) :
      ∀ c ∈ zeros, c.isDigit = true ∨ c = .ofChar '_' ∨ c = .ofChar '-' := by
    cases h with
    | intro hrest =>
      refine List.forall_mem_cons.mpr ⟨.inl rfl, fun c hc => ?_⟩
      obtain hzero | hmark := (Bool.or_eq_true_iff ..).mp (hrest c hc)
      · rw [CodePoint.is_iff.mp hzero]
        exact .inl rfl
      · exact .inr (.inl (CodePoint.is_iff.mp hmark))
  cases h with
  | number hnumber hrow =>
    refine List.forall_mem_append.mpr ⟨?_, fun c hc => ?_⟩
    · obtain rfl | hnumber := hnumber
      · simp
      · exact hzeros hnumber
    · obtain hdigit | hmark := hrow.digit_or_mark c hc
      · obtain ⟨d, hd⟩ := Option.isSome_iff_exists.mp hdigit
        exact .inl (CodePoint.isDigit_of_digitValue? hd).1
      · exact .inr (.inl hmark)
  | zeros hnumber => exact hzeros hnumber
  | minusZero hnumber hmark =>
    refine List.forall_mem_append.mpr ⟨hzeros hnumber, ?_⟩
    obtain rfl | rfl := hmark <;> decide

end Body

/-! ## Section 6: Numerals -/

/-- A point with zeros, or nothing. -/
inductive IsFraction : Text → Prop where
  | none : IsFraction []
  | point {zeros : Text} (hne : zeros ≠ []) (hzeros : ∀ c ∈ zeros, c.is '0' = true) :
      IsFraction (.ofChar '.' :: zeros)

theorem exists_fraction (t : Text) :
    ∃ fraction, IsFraction fraction ∧ t = dropFraction t ++ fraction := by
  unfold dropFraction Text.splitAtFirst
  dsimp only
  split
  · next hfraction =>
    refine ⟨t.dropWhile (!·.is '.'), ?_, List.takeWhile_append_dropWhile.symm⟩
    cases htail : t.dropWhile (!·.is '.') with
    | nil => exact .none
    | cons c zeros =>
      have hpoint : (!c.is '.') = false :=
        Text.stop_of_mem_head?_dropWhile (p := (!·.is '.')) (t := t) (by rw [htail]; rfl)
      rw [htail, List.drop_one, List.tail_cons, Bool.and_eq_true, Bool.not_eq_true',
        List.isEmpty_eq_false_iff] at hfraction
      obtain rfl := CodePoint.is_iff.mp (by simpa using hpoint)
      exact .point hfraction.1 (List.all_eq_true.mp hfraction.2)
  · exact ⟨[], .none, (List.append_nil t).symm⟩

theorem dropFraction_append {t fraction : Text} (ht : ∀ c ∈ t, c.is '.' = false)
    (hfraction : IsFraction fraction) : dropFraction (t ++ fraction) = t := by
  have hwhole : ∀ c ∈ t, (!c.is '.') = true := fun c hc => by rw [ht c hc]; rfl
  have hstop : ∀ c ∈ fraction.head?, (!c.is '.') = false := by
    intro c hc
    cases hfraction with
    | none => cases hc
    | point =>
      obtain rfl := Option.some.inj hc
      rfl
  unfold dropFraction Text.splitAtFirst
  rw [Text.takeWhile_append_of_stop hwhole hstop, Text.dropWhile_append_of_stop hwhole hstop]
  cases hfraction with
  | none => exact List.append_nil t
  | point hne hzeros =>
    dsimp only
    rw [List.drop_one, List.tail_cons, List.isEmpty_eq_false_iff.mpr hne,
      List.all_eq_true.mpr hzeros]
    rfl

/-- A text spells a natural number: a sign, digits, and a point with zeros. -/
inductive Spells : Text → Nat → Prop where
  | intro {sign body fraction : Text} {negative : Bool} {n : Nat} (hsign : IsSign sign negative)
      (hbody : Body negative body n) (hfraction : IsFraction fraction) :
      Spells (sign ++ (body ++ fraction)) n

/-- What is read is what is spelled between the blanks. -/
theorem read_ok_iff {t : Text} {n : Nat} :
    read t = .ok (n : Int) ↔ Spells (t.strip (·.isWhiteSpace)) n := by
  unfold read
  generalize t.strip (·.isWhiteSpace) = t
  constructor
  · intro h
    obtain ⟨sign, hsign, hsplit⟩ := exists_sign t
    generalize takeSign t = taken at h hsign hsplit
    obtain ⟨negative, unsigned⟩ := taken
    dsimp only at h hsign hsplit
    obtain ⟨fraction, hfraction, hunsigned⟩ := exists_fraction unsigned
    split at h
    · cases h
    · next ds hdrop =>
      rw [hsplit, hunsigned]
      exact .intro hsign (body_ok_iff.mp ⟨ds, hdrop, h⟩) hfraction
  · intro h
    cases h with
    | @intro sign body fraction negative n hsign hbody hfraction =>
    obtain ⟨c, rest, hstart, hc⟩ := hbody.exists_cons
    have hunsigned : ∀ b ∈ (body ++ fraction).head?, b.is '-' = false ∧ b.is '+' = false := by
      intro b hb
      rw [hstart] at hb
      obtain rfl := Option.some.inj hb
      exact ⟨Json.not_is_of_isDigit hc (by decide), Json.not_is_of_isDigit hc (by decide)⟩
    have hwhole : ∀ b ∈ body, b.is '.' = false := by
      intro b hb
      obtain hdigit | rfl | rfl := hbody.characters b hb
      · exact Json.not_is_of_isDigit hdigit (by decide)
      · rfl
      · rfl
    obtain ⟨ds, hdrop, hread⟩ := body_ok_iff.mpr hbody
    rw [takeSign_append hsign hunsigned]
    dsimp only
    rw [dropFraction_append hwhole hfraction, hdrop]
    exact hread

end Settings.Numeral

end SignedEvents
