import SignedEvents.Text.Basic

/-! # Decimal numerals

  The text of a number, without leading zeros, and the number a row of digits stands for.

  - **digitsOf** — the decimal digits of a number, most significant first.
  - **Text.ofNat**, **Text.ofInt** — the numeral of a number.
  - **Text.ofNatPadded** — the numeral with zeros in front up to a width.
  - **valueOf** — the number that a row of digits stands for.
-/

namespace SignedEvents

/-! ## Digits -/

/-- Puts the decimal digits of `n` in front of `rest`. -/
def digitsOnto (n : Nat) (rest : List Nat) : List Nat :=
  if n < 10 then n :: rest else digitsOnto (n / 10) (n % 10 :: rest)
termination_by n
decreasing_by omega

/-- The decimal digits of a number, most significant first. -/
def digitsOf (n : Nat) : List Nat := digitsOnto n []

/-- The number that a row of decimal digits stands for. -/
def valueOf (digits : List Nat) : Nat := digits.foldl (fun n d => 10 * n + d) 0

theorem digitsOnto_eq_append (n : Nat) (rest : List Nat) :
    digitsOnto n rest = digitsOf n ++ rest := by
  induction n using Nat.strongRecOn generalizing rest with
  | ind n ih =>
    rw [digitsOf, digitsOnto.eq_def n rest, digitsOnto.eq_def n []]
    by_cases h : n < 10
    · simp [h]
    · simp only [h, ↓reduceIte]
      rw [ih _ (by omega), ih _ (by omega) [n % 10]]
      simp

theorem digitsOf_of_lt {n : Nat} (h : n < 10) : digitsOf n = [n] := by
  rw [digitsOf, digitsOnto.eq_def]
  simp [h]

theorem digitsOf_of_le {n : Nat} (h : 10 ≤ n) : digitsOf n = digitsOf (n / 10) ++ [n % 10] := by
  have h' : ¬ n < 10 := by omega
  rw [← digitsOnto_eq_append, digitsOf, digitsOnto.eq_def n []]
  simp [h']

@[simp] theorem valueOf_append_singleton (ds : List Nat) (d : Nat) :
    valueOf (ds ++ [d]) = 10 * valueOf ds + d := by
  simp [valueOf]

@[simp] theorem valueOf_digitsOf (n : Nat) : valueOf (digitsOf n) = n := by
  induction n using Nat.strongRecOn with
  | ind n ih =>
    by_cases h : n < 10
    · simp [digitsOf_of_lt h, valueOf]
    · rw [digitsOf_of_le (by omega), valueOf_append_singleton, ih _ (by omega)]
      omega

/-! ## Numerals -/

namespace Text

/-- The decimal numeral of a number. -/
def ofNat (n : Nat) : Text := (digitsOf n).map CodePoint.digit

/-- The decimal numeral of an integer, with a minus sign in front of a negative one. -/
def ofInt (n : Int) : Text :=
  match n with
  | .ofNat n => ofNat n
  | .negSucc n => CodePoint.ofChar '-' :: ofNat (n + 1)

/-- The decimal numeral of a number, with zeros in front up to a width. -/
def ofNatPadded (width n : Nat) : Text :=
  let numeral := ofNat n
  List.replicate (width - numeral.length) (CodePoint.digit 0) ++ numeral

/-- The lowest `width` hexadecimal digits of a number, in lower case. -/
def ofHex : (width : Nat) → (n : Nat) → Text
  | 0, _ => []
  | width + 1, n => CodePoint.hexDigit (n / Nat.pow 16 width) :: ofHex width n

end Text

end SignedEvents
