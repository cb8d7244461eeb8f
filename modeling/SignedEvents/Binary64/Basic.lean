/-! # Binary64 numbers

  The numbers of the 64-bit binary floating-point format, as exact values.  Every result is
  the exact one rounded to the nearest number of the format, ties to the even mantissa.

  - **Binary64** — a signed multiple of a power of two, an infinity, or not a number.
  - **ofRatio**, **ofDecimal**, **ofInt** — the nearest number.
  - **truncate?**, **floor?** — the integer part of a finite number, toward zero or down.
  - **exceeds**, **isAtMost** — exact comparison with an integer.
  - **sub** — rounded difference.
-/

namespace SignedEvents

/-- A number of the 64-bit binary format.  A finite one is `mantissa * 2 ^ exponent` with its
    sign, where the mantissa is below `2 ^ 53` and the exponent at least `-1074`. -/
inductive Binary64 where
  | finite (negative : Bool) (mantissa : Nat) (exponent : Int)
  | infinite (negative : Bool)
  | nan
  deriving DecidableEq

namespace Binary64

/-! ## Rounding -/

/-- `num / den * 2 ^ (-exponent)` as a ratio. -/
def scaleRatio (num den : Nat) (exponent : Int) : Nat × Nat :=
  match exponent with
  | .ofNat e => (num, den * Nat.pow 2 e)
  | .negSucc e => (num * Nat.pow 2 (e + 1), den)

/-- The integer nearest to a ratio, ties to even. -/
def nearest (num den : Nat) : Nat :=
  let quotient := num / den
  let twice := 2 * (num % den)
  if twice > den || (twice == den && quotient % 2 == 1) then quotient + 1 else quotient

/-- The exponent that brings a ratio below `2 ^ 53`, and not below `2 ^ 52` unless it is the
    least one. -/
def exponentOf (num den : Nat) : Int :=
  let least := max ((num.log2 : Int) - den.log2 - 53) (-1074)
  let (n, d) := scaleRatio num den least
  if n ≥ d * Nat.pow 2 53 then least + 1 else least

/-- The number nearest to a ratio. -/
def ofRatio (negative : Bool) (num den : Nat) : Binary64 :=
  if num == 0 then .finite negative 0 (-1074)
  else
    let exponent := exponentOf num den
    let (n, d) := scaleRatio num den exponent
    let mantissa := nearest n d
    let (mantissa, exponent) :=
      if mantissa == Nat.pow 2 53 then (Nat.pow 2 52, exponent + 1) else (mantissa, exponent)
    if exponent > 971 then .infinite negative else .finite negative mantissa exponent

/-- The number nearest to `digits * 10 ^ exponent`, where `digits` is below `10 ^ count`.  A value
    far past either end of the range is decided from its size alone. -/
def ofDecimal (negative : Bool) (digits count : Nat) (exponent : Int) : Binary64 :=
  if digits == 0 then .finite negative 0 (-1074)
  else if exponent > 400 then .infinite negative
  else if exponent + count < -400 then .finite negative 0 (-1074)
  else match exponent with
    | .ofNat e => ofRatio negative (digits * Nat.pow 10 e) 1
    | .negSucc e => ofRatio negative digits (Nat.pow 10 (e + 1))

/-- The number nearest to an integer. -/
def ofInt (n : Int) : Binary64 := ofRatio (n < 0) n.natAbs 1

/-! ## Exact views -/

/-- The integer part of a finite number: the fraction is cut off. -/
def truncate? : Binary64 → Option Int
  | .finite negative mantissa exponent =>
    let magnitude : Nat :=
      match exponent with
      | .ofNat e => mantissa * Nat.pow 2 e
      | .negSucc e => mantissa / Nat.pow 2 (e + 1)
    some (if negative then -magnitude else magnitude)
  | _ => none

/-- Is this a finite number without a fraction? -/
def isIntegral : Binary64 → Bool
  | .finite _ mantissa (.negSucc e) => mantissa % Nat.pow 2 (e + 1) == 0
  | .finite _ _ (.ofNat _) => true
  | _ => false

/-- A finite number as a signed numerator over a power of two. -/
def ratio? : Binary64 → Option (Int × Nat)
  | .finite negative mantissa exponent =>
    let (num, den) : Nat × Nat :=
      match exponent with
      | .ofNat e => (mantissa * Nat.pow 2 e, 1)
      | .negSucc e => (mantissa, Nat.pow 2 (e + 1))
    some (if negative then -num else num, den)
  | _ => none

/-- The greatest integer that is no greater than a finite number. -/
def floor? (x : Binary64) : Option Int := x.ratio?.map fun (num, den) => num.fdiv den

/-- Is the number greater than an integer?  The comparison is exact; not a number never is. -/
def exceeds (x : Binary64) (n : Int) : Bool :=
  match x with
  | .nan => false
  | .infinite negative => !negative
  | .finite .. =>
    match x.ratio? with
    | some (num, den) => num > n * den
    | none => false

/-- Is the number no greater than an integer?  Not a number never is, and never exceeds one. -/
def isAtMost (x : Binary64) (n : Int) : Bool := x != .nan && !x.exceeds n

/-- The rounded difference of two numbers. -/
def sub (x y : Binary64) : Binary64 :=
  match x, y with
  | .nan, _ => .nan
  | _, .nan => .nan
  | .infinite a, .infinite b => if a == b then .nan else .infinite a
  | .infinite a, _ => .infinite a
  | _, .infinite b => .infinite !b
  | _, _ =>
    match x.ratio?, y.ratio? with
    | some (a, b), some (c, d) =>
      let num := a * d - c * b
      ofRatio (num < 0) num.natAbs (b * d)
    | _, _ => .nan

end Binary64

end SignedEvents
