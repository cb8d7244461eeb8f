import SignedEvents.Binary64.Basic
import SignedEvents.Text.Numeral

/-! # Shortest decimal text of a number

  A number is shown with the fewest decimal digits that read back as the same number, and of
  those with the ones nearest to it.

  - **shortestDigits** — the digits and the place of the decimal point.
  - **toText** — positional between `10 ^ -4` and `10 ^ 16`, with an exponent elsewhere.
-/

namespace SignedEvents.Binary64

/-- The place of the decimal point: the least `p` with `num / den < 10 ^ p`, found downwards
    from a bound above it. -/
def pointOf (num den : Nat) : (tries : Nat) → (p : Int) → Int
  | 0, p => p
  | tries + 1, p =>
    let below := p - 1
    let isBelow : Bool :=
      match below with
      | .ofNat e => num < den * Nat.pow 10 e
      | .negSucc e => num * Nat.pow 10 (e + 1) < den
    if isBelow then pointOf num den tries below else p

/-- `num / den` in units of `10 ^ unit`, as a ratio. -/
def inUnits (num den : Nat) : (unit : Int) → Nat × Nat
  | .ofNat e => (num, den * Nat.pow 10 e)
  | .negSucc e => (num * Nat.pow 10 (e + 1), den)

/-- The fewest digits of a positive number, with the place of the point: tries `count`,
    `count + 1`, … digits.  All three values are over four times the unit in the last place,
    so that the ends of the rounding interval are whole. -/
def digitsFrom (low mid high scale : Nat) (closed : Bool) (point : Int) :
    (tries count : Nat) → Nat × Int
  | 0, _ => (0, point)
  | tries + 1, count =>
    let unit := point - count
    let (n, d) := inUnits mid scale unit
    let (l, dl) := inUnits low scale unit
    let (h, dh) := inUnits high scale unit
    let down := n / d
    let up := down + 1
    let isIn (k : Nat) : Bool :=
      if closed then l ≤ k * dl && k * dh ≤ h else l < k * dl && k * dh < h
    let toDown := n - down * d
    let toUp := up * d - n
    if isIn down && (!isIn up || toDown < toUp || (toDown == toUp && down % 2 == 0)) then
      (down, unit)
    else if isIn up then (up, unit)
    else digitsFrom low mid high scale closed point tries (count + 1)

/-- The fewest digits that read back as `mantissa * 2 ^ exponent`, and the power of ten of the
    last one. -/
def shortestDigits (mantissa : Nat) (exponent : Int) : Nat × Int :=
  let lowGap := if mantissa == Nat.pow 2 52 && exponent > -1074 then 1 else 2
  let (num, scale) : Nat × Nat :=
    match exponent with
    | .ofNat e => (4 * Nat.pow 2 e, 4)
    | .negSucc e => (4, 4 * Nat.pow 2 (e + 1))
  let quarter := num / 4
  let mid := mantissa * num
  let point := pointOf mid scale 700 330
  digitsFrom (mid - lowGap * quarter) mid (mid + 2 * quarter) scale (mantissa % 2 == 0) point 17 1

/-- The text of a number, as it is shown inside a list. -/
def toText : Binary64 → Text
  | .nan => "nan"
  | .infinite negative => if negative then "-inf" else "inf"
  | .finite negative mantissa exponent =>
    let sign : Text := if negative then "-" else ""
    if mantissa == 0 then sign ++ "0.0"
    else
      let (value, unit) := shortestDigits mantissa exponent
      let all := Text.ofNat value
      let trimmed := (all.reverse.dropWhile (·.is '0')).reverse
      let point : Int := all.length + unit
      let digits := trimmed
      if -4 < point && point ≤ 16 then
        let body : Text :=
          if point ≤ 0 then
            "0." ++ List.replicate (-point).toNat (CodePoint.digit 0) ++ digits
          else
            let whole := point.toNat
            if digits.length ≤ whole then
              digits ++ List.replicate (whole - digits.length) (CodePoint.digit 0) ++ ".0"
            else digits.take whole ++ "." ++ digits.drop whole
        sign ++ body
      else
        let power := point - 1
        let mark : Text := if power < 0 then "e-" else "e+"
        let fraction : Text := if digits.length ≤ 1 then "" else "." ++ digits.drop 1
        sign ++ digits.take 1 ++ fraction ++ mark ++ Text.ofNatPadded 2 power.natAbs

end SignedEvents.Binary64
