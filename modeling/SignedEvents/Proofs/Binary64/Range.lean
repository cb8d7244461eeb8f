import Mathlib.Tactic.Ring
import SignedEvents.Binary64.Basic

/-! # The range of binary64 numbers

  The greatest finite number is `(2 ^ 53 - 1) * 2 ^ 971`.  Integers from halfway to the next power
  of two on, on either side of zero, are rounded to an infinity.

  - **Binary64.InRange**, **Binary64.IsFinite** — the integers below that, and the numbers that are
    no infinity.
  - **Binary64.exponentOf_natural** — a natural number is rounded to 53 bits.
  - **Binary64.nearest_carries_iff** — when a mantissa leaves its bits.
  - **Binary64.isFinite_ofInt_iff** — an integer is rounded to a finite number if it is in range.
-/

namespace SignedEvents.Binary64

/-- An integer nearer to zero than halfway from the greatest finite number to the next power of
    two. -/
def InRange (n : Int) : Prop := n.natAbs < (2 ^ 54 - 1) * 2 ^ 970

/-- Neither an infinity nor not a number. -/
def IsFinite (x : Binary64) : Prop :=
  ∃ negative mantissa exponent, x = .finite negative mantissa exponent

variable {n a b : Nat}

/-! ## Section 1: Scaling -/

theorem scaleRatio_sub_of_le (n : Nat) (h : b ≤ a) :
    scaleRatio n 1 ((a : Int) - b) = (n, 2 ^ (a - b)) := by
  obtain ⟨e, rfl⟩ := Nat.exists_eq_add_of_le h
  have hexponent : ((b + e : Nat) : Int) - b = .ofNat e := by
    rw [Int.ofNat_eq_natCast]
    omega
  rw [hexponent, Nat.add_sub_cancel_left, scaleRatio, Nat.one_mul, Nat.pow_eq]

theorem scaleRatio_sub_of_lt (n : Nat) (h : a < b) :
    scaleRatio n 1 ((a : Int) - b) = (n * 2 ^ (b - a), 1) := by
  obtain ⟨e, rfl⟩ := Nat.exists_eq_add_of_lt h
  have hexponent : (a : Int) - (a + e + 1 : Nat) = .negSucc e := by
    rw [Int.negSucc_eq]
    omega
  rw [hexponent, show a + e + 1 - a = e + 1 by omega, scaleRatio, Nat.pow_eq]

/-- A natural number is rounded to 53 bits. -/
theorem exponentOf_natural (hn : n ≠ 0) : exponentOf n 1 = (n.log2 : Int) - (52 : Nat) := by
  have hleast : max ((n.log2 : Int) - (Nat.log2 1 : Nat) - 53) (-1074) =
      (n.log2 : Int) - (53 : Nat) := by
    have hone : Nat.log2 1 = 0 := by decide
    omega
  have hlow : 2 ^ n.log2 ≤ n := Nat.log2_self_le hn
  unfold exponentOf
  simp only [hleast, Nat.pow_eq]
  -- one bit less would leave more than 53
  rcases Nat.lt_or_ge n.log2 53 with hbits | hbits
  · rw [scaleRatio_sub_of_lt n hbits]
    have hge : n * 2 ^ (53 - n.log2) ≥ 1 * 2 ^ 53 :=
      calc 1 * 2 ^ 53 = 2 ^ n.log2 * 2 ^ (53 - n.log2) := by
            rw [← Nat.pow_add, Nat.add_sub_cancel' hbits.le, Nat.one_mul]
        _ ≤ n * 2 ^ (53 - n.log2) := Nat.mul_le_mul_right _ hlow
    dsimp only
    rw [if_pos hge]
    omega
  · rw [scaleRatio_sub_of_le n hbits]
    have hge : n ≥ 2 ^ (n.log2 - 53) * 2 ^ 53 :=
      calc 2 ^ (n.log2 - 53) * 2 ^ 53 = 2 ^ n.log2 := by
            rw [← Nat.pow_add, Nat.sub_add_cancel hbits]
        _ ≤ n := hlow
    dsimp only
    rw [if_pos hge]
    omega

/-! ## Section 2: Rounding -/

/-- Below an even bound the nearest integer is the bound itself from halfway on. -/
theorem nearest_carries_iff {half bound : Nat} (hhalf : 0 < half) (heven : bound % 2 = 0)
    (hn : n < bound * (2 * half)) :
    nearest n (2 * half) = bound ↔ bound * (2 * half) ≤ n + half := by
  have hdiv : 2 * half * (n / (2 * half)) + n % (2 * half) = n := Nat.div_add_mod n _
  have hmod : n % (2 * half) < 2 * half := Nat.mod_lt n (by omega)
  have hquotient : n / (2 * half) < bound := Nat.div_lt_of_lt_mul (by rwa [Nat.mul_comm])
  unfold nearest
  generalize n / (2 * half) = q at hdiv hquotient
  generalize n % (2 * half) = r at hdiv hmod
  rcases Nat.lt_or_ge (q + 1) bound with hlow | hhigh
  · -- the quotient is too small, and so is the number
    have hstep : (q + 1 + 1) * (2 * half) ≤ bound * (2 * half) := Nat.mul_le_mul_right _ hlow
    have hsplit : (q + 1 + 1) * (2 * half) = 2 * half * q + 2 * half + 2 * half := by ring
    constructor
    · intro h
      dsimp only at h
      split at h <;> omega
    · intro h
      omega
  · -- the quotient is the odd number before the bound, so ties go up
    obtain rfl : bound = q + 1 := by omega
    have hsplit : (q + 1) * (2 * half) = 2 * half * q + 2 * half := by ring
    have hodd : q % 2 = 1 := by omega
    rw [hsplit, ← hdiv]
    simp only [hodd, BEq.rfl, Bool.and_true, Bool.or_eq_true, decide_eq_true_eq, beq_iff_eq]
    split <;> omega

/-! ## Section 3: Overflow -/

theorem isFinite_ite_iff (negative : Bool) (mantissa : Nat) (exponent : Int) :
    (if exponent > 971 then infinite negative else finite negative mantissa exponent).IsFinite ↔
      exponent ≤ 971 := by
  split
  next h =>
    refine iff_of_false ?_ (by omega)
    rintro ⟨sign, m, e, h⟩
    cases h
  next h => exact iff_of_true ⟨_, _, _, rfl⟩ (by omega)

/-- A natural number is rounded to an infinity if its exponent is past the greatest one, or comes
    there because its mantissa leaves its bits. -/
theorem isFinite_natural_iff (negative : Bool) (hn : n ≠ 0) :
    (ofRatio negative n 1).IsFinite ↔
      let (num, den) := scaleRatio n 1 ((n.log2 : Int) - (52 : Nat))
      n.log2 < 1023 ∨ n.log2 = 1023 ∧ nearest num den ≠ 2 ^ 53 := by
  have hzero : (n == 0) = false := beq_eq_false_iff_ne.mpr hn
  unfold ofRatio
  rw [exponentOf_natural hn, hzero]
  simp only [Bool.false_eq_true, if_false, beq_iff_eq, Nat.pow_eq]
  rw [isFinite_ite_iff]
  split <;> omega

/-- At the top exponent the mantissa leaves its bits from halfway on. -/
theorem isFinite_ofRatio_iff (negative : Bool) (hn : n ≠ 0) :
    (ofRatio negative n 1).IsFinite ↔ n < (2 ^ 54 - 1) * 2 ^ 970 := by
  obtain ⟨half, hhalf⟩ : ∃ half, half = 2 ^ 970 := ⟨_, rfl⟩
  have hpow (k : Nat) : 2 ^ (k + 970) = 2 ^ k * half := by rw [hhalf, pow_add]
  have hlog (k : Nat) : n.log2 < k + 970 ↔ n < 2 ^ k * half := by
    rw [← hpow]
    exact Nat.log2_lt hn
  have hpos : 0 < half := by
    rw [hhalf]
    exact pow_pos two_pos 970
  rw [isFinite_natural_iff negative hn, ← hhalf]
  have hlow := hlog 53
  have hhigh := hlog 54
  by_cases htop : n.log2 = 1023
  · -- the mantissa decides
    have hbelow : n < 2 ^ 53 * (2 * half) := by omega
    have hcarry := nearest_carries_iff hpos (by decide) hbelow
    have hscale : 2 ^ (1023 - 52) = 2 * half := by
      rw [show 1023 - 52 = 1 + 970 from rfl, hpow, pow_one]
    rw [htop, scaleRatio_sub_of_le n (by omega), hscale]
    dsimp only
    omega
  · dsimp only
    omega

/-- An integer is rounded to a finite number exactly if it is in range. -/
theorem isFinite_ofInt_iff (n : Int) : (ofInt n).IsFinite ↔ InRange n := by
  by_cases hn : n = 0
  · subst hn
    refine iff_of_true ⟨_, _, _, rfl⟩ ?_
    rw [InRange, Int.natAbs_zero]
    exact Nat.mul_pos (by decide) (pow_pos two_pos 970)
  · exact isFinite_ofRatio_iff (n < 0) (Int.natAbs_ne_zero.mpr hn)

end SignedEvents.Binary64
