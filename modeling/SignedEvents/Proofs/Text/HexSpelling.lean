import Mathlib.Data.List.Forall2
import SignedEvents.Proofs.Text.Hex
import SignedEvents.Text.Blank

/-! # Spellings of hexadecimal text

  One row of bytes can be spelled in many ways: every letter among the digits has two cases, and
  a reader may let blanks stand between the pairs.

  - **Text.IsHexOf** — exactly so many digits, of either case.
  - **Hex.decodeSpaced?** — the bytes of pairs of digits, with blanks between the pairs.
  - **Hex.decodeSpaced?_of_decode?** — without blanks, both readers read the same.
  - **CodePoint.SameLetter** — what a change of case makes of a code point.
  - **Hex.decode?_sameLetters** — it makes no other bytes of a text.
-/

namespace SignedEvents

/-! ## Section 1: Digits without blanks -/

instance : DecidablePred CodePoint.IsHex := fun c =>
  inferInstanceAs (Decidable ((c.isDigit = true ∨ (0x61 ≤ c.val ∧ c.val ≤ 0x66)) ∨
    (0x41 ≤ c.val ∧ c.val ≤ 0x46)))

/-- The text is exactly `size` hexadecimal digits of either case. -/
def Text.IsHexOf (size : Nat) (t : Text) : Prop := t.length = size ∧ ∀ c ∈ t, c.IsHex

instance (size : Nat) : DecidablePred (Text.IsHexOf size) := fun t =>
  inferInstanceAs (Decidable (t.length = size ∧ ∀ c ∈ t, c.IsHex))

namespace CodePoint

theorem isAsciiBlank_of_hexValue? {c : CodePoint} {n : Nat} (h : c.hexValue? = some n) :
    c.isAsciiBlank = false := by
  have hhex := isHex_iff.mp (isHex_of_hexValue? h).1
  simp only [isAsciiBlank, Bool.or_eq_false_iff, Bool.and_eq_false_iff, decide_eq_false_iff_not,
    beq_eq_false_iff_ne]
  omega

end CodePoint

namespace Hex

/-- The bytes of pairs of digits.  Blanks may stand before, between and behind the pairs, but not
    inside one. -/
def decodeSpaced? : Text → Option Bytes
  | [] => some []
  | a :: rest =>
    if a.isAsciiBlank then decodeSpaced? rest
    else
      match rest with
      | [] => none
      | b :: rest =>
        match a.hexValue?, b.hexValue?, decodeSpaced? rest with
        | some high, some low, some bytes => some (.ofNat (16 * high + low) :: bytes)
        | _, _, _ => none

/-- What is read without blanks is read the same where blanks may stand. -/
theorem decodeSpaced?_of_decode? {t : Text} {bytes : Bytes} (h : decode? t = some bytes) :
    decodeSpaced? t = some bytes := by
  fun_induction decode? t generalizing bytes with
  | case1 => exact h
  | case2 => cases h
  | case3 a b rest high low tail hrest hb ha ih =>
    rw [← h, decodeSpaced?, CodePoint.isAsciiBlank_of_hexValue? ha]
    simp only [Bool.false_eq_true, if_false, ha, hb, ih hrest]
  | case4 => cases h

example : decodeSpaced? " 0a\t0B\n" = some [0x0A, 0x0B] ∧ decodeSpaced? "0 a" = none := by
  decide +kernel

theorem decodeSpaced?_encode (bytes : Bytes) : decodeSpaced? (encode bytes) = some bytes :=
  decodeSpaced?_of_decode? (decode?_encode bytes)

/-- Exactly twice as many digits as there are bytes stand for them. -/
theorem exists_decode?_of_isHexOf {size : Nat} {t : Text} (h : t.IsHexOf (2 * size)) :
    ∃ bytes, decode? t = some bytes ∧ bytes.length = size := by
  obtain ⟨hlength, hhex⟩ := h
  obtain ⟨bytes, hbytes⟩ := exists_decode? (by omega) hhex
  have hsize := length_of_decode? hbytes
  exact ⟨bytes, hbytes, by omega⟩

end Hex

/-! ## Section 2: The case of letters -/

namespace CodePoint

/-- A code point, and what a change of case makes of it.  No letter outside ASCII is a hexadecimal
    digit in another case, so all that is asked there is that no digit goes or comes. -/
inductive SameLetter : CodePoint → CodePoint → Prop where
  | unchanged (c : CodePoint) : SameLetter c c
  | toUpper {c d : CodePoint} (hc : 0x61 ≤ c.val ∧ c.val ≤ 0x7A) (hd : d.val + 0x20 = c.val) :
      SameLetter c d
  | toLower {c d : CodePoint} (hc : 0x41 ≤ c.val ∧ c.val ≤ 0x5A) (hd : d.val = c.val + 0x20) :
      SameLetter c d
  | noDigit {c d : CodePoint} (hc : ¬ c.IsHex) (hd : ¬ d.IsHex) : SameLetter c d

/-- A digit has the same value in either case. -/
theorem hexValue?_capital {small capital : CodePoint} (hsmall : 0x61 ≤ small.val ∧ small.val ≤ 0x7A)
    (hcapital : capital.val + 0x20 = small.val) : capital.hexValue? = small.hexValue? := by
  unfold hexValue?
  simp only [Bool.and_eq_true, decide_eq_true_eq]
  by_cases hdigit : small.val ≤ 0x66
  · rw [if_neg (by omega), if_pos (by omega), if_neg (by omega), if_neg (by omega),
      if_pos (by omega)]
    congr 1
    omega
  · rw [if_neg (by omega), if_neg (by omega), if_neg (by omega), if_neg (by omega),
      if_neg (by omega), if_neg (by omega)]

theorem SameLetter.hexValue?_eq {c d : CodePoint} (h : c.SameLetter d) :
    c.hexValue? = d.hexValue? := by
  cases h with
  | unchanged => rfl
  | toUpper hc hd => exact (hexValue?_capital hc hd).symm
  | toLower hc hd => exact hexValue?_capital (by omega) hd.symm
  | noDigit hc hd => rw [hexValue?_eq_none hc, hexValue?_eq_none hd]

end CodePoint

/-- A change of the case of letters, each for itself: a ligature has no capital of its own. -/
def Text.SameLetters (s t : Text) : Prop := List.Forall₂ CodePoint.SameLetter s t

@[refl] theorem Text.SameLetters.refl (t : Text) : t.SameLetters t :=
  List.forall₂_same.mpr fun c _ => .unchanged c

/-- The case of digits does not matter to the bytes. -/
theorem Hex.decode?_sameLetters {s t : Text} (h : s.SameLetters t) : decode? s = decode? t := by
  -- two digits at a time, as they are read
  fun_induction decode? s generalizing t with
  | case1 =>
    rcases h with _ | _
    rfl
  | case2 a =>
    rcases h with _ | ⟨-, _ | _⟩
    rfl
  | case3 a b rest high low tail hrest hb ha ih =>
    rcases h with _ | ⟨hac, _ | ⟨hbd, hrests⟩⟩
    rw [decode?, ← hac.hexValue?_eq, ← hbd.hexValue?_eq, ← ih hrests, ha, hb, hrest]
  | case4 a b rest hnone ih =>
    rcases h with _ | ⟨hac, _ | ⟨hbd, hrests⟩⟩
    rw [decode?, ← hac.hexValue?_eq, ← hbd.hexValue?_eq, ← ih hrests]
    split
    · next hhigh hlow htail => exact absurd htail (hnone _ _ _ hhigh hlow)
    · rfl

end SignedEvents
