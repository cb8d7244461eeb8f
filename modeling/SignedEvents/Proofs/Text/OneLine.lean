import SignedEvents.Text.Quoted

/-! # Text on one line

  What is written into a line must not end it, and must not reach the terminal behind it.

  - **CodePoint.IsInline** — no control character, and no end of a line.
  - **Text.IsInline** — a text of such code points.
  - **Text.isInline_quoted** — any text becomes one when it is quoted.
-/

namespace SignedEvents

/-! ## Section 1: Code points -/

/-- No control character, and none of the two code points that end a line or a paragraph. -/
def CodePoint.IsInline (c : CodePoint) : Prop :=
  0x20 ≤ c.val ∧ ¬ (0x7F ≤ c.val ∧ c.val ≤ 0x9F) ∧ c.val ≠ 0x2028 ∧ c.val ≠ 0x2029

instance (c : CodePoint) : Decidable c.IsInline :=
  inferInstanceAs (Decidable (_ ∧ _))

namespace CodePoint

variable {c : CodePoint}

theorem isInline_of_isPrintable (h : c.isPrintable = true) : c.IsInline := by
  have hout (first last : Nat) (hrange : (first, last) ∈ unprintableRanges) :
      ¬ (first ≤ c.val ∧ c.val ≤ last) := by
    rw [isPrintable, Bool.not_eq_true', List.any_eq_false] at h
    simpa using h (first, last) hrange
  -- three of the ranges cover all that is not on one line
  have hlow := hout 0x0 0x1F (by decide)
  have hhigh := hout 0x7F 0xA0 (by decide)
  have hends := hout 0x2028 0x202F (by decide)
  refine ⟨?_, ?_, ?_, ?_⟩ <;> omega

theorem isInline_of_ascii (hlow : 0x20 ≤ c.val) (hhigh : c.val < 0x7F) : c.IsInline :=
  ⟨hlow, by omega, by omega, by omega⟩

theorem isInline_digit (d : Nat) : (digit d).IsInline := by
  have hval : (digit d).val = 0x30 + d % 10 := rfl
  exact isInline_of_ascii (by omega) (by omega)

theorem isInline_hexDigit (d : Nat) : (hexDigit d).IsInline := by
  unfold hexDigit
  split <;> exact isInline_of_ascii (by dsimp only; omega) (by dsimp only; omega)

end CodePoint

/-! ## Section 2: Texts -/

namespace Text

/-- A text that stays on one line. -/
def IsInline (t : Text) : Prop := ∀ c ∈ t, c.IsInline

instance (t : Text) : Decidable t.IsInline := inferInstanceAs (Decidable (∀ c ∈ t, _))

variable {t u : Text}

@[simp] theorem isInline_nil : IsInline [] := fun _ h => absurd h List.not_mem_nil

@[simp] theorem isInline_cons {c : CodePoint} : IsInline (c :: t) ↔ c.IsInline ∧ t.IsInline :=
  List.forall_mem_cons

@[simp] theorem isInline_append : IsInline (t ++ u) ↔ t.IsInline ∧ u.IsInline :=
  List.forall_mem_append

@[simp] theorem isInline_ofNat (n : Nat) : (ofNat n).IsInline :=
  List.forall_mem_map.mpr fun d _ => CodePoint.isInline_digit d

@[simp] theorem isInline_ofInt (n : Int) : (ofInt n).IsInline := by
  cases n with
  | ofNat n => exact isInline_ofNat n
  | negSucc n => exact isInline_cons.mpr ⟨by decide, isInline_ofNat (n + 1)⟩

@[simp] theorem isInline_ofHex (width n : Nat) : (ofHex width n).IsInline := by
  induction width with
  | zero => exact isInline_nil
  | succ width ih => exact isInline_cons.mpr ⟨CodePoint.isInline_hexDigit _, ih⟩

/-- What is shown of a code point between quotes stays on the line. -/
theorem isInline_escapeInQuotes {quote : CodePoint} (hquote : quote.IsInline) (c : CodePoint) :
    (escapeInQuotes quote c).IsInline := by
  have hbackslash : (CodePoint.ofChar '\\').IsInline := by decide
  unfold escapeInQuotes
  split
  · -- the quote and the backslash
    next hc =>
    refine isInline_cons.mpr ⟨hbackslash, isInline_cons.mpr ⟨?_, isInline_nil⟩⟩
    rcases Bool.or_eq_true_iff.mp hc with hc | hc
    · rwa [of_decide_eq_true hc]
    · rw [CodePoint.is, beq_iff_eq] at hc
      have hval : (CodePoint.ofChar '\\').val = c.val := hc.symm
      rwa [← CodePoint.ext_val hval]
  split
  · decide
  split
  · decide
  split
  · decide
  split
  · next hprintable =>
    exact isInline_cons.mpr ⟨CodePoint.isInline_of_isPrintable hprintable, isInline_nil⟩
  -- what cannot be printed is shown in hexadecimal digits
  split
  · exact isInline_append.mpr ⟨by decide, isInline_ofHex 2 _⟩
  split
  · exact isInline_append.mpr ⟨by decide, isInline_ofHex 4 _⟩
  · exact isInline_append.mpr ⟨by decide, isInline_ofHex 8 _⟩

/-- A quoted text stays on one line, whatever the text holds. -/
@[simp] theorem isInline_quoted (t : Text) : t.quoted.IsInline := by
  have hquote : t.quoteFor.IsInline := by
    unfold quoteFor
    split <;> decide
  have hlast : IsInline [t.quoteFor] := isInline_cons.mpr ⟨hquote, isInline_nil⟩
  refine isInline_append.mpr ⟨isInline_cons.mpr ⟨hquote, ?_⟩, hlast⟩
  intro d hd
  obtain ⟨c, -, hd⟩ := List.mem_flatMap.mp hd
  exact isInline_escapeInQuotes hquote c d hd

end Text

end SignedEvents
