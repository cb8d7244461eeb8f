import SignedEvents.Proofs.Json.Grammar

/-! # Control characters of JSON text

  Inside tokens there are none: a string escapes them, and no other token has any.

  - **Numeral.Written.graphic** — a number is written in printed ASCII characters.
  - **Lexeme.visible** — what is written for a token holds no control character.
  - **Spaced.visible** — so the only ones of a written text are blanks between tokens.
-/

namespace SignedEvents

/-- Printed ASCII: neither a blank nor a control character. -/
def CodePoint.IsGraphic (c : CodePoint) : Prop := 0x21 ≤ c.val ∧ c.val ≤ 0x7E

instance (c : CodePoint) : Decidable c.IsGraphic :=
  inferInstanceAs (Decidable (0x21 ≤ c.val ∧ c.val ≤ 0x7E))

namespace Json

/-! ## Section 1: Numbers -/

theorem DigitsWritten.graphic {digits : List Nat} {t : Text} (h : DigitsWritten digits t) :
    ∀ c ∈ t, c.IsGraphic := by
  rw [h.text]
  refine List.forall_mem_map.mpr fun d _ => ?_
  show 0x21 ≤ 0x30 + d % 10 ∧ 0x30 + d % 10 ≤ 0x7E
  omega

theorem FractionWritten.graphic {fraction : Option (List Nat)} {t : Text}
    (h : FractionWritten fraction t) : ∀ c ∈ t, c.IsGraphic := by
  cases h with
  | absent => simp
  | present hdigits => exact List.forall_mem_cons.mpr ⟨by decide, hdigits.graphic⟩

theorem ExponentWritten.graphic {exponent : Option Int} {t : Text}
    (h : ExponentWritten exponent t) : ∀ c ∈ t, c.IsGraphic := by
  cases h with
  | absent => simp
  | present hmark hsign hdigits =>
    refine List.forall_mem_cons.mpr ⟨?_, List.forall_mem_append.mpr ⟨?_, hdigits.graphic⟩⟩
    · rcases hmark with rfl | rfl <;> decide
    · cases hsign <;> decide

/-- A number is written in printed ASCII characters. -/
theorem Numeral.Written.graphic {n : Numeral} {t : Text} (h : n.Written t) :
    ∀ c ∈ t, c.IsGraphic := by
  cases h with
  | @mk negative whole fraction exponent t f e hwhole _ hfraction hexponent =>
    have hsign : ∀ c ∈ minusSign negative, c.IsGraphic := by
      cases negative <;> decide
    simp only [List.forall_mem_append]
    exact ⟨hsign, hwhole.graphic, hfraction.graphic, hexponent.graphic⟩

/-! ## Section 2: Strings -/

theorem letterEscapes_visible : ∀ entry ∈ letterEscapes, 0x20 ≤ entry.1 := by decide

theorem Piece.visible (p : Piece) : ∀ c ∈ p.text, 0x20 ≤ c.val := by
  cases p with
  | plain c isPlain => exact List.forall_mem_singleton.mpr isPlain.1
  | letter e c isEscape =>
    have he := letterEscapes_visible _ isEscape
    exact List.forall_mem_cons.mpr ⟨by decide, List.forall_mem_singleton.mpr he⟩
  | numbered h₁ h₂ h₃ h₄ c isNumber =>
    have hdigits : ∀ c ∈ [h₁, h₂, h₃, h₄], 0x20 ≤ c.val := by
      intro c hc
      have hhex := CodePoint.isHex_iff.mp (isHex_of_hexQuad? isNumber c hc)
      omega
    exact List.forall_mem_cons.mpr ⟨by decide, List.forall_mem_cons.mpr ⟨by decide, hdigits⟩⟩

/-! ## Section 3: Tokens -/

/-- No control character is written in a token. -/
theorem Lexeme.visible {token : Token} {w : Text} (h : Lexeme token w) :
    ∀ c ∈ w, 0x20 ≤ c.val := by
  cases h with
  | number hwritten =>
    intro c hc
    have hgraphic := hwritten.graphic c hc
    exact Nat.le_of_succ_le hgraphic.1
  | str ps =>
    have hpieces : ∀ c ∈ ps.flatMap Piece.text, 0x20 ≤ c.val := by
      intro c hc
      obtain ⟨p, -, hc⟩ := List.mem_flatMap.mp hc
      exact p.visible c hc
    refine List.forall_mem_cons.mpr ⟨by decide, List.forall_mem_append.mpr ⟨hpieces, ?_⟩⟩
    exact List.forall_mem_singleton.mpr (by decide)
  | _ => decide

/-- The only control characters of a written text are blanks between tokens. -/
theorem Spaced.visible {ts : List Token} {t : Text} (h : Spaced ts t) :
    ∀ c ∈ t, 0x20 ≤ c.val ∨ isSpace c = true := by
  induction h with
  | done hblank => exact fun c hc => .inr (hblank c hc)
  | next hblank hlexeme _ ih =>
    simp only [List.forall_mem_append]
    exact ⟨fun c hc => .inr (hblank c hc), fun c hc => .inl (hlexeme.visible c hc), ih⟩

theorem Spaced.ne_zero {ts : List Token} {t : Text} (h : Spaced ts t) : ∀ c ∈ t, c.val ≠ 0 := by
  intro c hc
  rcases h.visible c hc with hvisible | hspace
  · omega
  · simp only [isSpace, Bool.or_eq_true, beq_iff_eq] at hspace
    omega

end Json

end SignedEvents
