import SignedEvents.Text.Hex

/-! # Hexadecimal text read back

  - **decode?_encode** — the digits of some bytes read as those bytes.
  - **encode_lower** — bytes are written in lower case.
  - **hex_of_decode?**, **exists_decode?** — hexadecimal digits are read, two for each byte, and
    nothing else is.
-/

namespace SignedEvents

namespace CodePoint

/-- A decimal digit, or one of the letters `a` to `f`. -/
def IsLowerHex (c : CodePoint) : Prop := c.isDigit = true ∨ (0x61 ≤ c.val ∧ c.val ≤ 0x66)

/-- A hexadecimal digit of either case. -/
def IsHex (c : CodePoint) : Prop := c.IsLowerHex ∨ (0x41 ≤ c.val ∧ c.val ≤ 0x46)

theorem isLowerHex_hexDigit (d : Nat) : (hexDigit d).IsLowerHex := by
  have h : d % 16 < 16 := Nat.mod_lt _ (by decide)
  unfold hexDigit IsLowerHex isDigit
  split
  · next hlt =>
    left
    simp only [Bool.and_eq_true, decide_eq_true_eq]
    omega
  · next hlt =>
    right
    show 0x61 ≤ 0x57 + d % 16 ∧ 0x57 + d % 16 ≤ 0x66
    omega

theorem hexValue?_hexDigit (d : Nat) : (hexDigit d).hexValue? = some (d % 16) := by
  have h : d % 16 < 16 := Nat.mod_lt _ (by decide)
  unfold hexDigit
  split
  · next hlt =>
    have hdigit : 48 + d % 16 ≤ 57 := by omega
    simp [hexValue?, hdigit]
  · next hlt =>
    have h₁ : ¬ 87 + d % 16 ≤ 57 := by omega
    have h₂ : ¬ 87 + d % 16 ≤ 70 := by omega
    have h₃ : 97 ≤ 87 + d % 16 ∧ 87 + d % 16 ≤ 102 := by omega
    simp [hexValue?, h₁, h₂, h₃]

theorem isHex_iff {c : CodePoint} :
    c.IsHex ↔ (0x30 ≤ c.val ∧ c.val ≤ 0x39) ∨ (0x61 ≤ c.val ∧ c.val ≤ 0x66) ∨
      (0x41 ≤ c.val ∧ c.val ≤ 0x46) := by
  simp only [IsHex, IsLowerHex, isDigit, Bool.and_eq_true, decide_eq_true_eq, or_assoc]

/-- What has a value is a hexadecimal digit, and the value is below sixteen. -/
theorem isHex_of_hexValue? {c : CodePoint} {n : Nat} (h : c.hexValue? = some n) :
    c.IsHex ∧ n < 16 := by
  unfold hexValue? at h
  simp only [Bool.and_eq_true, decide_eq_true_eq] at h
  rw [isHex_iff]
  split at h
  · next hdigit =>
    have hn := Option.some.inj h
    exact ⟨.inl hdigit, by omega⟩
  split at h
  · next hupper =>
    have hn := Option.some.inj h
    exact ⟨.inr (.inr hupper), by omega⟩
  split at h
  · next hlower =>
    have hn := Option.some.inj h
    exact ⟨.inr (.inl hlower), by omega⟩
  cases h

theorem exists_hexValue? {c : CodePoint} (h : c.IsHex) : ∃ n, c.hexValue? = some n := by
  rw [isHex_iff] at h
  unfold hexValue?
  simp only [Bool.and_eq_true, decide_eq_true_eq]
  split
  · exact ⟨_, rfl⟩
  split
  · exact ⟨_, rfl⟩
  split
  · exact ⟨_, rfl⟩
  · omega

/-- What is no hexadecimal digit has no value. -/
theorem hexValue?_eq_none {c : CodePoint} (h : ¬ c.IsHex) : c.hexValue? = none := by
  rw [Option.eq_none_iff_forall_ne_some]
  intro n hn
  exact h (isHex_of_hexValue? hn).1

theorem isSurrogate_of_lt {c : CodePoint} (h : c.val < 0xD800) : c.isSurrogate = false := by
  simp only [isSurrogate, Bool.and_eq_false_iff, decide_eq_false_iff_not]
  omega

theorem IsHex.val_lt {c : CodePoint} (h : c.IsHex) : c.val < 0x80 := by
  rw [isHex_iff] at h
  omega

end CodePoint

namespace Hex

theorem length_encode (bytes : Bytes) : (encode bytes).length = 2 * bytes.length := by
  induction bytes with
  | nil => rfl
  | cons b bytes ih =>
    rw [encode, List.flatMap_cons, List.length_append, List.length_cons, ← encode, ih]
    show 2 + 2 * bytes.length = 2 * (bytes.length + 1)
    omega

theorem encode_lower (bytes : Bytes) : ∀ c ∈ encode bytes, c.IsLowerHex := by
  intro c hc
  obtain ⟨b, -, hc⟩ := List.mem_flatMap.mp hc
  rcases List.mem_cons.mp hc with rfl | hc
  · exact CodePoint.isLowerHex_hexDigit _
  · rw [List.mem_singleton.mp hc]
    exact CodePoint.isLowerHex_hexDigit _

/-- The digits of some bytes read as those bytes. -/
theorem decode?_encode (bytes : Bytes) : decode? (encode bytes) = some bytes := by
  induction bytes with
  | nil => rfl
  | cons b bytes ih =>
    have hbyte : UInt8.ofNat (16 * (b.toNat / 16 % 16) + b.toNat % 16) = b := by
      have hlt : b.toNat < 256 := b.toNat_lt
      have hsum : 16 * (b.toNat / 16 % 16) + b.toNat % 16 = b.toNat := by omega
      rw [hsum, UInt8.ofNat_toNat]
    show decode? (.hexDigit (b.toNat / 16) :: .hexDigit b.toNat :: encode bytes) = _
    rw [decode?, CodePoint.hexValue?_hexDigit, CodePoint.hexValue?_hexDigit, ih]
    simp only [hbyte]

theorem encode_injective {x y : Bytes} (h : encode x = encode y) : x = y := by
  have hread := decode?_encode x
  rw [h, decode?_encode] at hread
  exact (Option.some.inj hread).symm

/-- Only hexadecimal digits are read, two for each byte. -/
theorem hex_of_decode? {t : Text} {bytes : Bytes} (h : decode? t = some bytes) :
    ∀ c ∈ t, c.IsHex := by
  fun_induction decode? t generalizing bytes with
  | case1 => exact fun c hc => absurd hc List.not_mem_nil
  | case2 => cases h
  | case3 a b rest high low tail hrest hb ha ih =>
    rw [List.forall_mem_cons, List.forall_mem_cons]
    exact ⟨(CodePoint.isHex_of_hexValue? ha).1, (CodePoint.isHex_of_hexValue? hb).1, ih hrest⟩
  | case4 => cases h

theorem length_of_decode? {t : Text} {bytes : Bytes} (h : decode? t = some bytes) :
    t.length = 2 * bytes.length := by
  fun_induction decode? t generalizing bytes with
  | case1 =>
    obtain rfl := Option.some.inj h
    rfl
  | case2 => cases h
  | case3 a b rest high low tail hrest hb ha ih =>
    obtain rfl := Option.some.inj h
    simp only [List.length_cons, ih hrest]
    omega
  | case4 => cases h

/-- An even number of hexadecimal digits is read. -/
theorem exists_decode? {t : Text} (heven : t.length % 2 = 0) (hhex : ∀ c ∈ t, c.IsHex) :
    ∃ bytes, decode? t = some bytes := by
  fun_induction decode? t with
  | case1 => exact ⟨[], rfl⟩
  | case2 => simp at heven
  | case3 => exact ⟨_, rfl⟩
  | case4 a b rest hnone ih =>
    rw [List.forall_mem_cons, List.forall_mem_cons] at hhex
    obtain ⟨high, ha⟩ := CodePoint.exists_hexValue? hhex.1
    obtain ⟨low, hb⟩ := CodePoint.exists_hexValue? hhex.2.1
    have hrest : rest.length % 2 = 0 := by
      simp only [List.length_cons] at heven
      omega
    obtain ⟨tail, htail⟩ := ih hrest hhex.2.2
    exact absurd htail (hnone high low tail ha hb)

end Hex

end SignedEvents
