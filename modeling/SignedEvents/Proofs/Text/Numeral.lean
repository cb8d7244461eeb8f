import SignedEvents.Text.Numeral

/-! # Decimal digits

  - **digitsOf_small**, **digitsOf_ne_nil**, **digitsOf_head** — the digits of a number are a
    numeral without leading zeros.
  - **length_digitsOf_le** — a number below a power of ten has no more digits than that.
-/

namespace SignedEvents

theorem digitsOf_small (n : Nat) : ∀ d ∈ digitsOf n, d < 10 := by
  induction n using Nat.strongRecOn with
  | ind n ih =>
    by_cases h : n < 10
    · rw [digitsOf_of_lt h]
      intro d hd
      rwa [List.mem_singleton.mp hd]
    · have hle : 10 ≤ n := Nat.le_of_not_lt h
      rw [digitsOf_of_le hle, List.forall_mem_append, List.forall_mem_singleton]
      exact ⟨ih (n / 10) (by omega), Nat.mod_lt _ (by decide)⟩

theorem digitsOf_ne_nil (n : Nat) : digitsOf n ≠ [] := by
  by_cases h : n < 10
  · rw [digitsOf_of_lt h]
    exact List.cons_ne_nil _ _
  · rw [digitsOf_of_le (Nat.le_of_not_lt h)]
    exact List.append_ne_nil_of_right_ne_nil _ (List.cons_ne_nil _ _)

/-- Only zero starts with a zero. -/
theorem digitsOf_head {n : Nat} (h : (digitsOf n).head? = some 0) : n = 0 := by
  induction n using Nat.strongRecOn with
  | ind n ih =>
    by_cases hlt : n < 10
    · rw [digitsOf_of_lt hlt] at h
      exact Option.some.inj h
    · have hle : 10 ≤ n := Nat.le_of_not_lt hlt
      obtain ⟨d, ds, hcons⟩ := List.exists_cons_of_ne_nil (digitsOf_ne_nil (n / 10))
      rw [digitsOf_of_le hle, hcons] at h
      have hzero := ih (n / 10) (by omega) (by rw [hcons]; exact h)
      omega

theorem length_digitsOf_le {n k : Nat} (h : n < Nat.pow 10 (k + 1)) :
    (digitsOf n).length ≤ k + 1 := by
  induction k generalizing n with
  | zero =>
    rw [digitsOf_of_lt h]
    exact Nat.le_refl _
  | succ k ih =>
    by_cases hlt : n < 10
    · rw [digitsOf_of_lt hlt]
      exact Nat.le_add_left ..
    · have hle : 10 ≤ n := Nat.le_of_not_lt hlt
      have hpow : n / 10 < Nat.pow 10 (k + 1) :=
        Nat.div_lt_of_lt_mul (by rw [Nat.mul_comm]; exact h)
      rw [digitsOf_of_le hle, List.length_append]
      exact Nat.succ_le_succ (ih hpow)

end SignedEvents
