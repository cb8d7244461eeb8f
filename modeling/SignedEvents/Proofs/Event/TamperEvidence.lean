import SignedEvents.Proofs.Event.Acceptance

/-! # Tampering shows

  - **tamper_evident** — an event that has been changed in a signed field and keeps its id does
    not stand, unless the change is a collision of SHA-256.
-/

namespace SignedEvents.Event

/-- Two events of one id that stand have canonical forms of one digest. -/
theorem Authentic.same_digest {a b : Event} (ha : a.Authentic) (hb : b.Authentic)
    (hid : a.id = b.id) :
    ∃ x y, a.canonicalBytes? = some x ∧ b.canonicalBytes? = some y ∧
      Sha256.hash x = Sha256.hash y := by
  obtain ⟨x, hx, hidx, -⟩ := ha
  obtain ⟨y, hy, hidy, -⟩ := hb
  rw [hidx, hidy] at hid
  exact ⟨x, y, hx, hy, Hex.encode_injective hid⟩

/-- Events that differ in a signed field have different canonical forms, wherever the bounds
    between their strings and tags stand.  So if both have one id, then at most one of them
    stands, under any settings and at any time, unless their forms are a collision of SHA-256. -/
theorem tamper_evident (a b : Event)
    (hdiffer : a.pubkey ≠ b.pubkey ∨ a.createdAt ≠ b.createdAt ∨ a.kind ≠ b.kind ∨
      a.tags ≠ b.tags ∨ a.content ≠ b.content) :
    (∀ bytes, a.canonicalBytes? = some bytes → b.canonicalBytes? ≠ some bytes) ∧
    (a.id = b.id → ∀ (settings settings' : Settings) (clock clock' : Clock),
      a.Stands settings clock →
        ¬ b.Stands settings' clock' ∨
        ∃ x y, a.canonicalBytes? = some x ∧ b.canonicalBytes? = some y ∧ x ≠ y ∧
          Sha256.hash x = Sha256.hash y) := by
  have hforms : ∀ bytes, a.canonicalBytes? = some bytes → b.canonicalBytes? ≠ some bytes := by
    intro bytes ha hb
    obtain ⟨hpubkey, hcreated, hkind, htags, hcontent⟩ := signed_of_canonicalBytes? ha hb
    rcases hdiffer with h | h | h | h | h
    · exact h hpubkey
    · exact h hcreated
    · exact h hkind
    · exact h htags
    · exact h hcontent
  refine ⟨hforms, fun hid settings settings' clock clock' ha => ?_⟩
  by_cases hb : b.Stands settings' clock'
  · right
    have hauthentic := ((stands_iff ..).mp ha).2
    obtain ⟨x, y, hx, hy, hhash⟩ := hauthentic.same_digest ((stands_iff ..).mp hb).2 hid
    refine ⟨x, y, hx, hy, fun hsame => ?_, hhash⟩
    exact hforms x hx (hsame ▸ hy)
  · exact .inl hb

/-- Cutting a tag in two changes the canonical form. -/
theorem tamper_evident_of_cut_tag :
    let whole : Event :=
      { id := [], pubkey := [], createdAt := 0, kind := 1, tags := [["e", "p"]], content := [],
        sig := [] }
    let cut : Event := { whole with tags := [["e"], ["p"]] }
    whole.tags ≠ cut.tags ∧ whole.id = cut.id ∧
      ∃ x y, whole.canonicalBytes? = some x ∧ cut.canonicalBytes? = some y ∧ x ≠ y := by
  intro whole cut
  have hdiffer : whole.tags ≠ cut.tags := by decide
  have hforms := (tamper_evident whole cut (.inr (.inr (.inr (.inl hdiffer))))).1
  have hform (e : Event) (he : e.signsSurrogate = false) :
      ∃ bytes, e.canonicalBytes? = some bytes := by
    rw [← Option.ne_none_iff_exists', ne_eq, canonicalBytes?_eq_none_iff, he]
    exact Bool.false_ne_true
  obtain ⟨x, hx⟩ := hform whole (by decide)
  obtain ⟨y, hy⟩ := hform cut (by decide)
  exact ⟨hdiffer, rfl, x, y, hx, hy, fun hsame => hforms x hx (hsame ▸ hy)⟩

end SignedEvents.Event
