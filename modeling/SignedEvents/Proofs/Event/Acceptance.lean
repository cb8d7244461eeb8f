import SignedEvents.Envelope
import SignedEvents.Proofs.Event.CanonicalForm
import SignedEvents.Proofs.Text.Hex

/-! # What is accepted

  - **Event.Timely**, **Event.Authentic** — what the examination asks of an event.
  - **Event.examine_stands_iff**, **Event.judge_stands_iff** — the examination asks exactly that.
  - **openMessage_ok_iff** — which messages give an event.
  - **Event.Authentic.wellFormed** — the fields of an event that has been accepted.
  - **openMessage_exact** — both for messages.
-/

namespace SignedEvents

/-! ## Section 1: What is asked -/

namespace Schnorr

variable {message signature key : Bytes} {sig k : Text}

theorem bytesOfHex?_encode {size : Nat} {bytes : Bytes} (h : bytes.length = size) :
    bytesOfHex? size (Hex.encode bytes) = some bytes := by
  rw [bytesOfHex?, Hex.length_encode, h, if_pos rfl, Hex.decode?_encode]

theorem hex_of_bytesOfHex? {size : Nat} {t : Text} {bytes : Bytes}
    (h : bytesOfHex? size t = some bytes) : t.length = 2 * size ∧ ∀ c ∈ t, c.IsHex := by
  unfold bytesOfHex? at h
  split at h
  · next hlength => exact ⟨hlength, Hex.hex_of_decode? h⟩
  · cases h

theorem length_of_verifyHex (h : (verifyHex message sig k).value = true) : message.length = 32 := by
  by_contra hlength
  rw [verifyHex, if_pos hlength] at h
  cases h

/-- A signature that stands is written in 128 hexadecimal digits, and its key in 64. -/
theorem hex_of_verifyHex (h : (verifyHex message sig k).value = true) :
    (sig.length = 128 ∧ ∀ c ∈ sig, c.IsHex) ∧ k.length = 64 ∧ ∀ c ∈ k, c.IsHex := by
  unfold verifyHex at h
  split at h
  · cases h
  split at h
  · next hsig hkey => exact ⟨hex_of_bytesOfHex? hsig, hex_of_bytesOfHex? hkey⟩
  · cases h

/-- A signature in digits stands exactly if its bytes do. -/
theorem verifyHex_of_bytes (hmessage : message.length = 32)
    (hsig : bytesOfHex? 64 sig = some signature) (hkey : bytesOfHex? 32 k = some key) :
    (verifyHex message sig k).value = true ↔ verify message signature key = .ok true := by
  rw [verifyHex, if_neg (Decidable.not_not.mpr hmessage), hsig, hkey]
  dsimp only
  cases verify message signature key with
  | error e =>
    constructor
    · intro h
      cases h
    · intro h
      cases h
  | ok b => simp

end Schnorr

namespace Event

/-- Is the event dated no further ahead of the clock than is allowed? -/
def Timely (settings : Settings) (clock : Clock) (e : Event) : Prop :=
  ∀ allowance ∈ settings.allowance,
    ∃ now, clock.read = .ok now ∧ (e.createdAt.toNat : Int) ≤ now + allowance

/-- The event has a canonical form, its id is the digest of that form in hexadecimal digits, and
    its signature over the digest stands under its key. -/
def Authentic (e : Event) : Prop :=
  ∃ bytes, e.canonicalBytes? = some bytes ∧ e.id = Hex.encode (Sha256.hash bytes) ∧
    (Schnorr.verifyHex (Sha256.hash bytes) e.sig e.pubkey).value = true

/-! ## Section 2: The examination -/

theorem examine_value (e : Event) :
    e.examine.value =
      match e.canonicalBytes? with
      | none => .fails .canonicalizationFailed none
      | some bytes =>
        let hex := Hex.encode (Sha256.hash bytes)
        if e.id ≠ hex then .fails .idMismatch (some hex)
        else if (Schnorr.verifyHex (Sha256.hash bytes) e.sig e.pubkey).value then .stands hex
        else .fails .badSignature (some hex) := by
  unfold examine
  rw [Trace.bind_value, canonicalize_value]
  cases e.canonicalBytes? with
  | none => rfl
  | some bytes =>
    simp only
    split
    · rfl
    · rw [Trace.bind_value]
      split <;> rfl

/-- Only an authentic event stands, and the digest is its id. -/
theorem examine_stands_iff (e : Event) (digest : Text) :
    e.examine.value = .stands digest ↔ e.Authentic ∧ digest = e.id := by
  rw [examine_value, Authentic]
  cases e.canonicalBytes? with
  | none =>
    constructor
    · intro h
      cases h
    · rintro ⟨⟨bytes, h, -⟩, -⟩
      cases h
  | some bytes =>
    simp only [Option.some.injEq, exists_eq_left']
    constructor
    · intro h
      split at h
      · cases h
      split at h
      · next hid hverify =>
        have hid := Decidable.not_not.mp hid
        exact ⟨⟨hid, hverify⟩, (Verdict.stands.inj h).symm.trans hid.symm⟩
      · cases h
    · rintro ⟨⟨hid, hverify⟩, rfl⟩
      rw [if_neg (Decidable.not_not.mpr hid), if_pos hverify, hid]

theorem isAhead_eq_false_iff (e : Event) (allowance : Nat) (now : Int) :
    e.isAhead allowance now = false ↔ (e.createdAt.toNat : Int) ≤ now + allowance := by
  rw [isAhead, decide_eq_false_iff_not, gt_iff_lt, Int.not_lt]

theorem judge_value (settings : Settings) (clock : Clock) (e : Event) :
    (e.judge settings clock).value =
      match settings.allowance with
      | none => .ok e.examine.value
      | some allowance =>
        match clock.read with
        | .error fault => .error fault
        | .ok now =>
          if e.isAhead allowance now then .ok (.fails .futureTimestamp none)
          else .ok e.examine.value := by
  unfold judge
  cases settings.allowance with
  | none => rfl
  | some allowance =>
    cases clock.read with
    | error fault => rfl
    | ok now =>
      by_cases hahead : e.isAhead allowance now = true
      · simp only [hahead, if_true]
        rfl
      · simp only [hahead, Bool.false_eq_true, if_false]
        rfl

/-- The event stands exactly if it is timely and authentic. -/
theorem judge_stands_iff (settings : Settings) (clock : Clock) (e : Event) (digest : Text) :
    (e.judge settings clock).value = .ok (.stands digest) ↔
      e.Timely settings clock ∧ e.Authentic ∧ digest = e.id := by
  rw [← examine_stands_iff, judge_value, Timely]
  cases settings.allowance with
  | none =>
    -- nothing is asked of the date
    constructor
    · intro h
      refine ⟨fun allowance hnone => ?_, Except.ok.inj h⟩
      cases hnone
    · rintro ⟨-, h⟩
      exact congrArg Except.ok h
  | some allowance =>
    simp only [Option.mem_some_iff, forall_eq']
    cases clock.read with
    | error fault =>
      -- the clock must show a time
      constructor
      · intro h
        cases h
      · rintro ⟨⟨now, h, -⟩, -⟩
        cases h
    | ok now =>
      simp only [Except.ok.injEq, exists_eq_left']
      rw [← isAhead_eq_false_iff]
      by_cases hahead : e.isAhead allowance now = true
      · rw [if_pos hahead, hahead]
        constructor
        · intro h
          cases h
        · rintro ⟨h, -⟩
          cases h
      · rw [if_neg hahead, Except.ok.injEq]
        exact ⟨fun h => ⟨Bool.eq_false_iff.mpr hahead, h⟩, fun h => h.2⟩

/-- Does the event stand under some settings, at the time of some clock? -/
def Stands (settings : Settings) (clock : Clock) (e : Event) : Prop :=
  ∃ digest, (e.judge settings clock).value = .ok (.stands digest)

theorem stands_iff (settings : Settings) (clock : Clock) (e : Event) :
    e.Stands settings clock ↔ e.Timely settings clock ∧ e.Authentic := by
  constructor
  · rintro ⟨digest, h⟩
    obtain ⟨htimely, hauthentic, -⟩ := (judge_stands_iff ..).mp h
    exact ⟨htimely, hauthentic⟩
  · rintro ⟨htimely, hauthentic⟩
    exact ⟨e.id, (judge_stands_iff ..).mpr ⟨htimely, hauthentic, rfl⟩⟩

/-- An authentic event has an id of 64 lower-case digits, a key of 64 digits and a signature of
    128 digits, and no string of it holds a surrogate. -/
theorem Authentic.wellFormed {e : Event} (h : e.Authentic) :
    (e.id.length = 64 ∧ ∀ c ∈ e.id, c.IsLowerHex) ∧
    (e.pubkey.length = 64 ∧ ∀ c ∈ e.pubkey, c.IsHex) ∧
    (e.sig.length = 128 ∧ ∀ c ∈ e.sig, c.IsHex) ∧
    e.hasSurrogate = false := by
  obtain ⟨bytes, hbytes, hid, hverify⟩ := h
  obtain ⟨hsig, hkey⟩ := Schnorr.hex_of_verifyHex hverify
  have hlength : e.id.length = 64 := by
    rw [hid, Hex.length_encode, Sha256.length_hash]
  have hlower : ∀ c ∈ e.id, c.IsLowerHex := by
    rw [hid]
    exact Hex.encode_lower _
  have hdigits {t : Text} (ht : ∀ c ∈ t, c.IsHex) : t.hasSurrogate = false := by
    rw [Text.hasSurrogate, List.any_eq_false]
    intro c hc
    have hval := (ht c hc).val_lt
    rw [CodePoint.isSurrogate_of_lt (by omega)]
    exact Bool.false_ne_true
  -- the signed strings were encoded, the others are digits
  have hsigned : e.signsSurrogate = false := by
    rw [Bool.eq_false_iff, ne_eq, ← canonicalBytes?_eq_none_iff, hbytes]
    exact Option.some_ne_none bytes
  simp only [signsSurrogate, Bool.or_eq_false_iff] at hsigned
  refine ⟨⟨hlength, hlower⟩, hkey, hsig, ?_⟩
  simp only [hasSurrogate, Bool.or_eq_false_iff]
  exact ⟨⟨⟨⟨hdigits fun c hc => .inl (hlower c hc), hsigned.1.1⟩, hsigned.2⟩, hsigned.1.2⟩,
    hdigits hsig.2⟩

end Event

/-! ## Section 3: Messages -/

theorem openEvent_ok_iff (settings : Settings) (clock : Clock) (envelope : Envelope) (e : Event) :
    (envelope.openEvent settings clock).value = .ok e ↔
      envelope.command = eventCommand ∧ envelope.event = e ∧ e.Timely settings clock ∧
        e.Authentic := by
  rw [Envelope.openEvent_eq]
  by_cases hcommand : envelope.command = eventCommand
  · rw [if_neg (Decidable.not_not.mpr hcommand), Trace.bind_value]
    have hstands := envelope.event.judge_stands_iff settings clock
    -- all that matters of the verdict is when it lets the event stand
    generalize (envelope.event.judge settings clock).value = verdict at hstands
    constructor
    · intro h
      split at h
      · cases h
      · next digest =>
        have hjudged := (hstands digest).mp rfl
        obtain rfl : envelope.event = e := Except.ok.inj h
        exact ⟨hcommand, rfl, hjudged.1, hjudged.2.1⟩
      · cases h
    · rintro ⟨-, rfl, htimely, hauthentic⟩
      rw [(hstands _).mpr ⟨htimely, hauthentic, rfl⟩]
      rfl
  · rw [if_pos hcommand]
    constructor
    · intro h
      cases h
    · rintro ⟨h, -⟩
      exact absurd h hcommand

theorem openMessage_ok_iff (settings : Settings) (clock : Clock) (source : Json.Source)
    (e : Event) :
    (openMessage settings clock source).value = .ok e ↔
      ∃ envelope, Envelope.decode source = .ok envelope ∧ envelope.command = eventCommand ∧
        envelope.event = e ∧ e.Timely settings clock ∧ e.Authentic := by
  rw [openMessage_eq]
  cases Envelope.decode source with
  | error fault =>
    constructor
    · intro h
      cases h
    · rintro ⟨envelope, h, -⟩
      cases h
  | ok envelope =>
    simp only [openEvent_ok_iff, Except.ok.injEq, exists_eq_left']

/-- A message gives an event exactly if it holds the event in an envelope of the known command,
    and the event is timely and authentic.  The fields of an event that is given out have the
    right form.  Live settings are read once, as their current ones. -/
theorem openMessage_exact (settings : Settings) (clock : Clock) (source : Json.Source)
    (e : Event) :
    ((openMessage settings clock source).value = .ok e ↔
      (∃ envelope, Envelope.decode source = .ok envelope ∧ envelope.command = "EVENT" ∧
        envelope.event = e) ∧
      (∀ allowance ∈ settings.allowance,
        ∃ now, clock.read = .ok now ∧ (e.createdAt.toNat : Int) ≤ now + allowance) ∧
      ∃ bytes, e.canonicalBytes? = some bytes ∧ e.id = Hex.encode (Sha256.hash bytes) ∧
        (Schnorr.verifyHex (Sha256.hash bytes) e.sig e.pubkey).value = true) ∧
    ((openMessage settings clock source).value = .ok e →
      (e.id.length = 64 ∧ ∀ c ∈ e.id, c.IsLowerHex) ∧
      (e.pubkey.length = 64 ∧ ∀ c ∈ e.pubkey, c.IsHex) ∧
      (e.sig.length = 128 ∧ ∀ c ∈ e.sig, c.IsHex) ∧
      e.hasSurrogate = false) := by
  have hiff := openMessage_ok_iff settings clock source e
  constructor
  · rw [hiff]
    constructor
    · rintro ⟨envelope, hdecode, hcommand, hevent, htimely, hauthentic⟩
      exact ⟨⟨envelope, hdecode, hcommand, hevent⟩, htimely, hauthentic⟩
    · rintro ⟨⟨envelope, hdecode, hcommand, hevent⟩, htimely, hauthentic⟩
      exact ⟨envelope, hdecode, hcommand, hevent, htimely, hauthentic⟩
  · intro h
    obtain ⟨envelope, -, -, -, -, hauthentic⟩ := hiff.mp h
    exact hauthentic.wellFormed

end SignedEvents
