import Mathlib.Data.List.Induction
import SignedEvents.Event.Draft
import SignedEvents.Logging.Level
import SignedEvents.Proofs.Message.Producer
import SignedEvents.Proofs.Text.HexSpelling

/-! # Signatures and their digits

  A signature and a key are checked as bytes.  Of the digits that they arrive in, only the bytes
  matter, and the digits that are given out stand for the bytes that were made.

  - **Schnorr.verifyCompressed** — does a signature stand under a key of 33 bytes?
  - **Schnorr.verifyHex_iff** — on digits it is asked of the bytes that the digits stand for.
  - **Schnorr.verifyHex_sameLetters** — in either case of the digits.
  - **Event.validate_sameLetters**, **Draft.judge_sameLetters** — so an examination does not look
    at the case of a signature either.
  - **Schnorr.verifyValues_sees_bytes** — all of these.
-/

namespace SignedEvents

namespace Schnorr

open Secp256k1

variable {message : Bytes} {s t sig k : Text}

/-! ## Section 1: Keys of 33 bytes -/

/-- The point that 33 bytes stand for: the parity of its `y`, then its `x`. -/
def keyPoint? : Bytes → Option Point
  | [] => none
  | mark :: x =>
    if x.length ≠ 32 then none
    else if mark = evenMark then liftX? (natOfBytes x)
    else if mark = oddMark then (liftX? (natOfBytes x)).map Point.neg
    else none

/-- Does a signature of 64 bytes stand under a key of 33 bytes?  Of the point, only the `x` is
    looked at. -/
def verifyCompressed (message signature key : Bytes) : Except KeyError Bool :=
  match keyPoint? key with
  | none => .error .notOnCurve
  | some p => verify message signature (bytes32 p.x)

theorem natOfBytes_concat (bytes : Bytes) (b : UInt8) :
    natOfBytes (bytes ++ [b]) = 256 * natOfBytes bytes + b.toNat := by
  simp [natOfBytes]

/-- The bytes of a number, as many as it was read from, are those that it was read from. -/
theorem bytes_natOfBytes (bytes : Bytes) :
    ((List.range bytes.length).map fun i =>
      UInt8.ofNat (natOfBytes bytes >>> (8 * (bytes.length - 1 - i)))) = bytes := by
  induction bytes using List.reverseRecOn with
  | nil => rfl
  | append_singleton bytes b ih =>
    have hb := b.toNat_lt
    -- the last byte is the remainder, and the others are the bytes of the quotient
    have hlast : UInt8.ofNat (256 * natOfBytes bytes + b.toNat) = b := by
      apply UInt8.toNat_inj.mp
      rw [UInt8.toNat_ofNat']
      omega
    have hquotient : (256 * natOfBytes bytes + b.toNat) >>> 8 = natOfBytes bytes := by
      rw [Nat.shiftRight_eq_div_pow]
      omega
    have hothers : ∀ i ∈ List.range bytes.length,
        UInt8.ofNat ((256 * natOfBytes bytes + b.toNat) >>> (8 * (bytes.length - i))) =
          UInt8.ofNat (natOfBytes bytes >>> (8 * (bytes.length - 1 - i))) := by
      intro i hi
      have hi := List.mem_range.mp hi
      have hshift : 8 * (bytes.length - i) = 8 + 8 * (bytes.length - 1 - i) := by omega
      rw [hshift, Nat.shiftRight_add, hquotient]
    rw [natOfBytes_concat, List.length_append, List.length_singleton, List.range_succ,
      List.map_append, Nat.add_sub_cancel, List.map_congr_left hothers, ih]
    simp [hlast]

theorem bytes32_natOfBytes {x : Bytes} (hx : x.length = 32) : bytes32 (natOfBytes x) = x := by
  have h := bytes_natOfBytes x
  rw [hx] at h
  exact h

theorem x_of_liftX? {x : Nat} {p : Point} (h : liftX? x = some p) : p.x = x := by
  unfold liftX? at h
  split at h
  · cases h
  dsimp only at h
  split at h
  · cases h
  · obtain rfl := Option.some.inj h
    rfl

/-- Whatever the parity in front of it, a key of 33 bytes is used as the `x` behind it. -/
theorem verifyCompressed_eq {mark : UInt8} (hmark : mark = evenMark ∨ mark = oddMark) {x : Bytes}
    (hx : x.length = 32) (message signature : Bytes) :
    verifyCompressed message signature (mark :: x) = verify message signature x := by
  have hodd : oddMark ≠ evenMark := by decide
  cases hlift : liftX? (natOfBytes x) with
  | none =>
    have hpoint : keyPoint? (mark :: x) = none := by
      rcases hmark with rfl | rfl <;> simp [keyPoint?, hx, hlift]
    simp only [verifyCompressed, hpoint, verify, hlift]
  | some p =>
    obtain ⟨q, hpoint, hq⟩ : ∃ q, keyPoint? (mark :: x) = some q ∧ q.x = p.x := by
      rcases hmark with rfl | rfl
      · exact ⟨p, by simp [keyPoint?, hx, hlift], rfl⟩
      · exact ⟨p.neg, by simp [keyPoint?, hx, hlift, hodd], rfl⟩
    simp only [verifyCompressed, hpoint]
    rw [hq, x_of_liftX? hlift, bytes32_natOfBytes hx]

/-! ## Section 2: Digits -/

/-- Digits of the right number have their bytes, whichever reader reads them. -/
theorem exists_bytesOfHex? {size : Nat} (h : t.IsHexOf (2 * size)) :
    ∃ bytes, bytesOfHex? size t = some bytes ∧ Hex.decodeSpaced? t = some bytes ∧
      bytes.length = size := by
  obtain ⟨bytes, hbytes, hsize⟩ := Hex.exists_decode?_of_isHexOf h
  refine ⟨bytes, ?_, Hex.decodeSpaced?_of_decode? hbytes, hsize⟩
  rw [bytesOfHex?, if_pos h.1, hbytes]

/-- A signature in digits stands exactly if the bytes that the digits stand for stand under the
    point of even `y`. -/
theorem verifyHex_iff (hmessage : message.length = 32) (hsig : sig.IsHexOf 128)
    (hkey : k.IsHexOf 64) :
    ∃ signature x, Hex.decodeSpaced? sig = some signature ∧ signature.length = 64 ∧
      Hex.decodeSpaced? k = some x ∧ x.length = 32 ∧
      ((verifyHex message sig k).value = true ↔
        verifyCompressed message signature (evenMark :: x) = .ok true) := by
  have hsig : sig.IsHexOf (2 * 64) := hsig
  have hkey : k.IsHexOf (2 * 32) := hkey
  obtain ⟨signature, hsignature, hsig, hsignatureLength⟩ := exists_bytesOfHex? hsig
  obtain ⟨x, hx, hkey, hxLength⟩ := exists_bytesOfHex? hkey
  refine ⟨signature, x, hsig, hsignatureLength, hkey, hxLength, ?_⟩
  rw [verifyHex_of_bytes hmessage hsignature hx, verifyCompressed_eq (.inl rfl) hxLength]

/-- Only strings of exactly so many digits stand, and only over 32 bytes. -/
theorem shape_of_verifyValues {sig key : Json.Value}
    (h : (verifyValues message sig key).value = true) :
    message.length = 32 ∧ (∃ s, sig = .str s ∧ s.IsHexOf 128) ∧
      ∃ k, key = .str k ∧ k.IsHexOf 64 := by
  unfold verifyValues at h
  split at h
  · next s k =>
    obtain ⟨hsig, hkey⟩ := hex_of_verifyHex h
    exact ⟨length_of_verifyHex h, ⟨s, rfl, hsig⟩, k, rfl, hkey⟩
  · cases h

/-! ## Section 3: The case of digits -/

theorem bytesOfHex?_sameLetters (h : s.SameLetters t) (size : Nat) :
    bytesOfHex? size s = bytesOfHex? size t := by
  rw [bytesOfHex?, bytesOfHex?, h.length_eq, Hex.decode?_sameLetters h]

/-- Neither the verdict nor the records depend on the case of the digits. -/
theorem verifyHex_sameLetters {sig' k' : Text} (hsig : sig.SameLetters sig')
    (hkey : k.SameLetters k') (message : Bytes) :
    verifyHex message sig k = verifyHex message sig' k' := by
  rw [verifyHex, verifyHex, bytesOfHex?_sameLetters hsig, bytesOfHex?_sameLetters hkey]

/-- Neither do they for values, of which the signature is a string. -/
theorem verifyValues_sameLetters (h : s.SameLetters t) (message : Bytes) (key : Json.Value) :
    verifyValues message (.str s) key = verifyValues message (.str t) key := by
  cases key with
  | str k => exact verifyHex_sameLetters h (.refl k) message
  | _ => rfl

end Schnorr

/-- The examination of an event does not depend on the case of its signature. -/
theorem Event.validate_sameLetters {e : Event} {sig : Text} (h : e.sig.SameLetters sig)
    (source : SettingsSource) (clock : Clock) :
    Event.validate source clock { e with sig } = e.validate source clock := by
  -- the signature is looked at in one check alone
  have hexamine : Event.examine { e with sig } = e.examine := by
    have hverify (message : Bytes) :
        Schnorr.verifyHex message sig e.pubkey = Schnorr.verifyHex message e.sig e.pubkey :=
      (Schnorr.verifyHex_sameLetters h (.refl _) message).symm
    have hcanonicalize : Event.canonicalize { e with sig } = e.canonicalize := rfl
    unfold Event.examine
    simp only [hcanonicalize, hverify]
    rfl
  unfold Event.validate Event.judge
  rw [hexamine]
  rfl

/-- Nor does the examination of a draft. -/
theorem Draft.judge_sameLetters {d : Draft} {s t : Text} (hsig : d.sig = some (.str s))
    (h : s.SameLetters t) (settings : Settings) (clock : Clock) :
    Draft.judge settings clock { d with sig := some (.str t) } = d.judge settings clock := by
  -- neither the records nor the other checks look at the signature
  have hprefix : Draft.idPrefix { d with sig := some (.str t) } = d.idPrefix := rfl
  have hexamine : Draft.examine { d with sig := some (.str t) } = d.examine := by
    have hverify (message : Bytes) (key : Json.Value) :
        Schnorr.verifyValues message (.str t) key = Schnorr.verifyValues message (.str s) key :=
      (Schnorr.verifyValues_sameLetters h message key).symm
    have hcanonicalize : Draft.canonicalize { d with sig := some (.str t) } = d.canonicalize := rfl
    unfold Draft.examine
    simp only [hcanonicalize, hprefix, hsig, field, pure_bind, hverify]
  unfold Draft.judge
  simp only [hexamine, hprefix]

namespace Schnorr

/-! ## Section 4: Digits that are given out -/

/-- A public key is used without the parity of its `y`. -/
theorem publicKey_eq (secret : Bytes) :
    publicKey secret = (compressedKey secret).map (·.drop 1) := by
  unfold publicKey compressedKey
  cases secretOf secret <;> rfl

/-- The digits of a public key stand for the key. -/
theorem decode_publicKeyHex (secret : Bytes) :
    (publicKeyHex secret).map Hex.decodeSpaced? = (publicKey secret).map some := by
  rw [publicKeyHex, publicKey_eq]
  cases compressedKey secret with
  | error e => rfl
  | ok key => simp only [Except.map, Hex.decodeSpaced?_encode]

/-- The digits of a signature stand for the signature. -/
theorem decode_signHex (secret message : Bytes) :
    (signHex secret message).map Hex.decodeSpaced? = (sign secret message).map some := by
  rw [signHex]
  cases sign secret message with
  | error e => rfl
  | ok signature => simp only [Except.map, Hex.decodeSpaced?_encode]

end Schnorr

/-- The capital of a letter is that letter. -/
theorem CodePoint.sameLetter_upperLetter (c : CodePoint) : c.SameLetter (upperLetter c) := by
  unfold upperLetter
  split
  · next hsmall =>
    simp only [Bool.and_eq_true, decide_eq_true_eq] at hsmall
    refine .toUpper hsmall ?_
    rw [val_ofNat (by omega)]
    omega
  split
  · next hdotless => exact .noDigit (by simp [isHex_iff, hdotless]) (by decide)
  split
  · next hlong => exact .noDigit (by simp [isHex_iff, hlong]) (by decide)
  · exact .unchanged c

namespace Schnorr

/-! ## Section 5: All of it -/

/-- A signature is looked at only through the bytes that its digits stand for.  What stands are
    128 digits under 64 digits, over 32 bytes.  Such digits have their bytes, also for a reader
    that would pass over blanks, and they stand exactly if the bytes do under the point of even `y`;
    a key that is no point counts as one under which nothing stands.  So an event is examined to
    the same end in whatever case the letters of its signature are, each for itself, and so is a
    draft.  The digits of a signature that is made read as its bytes, and those of a public key as
    the bytes behind its parity. -/
theorem verifyValues_sees_bytes :
    (∀ (message : Bytes) (sig key : Json.Value), (verifyValues message sig key).value = true →
      message.length = 32 ∧ (∃ s, sig = .str s ∧ s.IsHexOf 128) ∧
        ∃ k, key = .str k ∧ k.IsHexOf 64) ∧
    (∀ (message : Bytes) (s k : Text), message.length = 32 → s.IsHexOf 128 → k.IsHexOf 64 →
      ∃ signature x, Hex.decodeSpaced? s = some signature ∧ signature.length = 64 ∧
        Hex.decodeSpaced? k = some x ∧ x.length = 32 ∧
        ((verifyValues message (.str s) (.str k)).value = true ↔
          verifyCompressed message signature (0x02 :: x) = .ok true)) ∧
    (∀ (e : Event) (sig : Text), e.sig.SameLetters sig → ∀ source clock,
      Event.validate source clock { e with sig } = e.validate source clock) ∧
    (∀ (d : Draft) (s t : Text), d.sig = some (.str s) → s.SameLetters t → ∀ settings clock,
      Draft.judge settings clock { d with sig := some (.str t) } = d.judge settings clock) ∧
    (∀ secret message,
      (signHex secret message).map Hex.decodeSpaced? = (sign secret message).map some) ∧
    ∀ secret, (publicKeyHex secret).map Hex.decodeSpaced? = (publicKey secret).map some ∧
      publicKey secret = (compressedKey secret).map (·.drop 1) := by
  refine ⟨fun _ _ _ => shape_of_verifyValues, ?_, ?_, ?_, decode_signHex,
    fun secret => ⟨decode_publicKeyHex secret, publicKey_eq secret⟩⟩
  · intro message s k hmessage hsig hkey
    exact verifyHex_iff hmessage hsig hkey
  · intro e sig h source clock
    exact Event.validate_sameLetters h source clock
  · intro d s t hsig h settings clock
    exact Draft.judge_sameLetters hsig h settings clock

/-- The signature of an event in capitals stands.  With a line feed behind it it does not, nor does
    it under a key that is no string.  The event with the capitals is examined to the same end, and
    so is its draft. -/
theorem verifyValues_sees_bytes_of_capitals :
    let capitals := Event.sample.sig.map upperLetter
    let draft := Draft.ofEvent Event.sample
    (∃ digest, Event.sample.digest? = some digest ∧
      (verifyValues digest (.str capitals) (.str Event.sample.pubkey)).value = true ∧
      (verifyValues digest (.str (capitals ++ "\n")) (.str Event.sample.pubkey)).value = false ∧
      (verifyValues digest (.str capitals) .null).value = false) ∧
    Event.validate .absent (.given 0) { Event.sample with sig := capitals } =
      Event.sample.validate .absent (.given 0) ∧
    Draft.judge ⟨some 0⟩ (.given 1700000000) { draft with sig := some (.str capitals) } =
      draft.judge ⟨some 0⟩ (.given 1700000000) := by
  intro capitals draft
  have hcapitals : Event.sample.sig.SameLetters capitals :=
    List.forall₂_map_right_iff.mpr (List.forall₂_same.mpr fun c _ => c.sameLetter_upperLetter)
  obtain ⟨hshape, hbytes, hevents, hdrafts, -⟩ := verifyValues_sees_bytes
  refine ⟨?_, hevents _ capitals hcapitals _ _, hdrafts draft _ capitals rfl hcapitals _ _⟩
  obtain ⟨digest, signature, key, hdigest, -, -, hsig, hkey, hverify⟩ := Event.signed_sample
  have hmessage := Event.length_digest? hdigest
  obtain ⟨signature', x, hsignature', -, hx, hxLength, hstands⟩ :=
    hbytes digest capitals Event.sample.pubkey hmessage (by decide +kernel) (by decide +kernel)
  refine ⟨digest, hdigest, ?_, ?_, ?_⟩
  · -- the digits stand for what they were made from
    have hread : Hex.decodeSpaced? capitals = some signature := by
      apply Hex.decodeSpaced?_of_decode?
      rw [← Hex.decode?_sameLetters hcapitals, hsig, Hex.decode?_encode]
    obtain rfl := Option.some.inj (hsignature'.symm.trans hread)
    rw [hkey, Hex.decodeSpaced?_encode] at hx
    obtain rfl := Option.some.inj hx
    apply hstands.mpr
    exact (verifyCompressed_eq (.inl rfl) hxLength digest signature').trans hverify
  · rw [Bool.eq_false_iff]
    intro h
    obtain ⟨-, ⟨s, hs, hlength, -⟩, -⟩ := hshape _ _ _ h
    obtain rfl := Json.Value.str.inj hs
    have hlong : (capitals ++ "\n").length = 129 := by decide +kernel
    omega
  · rw [Bool.eq_false_iff]
    intro h
    obtain ⟨-, -, k, hk, -⟩ := hshape _ _ _ h
    cases hk

end Schnorr

end SignedEvents
