import SignedEvents.Envelope
import SignedEvents.Proofs.Json.ControlCharacters
import SignedEvents.Proofs.Json.Reading
import SignedEvents.Proofs.Text.Encoding

/-! # Messages that arrive as bytes

  Bytes mean what the text of their encoding means.  The encoding is guessed, so more bytes are
  accepted than those that are well-formed UTF-8.

  - **Json.read_bytes_iff**, **Envelope.decode_bytes_iff** — bytes mean what their text means.
  - **Envelope.plain_of_decode_text** — a message in UTF-8 shows no other encoding.
  - **Envelope.decode_bytes_exact** — which bytes mean the same as their UTF-8 text.
  - **Envelope.decode_bytes_beyond_utf8** — messages that are accepted all the same.
-/

namespace SignedEvents

/-! ## Section 1: JSON -/

namespace Json

variable {rules : Rules}

theorem read_text_iff {t : Text} {v : Value} :
    read rules (.text t) = .ok v ↔ readText rules t = .ok v := by
  constructor
  · intro h
    obtain ⟨d, hd, hv⟩ := written_of_read h
    rw [readText_of_written hd, hv]
  · intro h
    obtain ⟨d, hd, hv⟩ := written_of_readText h
    rw [read_of_written hd, hv]

/-- Bytes have the value of the text that they encode. -/
theorem read_bytes_iff {bytes : Bytes} {v : Value} :
    read rules (.bytes bytes) = .ok v ↔
      ∃ t, Encoding.decode bytes = .ok t ∧ read rules (.text t) = .ok v := by
  simp only [read_text_iff]
  rw [read]
  cases Encoding.decode bytes with
  | ok t => simp only [Except.ok.injEq, exists_eq_left']
  | error e =>
    constructor
    · intro h
      cases h
    · rintro ⟨t, h, -⟩
      cases h

end Json

/-! ## Section 2: Envelopes -/

namespace Envelope

theorem decode_ok_iff {source : Json.Source} {envelope : Envelope} :
    decode source = .ok envelope ↔
      ∃ v, Json.read .wire source = .ok v ∧ ofValue v = .ok envelope := by
  unfold decode
  cases Json.read .wire source with
  | error e =>
    constructor
    · intro h
      cases h
    · rintro ⟨v, h, -⟩
      cases h
  | ok v =>
    simp only [Except.ok.injEq, exists_eq_left']
    cases ofValue v with
    | error problems =>
      constructor <;> intro h <;> cases h
    | ok found => simp only [Except.ok.injEq]

/-- Whether a message holds an envelope can be computed. -/
instance (source : Json.Source) (envelope : Envelope) : Decidable (decode source = .ok envelope) :=
  decidable_of_iff ((decode source).toOption = some envelope) (by
    cases decode source with
    | ok found => simp [Except.toOption]
    | error e => simp [Except.toOption])

/-- Bytes hold the envelope of the text that they encode. -/
theorem decode_bytes_iff {bytes : Bytes} {envelope : Envelope} :
    decode (.bytes bytes) = .ok envelope ↔
      ∃ t, Encoding.decode bytes = .ok t ∧ decode (.text t) = .ok envelope := by
  simp only [decode_ok_iff, Json.read_bytes_iff]
  constructor
  · rintro ⟨v, ⟨t, ht, hv⟩, henvelope⟩
    exact ⟨t, ht, v, hv, henvelope⟩
  · rintro ⟨t, ht, v, hv, henvelope⟩
    exact ⟨v, ⟨t, ht, hv⟩, henvelope⟩

/-- A message in UTF-8 shows no other encoding: it starts in ASCII, and no zero is in it. -/
theorem plain_of_decode_text {t : Text} {bytes : Bytes} {envelope : Envelope}
    (h : decode (.text t) = .ok envelope) (hbytes : Utf8.decode? bytes = some t) :
    Encoding.Plain bytes := by
  obtain ⟨v, hv, -⟩ := decode_ok_iff.mp h
  obtain ⟨d, hwritten, -⟩ := Json.written_of_read hv
  have hencode := Utf8.decode?_eq_some_iff.mp hbytes
  exact Encoding.plain_of_encode? hencode (Json.Spaced.head_lt hwritten)
    (Json.Spaced.ne_zero hwritten)

/-- A message as text is the same message as its bytes in UTF-8. -/
theorem decode_bytes_of_text {t : Text} {bytes : Bytes} {envelope : Envelope}
    (h : decode (.text t) = .ok envelope) (hbytes : Utf8.decode? bytes = some t) :
    decode (.bytes bytes) = .ok envelope := by
  have hplain := plain_of_decode_text h hbytes
  exact decode_bytes_iff.mpr ⟨t, (Encoding.decode_of_plain hplain t).mpr hbytes, h⟩

/-- Bytes hold the envelope of the text that they encode.  The bytes that hold an envelope and
    are plain are exactly the well-formed UTF-8 whose text holds it, so plain bytes that are not
    well-formed hold none. -/
theorem decode_bytes_exact (bytes : Bytes) :
    (∀ envelope, decode (.bytes bytes) = .ok envelope ∧ Encoding.Plain bytes ↔
      ∃ t, Utf8.decode? bytes = some t ∧ decode (.text t) = .ok envelope) ∧
    (Encoding.Plain bytes → Utf8.decode? bytes = none → ∃ e, decode (.bytes bytes) = .error e) ∧
    ∀ envelope, decode (.bytes bytes) = .ok envelope ↔
      ∃ t, Encoding.decode bytes = .ok t ∧ decode (.text t) = .ok envelope := by
  have hplain (envelope : Envelope) : decode (.bytes bytes) = .ok envelope ∧ Encoding.Plain bytes ↔
      ∃ t, Utf8.decode? bytes = some t ∧ decode (.text t) = .ok envelope := by
    constructor
    · rintro ⟨h, hplain⟩
      obtain ⟨t, ht, henvelope⟩ := decode_bytes_iff.mp h
      exact ⟨t, (Encoding.decode_of_plain hplain t).mp ht, henvelope⟩
    · rintro ⟨t, ht, henvelope⟩
      exact ⟨decode_bytes_of_text henvelope ht, plain_of_decode_text henvelope ht⟩
  refine ⟨hplain, fun h hnone => ?_, fun envelope => decode_bytes_iff⟩
  -- an envelope would be that of a well-formed text
  cases hdecode : decode (.bytes bytes) with
  | error e => exact ⟨e, rfl⟩
  | ok envelope =>
    obtain ⟨t, ht, -⟩ := (hplain envelope).mp ⟨hdecode, h⟩
    rw [hnone] at ht
    cases ht

/-- A message with a blank event, and with a string as the value of a member that is ignored. -/
def blankMessage (ignored : Text) : Text :=
  "[\"EVENT\",\x7b\"\":\"" ++ ignored ++
    "\",\"id\":\"\",\"pubkey\":\"\",\"created_at\":0,\"kind\":0,\"content\":\"\",\"sig\":\"\"\x7d]"

/-- The envelope that a blank message holds. -/
def blank : Envelope where
  command := eventCommand
  event := { id := [], pubkey := [], createdAt := 0, kind := 0, tags := [], content := [],
             sig := [] }

/-- More than UTF-8 is accepted: a surrogate in a member that is ignored, and UTF-16 behind its
    mark, of which neither is well-formed; and UTF-8 behind its mark, which is well-formed but no
    message as text. -/
theorem decode_bytes_beyond_utf8 :
    let surrogate : Bytes := (blankMessage [.ofNat 0xD800]).flatMap Utf8.encodePoint
    let wide : Bytes := 0xFF :: 0xFE :: (blankMessage []).flatMap fun c => [.ofNat c.val, 0]
    let marked : Text := .ofNat 0xFEFF :: blankMessage []
    (decode (.bytes surrogate) = .ok blank ∧ Utf8.decode? surrogate = none) ∧
    (decode (.bytes wide) = .ok blank ∧ Utf8.decode? wide = none) ∧
    (decode (.bytes (marked.flatMap Utf8.encodePoint)) = .ok blank ∧
      Utf8.decode? (marked.flatMap Utf8.encodePoint) = some marked ∧
      decode (.text marked) ≠ .ok blank) := by
  decide +kernel

end Envelope

end SignedEvents
