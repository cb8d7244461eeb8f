import SignedEvents.Proofs.Message.Relay

/-! # What a producer makes is accepted

  A producer fills in the fields of an event, hashes it, and signs the digest.  The event that it
  sends is accepted, whatever it says, if signatures stand under the key of their secret.

  - **Schnorr.Honors** — the signature of a secret stands under its public key.
  - **Event.produce?** — the event that a producer makes with a secret.
  - **Event.exists_produce?** — with a valid secret there is one, unless a string holds a surrogate.
  - **Event.authentic_of_produce?** — it is authentic.
  - **openMessage_of_producer** — it is accepted.
-/

namespace SignedEvents

/-! ## Section 1: Keys and signatures -/

namespace Schnorr

variable {secret message key signature : Bytes} {d : Nat}

/-- The signature of a secret over a message stands under the public key of the secret. -/
def Honors (secret message : Bytes) : Prop :=
  ∀ key signature, publicKey secret = .ok key → sign secret message = .ok signature →
    verify message signature key = .ok true

theorem exists_publicKey (h : secretOf secret = .ok d) : ∃ key, publicKey secret = .ok key := by
  rw [publicKey, h]
  exact ⟨_, rfl⟩

theorem exists_sign (h : secretOf secret = .ok d) (message : Bytes) :
    ∃ signature, sign secret message = .ok signature := by
  rw [sign, h]
  exact ⟨_, rfl⟩

theorem length_publicKey (h : publicKey secret = .ok key) : key.length = 32 := by
  unfold publicKey at h
  cases hsecret : secretOf secret with
  | error e =>
    rw [hsecret] at h
    cases h
  | ok d =>
    rw [hsecret] at h
    obtain rfl := Except.ok.inj h
    exact length_bytes32 _

theorem length_sign (h : sign secret message = .ok signature) : signature.length = 64 := by
  unfold sign at h
  cases hsecret : secretOf secret with
  | error e =>
    rw [hsecret] at h
    cases h
  | ok d =>
    rw [hsecret] at h
    obtain rfl := Except.ok.inj h
    rw [List.length_append, length_bytes32, length_bytes32]

/-- A signature that stands also stands in hexadecimal digits. -/
theorem verifyHex_encode (hmessage : message.length = 32) (hsignature : signature.length = 64)
    (hkey : key.length = 32) (h : verify message signature key = .ok true) :
    (verifyHex message (Hex.encode signature) (Hex.encode key)).value = true := by
  have hsig := bytesOfHex?_encode hsignature
  have hkey := bytesOfHex?_encode hkey
  exact (verifyHex_of_bytes hmessage hsig hkey).mpr h

end Schnorr

theorem Hex.hasSurrogate_encode (bytes : Bytes) : (encode bytes).hasSurrogate = false := by
  rw [Text.hasSurrogate, List.any_eq_false]
  intro c hc
  have hval := CodePoint.IsHex.val_lt (.inl (encode_lower bytes c hc))
  rw [CodePoint.isSurrogate_of_lt (by omega)]
  exact Bool.false_ne_true

/-! ## Section 2: Events -/

namespace Event

/-- The event that a producer makes with a secret.  The digest is taken before there is an id or a
    signature. -/
def produce? (secret : Bytes) (createdAt kind : UInt64) (tags : List Tag) (content : Text) :
    Option Event := do
  let key ← (Schnorr.publicKey secret).toOption
  let unsigned : Event :=
    { id := [], pubkey := Hex.encode key, createdAt, kind, tags, content, sig := [] }
  let digest ← unsigned.digest?
  let signature ← (Schnorr.sign secret digest).toOption
  return { unsigned with id := Hex.encode digest, sig := Hex.encode signature }

variable {secret : Bytes} {createdAt kind : UInt64} {tags : List Tag} {content : Text} {e : Event}

theorem length_digest? {digest : Bytes} (h : e.digest? = some digest) : digest.length = 32 := by
  obtain ⟨bytes, -, rfl⟩ := Option.map_eq_some_iff.mp h
  exact Sha256.length_hash bytes

theorem toOption_eq_some_iff {ε α : Type} {x : Except ε α} {a : α} :
    x.toOption = some a ↔ x = .ok a := by
  cases x <;> simp [Except.toOption]

/-- The id of the event is its own digest, and the signature is one over the same digest. -/
theorem produce?_eq_some_iff :
    produce? secret createdAt kind tags content = some e ↔
      ∃ key digest signature, Schnorr.publicKey secret = .ok key ∧ e.digest? = some digest ∧
        Schnorr.sign secret digest = .ok signature ∧
        e = ⟨Hex.encode digest, Hex.encode key, createdAt, kind, tags, content,
          Hex.encode signature⟩ := by
  -- the canonical form has neither id nor signature in it
  have hdigest (key : Bytes) (id sig : Text) :
      digest? ⟨id, Hex.encode key, createdAt, kind, tags, content, sig⟩ =
        digest? ⟨[], Hex.encode key, createdAt, kind, tags, content, []⟩ := rfl
  simp only [produce?, Option.bind_eq_bind, Option.bind_eq_some_iff, toOption_eq_some_iff,
    Option.pure_def, Option.some.injEq]
  constructor
  · rintro ⟨key, hkey, digest, hd, signature, hsign, rfl⟩
    exact ⟨key, digest, signature, hkey, hd, hsign, rfl⟩
  · rintro ⟨key, digest, signature, hkey, hd, hsign, rfl⟩
    exact ⟨key, hkey, digest, hd, signature, hsign, rfl⟩

/-- A producer with a valid secret makes an event of any strings without surrogates. -/
theorem exists_produce? {d : Nat} (hsecret : Schnorr.secretOf secret = .ok d)
    (createdAt kind : UInt64) (hcontent : content.hasSurrogate = false)
    (htags : ∀ tag ∈ tags, ∀ t ∈ tag, t.hasSurrogate = false) :
    ∃ e, produce? secret createdAt kind tags content = some e ∧ e.hasSurrogate = false := by
  obtain ⟨key, hkey⟩ := Schnorr.exists_publicKey hsecret
  have htags : tags.any (·.any Text.hasSurrogate) = false := by
    simpa using htags
  have hbytes (id sig : Text) :
      ∃ bytes, canonicalBytes? ⟨id, Hex.encode key, createdAt, kind, tags, content, sig⟩ =
        some bytes := by
    rw [← Option.ne_none_iff_exists', ne_eq, canonicalBytes?_eq_none_iff, signsSurrogate,
      Hex.hasSurrogate_encode, hcontent, htags]
    exact Bool.false_ne_true
  obtain ⟨bytes, hbytes⟩ := hbytes [] []
  obtain ⟨signature, hsign⟩ := Schnorr.exists_sign hsecret (Sha256.hash bytes)
  refine ⟨_, produce?_eq_some_iff.mpr ⟨key, Sha256.hash bytes, signature, hkey, ?_, hsign, rfl⟩, ?_⟩
  · exact congrArg (Option.map Sha256.hash) hbytes
  · simp only [hasSurrogate, Hex.hasSurrogate_encode, hcontent, htags, Bool.or_false]

/-- What a producer makes is authentic, if its signature stands under its key. -/
theorem authentic_of_produce? {digest : Bytes}
    (h : produce? secret createdAt kind tags content = some e) (hdigest : e.digest? = some digest)
    (hhonors : Schnorr.Honors secret digest) : e.Authentic := by
  obtain ⟨key, digest', signature, hkey, hdigest', hsign, he⟩ := produce?_eq_some_iff.mp h
  obtain rfl := Option.some.inj (hdigest.symm.trans hdigest')
  obtain ⟨bytes, hbytes, rfl⟩ := Option.map_eq_some_iff.mp hdigest
  refine ⟨bytes, hbytes, by rw [he], ?_⟩
  rw [he]
  exact Schnorr.verifyHex_encode (Sha256.length_hash bytes) (Schnorr.length_sign hsign)
    (Schnorr.length_publicKey hkey) (hhonors key signature hkey hsign)

/-! ### One event -/

/-- A secret. -/
def sampleSecret : Bytes := List.replicate 31 0 ++ [3]

/-- The event that is made with the secret. -/
def sample : Event where
  id := "edf656ea741ac422dea79db7c502e58117c96222131e5b51f2333eae5df67b13"
  pubkey := "f9308a019258c31049344f85f89d5229b531c845836f99b08601f113bce036f9"
  createdAt := 1700000000
  kind := 1
  tags := [["e", "abc"]]
  content := "hello relay"
  sig :=
    "e5135bec8993fd7d48e08770ff40802a793badd3cc6e2fc9e42afcdf83559338" ++
      "b722f9d9ad83e9917b9833fdafe7fe613a068f6b278636ddada96b6d8cca682c"

theorem produce?_sample :
    produce? sampleSecret 1700000000 1 [["e", "abc"]] "hello relay" = some sample := by
  decide +kernel

/-- The fields of the event are the digits of a signature that stands under a key. -/
theorem signed_sample :
    ∃ digest signature key, sample.digest? = some digest ∧
      Schnorr.publicKey sampleSecret = .ok key ∧ Schnorr.sign sampleSecret digest = .ok signature ∧
      sample.sig = Hex.encode signature ∧ sample.pubkey = Hex.encode key ∧
      Schnorr.verify digest signature key = .ok true := by
  obtain ⟨key, digest, signature, hkey, hdigest, hsign, hfields⟩ :=
    produce?_eq_some_iff.mp produce?_sample
  -- the three can be read off the fields of the event
  have hid : sample.id = Hex.encode digest := congrArg Event.id hfields
  have hpubkey : sample.pubkey = Hex.encode key := congrArg Event.pubkey hfields
  have hsig : sample.sig = Hex.encode signature := congrArg Event.sig hfields
  have hread {t : Text} {bytes : Bytes} (h : t = Hex.encode bytes) :
      (Hex.decode? t).getD [] = bytes := by
    rw [h, Hex.decode?_encode]
    rfl
  have hverify : (Schnorr.verify ((Hex.decode? sample.id).getD [])
      ((Hex.decode? sample.sig).getD []) ((Hex.decode? sample.pubkey).getD [])).toOption =
        some true := by
    decide +kernel
  rw [hread hid, hread hpubkey, hread hsig] at hverify
  exact ⟨digest, signature, key, hdigest, hkey, hsign, hsig, hpubkey,
    toOption_eq_some_iff.mp hverify⟩

/-- The digest of the event, and its signature over the digest stands. -/
theorem digest?_sample :
    ∃ digest, sample.digest? = some digest ∧ Schnorr.Honors sampleSecret digest := by
  obtain ⟨digest, signature, key, hdigest, hkey, hsign, -, -, hverify⟩ := signed_sample
  refine ⟨digest, hdigest, fun key' signature' hkey' hsign' => ?_⟩
  obtain rfl := Except.ok.inj (hkey.symm.trans hkey')
  obtain rfl := Except.ok.inj (hsign.symm.trans hsign')
  exact hverify

end Event

/-! ## Section 3: Messages -/

/-- With a valid secret an event can be made of any date, kind, tags and content without
    surrogates.  Its message is accepted, and gives the event back, under any settings and at any
    time that allow its date, if the signature of the secret over its digest stands. -/
theorem openMessage_of_producer (secret : Bytes) (d : Nat)
    (hsecret : Schnorr.secretOf secret = .ok d) (createdAt kind : UInt64) (tags : List Tag)
    (content : Text) (hcontent : content.hasSurrogate = false)
    (htags : ∀ tag ∈ tags, ∀ t ∈ tag, t.hasSurrogate = false) :
    ∃ e digest t, Event.produce? secret createdAt kind tags content = some e ∧
      e.digest? = some digest ∧ e.wireText? = some t ∧
      (Schnorr.Honors secret digest → ∀ (settings : Settings) (clock : Clock),
        (∀ allowance ∈ settings.allowance,
          ∃ now, clock.read = .ok now ∧ (createdAt.toNat : Int) ≤ now + allowance) →
        (openMessage settings clock (.text ("[\"EVENT\"," ++ t ++ "]"))).value = .ok e) := by
  obtain ⟨e, he, hsurrogate⟩ := Event.exists_produce? hsecret createdAt kind hcontent htags
  obtain ⟨key, digest, signature, -, hdigest, -, hfields⟩ := Event.produce?_eq_some_iff.mp he
  have htext : e.wireText? = some (Json.print .compact e.toValue) :=
    Event.wireText?_eq_some_iff.mpr ⟨hsurrogate, rfl⟩
  refine ⟨e, digest, _, he, hdigest, htext, fun hhonors settings clock htimely => ?_⟩
  have hauthentic := Event.authentic_of_produce? he hdigest hhonors
  have hdate : e.createdAt = createdAt := by rw [hfields]
  have htimely : e.Timely settings clock := by
    rw [Event.Timely, hdate]
    exact htimely
  exact (openMessage_ok_iff ..).mpr
    ⟨_, Form.array.decode_message htext, rfl, rfl, htimely, hauthentic⟩

/-- The message of an event, at the last second at which its date is allowed. -/
theorem openMessage_of_producer_sample :
    Schnorr.secretOf Event.sampleSecret = .ok 3 ∧
      ∃ t, Event.sample.wireText? = some t ∧
        (openMessage ⟨some 60⟩ (.given 1699999940) (.text ("[\"EVENT\"," ++ t ++ "]"))).value =
          .ok Event.sample := by
  have hsecret : Schnorr.secretOf Event.sampleSecret = .ok 3 := by rfl
  obtain ⟨e, digest, t, he, hdigest, htext, hopens⟩ :=
    openMessage_of_producer Event.sampleSecret 3 hsecret 1700000000 1 [["e", "abc"]]
      "hello relay" (by decide) (by decide)
  obtain rfl := Option.some.inj (Event.produce?_sample.symm.trans he)
  obtain ⟨digest', hdigest', hhonors⟩ := Event.digest?_sample
  obtain rfl := Option.some.inj (hdigest'.symm.trans hdigest)
  refine ⟨hsecret, t, htext, hopens hhonors _ _ fun allowance hallowance => ?_⟩
  obtain rfl := Option.some.inj hallowance
  exact ⟨1699999940, rfl, by decide⟩

end SignedEvents
