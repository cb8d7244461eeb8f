import Mathlib.Data.List.Chain
import SignedEvents.Proofs.Text.Utf8
import SignedEvents.Text.Encoding

/-! # Bytes of an encoding that is guessed

  Which bytes mean the same to a reader that asks for UTF-8 and to one that guesses the encoding
  and reads surrogates.

  - **Encoding.Plain** — the bytes show no other encoding than UTF-8, and hold no surrogate.
  - **decode_of_plain** — both readers agree on plain bytes.
  - **plain_of_encode?** — the bytes of a text that starts in ASCII and holds no zero are plain.
-/

namespace SignedEvents

/-! ## Section 1: Surrogates among bytes -/

namespace Utf8

/-- May `b` stand behind `a`, if no surrogate is written there? -/
def NoSurrogateAt (a b : UInt8) : Prop := a = 0xED → b < 0xA0

theorem surrogates_eq_none {a : UInt8} {rest : Bytes}
    (h : (a :: rest).IsChain NoSurrogateAt) : Recovery.surrogates a rest = none := by
  unfold Recovery.surrogates
  split
  · next b c after =>
    have hstep : NoSurrogateAt a b := (List.isChain_cons_cons.mp h).1
    refine if_neg fun hmatch => ?_
    simp only [Bool.and_eq_true, beq_iff_eq, decide_eq_true_eq] at hmatch
    have hlt := hstep hmatch.1.1.1
    exact absurd hmatch.1.1.2 (UInt8.not_le.mpr hlt)
  · rfl

/-- Where no surrogate is written, a reader of surrogates reads no more than one that asks for
    well-formed bytes. -/
theorem decodeFrom_surrogates {bytes : Bytes} (h : bytes.IsChain NoSurrogateAt)
    (offset skip : Nat) (done : Text) :
    decodeFrom .surrogates offset skip done bytes = decodeFrom .none offset skip done bytes := by
  induction bytes generalizing offset skip done with
  | nil => rfl
  | cons a rest ih =>
    have hrest : rest.IsChain NoSurrogateAt := h.tail
    cases skip with
    | succ skip => exact ih hrest (offset + 1) skip done
    | zero =>
      -- the two readers differ only where no character is read
      simp only [decodeFrom]
      cases read a rest with
      | char c size => exact ih hrest (offset + 1) (size - 1) (c :: done)
      | bad fault size =>
        rw [surrogates_eq_none h]
        rfl

theorem decodeWith_surrogates {bytes : Bytes} (h : bytes.IsChain NoSurrogateAt) :
    decodeWith .surrogates bytes = decodeWith .none bytes :=
  decodeFrom_surrogates h 0 0 []

theorem noSurrogateAt_iff {m n : Nat} (hm : m < 256) (hn : n < 256) :
    NoSurrogateAt (.ofNat m) (.ofNat n) ↔ (m = 0xED → n < 0xA0) := by
  rw [NoSurrogateAt, ofNat_eq_iff hm, UInt8.lt_iff_toNat_lt, toNat_ofNat hn]
  rfl

/-- The bytes of a code point other than a surrogate: no surrogate is written in them, and none
    starts at the last of them. -/
theorem isChain_encodePoint {c : CodePoint} (hc : c.isSurrogate = false) :
    (encodePoint c).IsChain NoSurrogateAt ∧ ∀ x ∈ (encodePoint c).getLast?, x ≠ 0xED := by
  have hmax : c.val < 0x110000 := c.isLt
  have hsur : ¬ (0xD800 ≤ c.val ∧ c.val ≤ 0xDFFF) := CodePoint.isSurrogate_eq_false_iff.mp hc
  have hnext {m n : Nat} (hm : m < 256) (hn : n < 256) (h : m = 0xED → n < 0xA0) :
      NoSurrogateAt (.ofNat m) (.ofNat n) := (noSurrogateAt_iff hm hn).mpr h
  have hlast {n : Nat} (hn : n < 256) (h : n ≠ 0xED) : ∀ x ∈ some (UInt8.ofNat n), x ≠ 0xED := by
    intro x hx heq
    obtain rfl := Option.some.inj hx
    exact h ((ofNat_eq_iff hn _).mp heq)
  unfold encodePoint
  split
  · -- one byte
    exact ⟨.singleton _, hlast (by omega) (by omega)⟩
  split
  · -- two bytes
    refine ⟨List.isChain_pair.mpr ?_, hlast (by omega) (by omega)⟩
    exact hnext (by omega) (by omega) (by omega)
  split
  · -- three bytes, where the first may be the one that surrogates start with
    refine ⟨List.isChain_cons_cons.mpr ⟨?_, List.isChain_pair.mpr ?_⟩,
      hlast (by omega) (by omega)⟩
    · exact hnext (by omega) (by omega) (by omega)
    · exact hnext (by omega) (by omega) (by omega)
  · -- four bytes
    refine ⟨List.isChain_cons_cons.mpr ⟨?_, List.isChain_cons_cons.mpr ⟨?_,
      List.isChain_pair.mpr ?_⟩⟩, hlast (by omega) (by omega)⟩
    · exact hnext (by omega) (by omega) (by omega)
    · exact hnext (by omega) (by omega) (by omega)
    · exact hnext (by omega) (by omega) (by omega)

/-- In the bytes of a text no surrogate is written. -/
theorem isChain_of_encode? {t : Text} {bytes : Bytes} (h : encode? t = some bytes) :
    bytes.IsChain NoSurrogateAt := by
  obtain ⟨ht, rfl⟩ := encode?_eq_some_iff.mp h
  clear h
  induction t with
  | nil => exact .nil
  | cons c t ih =>
    simp only [Text.hasSurrogate, List.any_cons, Bool.or_eq_false_iff] at ht
    obtain ⟨hpoint, hlast⟩ := isChain_encodePoint ht.1
    have hrest := ih ht.2
    rw [List.flatMap_cons, List.isChain_append]
    -- nothing is asked where two code points meet: none ends in the byte that surrogates start with
    refine ⟨hpoint, hrest, fun x hx y _ hlead => ?_⟩
    exact absurd hlead (hlast x hx)

/-- Only the code point zero has a zero byte. -/
theorem ne_zero_of_mem_encodePoint {c : CodePoint} (hc : c.val ≠ 0) :
    ∀ x ∈ encodePoint c, x ≠ 0 := by
  have hmax : c.val < 0x110000 := c.isLt
  have hne {n : Nat} (hn : n < 256) (h : n ≠ 0) : UInt8.ofNat n ≠ 0 := by
    intro heq
    exact h ((ofNat_eq_iff hn 0).mp heq)
  unfold encodePoint
  split
  · rw [List.forall_mem_singleton]
    exact hne (by omega) hc
  split
  · rw [List.forall_mem_cons, List.forall_mem_singleton]
    exact ⟨hne (by omega) (by omega), hne (by omega) (by omega)⟩
  split
  · rw [List.forall_mem_cons, List.forall_mem_cons, List.forall_mem_singleton]
    exact ⟨hne (by omega) (by omega), hne (by omega) (by omega), hne (by omega) (by omega)⟩
  · rw [List.forall_mem_cons, List.forall_mem_cons, List.forall_mem_cons,
      List.forall_mem_singleton]
    exact ⟨hne (by omega) (by omega), hne (by omega) (by omega), hne (by omega) (by omega),
      hne (by omega) (by omega)⟩

end Utf8

/-! ## Section 2: Plain bytes -/

namespace Encoding

/-- The marks that name an encoding: of UTF-8, of UTF-16 and of UTF-32 in both orders. -/
def marks : List Bytes :=
  [[0xEF, 0xBB, 0xBF], [0xFE, 0xFF], [0xFF, 0xFE], [0x00, 0x00, 0xFE, 0xFF],
    [0xFF, 0xFE, 0x00, 0x00]]

/-- Bytes that show no other encoding than UTF-8, and in which no surrogate is written. -/
structure Plain (bytes : Bytes) : Prop where
  /-- No mark names an encoding. -/
  unmarked     : ∀ mark ∈ marks, ¬ mark <+: bytes
  /-- No zero shows a unit of two or four bytes. -/
  narrow       : 0 ∉ bytes.take 2
  /-- No byte `0xED` stands before one from `0xA0` on. -/
  noSurrogates : bytes.IsChain Utf8.NoSurrogateAt

theorem detectUnmarked_of_narrow {bytes : Bytes} (h : 0 ∉ bytes.take 2) :
    detectUnmarked bytes = utf8 := by
  have hpair {a b : UInt8} {rest : Bytes} (hbytes : bytes = a :: b :: rest) :
      (a == 0) = false ∧ (b == 0) = false := by
    rw [hbytes, List.take_succ_cons, List.take_succ_cons, List.take_zero] at h
    simp only [List.mem_cons, List.not_mem_nil, or_false, not_or] at h
    exact ⟨beq_false_of_ne (Ne.symm h.1), beq_false_of_ne (Ne.symm h.2)⟩
  unfold detectUnmarked
  -- of two bytes, or of four or more, the first two are looked at, and neither is zero
  split
  · next a b =>
    obtain ⟨ha, hb⟩ := hpair rfl
    rw [ha, hb]
    rfl
  · next a b c d rest =>
    obtain ⟨ha, hb⟩ := hpair rfl
    rw [ha, hb]
    rfl
  · rfl

theorem detect_of_plain {bytes : Bytes} (h : Plain bytes) : detect bytes = (utf8, 0) := by
  have hmark (mark : Bytes) {rest : Bytes} (hmem : mark ∈ marks) : bytes ≠ mark ++ rest :=
    fun heq => h.unmarked mark hmem ⟨rest, heq.symm⟩
  unfold detect
  split
  · exact absurd rfl (hmark [0x00, 0x00, 0xFE, 0xFF] (by decide))
  · exact absurd rfl (hmark [0xFF, 0xFE, 0x00, 0x00] (by decide))
  · exact absurd rfl (hmark [0xFE, 0xFF] (by decide))
  · exact absurd rfl (hmark [0xFF, 0xFE] (by decide))
  · exact absurd rfl (hmark [0xEF, 0xBB, 0xBF] (by decide))
  · rw [detectUnmarked_of_narrow h.narrow]

/-- Plain bytes are read as UTF-8, and only if they are well-formed. -/
theorem decode_of_plain {bytes : Bytes} (h : Plain bytes) (t : Text) :
    decode bytes = .ok t ↔ Utf8.decode? bytes = some t := by
  have hsame := Utf8.decodeWith_surrogates h.noSurrogates
  simp only [decode, detect_of_plain h, List.drop_zero, decode8, hsame, Utf8.decode?]
  cases Utf8.decodeWith .none bytes with
  | ok u => simp
  | error e => simp

theorem marks_head : ∀ mark ∈ marks, mark ≠ [] ∧ ∀ b ∈ mark.head?, b = 0 ∨ 0x80 ≤ b := by
  decide +kernel

/-- The bytes of a text that starts in ASCII and holds no zero are plain. -/
theorem plain_of_encode? {t : Text} {bytes : Bytes} (h : Utf8.encode? t = some bytes)
    (hhead : ∀ c ∈ t.head?, c.val < 0x80) (hzero : ∀ c ∈ t, c.val ≠ 0) : Plain bytes := by
  have hchain := Utf8.isChain_of_encode? h
  obtain ⟨-, rfl⟩ := Utf8.encode?_eq_some_iff.mp h
  have hnonzero : 0 ∉ t.flatMap Utf8.encodePoint := by
    intro hmem
    obtain ⟨c, hc, hbyte⟩ := List.mem_flatMap.mp hmem
    exact Utf8.ne_zero_of_mem_encodePoint (hzero c hc) 0 hbyte rfl
  refine ⟨fun mark hmark hprefix => ?_, fun hmem => hnonzero (List.mem_of_mem_take hmem), hchain⟩
  obtain ⟨hne, hmarked⟩ := marks_head mark hmark
  obtain ⟨first, tail, rfl⟩ := List.exists_cons_of_ne_nil hne
  obtain ⟨rest, hbytes⟩ := hprefix
  cases t with
  | nil => cases hbytes
  | cons c t =>
    -- the first byte is that of an ASCII code point other than zero, so it starts no mark
    have hc : c.val < 0x80 := hhead c rfl
    rw [List.flatMap_cons, Utf8.encodePoint, if_pos hc] at hbytes
    obtain ⟨rfl, -⟩ := List.cons.inj hbytes
    rcases hmarked _ rfl with hzeroByte | hhigh
    · exact hzero c (List.mem_cons_self ..) ((Utf8.ofNat_eq_iff (by omega) 0).mp hzeroByte)
    · rw [UInt8.le_iff_toNat_le, Utf8.toNat_ofNat (by omega)] at hhigh
      exact absurd hc (Nat.not_lt.mpr hhigh)

end Encoding

end SignedEvents
