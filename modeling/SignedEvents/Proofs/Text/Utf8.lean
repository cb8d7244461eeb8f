import SignedEvents.Text.Utf8

/-! # UTF-8 read back

  The bytes of a text without surrogates read back as that text, whatever a reader does with
  bytes that hold no character.  A reader that does nothing with them reads nothing else.

  - **read_encodePoint** — the bytes of one code point read as that code point.
  - **decodeWith_of_encode?** — the bytes of a text read as that text.
  - **encode?_injective** — no two texts have the same bytes.
  - **encodePoint_of_read** — a character is written in the bytes that it is read from.
  - **decode?_eq_some_iff** — well-formed UTF-8 is what encoding gives.
-/

namespace SignedEvents

namespace CodePoint

theorem ofNat_eq {c : CodePoint} {n : Nat} (h : n = c.val) : ofNat n = c := by
  rw [h, ofNat_val]

theorem isSurrogate_iff {c : CodePoint} :
    c.isSurrogate = true ↔ 0xD800 ≤ c.val ∧ c.val ≤ 0xDFFF := by
  rw [isSurrogate, Bool.and_eq_true, decide_eq_true_eq, decide_eq_true_eq]

theorem isSurrogate_eq_false_iff {c : CodePoint} :
    c.isSurrogate = false ↔ ¬ (0xD800 ≤ c.val ∧ c.val ≤ 0xDFFF) := by
  rw [Bool.eq_false_iff, ne_eq, isSurrogate_iff]

end CodePoint

namespace Utf8

/-! ## Bytes as numbers -/

theorem toNat_ofNat {n : Nat} (hn : n < 256) : (UInt8.ofNat n).toNat = n :=
  UInt8.toNat_ofNat_of_lt' hn

theorem ofNat_lt_iff {n : Nat} (hn : n < 256) (b : UInt8) : UInt8.ofNat n < b ↔ n < b.toNat := by
  rw [UInt8.lt_iff_toNat_lt, toNat_ofNat hn]

theorem le_ofNat_iff {n : Nat} (hn : n < 256) (b : UInt8) : b ≤ UInt8.ofNat n ↔ b.toNat ≤ n := by
  rw [UInt8.le_iff_toNat_le, toNat_ofNat hn]

theorem ofNat_eq_iff {n : Nat} (hn : n < 256) (b : UInt8) : UInt8.ofNat n = b ↔ n = b.toNat := by
  rw [← UInt8.toNat_inj, toNat_ofNat hn]

theorem ofNat_ne_iff {n : Nat} (hn : n < 256) (b : UInt8) :
    (UInt8.ofNat n != b) = true ↔ n ≠ b.toNat := by
  rw [bne_iff_ne, ne_eq, ofNat_eq_iff hn]

theorem isTail_ofNat (k : Nat) : isTail (.ofNat (0x80 + k % 0x40)) = true := by
  have hlt : 0x80 + k % 0x40 < 256 := by omega
  have hle : UInt8.ofNat (0x80 + k % 0x40) ≤ 0xBF := by
    rw [UInt8.le_iff_toNat_le, toNat_ofNat hlt]
    show 0x80 + k % 0x40 ≤ 0xBF
    omega
  simp only [isTail, le_ofNat_iff hlt, hle, Bool.and_eq_true, decide_eq_true_eq, and_true]
  show 0x80 ≤ 0x80 + k % 0x40
  omega

/-- The second byte of a character stands in the range that its first byte allows, unless the
    character is a long form, a surrogate or past the last code point. -/
theorem isSecond_ofNat {n : Nat} (k : Nat) (hn : n < 256)
    (hE0 : n = 0xE0 → 0x20 ≤ k % 0x40) (hED : n = 0xED → k % 0x40 < 0x20)
    (hF0 : n = 0xF0 → 0x10 ≤ k % 0x40) (hF4 : n = 0xF4 → k % 0x40 < 0x10) :
    isSecond (.ofNat n) (.ofNat (0x80 + k % 0x40)) = true := by
  have hlt : 0x80 + k % 0x40 < 256 := by omega
  simp only [isSecond, isTail_ofNat, ofNat_ne_iff hn, le_ofNat_iff hlt, ofNat_lt_iff hlt,
    Bool.true_and, Bool.and_eq_true, Bool.or_eq_true, decide_eq_true_eq, UInt8.reduceToNat]
  omega

/-! ## One character -/

section read

variable {a b c d : UInt8} (rest : Bytes)

theorem read_one (h : a.toNat < 0x80) : read a rest = .char (.ofNat a.toNat) 1 := by
  have l1 : a < 0x80 := UInt8.lt_iff_toNat_lt.mpr h
  simp only [read, l1, if_true]

theorem read_two (h : 0xC2 ≤ a.toNat) (h' : a.toNat < 0xE0) (hb : isTail b = true) :
    read a (b :: rest) = .char (ofTwo a b) 2 := by
  have l1 : ¬ a < 0x80 := fun l => absurd (UInt8.lt_iff_toNat_lt.mp l) (by simp; omega)
  have l2 : ¬ a < 0xC2 := fun l => absurd (UInt8.lt_iff_toNat_lt.mp l) (by simp; omega)
  have l3 : a < 0xE0 := UInt8.lt_iff_toNat_lt.mpr h'
  simp only [read, l1, l2, l3, hb, if_true, if_false]

theorem read_three (h : 0xE0 ≤ a.toNat) (h' : a.toNat < 0xF0) (hb : isSecond a b = true)
    (hc : isTail c = true) : read a (b :: c :: rest) = .char (ofThree a b c) 3 := by
  have l1 : ¬ a < 0x80 := fun l => absurd (UInt8.lt_iff_toNat_lt.mp l) (by simp; omega)
  have l2 : ¬ a < 0xC2 := fun l => absurd (UInt8.lt_iff_toNat_lt.mp l) (by simp; omega)
  have l3 : ¬ a < 0xE0 := fun l => absurd (UInt8.lt_iff_toNat_lt.mp l) (by simp; omega)
  have l4 : a < 0xF0 := UInt8.lt_iff_toNat_lt.mpr h'
  simp [read, l1, l2, l3, l4, hb, hc]

theorem read_four (h : 0xF0 ≤ a.toNat) (h' : a.toNat < 0xF5) (hb : isSecond a b = true)
    (hc : isTail c = true) (hd : isTail d = true) :
    read a (b :: c :: d :: rest) = .char (ofFour a b c d) 4 := by
  have l1 : ¬ a < 0x80 := fun l => absurd (UInt8.lt_iff_toNat_lt.mp l) (by simp; omega)
  have l2 : ¬ a < 0xC2 := fun l => absurd (UInt8.lt_iff_toNat_lt.mp l) (by simp; omega)
  have l3 : ¬ a < 0xE0 := fun l => absurd (UInt8.lt_iff_toNat_lt.mp l) (by simp; omega)
  have l4 : ¬ a < 0xF0 := fun l => absurd (UInt8.lt_iff_toNat_lt.mp l) (by simp; omega)
  have l5 : a < 0xF5 := UInt8.lt_iff_toNat_lt.mpr h'
  simp [read, l1, l2, l3, l4, l5, hb, hc, hd]

end read

/-- The bytes of a code point other than a surrogate read as that code point, and all of them
    are taken. -/
theorem read_encodePoint (c : CodePoint) (hc : c.isSurrogate = false) :
    ∃ a tail, encodePoint c = a :: tail ∧
      ∀ rest, read a (tail ++ rest) = .char c (tail.length + 1) := by
  have hmax : c.val < 0x110000 := c.isLt
  have hsur : ¬ (0xD800 ≤ c.val ∧ c.val ≤ 0xDFFF) := CodePoint.isSurrogate_eq_false_iff.mp hc
  have tail_toNat (k : Nat) : (UInt8.ofNat (0x80 + k % 0x40)).toNat = 0x80 + k % 0x40 :=
    toNat_ofNat (by omega)
  unfold encodePoint
  by_cases h1 : c.val < 0x80
  · -- one byte
    refine ⟨_, [], if_pos h1, fun rest => ?_⟩
    have ha : (UInt8.ofNat c.val).toNat = c.val := toNat_ofNat (by omega)
    rw [List.nil_append, read_one rest (by omega), ha, CodePoint.ofNat_val]
    rfl
  by_cases h2 : c.val < 0x800
  · -- two bytes
    refine ⟨_, [_], by rw [if_neg h1, if_pos h2], fun rest => ?_⟩
    have ha : (UInt8.ofNat (0xC0 + c.val / 0x40)).toNat = 0xC0 + c.val / 0x40 :=
      toNat_ofNat (by omega)
    rw [List.cons_append, List.nil_append,
      read_two rest (by omega) (by omega) (isTail_ofNat _), ofTwo, ha, tail_toNat]
    exact congrArg (Reading.char · 2) (CodePoint.ofNat_eq (by omega))
  by_cases h3 : c.val < 0x10000
  · -- three bytes
    refine ⟨_, [_, _], by rw [if_neg h1, if_neg h2, if_pos h3], fun rest => ?_⟩
    have ha : (UInt8.ofNat (0xE0 + c.val / 0x1000)).toNat = 0xE0 + c.val / 0x1000 :=
      toNat_ofNat (by omega)
    have hsecond := isSecond_ofNat (n := 0xE0 + c.val / 0x1000) (c.val / 0x40)
      (by omega) (by omega) (by omega) (by omega) (by omega)
    rw [List.cons_append, List.cons_append, List.nil_append,
      read_three rest (by omega) (by omega) hsecond (isTail_ofNat _), ofThree, ha, tail_toNat,
      tail_toNat]
    exact congrArg (Reading.char · 3) (CodePoint.ofNat_eq (by omega))
  · -- four bytes
    refine ⟨_, [_, _, _], by rw [if_neg h1, if_neg h2, if_neg h3], fun rest => ?_⟩
    have ha : (UInt8.ofNat (0xF0 + c.val / 0x40000)).toNat = 0xF0 + c.val / 0x40000 :=
      toNat_ofNat (by omega)
    have hsecond := isSecond_ofNat (n := 0xF0 + c.val / 0x40000) (c.val / 0x1000)
      (by omega) (by omega) (by omega) (by omega) (by omega)
    rw [List.cons_append, List.cons_append, List.cons_append, List.nil_append,
      read_four rest (by omega) (by omega) hsecond (isTail_ofNat _) (isTail_ofNat _), ofFour,
      ha, tail_toNat, tail_toNat, tail_toNat]
    exact congrArg (Reading.char · 4) (CodePoint.ofNat_eq (by omega))

/-! ## Whole texts -/

theorem encode?_eq_some_iff {t : Text} {bytes : Bytes} :
    encode? t = some bytes ↔ t.hasSurrogate = false ∧ t.flatMap encodePoint = bytes := by
  unfold encode?
  split
  · next ht => simp [ht]
  · next ht => simp [Bool.eq_false_iff.mpr ht]

/-- The bytes that belong to the character read last are passed over. -/
theorem decodeFrom_skip (recovery : Recovery) (offset : Nat) (done : Text) (passed rest : Bytes) :
    decodeFrom recovery offset passed.length done (passed ++ rest) =
      decodeFrom recovery (offset + passed.length) 0 done rest := by
  induction passed generalizing offset with
  | nil => rfl
  | cons b passed ih =>
    show decodeFrom recovery (offset + 1) passed.length done (passed ++ rest) = _
    rw [ih, List.length_cons]
    congr 1
    omega

theorem decodeFrom_encodePoint (recovery : Recovery) (offset : Nat) (done : Text) (c : CodePoint)
    (rest : Bytes) (hc : c.isSurrogate = false) :
    decodeFrom recovery offset 0 done (encodePoint c ++ rest) =
      decodeFrom recovery (offset + (encodePoint c).length) 0 (c :: done) rest := by
  obtain ⟨a, tail, henc, hread⟩ := read_encodePoint c hc
  rw [henc, List.cons_append, decodeFrom]
  simp only [hread, Nat.add_sub_cancel]
  rw [decodeFrom_skip, List.length_cons]
  congr 1
  omega

theorem decodeFrom_encode (recovery : Recovery) (offset : Nat) (done t : Text) (rest : Bytes)
    (ht : t.hasSurrogate = false) :
    decodeFrom recovery offset 0 done (t.flatMap encodePoint ++ rest) =
      decodeFrom recovery (offset + (t.flatMap encodePoint).length) 0 (t.reverse ++ done)
        rest := by
  induction t generalizing offset done with
  | nil => rfl
  | cons c t ih =>
    simp only [Text.hasSurrogate, List.any_cons, Bool.or_eq_false_iff] at ht
    rw [List.flatMap_cons, List.append_assoc, decodeFrom_encodePoint _ _ _ _ _ ht.1,
      ih _ _ ht.2, List.reverse_cons, List.append_assoc, List.length_append, Nat.add_assoc]
    rfl

/-- The bytes of a text read as that text, whatever the reader does where there is no
    character. -/
theorem decodeWith_of_encode? (recovery : Recovery) {t : Text} {bytes : Bytes}
    (h : encode? t = some bytes) : decodeWith recovery bytes = .ok t := by
  obtain ⟨ht, rfl⟩ := encode?_eq_some_iff.mp h
  have hrun := decodeFrom_encode recovery 0 [] t [] ht
  rw [List.append_nil, List.append_nil] at hrun
  rw [decodeWith, hrun, decodeFrom, List.reverse_reverse]

theorem decode?_of_encode? {t : Text} {bytes : Bytes} (h : encode? t = some bytes) :
    decode? bytes = some t := by
  rw [decode?, decodeWith_of_encode? .none h]

/-- No two texts have the same bytes. -/
theorem encode?_injective {s t : Text} {bytes : Bytes} (hs : encode? s = some bytes)
    (ht : encode? t = some bytes) : s = t := by
  have hboth := (decode?_of_encode? hs).symm.trans (decode?_of_encode? ht)
  exact Option.some.inj hboth

/-! ## What is read was written -/

theorem toNat_of_isTail {b : UInt8} (h : isTail b = true) : 0x80 ≤ b.toNat ∧ b.toNat ≤ 0xBF := by
  simpa [isTail, UInt8.le_iff_toNat_le] using h

theorem toNat_of_isSecond {a b : UInt8} (h : isSecond a b = true) :
    (0x80 ≤ b.toNat ∧ b.toNat ≤ 0xBF) ∧ (a.toNat = 0xE0 → 0xA0 ≤ b.toNat) ∧
      (a.toNat = 0xED → b.toNat < 0xA0) ∧ (a.toNat = 0xF0 → 0x90 ≤ b.toNat) ∧
      (a.toNat = 0xF4 → b.toNat < 0x90) := by
  simp only [isSecond, Bool.and_eq_true, Bool.or_eq_true, bne_iff_ne, ne_eq, decide_eq_true_eq,
    ← UInt8.toNat_inj, UInt8.le_iff_toNat_le, UInt8.lt_iff_toNat_lt, UInt8.reduceToNat] at h
  have htail := toNat_of_isTail h.1.1.1.1
  omega

theorem ofNat_eq {n : Nat} {b : UInt8} (h : n = b.toNat) : UInt8.ofNat n = b := by
  rw [h, UInt8.ofNat_toNat]

section written

variable {a b c d : UInt8}

theorem encodePoint_one (h : a.toNat < 0x80) :
    encodePoint (.ofNat a.toNat) = [a] ∧ (CodePoint.ofNat a.toNat).isSurrogate = false := by
  have hval : (CodePoint.ofNat a.toNat).val = a.toNat := CodePoint.val_ofNat (by omega)
  rw [encodePoint, CodePoint.isSurrogate_eq_false_iff, hval, if_pos h, UInt8.ofNat_toNat]
  exact ⟨rfl, by omega⟩

theorem encodePoint_two (h : 0xC2 ≤ a.toNat) (h' : a.toNat < 0xE0) (hb : isTail b = true) :
    encodePoint (ofTwo a b) = [a, b] ∧ (ofTwo a b).isSurrogate = false := by
  have hb := toNat_of_isTail hb
  have hval : (ofTwo a b).val = a.toNat % 0x20 * 0x40 + b.toNat % 0x40 :=
    CodePoint.val_ofNat (by omega)
  generalize hn : a.toNat % 0x20 * 0x40 + b.toNat % 0x40 = n at hval
  have h1 : ¬ n < 0x80 := by omega
  have h2 : n < 0x800 := by omega
  constructor
  · rw [encodePoint, hval, if_neg h1, if_pos h2, ofNat_eq (b := a) (by omega),
      ofNat_eq (b := b) (by omega)]
  · rw [CodePoint.isSurrogate_eq_false_iff, hval]
    omega

theorem encodePoint_three (h : 0xE0 ≤ a.toNat) (h' : a.toNat < 0xF0)
    (hb : isSecond a b = true) (hc : isTail c = true) :
    encodePoint (ofThree a b c) = [a, b, c] ∧ (ofThree a b c).isSurrogate = false := by
  have hb := toNat_of_isSecond hb
  have hc := toNat_of_isTail hc
  have hval : (ofThree a b c).val =
      a.toNat % 0x10 * 0x1000 + b.toNat % 0x40 * 0x40 + c.toNat % 0x40 :=
    CodePoint.val_ofNat (by omega)
  generalize hn : a.toNat % 0x10 * 0x1000 + b.toNat % 0x40 * 0x40 + c.toNat % 0x40 = n at hval
  have h1 : ¬ n < 0x80 := by omega
  have h2 : ¬ n < 0x800 := by omega
  have h3 : n < 0x10000 := by omega
  constructor
  · rw [encodePoint, hval, if_neg h1, if_neg h2, if_pos h3, ofNat_eq (b := a) (by omega),
      ofNat_eq (b := b) (by omega), ofNat_eq (b := c) (by omega)]
  · -- the second byte is not that of a surrogate
    rw [CodePoint.isSurrogate_eq_false_iff, hval]
    omega

theorem encodePoint_four (h : 0xF0 ≤ a.toNat) (h' : a.toNat < 0xF5)
    (hb : isSecond a b = true) (hc : isTail c = true) (hd : isTail d = true) :
    encodePoint (ofFour a b c d) = [a, b, c, d] ∧ (ofFour a b c d).isSurrogate = false := by
  have hb := toNat_of_isSecond hb
  have hc := toNat_of_isTail hc
  have hd := toNat_of_isTail hd
  have hval : (ofFour a b c d).val = a.toNat % 0x8 * 0x40000 + b.toNat % 0x40 * 0x1000 +
      c.toNat % 0x40 * 0x40 + d.toNat % 0x40 :=
    CodePoint.val_ofNat (by omega)
  generalize hn : a.toNat % 0x8 * 0x40000 + b.toNat % 0x40 * 0x1000 +
      c.toNat % 0x40 * 0x40 + d.toNat % 0x40 = n at hval
  have h1 : ¬ n < 0x80 := by omega
  have h2 : ¬ n < 0x800 := by omega
  have h3 : ¬ n < 0x10000 := by omega
  constructor
  · rw [encodePoint, hval, if_neg h1, if_neg h2, if_neg h3, ofNat_eq (b := a) (by omega),
      ofNat_eq (b := b) (by omega), ofNat_eq (b := c) (by omega), ofNat_eq (b := d) (by omega)]
  · rw [CodePoint.isSurrogate_eq_false_iff, hval]
    omega

end written

/-- A character that is read is written in just the bytes that it takes. -/
theorem encodePoint_of_read {a : UInt8} {rest : Bytes} {c : CodePoint} {size : Nat}
    (h : read a rest = .char c size) :
    ∃ tail after, rest = tail ++ after ∧ size = tail.length + 1 ∧ encodePoint c = a :: tail ∧
      c.isSurrogate = false := by
  unfold read at h
  simp only [UInt8.lt_iff_toNat_lt, UInt8.reduceToNat] at h
  split at h
  · -- one byte
    next h1 =>
    obtain ⟨rfl, rfl⟩ := Reading.char.inj h
    exact ⟨[], rest, rfl, rfl, encodePoint_one h1⟩
  next h1 =>
  split at h
  · cases h
  next h2 =>
  split at h
  · -- two bytes
    next h3 =>
    split at h
    · cases h
    next b after =>
    split at h
    · next hb =>
      obtain ⟨rfl, rfl⟩ := Reading.char.inj h
      exact ⟨[b], after, rfl, rfl, encodePoint_two (Nat.le_of_not_lt h2) h3 hb⟩
    · cases h
  next h3 =>
  split at h
  · -- three bytes
    next h4 =>
    split at h
    · cases h
    next b rest =>
    split at h
    · cases h
    next hb =>
    split at h
    · cases h
    next c' after =>
    split at h
    · next hc =>
      obtain ⟨rfl, rfl⟩ := Reading.char.inj h
      simp only [Bool.not_eq_true, Bool.not_eq_false'] at hb
      exact ⟨[b, c'], after, rfl, rfl, encodePoint_three (Nat.le_of_not_lt h3) h4 hb hc⟩
    · cases h
  next h4 =>
  split at h
  · -- four bytes
    next h5 =>
    split at h
    · cases h
    next b rest =>
    split at h
    · cases h
    next hb =>
    split at h
    · cases h
    next c' rest =>
    split at h
    · cases h
    next hc =>
    split at h
    · cases h
    next d after =>
    split at h
    · next hd =>
      obtain ⟨rfl, rfl⟩ := Reading.char.inj h
      simp only [Bool.not_eq_true, Bool.not_eq_false'] at hb hc
      exact ⟨[b, c', d], after, rfl, rfl, encodePoint_four (Nat.le_of_not_lt h4) h5 hb hc hd⟩
    · cases h
  · cases h

theorem encode_of_decodeFrom {offset : Nat} {done t : Text} {bytes : Bytes}
    (h : decodeFrom .none offset 0 done bytes = .ok t) :
    ∃ u : Text, t = done.reverse ++ u ∧ u.hasSurrogate = false ∧
      bytes = u.flatMap encodePoint := by
  induction hn : bytes.length using Nat.strongRecOn generalizing bytes offset done with
  | ind n ih =>
    -- on the length, because a character takes many bytes at once
    subst hn
    cases bytes with
    | nil =>
      rw [decodeFrom] at h
      exact ⟨[], by rw [List.append_nil, Except.ok.inj h], rfl, rfl⟩
    | cons a rest =>
      simp only [decodeFrom] at h
      split at h
      · next c size hread =>
        obtain ⟨tail, after, rfl, rfl, hbytes, hc⟩ := encodePoint_of_read hread
        rw [Nat.add_sub_cancel, decodeFrom_skip] at h
        have hlt : after.length < (a :: (tail ++ after)).length := by
          rw [List.length_cons, List.length_append]
          omega
        obtain ⟨u, ht, hu, hafter⟩ := ih after.length hlt h rfl
        refine ⟨c :: u, ?_, ?_, ?_⟩
        · rw [ht, List.reverse_cons, List.append_assoc, List.singleton_append]
        · rw [Text.hasSurrogate, List.any_cons, hc, Bool.false_or]
          exact hu
        · rw [List.flatMap_cons, hbytes, ← hafter, List.cons_append]
      · cases h

/-- Well-formed bytes are the bytes of the text that they are read as. -/
theorem encode?_of_decode? {bytes : Bytes} {t : Text} (h : decode? bytes = some t) :
    encode? t = some bytes := by
  unfold decode? at h
  split at h
  · next u hu =>
    obtain rfl := Option.some.inj h
    obtain ⟨v, hv, hsurrogate, hbytes⟩ := encode_of_decodeFrom hu
    obtain rfl : u = v := hv
    exact encode?_eq_some_iff.mpr ⟨hsurrogate, hbytes.symm⟩
  · cases h

/-- Well-formed UTF-8 is what encoding gives. -/
theorem decode?_eq_some_iff {bytes : Bytes} {t : Text} :
    decode? bytes = some t ↔ encode? t = some bytes :=
  ⟨encode?_of_decode?, decode?_of_encode?⟩

end Utf8

end SignedEvents
