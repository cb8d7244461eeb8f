import SignedEvents.Proofs.Text.Utf8
import SignedEvents.Text.Newline

/-! # Lines of text and of bytes

  A file is read as text first, with surrogates for bytes outside characters, and then cut into
  lines.  It makes no difference to cut the bytes and to read each line by itself.

  - **CutIntoLines** — the lines of a text or of some bytes.
  - **exists_cut** — every text has lines.
  - **Text.lines_of_cut** — they are the lines that are computed.
  - **Utf8.readsAs_iff** — how any bytes are read as text.
  - **Utf8.decode?_eq_none_iff_hasSurrogate** — bytes that are not well-formed show as surrogates.
  - **Utf8.cut_decodeEscaping** — the lines of bytes are those of their text.
-/

namespace SignedEvents

/-! ## Section 1: Lines -/

section cut

variable {α : Type} (ret feed : α)

/-- A line end and what comes after it: a line feed, a carriage return, or both. -/
inductive LineEnd : List α → List α → Prop where
  | feed (rest : List α) : LineEnd [feed] rest
  | both (rest : List α) : LineEnd [ret, feed] rest
  | ret {rest : List α} : rest.head? ≠ some feed → LineEnd [ret] rest

/-- The lines without their ends.  The last one may have no end, and no line begins after the last
    end. -/
inductive CutIntoLines : List α → List (List α) → Prop where
  | nil : CutIntoLines [] []
  | last {line : List α} :
      line ≠ [] → ret ∉ line → feed ∉ line → CutIntoLines line [line]
  | ended {line ending rest : List α} {lines : List (List α)} :
      ret ∉ line → feed ∉ line → LineEnd ret feed ending rest → CutIntoLines rest lines →
      CutIntoLines (line ++ (ending ++ rest)) (line :: lines)

variable {ret feed}

theorem CutIntoLines.cons {a : α} {l : List α} {lines : List (List α)} (hret : ret ≠ a)
    (hfeed : feed ≠ a) (h : CutIntoLines ret feed l lines) :
    ∃ lines', CutIntoLines ret feed (a :: l) lines' := by
  have hcons {b : α} {line : List α} (hb : b ≠ a) (hline : b ∉ line) : b ∉ a :: line := by
    rw [List.mem_cons, not_or]
    exact ⟨hb, hline⟩
  cases h with
  | nil => exact ⟨_, .last (List.cons_ne_nil a []) (hcons hret List.not_mem_nil)
      (hcons hfeed List.not_mem_nil)⟩
  | last _ hnoRet hnoFeed =>
    exact ⟨_, .last (List.cons_ne_nil a _) (hcons hret hnoRet) (hcons hfeed hnoFeed)⟩
  | ended hnoRet hnoFeed hend hrest =>
    exact ⟨_, .ended (hcons hret hnoRet) (hcons hfeed hnoFeed) hend hrest⟩

/-- Every text has lines. -/
theorem exists_cut [DecidableEq α] (l : List α) : ∃ lines, CutIntoLines ret feed l lines := by
  induction hn : l.length using Nat.strongRecOn generalizing l with
  | ind n ih =>
    -- on the length, because a line end may take two
    subst hn
    cases l with
    | nil => exact ⟨[], .nil⟩
    | cons a rest =>
      obtain ⟨lines, hlines⟩ := ih rest.length (Nat.lt_succ_self _) rest rfl
      by_cases hfeed : feed = a
      · subst hfeed
        exact ⟨_, .ended List.not_mem_nil List.not_mem_nil (.feed rest) hlines⟩
      by_cases hret : ret = a
      · subst hret
        by_cases hhead : rest.head? = some feed
        · obtain ⟨after, rfl⟩ := List.head?_eq_some_iff.mp hhead
          have hlt : after.length < (ret :: feed :: after).length := by
            rw [List.length_cons, List.length_cons]
            omega
          obtain ⟨lines, hlines⟩ := ih after.length hlt after rfl
          exact ⟨_, .ended List.not_mem_nil List.not_mem_nil (.both after) hlines⟩
        · exact ⟨_, .ended List.not_mem_nil List.not_mem_nil (.ret hhead) hlines⟩
      · exact hlines.cons hret hfeed

/-- A line end shows where a line ends. -/
theorem LineEnd.head {ending rest : List α} (h : LineEnd ret feed ending rest) :
    ∃ a tail, ending = a :: tail ∧ (a = ret ∨ a = feed) := by
  cases h with
  | feed => exact ⟨feed, [], rfl, .inr rfl⟩
  | both => exact ⟨ret, [feed], rfl, .inl rfl⟩
  | ret => exact ⟨ret, [], rfl, .inl rfl⟩

theorem LineEnd.rest_eq (hne : ret ≠ feed) {ending rest ending' rest' : List α}
    (h : LineEnd ret feed ending rest) (h' : LineEnd ret feed ending' rest')
    (heq : ending ++ rest = ending' ++ rest') : rest = rest' := by
  have hlone {l m : List α} (hl : l.head? ≠ some feed) : ret :: l ≠ ret :: feed :: m := by
    intro hsame
    obtain ⟨-, rfl⟩ := List.cons.inj hsame
    exact hl rfl
  cases h with
  | feed =>
    cases h' with
    | feed => exact (List.cons.inj heq).2
    | both => exact absurd (List.cons.inj heq).1.symm hne
    | ret => exact absurd (List.cons.inj heq).1.symm hne
  | both =>
    cases h' with
    | feed => exact absurd (List.cons.inj heq).1 hne
    | both => exact (List.cons.inj (List.cons.inj heq).2).2
    | ret hhead => exact absurd heq.symm (hlone hhead)
  | ret hhead =>
    cases h' with
    | feed => exact absurd (List.cons.inj heq).1 hne
    | both => exact absurd heq (hlone hhead)
    | ret => exact (List.cons.inj heq).2

/-- The first line is the longest piece without line ends. -/
theorem LineEnd.line_eq {line line' ending rest ending' rest' : List α}
    (hret : ret ∉ line) (hfeed : feed ∉ line) (hret' : ret ∉ line') (hfeed' : feed ∉ line')
    (h : LineEnd ret feed ending rest) (h' : LineEnd ret feed ending' rest')
    (heq : line ++ (ending ++ rest) = line' ++ (ending' ++ rest')) :
    line = line' ∧ ending ++ rest = ending' ++ rest' := by
  have hends {a : α} {l : List α} (ha : a = ret ∨ a = feed) (hr : ret ∉ a :: l)
      (hf : feed ∉ a :: l) : False := by
    rcases ha with rfl | rfl
    · exact hr (List.mem_cons_self ..)
    · exact hf (List.mem_cons_self ..)
  induction line generalizing line' with
  | nil =>
    cases line' with
    | nil => exact ⟨rfl, heq⟩
    | cons b line' =>
      obtain ⟨a, tail, rfl, ha⟩ := h.head
      obtain ⟨rfl, -⟩ := List.cons.inj heq
      exact absurd (hends ha hret' hfeed') id
  | cons b line ih =>
    cases line' with
    | nil =>
      obtain ⟨a, tail, rfl, ha⟩ := h'.head
      obtain ⟨rfl, -⟩ := List.cons.inj heq
      exact absurd (hends ha hret hfeed) id
    | cons b' line' =>
      obtain ⟨rfl, htail⟩ := List.cons.inj heq
      obtain ⟨rfl, hrest⟩ := ih (List.not_mem_of_not_mem_cons hret)
        (List.not_mem_of_not_mem_cons hfeed) (List.not_mem_of_not_mem_cons hret')
        (List.not_mem_of_not_mem_cons hfeed') htail
      exact ⟨rfl, hrest⟩

/-- There is only one way to cut. -/
theorem CutIntoLines.unique (hne : ret ≠ feed) {l : List α} {lines lines' : List (List α)}
    (h : CutIntoLines ret feed l lines) (h' : CutIntoLines ret feed l lines') : lines = lines' := by
  have hmem {line ending rest : List α} (hend : LineEnd ret feed ending rest)
      (hret : ret ∉ line ++ (ending ++ rest)) (hfeed : feed ∉ line ++ (ending ++ rest)) :
      False := by
    obtain ⟨a, tail, rfl, rfl | rfl⟩ := hend.head
    · exact hret (by simp)
    · exact hfeed (by simp)
  have hnil {line ending rest : List α} (hend : LineEnd ret feed ending rest) :
      line ++ (ending ++ rest) ≠ [] := by
    obtain ⟨a, tail, rfl, -⟩ := hend.head
    simp
  induction h generalizing lines' with
  | nil =>
    generalize hl : ([] : List α) = l at h'
    cases h' with
    | nil => rfl
    | last hline => exact absurd hl.symm hline
    | ended _ _ hend _ => exact absurd hl.symm (hnil hend)
  | @last line hline hret hfeed =>
    cases h' with
    | nil => exact absurd rfl hline
    | last => rfl
    | ended _ _ hend _ => exact absurd (hmem hend hret hfeed) id
  | @ended line ending rest lines hret hfeed hend _ ih =>
    generalize hl : line ++ (ending ++ rest) = l at h'
    cases h' with
    | nil => exact absurd hl (hnil hend)
    | last _ hret' hfeed' =>
      rw [← hl] at hret' hfeed'
      exact absurd (hmem hend hret' hfeed') id
    | ended hret' hfeed' hend' hrest' =>
      obtain ⟨rfl, hends⟩ := LineEnd.line_eq hret hfeed hret' hfeed' hend hend' hl
      obtain rfl := LineEnd.rest_eq hne hend hend' hends
      rw [ih hrest']

end cut

/-! ## Section 2: Lines of text -/

namespace Text

/-- A carriage return. -/
def carriageReturn : CodePoint := .ofChar '\r'

/-- A line feed. -/
def lineFeed : CodePoint := .ofChar '\n'

theorem not_is_of_not_mem {c : CodePoint} {k : Char} {line : Text} (hc : c ∈ line)
    (hline : CodePoint.ofChar k ∉ line) : c.is k = false := by
  rw [Bool.eq_false_iff]
  intro h
  have heq : c = .ofChar k := CodePoint.ext_val (beq_iff_eq.mp h)
  exact hline (heq ▸ hc)

theorem normalizeFrom_done (afterReturn : Bool) (done t : Text) :
    normalizeFrom afterReturn done t = done.reverse ++ normalizeFrom afterReturn [] t := by
  induction t generalizing afterReturn done with
  | nil => rw [normalizeFrom, normalizeFrom, List.reverse_nil, List.append_nil]
  | cons c t ih =>
    rw [normalizeFrom, normalizeFrom]
    split
    · rw [ih, ih _ [_], List.reverse_cons, List.append_assoc]
      rfl
    split
    · rw [ih]
    · rw [ih, ih _ [c], List.reverse_cons, List.append_assoc]
      rfl

theorem normalizeNewlines_append {line : Text} (rest : Text) (hret : carriageReturn ∉ line)
    (hfeed : lineFeed ∉ line) :
    normalizeNewlines (line ++ rest) = line ++ normalizeNewlines rest := by
  induction line with
  | nil => rfl
  | cons c line ih =>
    have hcr := not_is_of_not_mem (List.mem_cons_self ..) hret
    have hlf := not_is_of_not_mem (List.mem_cons_self ..) hfeed
    have ih := ih (List.not_mem_of_not_mem_cons hret) (List.not_mem_of_not_mem_cons hfeed)
    rw [normalizeNewlines] at ih ⊢
    rw [List.cons_append, normalizeFrom, hcr, hlf, if_neg Bool.false_ne_true, Bool.false_and,
      if_neg Bool.false_ne_true, normalizeFrom_done, ih]
    rfl

/-- Each line end becomes a line feed. -/
theorem normalizeNewlines_end {ending rest : Text}
    (h : LineEnd carriageReturn lineFeed ending rest) :
    normalizeNewlines (ending ++ rest) = lineFeed :: normalizeNewlines rest := by
  have hfeed (afterReturn : Bool) (done : Text) : normalizeFrom afterReturn done (lineFeed :: rest) =
      normalizeFrom false (if afterReturn then done else lineFeed :: done) rest := by
    cases afterReturn <;> rfl
  cases h with
  | feed => exact normalizeFrom_done false [lineFeed] rest
  | both => exact normalizeFrom_done false [lineFeed] rest
  | ret hhead =>
    show normalizeFrom true [lineFeed] rest = _
    rw [normalizeFrom_done]
    cases rest with
    | nil => rfl
    | cons c rest =>
      -- what comes next is no line feed, so it does not matter what came before
      have hlf : c.is '\n' = false := by
        rw [Bool.eq_false_iff]
        intro h
        have heq : c = lineFeed := CodePoint.ext_val (beq_iff_eq.mp h)
        exact hhead (by rw [heq]; rfl)
      have hsame : normalizeFrom true [] (c :: rest) = normalizeFrom false [] (c :: rest) := by
        rw [normalizeFrom, normalizeFrom, hlf]
        rfl
      rw [hsame]
      rfl

theorem linesFrom_done (line : Text) (done : List Text) (t : Text) :
    linesFrom line done t = done.reverse ++ linesFrom line [] t := by
  induction t generalizing line done with
  | nil =>
    rw [linesFrom, linesFrom]
    split
    · rw [List.reverse_nil, List.append_nil]
    · rw [List.reverse_cons]
      rfl
  | cons c t ih =>
    rw [linesFrom, linesFrom]
    split
    · rw [ih, ih _ [_], List.reverse_cons, List.append_assoc]
      rfl
    · rw [ih]

theorem linesFrom_append {line : Text} (part : Text) (rest : Text) (hfeed : lineFeed ∉ line) :
    linesFrom part [] (line ++ rest) = linesFrom (line.reverse ++ part) [] rest := by
  induction line generalizing part with
  | nil => rfl
  | cons c line ih =>
    have hlf := not_is_of_not_mem (List.mem_cons_self ..) hfeed
    rw [List.cons_append, linesFrom, hlf, if_neg Bool.false_ne_true,
      ih _ (List.not_mem_of_not_mem_cons hfeed), List.reverse_cons, List.append_assoc]
    rfl

/-- The lines of a text are the lines that are computed. -/
theorem lines_of_cut {t : Text} {ls : List Text}
    (h : CutIntoLines carriageReturn lineFeed t ls) : t.lines = ls := by
  unfold lines
  induction h with
  | nil => rfl
  | @last line hne hret hfeed =>
    have hline := normalizeNewlines_append [] hret hfeed
    have hempty : line.reverse.isEmpty = false := by
      rw [List.isEmpty_reverse]
      exact List.isEmpty_eq_false_iff.mpr hne
    rw [List.append_nil] at hline
    rw [hline]
    show linesFrom [] [] (line ++ []) = _
    rw [linesFrom_append [] [] hfeed, List.append_nil, linesFrom, hempty,
      if_neg Bool.false_ne_true, List.reverse_reverse]
    rfl
  | @ended line ending rest lines hret hfeed hend _ ih =>
    rw [normalizeNewlines_append _ hret hfeed, normalizeNewlines_end hend,
      linesFrom_append [] _ hfeed, List.append_nil]
    show linesFrom [] [line.reverse.reverse] (normalizeNewlines rest) = _
    rw [linesFrom_done, ih, List.reverse_reverse]
    rfl

end Text

/-! ## Section 3: Any bytes as text -/

namespace Utf8

/-- How any bytes are read: character by character, and where there is none, byte by byte. -/
inductive ReadsAs : Bytes → Text → Prop where
  | nil : ReadsAs [] []
  | char {c : CodePoint} {rest : Bytes} {t : Text} :
      c.isSurrogate = false → ReadsAs rest t → ReadsAs (encodePoint c ++ rest) (c :: t)
  | stray {a : UInt8} {rest : Bytes} {t : Text} :
      (∀ c size, read a rest ≠ .char c size) → ReadsAs rest t →
      ReadsAs (a :: rest) (.ofNat (0xDC00 + a.toNat) :: t)

theorem val_stray (a : UInt8) : (CodePoint.ofNat (0xDC00 + a.toNat)).val = 0xDC00 + a.toNat := by
  have hlt : a.toNat < 256 := a.toNat_lt
  exact CodePoint.val_ofNat (by omega)

theorem exists_readsAs (bytes : Bytes) : ∃ t, ReadsAs bytes t := by
  induction hn : bytes.length using Nat.strongRecOn generalizing bytes with
  | ind n ih =>
    -- on the length, because a character takes many bytes at once
    subst hn
    cases bytes with
    | nil => exact ⟨[], .nil⟩
    | cons a rest =>
      by_cases hread : ∃ c size, read a rest = .char c size
      · obtain ⟨c, size, hread⟩ := hread
        obtain ⟨tail, after, rfl, -, hbytes, hc⟩ := encodePoint_of_read hread
        have hlt : after.length < (a :: (tail ++ after)).length := by
          rw [List.length_cons, List.length_append]
          omega
        obtain ⟨t, ht⟩ := ih after.length hlt after rfl
        have hchar := ReadsAs.char hc ht
        rw [hbytes] at hchar
        exact ⟨_, hchar⟩
      · obtain ⟨t, ht⟩ := ih rest.length (Nat.lt_succ_self _) rest rfl
        exact ⟨_, .stray (fun c size h => hread ⟨c, size, h⟩) ht⟩

theorem ReadsAs.decodeFrom {bytes : Bytes} {t : Text} (h : ReadsAs bytes t) (offset : Nat)
    (done : Text) : Utf8.decodeFrom .escapes offset 0 done bytes = .ok (done.reverse ++ t) := by
  induction h generalizing offset done with
  | nil => rw [Utf8.decodeFrom, List.append_nil]
  | char hc _ ih =>
    rw [decodeFrom_encodePoint _ _ _ _ _ hc, ih, List.reverse_cons, List.append_assoc]
    rfl
  | @stray a rest t hread _ ih =>
    cases hbad : read a rest with
    | char c size => exact absurd hbad (hread c size)
    | bad fault size =>
      rw [Utf8.decodeFrom]
      simp only [hbad, Recovery.escapes, Nat.sub_self]
      rw [ih, List.reverse_cons, List.append_assoc]
      rfl

/-- Any bytes are read in one way. -/
theorem readsAs_iff {bytes : Bytes} {t : Text} : ReadsAs bytes t ↔ decodeEscaping bytes = t := by
  have hdecode {u : Text} (h : ReadsAs bytes u) : decodeEscaping bytes = u := by
    rw [decodeEscaping, decodeWith, h.decodeFrom]
    rfl
  constructor
  · exact hdecode
  · rintro rfl
    obtain ⟨u, hu⟩ := exists_readsAs bytes
    rw [hdecode hu]
    exact hu

/-- A byte outside characters shows as a surrogate, and nothing else does. -/
theorem ReadsAs.encode? {bytes : Bytes} {t : Text} (h : ReadsAs bytes t)
    (hclean : t.hasSurrogate = false) : Utf8.encode? t = some bytes := by
  refine encode?_eq_some_iff.mpr ⟨hclean, ?_⟩
  induction h with
  | nil => rfl
  | char _ _ ih =>
    rw [Text.hasSurrogate, List.any_cons, Bool.or_eq_false_iff] at hclean
    rw [List.flatMap_cons, ih hclean.2]
  | @stray a rest t _ _ ih =>
    rw [Text.hasSurrogate, List.any_cons, Bool.or_eq_false_iff] at hclean
    have hlt : a.toNat < 256 := a.toNat_lt
    have hval := val_stray a
    have hstray := CodePoint.isSurrogate_eq_false_iff.mp hclean.1
    omega

/-- Bytes are not well-formed UTF-8 exactly if their text holds a surrogate. -/
theorem decode?_eq_none_iff_hasSurrogate (bytes : Bytes) :
    decode? bytes = none ↔ (decodeEscaping bytes).hasSurrogate = true := by
  constructor
  · intro hnone
    rw [← Bool.not_eq_false]
    intro hclean
    have hreads : ReadsAs bytes (decodeEscaping bytes) := readsAs_iff.mpr rfl
    rw [decode?_of_encode? (hreads.encode? hclean)] at hnone
    cases hnone
  · intro hsurrogate
    cases hdecode : decode? bytes with
    | none => rfl
    | some t =>
      -- a well-formed text is read in the same way by everyone
      have hencode := decode?_eq_some_iff.mp hdecode
      rw [decodeEscaping, decodeWith_of_encode? .escapes hencode] at hsurrogate
      rw [(encode?_eq_some_iff.mp hencode).1] at hsurrogate
      cases hsurrogate

/-! ## Section 4: Lines of bytes -/

/-- The bytes of a character after its first are none of ASCII. -/
theorem toNat_of_mem_tail {c : CodePoint} {a : UInt8} {tail : Bytes}
    (h : encodePoint c = a :: tail) : ∀ b ∈ tail, 0x80 ≤ b.toNat := by
  have htail (k : Nat) : 0x80 ≤ (UInt8.ofNat (0x80 + k % 0x40)).toNat :=
    (toNat_of_isTail (isTail_ofNat k)).1
  unfold encodePoint at h
  split at h
  · obtain ⟨-, rfl⟩ := List.cons.inj h
    simp
  split at h
  · obtain ⟨-, rfl⟩ := List.cons.inj h
    simp only [List.forall_mem_cons]
    exact ⟨htail _, by simp⟩
  split at h
  · obtain ⟨-, rfl⟩ := List.cons.inj h
    simp only [List.forall_mem_cons]
    exact ⟨htail _, htail _, by simp⟩
  · obtain ⟨-, rfl⟩ := List.cons.inj h
    simp only [List.forall_mem_cons]
    exact ⟨htail _, htail _, htail _, by simp⟩

/-- A byte of ASCII ends what stands before it. -/
theorem ReadsAs.append_ascii {n : UInt8} (hn : n.toNat < 0x80) {front rest : Bytes} {t u : Text}
    (hfront : ReadsAs front t) (hrest : ReadsAs rest u) :
    ReadsAs (front ++ n :: rest) (t ++ .ofNat n.toNat :: u) := by
  induction hfront with
  | nil =>
    obtain ⟨hbytes, hchar⟩ := encodePoint_one hn
    have hone := ReadsAs.char hchar hrest
    rw [hbytes] at hone
    exact hone
  | char hc _ ih =>
    rw [List.append_assoc]
    exact .char hc ih
  | @stray a front t hread _ ih =>
    refine .stray (fun c size hlonger => ?_) ih
    -- a character cannot go past the byte, so it would have been there without it
    obtain ⟨tail, after, hsplit, -, hbytes, hc⟩ := encodePoint_of_read hlonger
    obtain ⟨mid, rfl⟩ : ∃ mid, front = tail ++ mid := by
      rcases List.append_eq_append_iff.mp hsplit with ⟨mid, hmid, hrest⟩ | ⟨mid, hmid, -⟩
      · cases mid with
        | nil => exact ⟨[], by rw [hmid, List.append_nil, List.append_nil]⟩
        | cons m mid =>
          obtain ⟨rfl, -⟩ := List.cons.inj hrest
          have hmem : n ∈ tail := by rw [hmid]; simp
          have hge := toNat_of_mem_tail hbytes n hmem
          omega
      · exact ⟨mid, hmid⟩
    obtain ⟨a', tail', hbytes', hreads⟩ := read_encodePoint c hc
    obtain ⟨rfl, rfl⟩ := List.cons.inj (hbytes'.symm.trans hbytes)
    exact hread c _ (hreads mid)

/-- A character of ASCII is read from its own byte. -/
theorem ReadsAs.mem_ascii {bytes : Bytes} {t : Text} (h : ReadsAs bytes t) {c : CodePoint}
    (hc : c ∈ t) (hascii : c.val < 0x80) : UInt8.ofNat c.val ∈ bytes := by
  induction h with
  | nil => cases hc
  | char _ _ ih =>
    rcases List.mem_cons.mp hc with rfl | hc
    · rw [encodePoint, if_pos hascii]
      exact List.mem_cons_self ..
    · exact List.mem_append_right _ (ih hc)
  | @stray a rest t _ _ ih =>
    rcases List.mem_cons.mp hc with rfl | hc
    · have hval := val_stray a
      omega
    · exact List.mem_cons_of_mem _ (ih hc)

theorem ReadsAs.not_mem {bytes : Bytes} {t : Text} (h : ReadsAs bytes t) {n : UInt8} {k : Char}
    (hk : UInt8.ofNat (CodePoint.ofChar k).val = n) (hascii : (CodePoint.ofChar k).val < 0x80)
    (hn : n ∉ bytes) : CodePoint.ofChar k ∉ t := by
  intro hmem
  have hbyte := h.mem_ascii hmem hascii
  rw [hk] at hbyte
  exact hn hbyte

theorem ReadsAs.head_feed {bytes : Bytes} {t : Text} (h : ReadsAs bytes t)
    (hfeed : t.head? = some Text.lineFeed) : bytes.head? = some 0x0A := by
  cases h with
  | nil => cases hfeed
  | char =>
    obtain rfl := Option.some.inj hfeed
    rfl
  | @stray a rest t =>
    have hval := val_stray a
    rw [Option.some.inj hfeed] at hval
    have hten : Text.lineFeed.val = 10 := rfl
    omega

/-- The lines of some bytes, each read by itself, are the lines of their text. -/
theorem cut_decodeEscaping {bytes : Bytes} {lines : List Bytes}
    (h : CutIntoLines 0x0D 0x0A bytes lines) :
    CutIntoLines Text.carriageReturn Text.lineFeed (decodeEscaping bytes)
      (lines.map decodeEscaping) := by
  have hreads (b : Bytes) : ReadsAs b (decodeEscaping b) := readsAs_iff.mpr rfl
  have hret {line : Bytes} (hline : 0x0D ∉ line) : Text.carriageReturn ∉ decodeEscaping line :=
    (hreads line).not_mem rfl (by decide) hline
  have hfeed {line : Bytes} (hline : 0x0A ∉ line) : Text.lineFeed ∉ decodeEscaping line :=
    (hreads line).not_mem rfl (by decide) hline
  induction h with
  | nil => exact .nil
  | @last line hne hnoRet hnoFeed =>
    refine .last (fun hempty => ?_) (hret hnoRet) (hfeed hnoFeed)
    have hnone := hreads line
    rw [hempty] at hnone
    cases hnone
    exact hne rfl
  | @ended line ending rest lines hnoRet hnoFeed hend _ ih =>
    have hline := hreads line
    -- a line end is of ASCII, so the line is read as if nothing came after it
    cases hend with
    | feed =>
      have hwhole := hline.append_ascii (n := 0x0A) (by decide) (hreads rest)
      rw [show line ++ ([0x0A] ++ rest) = line ++ 0x0A :: rest from rfl, readsAs_iff.mp hwhole]
      exact .ended (hret hnoRet) (hfeed hnoFeed) (.feed _) ih
    | both =>
      have hends := ReadsAs.nil.append_ascii (n := 0x0A) (by decide) (hreads rest)
      have hwhole := hline.append_ascii (n := 0x0D) (by decide) hends
      rw [show line ++ ([0x0D, 0x0A] ++ rest) = line ++ 0x0D :: ([] ++ 0x0A :: rest) from rfl,
        readsAs_iff.mp hwhole]
      exact .ended (hret hnoRet) (hfeed hnoFeed) (.both _) ih
    | ret hhead =>
      have hwhole := hline.append_ascii (n := 0x0D) (by decide) (hreads rest)
      rw [show line ++ ([0x0D] ++ rest) = line ++ 0x0D :: rest from rfl, readsAs_iff.mp hwhole]
      refine .ended (hret hnoRet) (hfeed hnoFeed) (.ret fun hfeed => ?_) ih
      exact hhead ((hreads rest).head_feed hfeed)

/-- Bytes are cut into lines, and these are the lines that a reader of their text finds. -/
theorem lines_decodeEscaping (bytes : Bytes) :
    ∃ lines, CutIntoLines 0x0D 0x0A bytes lines ∧
      (decodeEscaping bytes).lines = lines.map decodeEscaping := by
  obtain ⟨lines, hlines⟩ : ∃ lines, CutIntoLines 0x0D 0x0A bytes lines := exists_cut bytes
  exact ⟨lines, hlines, Text.lines_of_cut (cut_decodeEscaping hlines)⟩

end Utf8

end SignedEvents
