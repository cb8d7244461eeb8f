import SignedEvents.Proofs.Event.WireForm

/-! # What both forms of an event have in common

  The canonical form and the wire form write the same fields.  Each field has one text, and both
  forms are put together from these texts.  How a field is written is said here by rules of its own,
  without the printer.

  - **PointText**, **StringText**, **WordText**, **ArrayText** — how strings, numbers and arrays are
    written.
  - **stringText_iff**, **wordText_iff**, **arrayText_iff** — the printer follows the rules, which
    leave no choice.
  - **FieldTexts** — the texts of the seven fields.
  - **Event.shared_texts** — both forms of an event from these texts.
-/

namespace SignedEvents

open Json (Value)

/-! ## Section 1: Rules -/

/-- The code points that have a short escape, with the letter behind the backslash. -/
def shortEscapes : List (Nat × Char) :=
  [(0x22, '"'), (0x5C, '\\'), (0x08, 'b'), (0x09, 't'), (0x0A, 'n'), (0x0C, 'f'), (0x0D, 'r')]

/-- How a code point of a string is written: with a short escape if it has one, as a number in
    lower case if it is another control character, and otherwise as itself. -/
inductive PointText (c : CodePoint) : Text → Prop where
  | short {k : Char} (h : (c.val, k) ∈ shortEscapes) : PointText c [.ofChar '\\', .ofChar k]
  | numbered (hcontrol : c.val < 0x20) (hlong : c.val ∉ shortEscapes.map (·.1)) :
      PointText c [.ofChar '\\', .ofChar 'u', .ofChar '0', .ofChar '0',
        .hexDigit (c.val / 16), .hexDigit (c.val % 16)]
  | plain (hcontrol : 0x20 ≤ c.val) (hquote : c.val ≠ 0x22) (hslash : c.val ≠ 0x5C) :
      PointText c [c]

/-- How a string is written: its code points one by one, between quotes. -/
def StringText (t s : Text) : Prop :=
  ∃ parts, List.Forall₂ PointText t parts ∧ s = "\"" ++ parts.flatten ++ "\""

/-- How a word is written: in decimal digits. -/
def WordText (w : UInt64) (s : Text) : Prop := s = Text.ofString (toString w.toNat)

/-- How an array is written: its items one by one, with commas between them and no blanks. -/
def ArrayText {α : Type} (P : α → Text → Prop) (items : List α) (s : Text) : Prop :=
  ∃ parts, List.Forall₂ P items parts ∧ s = "[" ++ Text.join "," parts ++ "]"

/-! ## Section 2: The printer follows the rules -/

theorem letterEscape?_of_mem {c : CodePoint} {k : Char} (h : (c.val, k) ∈ shortEscapes) :
    Json.letterEscape? c = some [.ofChar '\\', .ofChar k] := by
  have hval : c = .ofNat c.val := (CodePoint.ofNat_val c).symm
  simp only [shortEscapes, List.mem_cons, Prod.mk.injEq, List.not_mem_nil, or_false] at h
  rcases h with ⟨h, rfl⟩ | ⟨h, rfl⟩ | ⟨h, rfl⟩ | ⟨h, rfl⟩ | ⟨h, rfl⟩ | ⟨h, rfl⟩ | ⟨h, rfl⟩ <;>
    rw [hval, h] <;> rfl

theorem letterEscape?_eq_none {c : CodePoint} (h : c.val ∉ shortEscapes.map (·.1)) :
    Json.letterEscape? c = none := by
  simp only [shortEscapes, List.map_cons, List.map_nil, List.mem_cons, List.not_mem_nil, or_false,
    not_or] at h
  obtain ⟨hquote, hslash, hb, ht, hn, hf, hr⟩ := h
  have hquote : c.is '"' = false := Json.is_of_val_ne hquote
  have hslash : c.is '\\' = false := Json.is_of_val_ne hslash
  simp [Json.letterEscape?, hquote, hslash, hb, ht, hn, hf, hr]

theorem numberedEscape_of_lt : ∀ n < 0x20,
    Json.numberedEscape n = [.ofChar '\\', .ofChar 'u', .ofChar '0', .ofChar '0',
      .hexDigit (n / 16), .hexDigit (n % 16)] := by
  decide

theorem PointText.eq_escapeControl {c : CodePoint} {s : Text} (h : PointText c s) :
    s = Json.escapeControl c := by
  unfold Json.escapeControl
  cases h with
  | short h => rw [letterEscape?_of_mem h]
  | numbered hcontrol hlong =>
    rw [letterEscape?_eq_none hlong, ← numberedEscape_of_lt _ hcontrol]
    exact (if_pos hcontrol).symm
  | plain hcontrol hquote hslash =>
    have hlong : c.val ∉ shortEscapes.map (·.1) := by
      simp [shortEscapes]
      omega
    rw [letterEscape?_eq_none hlong]
    exact (if_neg (Nat.not_lt.mpr hcontrol)).symm

theorem exists_pointText (c : CodePoint) : ∃ s, PointText c s := by
  by_cases hmem : c.val ∈ shortEscapes.map (·.1)
  · obtain ⟨⟨_, k⟩, hk, rfl⟩ := List.mem_map.mp hmem
    exact ⟨_, .short hk⟩
  · -- without a short escape, only control characters need one
    by_cases hcontrol : c.val < 0x20
    · exact ⟨_, .numbered hcontrol hmem⟩
    · have hplain : c.val ≠ 0x22 ∧ c.val ≠ 0x5C := by
        constructor <;> intro hval <;> exact hmem (by rw [hval]; decide)
      exact ⟨_, .plain (Nat.not_lt.mp hcontrol) hplain.1 hplain.2⟩

theorem pointText_iff (c : CodePoint) (s : Text) : PointText c s ↔ s = Json.escapeControl c := by
  constructor
  · exact PointText.eq_escapeControl
  · rintro rfl
    obtain ⟨s, hs⟩ := exists_pointText c
    rwa [← hs.eq_escapeControl]

theorem forall₂_eq_map_iff {α β : Type} {P : α → β → Prop} {f : α → β} {as : List α}
    (h : ∀ a b, P a b ↔ b = f a) {bs : List β} : List.Forall₂ P as bs ↔ bs = as.map f := by
  induction as generalizing bs with
  | nil => simp
  | cons a as ih => simp [List.forall₂_cons_left_iff, h, ih]

/-- The printer writes a string by the rules, and the rules leave no choice. -/
theorem stringText_iff {t s : Text} : StringText t s ↔ s = Json.printString .compact t := by
  have hparts (parts : List Text) :
      List.Forall₂ PointText t parts ↔ parts = t.map Json.escapeControl :=
    forall₂_eq_map_iff pointText_iff
  simp only [StringText, hparts, exists_eq_left]
  rw [← List.flatMap_def]
  rfl

theorem ofString_toString (n : Nat) : Text.ofString (toString n) = Text.ofNat n := by
  rw [Text.ofString, Nat.toString_eq_ofList_toDigits, String.toList_ofList, Text.ofNat]
  induction n using Nat.strongRecOn with
  | ind n ih =>
    have hdigit : ∀ d < 10, CodePoint.ofChar d.digitChar = CodePoint.digit d := by decide
    -- both sides take off the last digit
    by_cases h : n < 10
    · rw [Nat.toDigits_of_lt_base h, digitsOf_of_lt h]
      exact congrArg (fun c => [c]) (hdigit n h)
    · have hle : 10 ≤ n := Nat.le_of_not_lt h
      rw [Nat.toDigits_of_base_le (by decide) hle, digitsOf_of_le hle, List.map_append,
        List.map_append, ih (n / 10) (by omega)]
      exact congrArg (fun c => _ ++ [c]) (hdigit (n % 10) (Nat.mod_lt n (by decide)))

theorem wordText_iff {w : UInt64} {s : Text} :
    WordText w s ↔ s = Json.print .compact (Event.wordValue w) := by
  rw [WordText, ofString_toString]
  rfl

theorem printItems_eq_map (layout : Json.Layout) (items : List Value) :
    Json.printItems layout items = items.map (Json.print layout) := by
  induction items with
  | nil => rfl
  | cons v items ih => rw [Json.printItems, ih, List.map_cons]

/-- The printer writes an array by the rules if it does so with the items. -/
theorem arrayText_iff {α : Type} {P : α → Text → Prop} {write : α → Value}
    (h : ∀ a s, P a s ↔ s = Json.print .compact (write a)) {items : List α} {s : Text} :
    ArrayText P items s ↔ s = Json.print .compact (.arr (items.map write)) := by
  unfold ArrayText
  simp only [forall₂_eq_map_iff h, exists_eq_left]
  rw [Json.print, printItems_eq_map, List.map_map]
  rfl

theorem tagsText_iff {tags : List Tag} {s : Text} :
    ArrayText (ArrayText StringText) tags s ↔ s = Json.print .compact (Event.tagsValue tags) := by
  have hstring (t s : Text) : StringText t s ↔ s = Json.print .compact (.str t) := stringText_iff
  have htag (tag : Tag) (s : Text) :
      ArrayText StringText tag s ↔ s = Json.print .compact (.arr (tag.map .str)) :=
    arrayText_iff hstring
  exact arrayText_iff htag

/-! ## Section 3: Both forms -/

/-- The texts of the seven fields. -/
structure FieldTexts where
  id        : Text
  pubkey    : Text
  createdAt : Text
  kind      : Text
  tags      : Text
  content   : Text
  sig       : Text

namespace FieldTexts

/-- The texts are those of the fields of an event. -/
structure Of (f : FieldTexts) (e : Event) : Prop where
  id        : StringText e.id f.id
  pubkey    : StringText e.pubkey f.pubkey
  createdAt : WordText e.createdAt f.createdAt
  kind      : WordText e.kind f.kind
  tags      : ArrayText (ArrayText StringText) e.tags f.tags
  content   : StringText e.content f.content
  sig       : StringText e.sig f.sig

/-- The wire form, put together from texts. -/
def wire (f : FieldTexts) : Text :=
  "\x7b\"id\":" ++ f.id ++ ",\"pubkey\":" ++ f.pubkey ++ ",\"created_at\":" ++ f.createdAt ++
    ",\"kind\":" ++ f.kind ++ ",\"tags\":" ++ f.tags ++ ",\"content\":" ++ f.content ++
    ",\"sig\":" ++ f.sig ++ "\x7d"

/-- The canonical form, put together from texts. -/
def canonical (f : FieldTexts) : Text :=
  "[0," ++ f.pubkey ++ "," ++ f.createdAt ++ "," ++ f.kind ++ "," ++ f.tags ++ "," ++ f.content ++
    "]"

/-- The texts that the printer writes. -/
def printed (e : Event) : FieldTexts where
  id        := Json.printString .compact e.id
  pubkey    := Json.printString .compact e.pubkey
  createdAt := Json.print .compact (Event.wordValue e.createdAt)
  kind      := Json.print .compact (Event.wordValue e.kind)
  tags      := Json.print .compact (Event.tagsValue e.tags)
  content   := Json.printString .compact e.content
  sig       := Json.printString .compact e.sig

theorem of_iff {f : FieldTexts} {e : Event} : f.Of e ↔ f = printed e := by
  constructor
  · rintro ⟨hid, hpubkey, hcreated, hkind, htags, hcontent, hsig⟩
    rw [stringText_iff] at hid hpubkey hcontent hsig
    rw [wordText_iff] at hcreated hkind
    rw [tagsText_iff] at htags
    obtain ⟨id, pubkey, createdAt, kind, tags, content, sig⟩ := f
    subst hid hpubkey hcreated hkind htags hcontent hsig
    rfl
  · rintro rfl
    exact ⟨stringText_iff.mpr rfl, stringText_iff.mpr rfl, wordText_iff.mpr rfl,
      wordText_iff.mpr rfl, tagsText_iff.mpr rfl, stringText_iff.mpr rfl, stringText_iff.mpr rfl⟩

theorem wire_printed (e : Event) : (printed e).wire = Json.print .compact e.toValue := by
  -- what stands between two fields is a comma, a name and a colon; the fields themselves stay closed
  have hid : Text.ofString "\x7b\"id\":" =
      Text.ofString "\x7b" ++ (Json.printString .compact "id" ++ Text.ofString ":") := by decide
  have hpubkey : Text.ofString ",\"pubkey\":" =
      Text.ofString "," ++ (Json.printString .compact "pubkey" ++ Text.ofString ":") := by decide
  have hcreated : Text.ofString ",\"created_at\":" =
      Text.ofString "," ++ (Json.printString .compact "created_at" ++ Text.ofString ":") := by
    decide
  have hkind : Text.ofString ",\"kind\":" =
      Text.ofString "," ++ (Json.printString .compact "kind" ++ Text.ofString ":") := by decide
  have htags : Text.ofString ",\"tags\":" =
      Text.ofString "," ++ (Json.printString .compact "tags" ++ Text.ofString ":") := by decide
  have hcontent : Text.ofString ",\"content\":" =
      Text.ofString "," ++ (Json.printString .compact "content" ++ Text.ofString ":") := by decide
  have hsig : Text.ofString ",\"sig\":" =
      Text.ofString "," ++ (Json.printString .compact "sig" ++ Text.ofString ":") := by decide
  rw [wire, hid, hpubkey, hcreated, hkind, htags, hcontent, hsig, Event.toValue]
  simp only [printed, Json.print, Json.printMembers, Text.join, List.flatMap_cons,
    List.flatMap_nil, List.append_nil, List.append_assoc]
  rfl

theorem canonical_printed (e : Event) : (printed e).canonical = e.canonicalText := by
  have hversion : Text.ofString "[0," =
      Text.ofString "[" ++ (Json.print .compact (.int canonicalVersion) ++ Text.ofString ",") := by
    decide +kernel
  rw [canonical, hversion, Event.canonicalText, Event.canonicalValue]
  simp only [printed, Json.print, Json.printItems, Text.join, List.flatMap_cons,
    List.flatMap_nil, List.append_nil, List.append_assoc]
  rfl

end FieldTexts

namespace Event

/-- An event without surrogates signs none, so it has a canonical form. -/
theorem canonicalForm_of_hasSurrogate {e : Event} (h : e.hasSurrogate = false) :
    e.canonicalForm.value = some e.canonicalText := by
  have hsigned : e.signsSurrogate = false := by
    simp only [hasSurrogate, Bool.or_eq_false_iff] at h
    obtain ⟨⟨⟨⟨-, hpubkey⟩, htags⟩, hcontent⟩, -⟩ := h
    rw [signsSurrogate, hpubkey, hcontent, htags]
    rfl
  rw [canonicalForm_value]
  cases hbytes : e.canonicalBytes? with
  | none =>
    rw [canonicalBytes?_eq_none_iff, hsigned] at hbytes
    cases hbytes
  | some bytes => rfl

/-- An event without surrogates has one text for each field by the rules, and both of its forms are
    put together from these texts. -/
theorem shared_texts {e : Event} (h : e.hasSurrogate = false) :
    ∃ f : FieldTexts, (∀ g : FieldTexts, g.Of e ↔ g = f) ∧
      e.wireText? = some f.wire ∧ e.canonicalForm.value = some f.canonical := by
  refine ⟨.printed e, fun g => FieldTexts.of_iff, ?_, ?_⟩
  · exact wireText?_eq_some_iff.mpr ⟨h, (FieldTexts.wire_printed e).symm⟩
  · rw [canonicalForm_of_hasSurrogate h, FieldTexts.canonical_printed]

/-- An event with all that is hard to write: quotes, a backslash, control characters of both kinds
    and the one that is none, a line separator, a character beyond the first plane, and a tag
    without entries. -/
def awkward : Event where
  id := "\""
  pubkey := "\\"
  createdAt := 18446744073709551615
  kind := 0
  tags := [[], [[.ofNat 0x0A], [.ofNat 0x1F]]]
  content := [.ofNat 0x00, .ofNat 0x7F, .ofNat 0x2028, .ofNat 0x1F600]
  sig := []

/-- Its texts, and the forms that are put together from them. -/
theorem shared_texts_of_awkward :
    awkward.hasSurrogate = false ∧
    awkward.wireText? = some ("\x7b\"id\":\"\\\"\",\"pubkey\":\"\\\\\"," ++
      "\"created_at\":18446744073709551615,\"kind\":0,\"tags\":[[],[\"\\n\",\"\\u001f\"]]," ++
      "\"content\":\"\\u0000\x7f\u2028😀\",\"sig\":\"\"\x7d") ∧
    awkward.canonicalForm.value = some ("[0,\"\\\\\",18446744073709551615,0," ++
      "[[],[\"\\n\",\"\\u001f\"]],\"\\u0000\x7f\u2028😀\"]") := by
  have hnone : awkward.hasSurrogate = false := by decide +kernel
  obtain ⟨f, hf, hwire, hcanonical⟩ := shared_texts hnone
  obtain rfl : FieldTexts.printed awkward = f := (hf _).mp (FieldTexts.of_iff.mpr rfl)
  refine ⟨hnone, hwire.trans ?_, hcanonical.trans ?_⟩
  · decide +kernel
  · decide +kernel

end Event

end SignedEvents
