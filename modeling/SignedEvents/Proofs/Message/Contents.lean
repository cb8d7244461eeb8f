import SignedEvents.Proofs.Event.Shape
import SignedEvents.Proofs.Json.Meaning
import SignedEvents.Proofs.Json.Standard
import SignedEvents.Proofs.Message.Bytes

/-! # What a message holds

  Which texts are decoded, and to which envelopes.  The text has to be JSON, its value has to have
  the shape of an envelope, and nothing else matters.

  - **Envelope.HeldBy** — which envelope a value holds.
  - **Envelope.decode_shape** — a message whose value holds an envelope is decoded to it.
  - **Envelope.decode_grammar** — the grammar of the messages that are decoded.
  - **Envelope.decode_beyond_standard** — messages that are decoded and are no standard JSON.
-/

namespace SignedEvents

open Json (Value Members Tree)

/-! ## Section 1: Shapes -/

namespace Event

variable {members : Members}

/-- A member is an integer of 64 bits without a sign. -/
def WordIn (members : Members) (name : Text) (w : UInt64) : Prop :=
  ∃ n : Int, members.Has name (.int n) ∧ 0 ≤ n ∧ n ≤ 0xFFFFFFFFFFFFFFFF ∧ n = w.toNat

/-- The tags are absent, null, or an array of arrays of strings. -/
inductive TagsIn (members : Members) : List Tag → Prop where
  | absent : (∀ v, ¬ members.Has "tags" v) → TagsIn members []
  | null : members.Has "tags" .null → TagsIn members []
  | array {tags : List Tag} :
      members.Has "tags" (.arr (tags.map fun tag => .arr (tag.map .str))) → TagsIn members tags

/-- The members hold an event.  Others may stand beside them. -/
structure FieldsIn (members : Members) (e : Event) : Prop where
  id        : members.Has "id" (.str e.id)
  pubkey    : members.Has "pubkey" (.str e.pubkey)
  createdAt : WordIn members "created_at" e.createdAt
  kind      : WordIn members "kind" e.kind
  tags      : TagsIn members e.tags
  content   : members.Has "content" (.str e.content)
  sig       : members.Has "sig" (.str e.sig)

theorem wordIn_iff {name : Text} {w : UInt64} :
    WordIn members name w ↔ members.Has name (wordValue w) := by
  have hlt := w.toNat_lt
  constructor
  · rintro ⟨_, hmem, -, -, rfl⟩
    exact hmem
  · intro hmem
    exact ⟨w.toNat, hmem, by omega, by omega, rfl⟩

theorem tagsIn_iff {tags : List Tag} :
    TagsIn members tags ↔
      ((∀ v, ¬ members.Has "tags" v) ∨ members.Has "tags" .null) ∧ tags = [] ∨
        members.Has "tags" (tagsValue tags) := by
  constructor
  · intro h
    cases h with
    | absent h => exact .inl ⟨.inl h, rfl⟩
    | null h => exact .inl ⟨.inr h, rfl⟩
    | array h => exact .inr h
  · rintro (⟨h | h, rfl⟩ | h)
    · exact .absent h
    · exact .null h
    · exact .array h

theorem ofMembers_iff_fieldsIn (h : (Value.obj members).Arises) {e : Event} :
    ofMembers members = .ok e ↔ FieldsIn members e := by
  rw [ofMembers_ok_iff, Json.get?_eq_none_iff_not_has]
  simp only [h.get?_iff]
  rw [← wordIn_iff, ← wordIn_iff, ← tagsIn_iff]
  constructor
  · rintro ⟨hid, hpubkey, hcreated, hkind, htags, hcontent, hsig⟩
    exact ⟨hid, hpubkey, hcreated, hkind, htags, hcontent, hsig⟩
  · rintro ⟨hid, hpubkey, hcreated, hkind, htags, hcontent, hsig⟩
    exact ⟨hid, hpubkey, hcreated, hkind, htags, hcontent, hsig⟩

end Event

namespace Envelope

/-- The value holds an envelope: it is an array of a command and an event, or an object with the
    two.  Other members of the object do not matter. -/
inductive HeldBy : Value → Envelope → Prop where
  | array {command : Text} {fields : Members} {event : Event} :
      event.FieldsIn fields → HeldBy (.arr [.str command, .obj fields]) ⟨command, event⟩
  | object {members fields : Members} {command : Text} {event : Event} :
      members.Has "cmd" (.str command) → members.Has "event" (.obj fields) →
      event.FieldsIn fields → HeldBy (.obj members) ⟨command, event⟩

theorem ofValue_pair_iff {command event : Value} (h : event.Arises) {envelope : Envelope} :
    ofValue (.arr [command, event]) = .ok envelope ↔ HeldBy (.arr [command, event]) envelope := by
  rw [ofValue, ofMembers_ok_iff]
  constructor
  · rintro ⟨hcommand, fields, hevent, hfields⟩
    obtain rfl : command = .str envelope.command := Option.some.inj hcommand
    obtain rfl : event = .obj fields := Option.some.inj hevent
    exact .array ((Event.ofMembers_iff_fieldsIn h).mp hfields)
  · intro hheld
    cases hheld with
    | @array _ fields _ hfields =>
      exact ⟨rfl, fields, rfl, (Event.ofMembers_iff_fieldsIn h).mpr hfields⟩

theorem ofMembers_iff_heldBy {members : Members} (h : (Value.obj members).Arises)
    {envelope : Envelope} :
    ofMembers members = .ok envelope ↔ HeldBy (.obj members) envelope := by
  rw [ofMembers_ok_iff]
  simp only [h.get?_iff]
  constructor
  · rintro ⟨hcommand, fields, hevent, hfields⟩
    have harises : (Value.obj fields).Arises := h.members _ hevent
    exact .object hcommand hevent ((Event.ofMembers_iff_fieldsIn harises).mp hfields)
  · intro hheld
    cases hheld with
    | @object _ fields _ _ hcommand hevent hfields =>
      have harises : (Value.obj fields).Arises := h.members _ hevent
      exact ⟨hcommand, fields, hevent, (Event.ofMembers_iff_fieldsIn harises).mpr hfields⟩

/-- The check of the shape accepts exactly the values that hold an envelope. -/
theorem ofValue_iff_heldBy {v : Value} (h : v.Arises) {envelope : Envelope} :
    ofValue v = .ok envelope ↔ HeldBy v envelope := by
  unfold ofValue
  split
  · next command event =>
    exact ofValue_pair_iff (h.items event (by simp))
  · next items hpair =>
    constructor
    · intro hok
      cases hok
    · intro hheld
      cases hheld with
      | array => exact absurd rfl (hpair _ _)
  · next members => exact ofMembers_iff_heldBy h
  · next harray hobject =>
    constructor
    · intro hok
      cases hok
    · intro hheld
      cases hheld with
      | array => exact absurd rfl (harray _)
      | object => exact absurd rfl (hobject _)

/-! ## Section 2: Messages -/

/-- A message is decoded to the envelope that its value holds, and refused if it holds none.  The
    value is that of a tree for which the text is written. -/
theorem decode_shape {t : Text} {v : Value} (hread : Json.read .wire (.text t) = .ok v) :
    (∃ d : Tree, Json.Written t d ∧ d.Means v) ∧
    (∀ envelope, decode (.text t) = .ok envelope ↔ HeldBy v envelope) ∧
    ((∀ envelope, ¬ HeldBy v envelope) →
      ∃ problems, decode (.text t) = .error (.shape problems)) := by
  obtain ⟨d, hwritten, heval⟩ := Json.written_of_read hread
  have hmeans : d.Means v := Json.Tree.means_of_eval rfl heval
  have hheld (envelope : Envelope) : ofValue v = .ok envelope ↔ HeldBy v envelope :=
    ofValue_iff_heldBy ⟨d, hmeans⟩
  refine ⟨⟨d, hwritten, hmeans⟩, fun envelope => ?_, fun hnone => ?_⟩
  · rw [← hheld, decode_ok_iff]
    simp only [hread, Except.ok.injEq, exists_eq_left']
  · rw [decode, hread]
    cases hshape : ofValue v with
    | error problems => exact ⟨problems, by simp only [hshape]⟩
    | ok envelope => exact absurd ((hheld envelope).mp hshape) (hnone envelope)

/-- A message as an object, with surplus members, the last moment that fits and an empty tag. -/
def lastMoment : Text :=
  "\x7b\"more\":[true],\"event\":\x7b\"id\":\"\",\"pubkey\":\"\"," ++
    "\"created_at\":18446744073709551615,\"kind\":-0,\"tags\":[[\"e\"],[]]," ++
    "\"content\":\"\",\"sig\":\"\",\"more\":null\x7d,\"cmd\":\"NOTICE\"\x7d"

/-- The value of the member for the event. -/
def lastMomentFields : Members :=
  [("id", .str ""), ("pubkey", .str ""), ("created_at", .int 18446744073709551615),
    ("kind", .int 0), ("tags", .arr [.arr [.str "e"], .arr []]), ("content", .str ""),
    ("sig", .str ""), ("more", .null)]

/-- The value of the message holds an envelope, so the message is decoded to it. -/
theorem decode_shape_of_lastMoment :
    ∃ v, Json.read .wire (.text lastMoment) = .ok v ∧
      decode (.text lastMoment) =
        .ok ⟨"NOTICE", ⟨"", "", 18446744073709551615, 0, [["e"], []], "", ""⟩⟩ := by
  have hwritten : Json.Written lastMoment
      (.obj [("more", .arr [.bool true]),
        ("event", .obj [("id", .str ""), ("pubkey", .str ""),
          ("created_at", .number ⟨false,
            [1, 8, 4, 4, 6, 7, 4, 4, 0, 7, 3, 7, 0, 9, 5, 5, 1, 6, 1, 5], none, none⟩),
          ("kind", .number ⟨true, [0], none, none⟩), ("tags", .arr [.arr [.str "e"], .arr []]),
          ("content", .str ""), ("sig", .str ""), ("more", .null)]),
        ("cmd", .str "NOTICE")]) := by
    decide +kernel
  have hread : Json.read .wire (.text lastMoment) =
      .ok (.obj [("more", .arr [.bool true]), ("event", .obj lastMomentFields),
        ("cmd", .str "NOTICE")]) := (Json.read_of_written hwritten).trans rfl
  have hfields : Event.FieldsIn lastMomentFields
      ⟨"", "", 18446744073709551615, 0, [["e"], []], "", ""⟩ := by
    refine ⟨?_, ?_, ⟨18446744073709551615, ?_⟩, ⟨0, ?_⟩, .array ?_, ?_, ?_⟩ <;>
      simp [Members.Has, lastMomentFields]
  refine ⟨_, hread, ((decode_shape hread).2.1 _).mpr (.object ?_ ?_ hfields)⟩
  · exact .tail _ (.tail _ (.head _))
  · exact .tail _ (.head _)

/-- The texts that are decoded are of the grammar of JSON with three words more; they are of the
    standard's if none of these words is among their tokens.  All other texts are refused as no
    JSON. -/
theorem decode_grammar (t : Text) :
    (∀ envelope, decode (.text t) = .ok envelope →
      Json.IsText Json.constants t ∧
      (Json.IsText [] t ↔
        ∀ token ∈ (Json.tokens t).map Json.Located.token, token.constant? = none)) ∧
    (¬ Json.IsText Json.constants t → ∃ e, decode (.text t) = .error (.json e)) := by
  refine ⟨fun envelope h => ?_, fun hnot => ?_⟩
  · obtain ⟨v, hv, -⟩ := decode_ok_iff.mp h
    have htext := Json.isText_of_read hv
    exact ⟨htext, by rw [Json.isText_nil_iff, and_iff_right htext]⟩
  · unfold decode
    cases hv : Json.read .wire (.text t) with
    | error e => exact ⟨e, rfl⟩
    | ok v => exact absurd (Json.isText_of_read hv) hnot

/-- A message with a blank event, and with a word as the value of a member that is ignored. -/
def surplusWord (w : Text) : Text := blankMessage ("\",\"a\":" ++ w ++ ",\"b\":\"")

/-- Each of the three words is accepted in a member that is ignored. -/
theorem decode_beyond_standard :
    (decode (.text (surplusWord "NaN")) = .ok blank ∧ ¬ Json.IsText [] (surplusWord "NaN")) ∧
    (decode (.text (surplusWord "Infinity")) = .ok blank ∧
      ¬ Json.IsText [] (surplusWord "Infinity")) ∧
    (decode (.text (surplusWord "-Infinity")) = .ok blank ∧
      ¬ Json.IsText [] (surplusWord "-Infinity")) := by
  have hno (t : Text)
      (h : ¬ ∀ token ∈ (Json.tokens t).map Json.Located.token, token.constant? = none) :
      ¬ Json.IsText [] t :=
    fun ht => h (Json.isText_nil_iff.mp ht).2
  refine ⟨⟨?_, hno _ ?_⟩, ⟨?_, hno _ ?_⟩, ?_, hno _ ?_⟩ <;> decide +kernel

end Envelope

end SignedEvents
