import SignedEvents.Proofs.Event.Shape
import SignedEvents.Proofs.Json.Objects
import SignedEvents.Proofs.Message.Batch

/-! # Spellings of a message

  The same message can be spelled in many ways: members in any order, blanks between tokens, strings
  with or without escapes, an array or an object around the event, blank tags in three ways, members
  that nobody looks at.  All of them hold the same envelope, or none of them holds any.

  - **Message** — what is said: a command, and the members of an event.
  - **Message.Says**, **Message.SpelledAs** — the trees and the texts that say it.
  - **Message.Holds** — the event of a message.
  - **Message.decode_ok_iff** — each spelling holds the event of the message.
  - **Message.decode_spelled** — two spellings of a message.
-/

namespace SignedEvents

open Json (Value Members Tree Surplus LooksOnlyAt LooksOnlyAtFlat)

/-! ## Section 1: Spellings -/

/-- What a message says: a command, and the members of an event. -/
structure Message where
  command : Text
  fields  : List (Text × Tree)

namespace Message

/-- The names that are taken: those that an event looks at, and those of the members. -/
def names (m : Message) : List Text := Event.memberNames ++ m.fields.map (·.1)

/-- What may stand for tags that the message does not speak of: nothing, null, or an empty
    array. -/
inductive BlankTags (m : Message) : List (Text × Tree) → Prop where
  | absent : m.BlankTags []
  | null : Text.ofString "tags" ∉ m.fields.map (·.1) → m.BlankTags [("tags", .null)]
  | empty : Text.ofString "tags" ∉ m.fields.map (·.1) → m.BlankTags [("tags", .arr [])]

/-- The trees of the event: its members, with other orders in their values, and blank tags and
    surplus members among them, in any order. -/
inductive SaysEvent (m : Message) : Tree → Prop where
  | mk {fields blank surplus members : List (Text × Tree)} :
      Tree.MembersReordered m.fields fields → m.BlankTags blank → Surplus m.names 2 surplus →
      members.Perm (fields ++ blank ++ surplus) → m.SaysEvent (.obj members)

/-- The trees of the message: an array, or an object with surplus members in any order. -/
inductive Says (m : Message) : Tree → Prop where
  | array {event : Tree} : m.SaysEvent event → m.Says (.arr [.str m.command, event])
  | object {event : Tree} {surplus members : List (Text × Tree)} :
      m.SaysEvent event → Surplus Envelope.memberNames 1 surplus →
      members.Perm (("cmd", .str m.command) :: ("event", event) :: surplus) →
      m.Says (.obj members)

/-- A text says the message, with any blanks between its tokens and any escapes in its strings. -/
def SpelledAs (m : Message) (t : Text) : Prop := ∃ d, m.Says d ∧ Json.Written t d

/-- The members of the message have values, and these hold an event. -/
def Holds (m : Message) (e : Event) : Prop :=
  ∃ values, (Tree.obj m.fields).eval .wire 1 = .ok (.obj values) ∧ Event.ofMembers values = .ok e

end Message

/-! ## Section 2: Events -/

theorem Event.tagsValue_flat (tags : List Tag) : (tagsValue tags).Flat := by
  rw [tagsValue, Value.Flat, Json.valuesFlat_iff, List.forall_mem_map]
  intro tag _
  rw [Value.Flat, Json.valuesFlat_iff, List.forall_mem_map]
  intro t _
  trivial

/-- The members of an event hold no objects. -/
theorem Event.ofMembers_looksOnlyAtFlat (e : Event) :
    LooksOnlyAtFlat (ofMembers · = .ok e) := by
  intro values values' hnone hflat
  have hstring (name t : Text) := hflat name (.str t) trivial
  have hword (name : Text) (w : UInt64) := hflat name (wordValue w) trivial
  have htags := hflat "tags" (tagsValue e.tags) (tagsValue_flat e.tags)
  have hnull := hflat "tags" .null trivial
  simp only [ofMembers_ok_iff, hstring, hword, htags, hnull, hnone]

theorem Event.ofMembers_looksOnlyAt (e : Event) {known : List Text}
    (hknown : ∀ name ∈ memberNames, name ∈ known) : LooksOnlyAt known (ofMembers · = .ok e) := by
  intro values values' hsame
  have hname (name : Text) (hmem : name ∈ memberNames) : values.get? name = values'.get? name :=
    hsame name (hknown name hmem)
  simp only [memberNames, List.forall_mem_cons] at hname
  obtain ⟨hid, hpubkey, hcreated, hkind, htags, hcontent, hsig, -⟩ := hname
  simp only [ofMembers_ok_iff, hid, hpubkey, hcreated, hkind, htags, hcontent, hsig]

namespace Message

variable {m : Message}

/-- Null or an empty array for tags says the same as no tags. -/
theorem exists_eval_concat_tags_iff {fields : List (Text × Tree)} {d : Tree} {v : Value}
    (hnew : Text.ofString "tags" ∉ fields.map (·.1)) (hd : d.eval .wire 2 = .ok v)
    (hv : v = .null ∨ v = .arr []) (e : Event) :
    (∃ values, (Tree.obj (fields ++ [(Text.ofString "tags", d)])).eval .wire 1 = .ok (.obj values) ∧
        Event.ofMembers values = .ok e) ↔
      ∃ values, (Tree.obj fields).eval .wire 1 = .ok (.obj values) ∧
        Event.ofMembers values = .ok e := by
  refine Json.exists_eval_obj_congr rfl ?_ fun _ values values' hvalues hvalues' => ?_
  · -- the name is new and its value can be read
    rw [Json.readable_obj_iff rfl, Json.readable_obj_iff rfl, List.map_append, List.map_singleton,
      List.perm_append_comm.nodup_iff, List.singleton_append, List.nodup_cons, List.forall_mem_append,
      List.forall_mem_singleton]
    have hreadable : d.Readable .wire 2 := ⟨v, hd⟩
    simp only [hnew, hreadable, not_false_eq_true, true_and, and_true]
  · -- of the seven look-ups only that of the tags finds something else
    obtain rfl : values = values' ++ [(Text.ofString "tags", v)] :=
      Except.ok.inj (hvalues.symm.trans (Json.evalMembers_concat "tags" hvalues' hd))
    have hnone : values'.get? "tags" = none := by
      rw [Json.get?_eq_none_iff, Json.names_of_evalMembers hvalues']
      exact hnew
    have htags : Members.get? (values' ++ [(Text.ofString "tags", v)]) "tags" = some v := by
      rw [Json.get?_append, hnone]
      rfl
    have hother (name : Text) (hname : Text.ofString "tags" ≠ name) :
        Members.get? (values' ++ [(Text.ofString "tags", v)]) name = values'.get? name := by
      rw [Json.get?_append, Json.get?_cons, if_neg hname]
      exact Option.or_none
    have hblank : (some v = none ∨ some v = some .null) ∧ e.tags = [] ∨
        some v = some (Event.tagsValue e.tags) ↔ e.tags = [] := by
      rcases hv with rfl | rfl
      · simp [Event.tagsValue]
      · simp [Event.tagsValue, @eq_comm _ []]
    rw [Event.ofMembers_ok_iff, Event.ofMembers_ok_iff, htags, hnone, hother _ (by decide),
      hother _ (by decide), hother _ (by decide), hother _ (by decide), hother _ (by decide),
      hother _ (by decide), hblank]
    simp

/-- Blank tags do not matter, however they are written. -/
theorem BlankTags.exists_eval_iff {fields blank : List (Text × Tree)} (hblank : m.BlankTags blank)
    (hnames : fields.map (·.1) = m.fields.map (·.1)) (e : Event) :
    (∃ values, (Tree.obj (fields ++ blank)).eval .wire 1 = .ok (.obj values) ∧
        Event.ofMembers values = .ok e) ↔
      ∃ values, (Tree.obj fields).eval .wire 1 = .ok (.obj values) ∧
        Event.ofMembers values = .ok e := by
  cases hblank with
  | absent => rw [List.append_nil]
  | null hnew => exact exists_eval_concat_tags_iff (hnames ▸ hnew) rfl (.inl rfl) e
  | empty hnew => exact exists_eval_concat_tags_iff (hnames ▸ hnew) rfl (.inr rfl) e

/-- Each tree of the event holds the event of the message. -/
theorem SaysEvent.eval_iff {event : Tree} (h : m.SaysEvent event) (e : Event) :
    (∃ values, event.eval .wire 1 = .ok (.obj values) ∧ Event.ofMembers values = .ok e) ↔
      m.Holds e := by
  cases h with
  | @mk fields blank surplus members hfields hblank hsurplus hperm =>
    have hknown : ∀ f ∈ fields ++ blank, f.1 ∈ m.names := by
      intro f hf
      rw [names, List.mem_append]
      rcases List.mem_append.mp hf with hf | hf
      · rw [← hfields.names_eq]
        exact .inr (List.mem_map_of_mem hf)
      · cases hblank with
        | absent => cases hf
        | _ =>
          obtain rfl := List.mem_singleton.mp hf
          exact .inl (by decide)
    -- the surplus goes first, then the blank tags, and the order in the values last
    rw [Json.exists_eval_obj_iff (e.ofMembers_looksOnlyAt fun name => List.mem_append_left _)
      hperm hknown hsurplus, hblank.exists_eval_iff hfields.names_eq e]
    exact (Json.exists_eval_reordered_iff e.ofMembers_looksOnlyAtFlat hfields).symm

end Message

/-! ## Section 3: Messages -/

/-- An array of two has a value if both have. -/
theorem eval_pair_ok_iff {a b : Tree} {v : Value} :
    (Tree.arr [a, b]).eval .wire 0 = .ok v ↔
      ∃ x y, a.eval .wire 1 = .ok x ∧ b.eval .wire 1 = .ok y ∧ v = .arr [x, y] := by
  rw [Json.eval_arr_ok_iff]
  constructor
  · rintro ⟨-, values, hvalues, rfl⟩
    obtain ⟨x, rest, hx, hrest, rfl⟩ := Json.evalItems_cons_ok hvalues
    obtain ⟨y, none, hy, hnone, rfl⟩ := Json.evalItems_cons_ok hrest
    obtain rfl := Except.ok.inj hnone
    exact ⟨x, y, hx, hy, rfl⟩
  · rintro ⟨x, y, hx, hy, rfl⟩
    refine ⟨rfl, [x, y], ?_, rfl⟩
    rw [Tree.evalItems, Tree.evalItems, Tree.evalItems, hx, hy]
    rfl

/-- An object of two has a value if both members have. -/
theorem eval_members_pair_ok_iff {name other : Text} (h : name ≠ other) {a b : Tree} {v : Value} :
    (Tree.obj [(name, a), (other, b)]).eval .wire 0 = .ok v ↔
      ∃ x y, a.eval .wire 1 = .ok x ∧ b.eval .wire 1 = .ok y ∧
        v = .obj [(name, x), (other, y)] := by
  rw [Json.eval_obj_ok_iff rfl]
  constructor
  · rintro ⟨-, -, values, hvalues, rfl⟩
    obtain ⟨x, rest, hx, hrest, rfl⟩ := Json.evalMembers_cons_ok hvalues
    obtain ⟨y, none, hy, hnone, rfl⟩ := Json.evalMembers_cons_ok hrest
    obtain rfl := Except.ok.inj hnone
    exact ⟨x, y, hx, hy, rfl⟩
  · rintro ⟨x, y, hx, hy, rfl⟩
    refine ⟨rfl, by simp [h], [(name, x), (other, y)], ?_, rfl⟩
    rw [Tree.evalMembers, Tree.evalMembers, Tree.evalMembers, hx, hy]
    rfl

theorem Envelope.ofMembers_looksOnlyAt (envelope : Envelope) :
    LooksOnlyAt memberNames (ofMembers · = .ok envelope) := by
  intro values values' hsame
  simp only [memberNames, List.forall_mem_cons] at hsame
  obtain ⟨hcommand, hevent, -⟩ := hsame
  simp only [ofMembers_ok_iff, hcommand, hevent]

namespace Message

variable {m : Message}

/-- A command and a tree of the event make an envelope if the tree holds one. -/
theorem SaysEvent.envelope_iff {event : Tree} (h : m.SaysEvent event) (envelope : Envelope) :
    (∃ v, event.eval .wire 1 = .ok v ∧
        Envelope.ofMembers [("cmd", .str m.command), ("event", v)] = .ok envelope) ↔
      envelope.command = m.command ∧ m.Holds envelope.event := by
  rw [← h.eval_iff]
  constructor
  · rintro ⟨v, hv, henvelope⟩
    obtain ⟨hcommand, fields, hfields, hevent⟩ := Envelope.ofMembers_ok_iff.mp henvelope
    obtain rfl : v = .obj fields := Option.some.inj hfields
    exact ⟨(Value.str.inj (Option.some.inj hcommand)).symm, fields, hv, hevent⟩
  · rintro ⟨hcommand, fields, hv, hevent⟩
    refine ⟨_, hv, Envelope.ofMembers_ok_iff.mpr ⟨?_, fields, rfl, hevent⟩⟩
    rw [hcommand]
    rfl

/-- Each tree of the message holds an envelope of the command and the event. -/
theorem Says.eval_iff {d : Tree} (h : m.Says d) (envelope : Envelope) :
    (∃ v, d.eval .wire 0 = .ok v ∧ Envelope.ofValue v = .ok envelope) ↔
      envelope.command = m.command ∧ m.Holds envelope.event := by
  cases h with
  | @array event hevent =>
    rw [← hevent.envelope_iff]
    constructor
    · rintro ⟨_, hv, henvelope⟩
      obtain ⟨x, y, hx, hy, rfl⟩ := eval_pair_ok_iff.mp hv
      obtain rfl := Except.ok.inj hx
      exact ⟨y, hy, henvelope⟩
    · rintro ⟨y, hy, henvelope⟩
      exact ⟨_, eval_pair_ok_iff.mpr ⟨_, y, rfl, hy, rfl⟩, henvelope⟩
  | @object event surplus members hevent hsurplus hperm =>
    have hcounted : ∀ f ∈ [(Text.ofString "cmd", Tree.str m.command), ("event", event)],
        f.1 ∈ Envelope.memberNames := by
      simp [Envelope.memberNames]
    -- without the surplus there are two members, and these are in order
    have hsee := Json.exists_eval_obj_iff envelope.ofMembers_looksOnlyAt hperm hcounted hsurplus
    have hnames : Text.ofString "cmd" ≠ "event" := by decide
    have hcommand : (Tree.str m.command).eval .wire 1 = .ok (.str m.command) := rfl
    rw [← hevent.envelope_iff]
    constructor
    · rintro ⟨_, hv, henvelope⟩
      obtain ⟨-, -, values, -, rfl⟩ := (Json.eval_obj_ok_iff rfl).mp hv
      obtain ⟨seen, hseen, henvelope⟩ := hsee.mp ⟨values, hv, henvelope⟩
      obtain ⟨x, y, hx, hy, heq⟩ := (eval_members_pair_ok_iff hnames).mp hseen
      obtain rfl := Except.ok.inj hx
      obtain rfl := Value.obj.inj heq
      exact ⟨y, hy, henvelope⟩
    · rintro ⟨y, hy, henvelope⟩
      have hseen := (eval_members_pair_ok_iff hnames).mpr ⟨_, y, hcommand, hy, rfl⟩
      obtain ⟨values, hv, henvelope⟩ := hsee.mpr ⟨_, hseen, henvelope⟩
      exact ⟨_, hv, henvelope⟩

/-- Each spelling of the message holds an envelope of the command and the event. -/
theorem decode_ok_iff {t : Text} (h : m.SpelledAs t) (envelope : Envelope) :
    Envelope.decode (.text t) = .ok envelope ↔
      envelope.command = m.command ∧ m.Holds envelope.event := by
  obtain ⟨d, hsays, hwritten⟩ := h
  rw [Envelope.decode_ok_iff, Json.read_of_written hwritten, hsays.eval_iff]

/-- Two spellings of a message hold the same envelope, and it is opened and taken in alike under
    any settings at any time; or neither of them can be decoded. -/
theorem decode_spelled (m : Message) {t u : Text} (ht : m.SpelledAs t) (hu : m.SpelledAs u) :
    (∃ envelope, Envelope.decode (.text t) = .ok envelope ∧
        Envelope.decode (.text u) = .ok envelope ∧
        ∀ settings clock,
          openMessage settings clock (.text t) = openMessage settings clock (.text u) ∧
          takeIn settings clock (.text t) = takeIn settings clock (.text u)) ∨
      ∃ fault other, Envelope.decode (.text t) = .error fault ∧
        Envelope.decode (.text u) = .error other ∧
        ∀ settings clock,
          (openMessage settings clock (.text t)).value = .error (.undecodable fault) ∧
          (openMessage settings clock (.text u)).value = .error (.undecodable other) ∧
          (takeIn settings clock (.text t)).value = .ok (.undecodable fault) ∧
          (takeIn settings clock (.text u)).value = .ok (.undecodable other) := by
  have hsame (envelope : Envelope) : Envelope.decode (.text t) = .ok envelope ↔
      Envelope.decode (.text u) = .ok envelope := by
    rw [decode_ok_iff ht, decode_ok_iff hu]
  cases hdecode : Envelope.decode (.text t) with
  | ok envelope =>
    have hother := (hsame envelope).mp hdecode
    refine .inl ⟨envelope, rfl, hother, fun settings clock => ⟨?_, ?_⟩⟩
    · rw [openMessage_eq, openMessage_eq, hdecode, hother]
    · exact takeIn_congr settings clock (hdecode.trans hother.symm)
  | error fault =>
    cases hother : Envelope.decode (.text u) with
    | ok envelope =>
      -- then the first would hold it too
      rw [(hsame envelope).mpr hother] at hdecode
      cases hdecode
    | error other =>
      refine .inr ⟨fault, other, rfl, rfl, fun settings clock => ⟨?_, ?_, ?_, ?_⟩⟩
      · rw [openMessage_eq, hdecode]
        rfl
      · rw [openMessage_eq, hother]
        rfl
      · exact takeIn_undecodable settings clock hdecode
      · exact takeIn_undecodable settings clock hother

/-- A message with a character that has a surrogate pair. -/
def smile : Message where
  command := "EVENT"
  fields :=
    [("id", .str ""), ("pubkey", .str ""), ("created_at", .number ⟨false, [0], none, none⟩),
      ("kind", .number ⟨false, [0], none, none⟩), ("content", .str [.ofNat 0x1F600]),
      ("sig", .str "")]

/-- The message as an array, without blanks. -/
def smileArray : Text :=
  "[\"EVENT\",\x7b\"id\":\"\",\"pubkey\":\"\",\"created_at\":0,\"kind\":0,\"content\":\"😀\"," ++
    "\"sig\":\"\"\x7d]"

/-- The message as an object, with blanks, escapes, null for tags and surplus members. -/
def smileObject : Text :=
  " \x7b\"more\":1,\"event\": \x7b\"more\":[\x7b\x7d],\"tags\":null,\"sig\":\"\"," ++
    "\"content\":\"\\ud83d\\ude00\",\"kind\":0,\"created_at\":0,\"pubkey\":\"\",\"id\":\"\"\x7d," ++
    "\n\"cmd\":\"\\u0045VENT\"\x7d"

theorem smileArray_spelled : smile.SpelledAs smileArray := by
  have hevent : smile.SaysEvent (.obj smile.fields) := by
    apply SaysEvent.mk (.refl _) .absent (.nil _ _)
    simp
  have hwritten : Json.Written smileArray (.arr [.str "EVENT", .obj smile.fields]) := by
    decide +kernel
  exact ⟨_, .array hevent, hwritten⟩

theorem smileObject_spelled : smile.SpelledAs smileObject := by
  have hsurplus : Surplus smile.names 2 [("more", .arr [.obj []])] :=
    ⟨by decide, by decide, List.forall_mem_singleton.mpr ⟨_, rfl⟩⟩
  have hother : Surplus Envelope.memberNames 1 [("more", .number ⟨false, [1], none, none⟩)] :=
    ⟨by decide, by decide, List.forall_mem_singleton.mpr ⟨_, rfl⟩⟩
  have hevent := SaysEvent.mk (.refl _) (.null (by decide)) hsurplus (List.reverse_perm _)
  refine ⟨_, .object hevent hother (List.reverse_perm _), ?_⟩
  decide +kernel

/-- Both spellings hold the same envelope. -/
theorem decode_spelled_of_smile :
    smile.SpelledAs smileArray ∧ smile.SpelledAs smileObject ∧
      ∃ envelope, Envelope.decode (.text smileArray) = .ok envelope ∧
        Envelope.decode (.text smileObject) = .ok envelope := by
  refine ⟨smileArray_spelled, smileObject_spelled, ?_⟩
  rcases Message.decode_spelled smile smileArray_spelled smileObject_spelled with
    ⟨envelope, hdecode, hother, -⟩ | ⟨fault, -, hdecode, -⟩
  · exact ⟨envelope, hdecode, hother⟩
  · have hok : Envelope.decode (.text smileArray) =
        .ok ⟨"EVENT", ⟨"", "", 0, 0, [], [.ofNat 0x1F600], ""⟩⟩ := by
      decide +kernel
    rw [hok] at hdecode
    cases hdecode

end Message

end SignedEvents
