import SignedEvents.Proofs.Event.CanonicalForm
import SignedEvents.Proofs.Event.Shape

/-! # The wire form is read back

  - **ofValue_toValue** — the JSON form of an event has the shape of an event.
  - **read_wireText** — the text of an event reads as the event.
  - **wireText_round_trip** — which events have a text, and what the text says.
-/

namespace SignedEvents

open Json (Value Members Rules)

namespace Event

/-! ## Section 1: Values -/

/-- The members of the JSON form. -/
def wireMembers (e : Event) : Members :=
  [("id", .str e.id), ("pubkey", .str e.pubkey), ("created_at", wordValue e.createdAt),
    ("kind", wordValue e.kind), ("tags", tagsValue e.tags), ("content", .str e.content),
    ("sig", .str e.sig)]

/-- The JSON form of an event has the shape of an event, and holds its fields. -/
theorem ofValue_toValue (e : Event) : ofValue e.toValue = .ok e := by
  refine ofValue_ok_iff.mpr ⟨e.wireMembers, rfl, ofMembers_ok_iff.mpr ?_⟩
  exact ⟨rfl, rfl, rfl, rfl, .inr rfl, rfl, rfl⟩

theorem toValue_fits (e : Event) {depth : Nat} (hdepth : depth + 2 < 1000) :
    e.toValue.Fits .wire depth := by
  have hnames : (e.wireMembers.map (·.1)).Nodup := by
    show ([("id" : Text), "pubkey", "created_at", "kind", "tags", "content", "sig"]).Nodup
    decide
  exact ⟨decide_eq_true (by omega), hnames, trivial, trivial, wordValue_fits _ _,
    wordValue_fits _ _, tagsValue_fits _ (by omega), trivial, trivial, trivial⟩

/-! ## Section 2: Texts -/

/-- All strings of an event. -/
def strings (e : Event) : List Text := [e.id, e.pubkey, e.content, e.sig] ++ e.tags.flatten

theorem hasSurrogate_iff (e : Event) :
    e.hasSurrogate = true ↔ ∃ t ∈ e.strings, ∃ c ∈ t, 0xD800 ≤ c.val ∧ c.val ≤ 0xDFFF := by
  have htext (t : Text) :
      t.hasSurrogate = true ↔ ∃ c ∈ t, 0xD800 ≤ c.val ∧ c.val ≤ 0xDFFF := by
    simp only [Text.hasSurrogate, List.any_eq_true, CodePoint.isSurrogate_iff]
  simp only [← htext]
  have htags : e.tags.any (·.any Text.hasSurrogate) = e.tags.flatten.any Text.hasSurrogate :=
    List.any_flatten.symm
  rw [← List.any_eq_true, strings, List.any_append, hasSurrogate, htags]
  simp only [List.any_cons, List.any_nil, Bool.or_false]
  -- `hasSurrogate` looks at the tags before the content
  grind

theorem wireText?_eq_none_iff (e : Event) : e.wireText? = none ↔ e.hasSurrogate = true := by
  unfold wireText?
  split <;> simp_all

theorem wireText?_eq_some_iff {e : Event} {text : Text} :
    e.wireText? = some text ↔ e.hasSurrogate = false ∧ Json.print .compact e.toValue = text := by
  unfold wireText?
  split <;> simp_all

theorem hasSurrogate_toValue (e : Event) : e.toValue.hasSurrogate = e.hasSurrogate := by
  show (e.id.hasSurrogate || (e.pubkey.hasSurrogate || (false || (false ||
    ((tagsValue e.tags).hasSurrogate || (e.content.hasSurrogate ||
      (e.sig.hasSurrogate || false))))))) = e.hasSurrogate
  rw [hasSurrogate_tagsValue, hasSurrogate]
  simp only [Bool.false_or, Bool.or_false, Bool.or_assoc]

/-- The text of an event holds no surrogate, so it has bytes. -/
theorem hasSurrogate_wireText {e : Event} {text : Text} (h : e.wireText? = some text) :
    text.hasSurrogate = false := by
  obtain ⟨hnone, rfl⟩ := wireText?_eq_some_iff.mp h
  have hfits : e.toValue.Fits .wire 0 := e.toValue_fits (by decide)
  rw [Json.hasSurrogate_print _ hfits, hasSurrogate_toValue, hnone]

/-- The text of an event reads as the event. -/
theorem read_wireText {e : Event} {text : Text} (h : e.wireText? = some text) :
    read (.text text) = .ok e := by
  obtain ⟨-, rfl⟩ := wireText?_eq_some_iff.mp h
  have hfits : e.toValue.Fits .wire 0 := e.toValue_fits (by decide)
  simp only [read, Json.read_print hfits, ofValue_toValue]

/-- An event has a text unless a string of it holds a surrogate.  The text reads as the event,
    all fields of it, and no other text is written for what has been read. -/
theorem wireText_round_trip (e : Event) :
    (e.wireText? = none ↔
      ∃ t ∈ [e.id, e.pubkey, e.content, e.sig] ++ e.tags.flatten,
        ∃ c ∈ t, 0xD800 ≤ c.val ∧ c.val ≤ 0xDFFF) ∧
    ∀ text, e.wireText? = some text →
      read (.text text) = .ok e ∧
        ∀ other, read (.text text) = .ok other → other.wireText? = some text := by
  refine ⟨(wireText?_eq_none_iff e).trans (hasSurrogate_iff e), fun text htext => ?_⟩
  have hread := read_wireText htext
  refine ⟨hread, fun other hother => ?_⟩
  rw [hread] at hother
  obtain rfl := Except.ok.inj hother
  exact htext

end Event

end SignedEvents
