import Mathlib.Logic.Relation
import SignedEvents.Proofs.Event.Acceptance
import SignedEvents.Proofs.Event.WireForm
import SignedEvents.Proofs.Message.Bytes

/-! # Messages that are sent on

  An event that has been accepted is written out again and sent on.  Whoever gets that message,
  with the same settings at the same time, accepts the same event, and so on from hop to hop.

  - **Form**, **Form.message** — the two forms of a message, and a message of an event.
  - **Form.decode_message** — a message that is written for an event holds the event.
  - **Hop** — one message is sent on as another.
  - **openMessage_hop**, **openMessage_hops** — what a hop, and any number of them, preserve.
  - **relay_preserves** — both, with the messages that are sent on.
-/

namespace SignedEvents

open Json (Value Source)

/-! ## Section 1: Written messages -/

/-- The two forms of a message: an array, or an object. -/
inductive Form where
  | array
  | object

namespace Form

/-- The message of a form, around the text of an event. -/
def message : Form → Text → Text
  | array, t => "[\"EVENT\"," ++ t ++ "]"
  | object, t => "\x7b\"cmd\":\"EVENT\",\"event\":" ++ t ++ "\x7d"

/-- What a message says. -/
def value (e : Event) : Form → Value
  | array => .arr [.str eventCommand, e.toValue]
  | object => .obj [("cmd", .str eventCommand), ("event", e.toValue)]

theorem message_print (form : Form) (e : Event) :
    form.message (Json.print .compact e.toValue) = Json.print .compact (form.value e) := by
  -- the event is printed in the same way on both sides, so it stays closed
  generalize hv : e.toValue = v
  cases form with
  | array =>
    have hopening : Text.ofString "[\"EVENT\"," =
        Text.ofString "[" ++ (Json.printString .compact eventCommand ++ Text.ofString ",") := by
      decide
    rw [message, hopening, value, hv]
    simp only [Json.print, Json.printItems, Text.join, List.flatMap_cons, List.flatMap_nil,
      List.append_nil, List.append_assoc]
    rfl
  | object =>
    have hopening : Text.ofString "\x7b\"cmd\":\"EVENT\",\"event\":" =
        Text.ofString "\x7b" ++ (Json.printString .compact "cmd" ++ (Text.ofString ":" ++
          (Json.printString .compact eventCommand ++ (Text.ofString "," ++
            (Json.printString .compact "event" ++ Text.ofString ":"))))) := by
      decide
    rw [message, hopening, value, hv]
    simp only [Json.print, Json.printMembers, Text.join, List.flatMap_cons, List.flatMap_nil,
      List.append_nil, List.append_assoc]
    rfl

theorem value_fits (form : Form) (e : Event) : (form.value e).Fits .wire 0 := by
  have hevent : e.toValue.Fits .wire 1 := e.toValue_fits (by decide)
  cases form with
  | array => exact ⟨rfl, trivial, hevent, trivial⟩
  | object =>
    have hnames : ([("cmd" : Text), "event"]).Nodup := by decide
    exact ⟨rfl, hnames, trivial, hevent, trivial⟩

theorem ofValue_value (form : Form) (e : Event) :
    Envelope.ofValue (form.value e) = .ok ⟨eventCommand, e⟩ := by
  have hmembers :
      Envelope.ofMembers [("cmd", .str eventCommand), ("event", e.toValue)] =
        .ok ⟨eventCommand, e⟩ := by
    have hevent :
        Checked.member [("cmd", .str eventCommand), ("event", e.toValue)] "event"
          Event.ofValue = .ok e := by
      show (Event.ofValue e.toValue).under (.name "event") = _
      rw [Event.ofValue_toValue, Checked.under]
    rw [Envelope.ofMembers, hevent]
    rfl
  cases form with
  | array => exact hmembers
  | object => exact hmembers

/-- A message that is written for an event holds the event. -/
theorem decode_message {e : Event} {t : Text} (h : e.wireText? = some t) (form : Form) :
    Envelope.decode (.text (form.message t)) = .ok ⟨eventCommand, e⟩ := by
  obtain ⟨-, rfl⟩ := Event.wireText?_eq_some_iff.mp h
  rw [form.message_print e, Envelope.decode_ok_iff]
  exact ⟨form.value e, Json.read_print (form.value_fits e), form.ofValue_value e⟩

/-- A message that is written for an event has bytes. -/
theorem exists_bytes {e : Event} {t : Text} (h : e.wireText? = some t) (form : Form) :
    ∃ bytes, Utf8.encode? (form.message t) = some bytes := by
  have htext : t.hasSurrogate = false := Event.hasSurrogate_wireText h
  rw [← Option.ne_none_iff_exists', ne_eq, Utf8.encode?_eq_none_iff, Bool.not_eq_true]
  cases form with
  | array => exact (Json.hasSurrogate_brackets rfl rfl t).trans htext
  | object => exact (Json.hasSurrogate_brackets rfl rfl t).trans htext

end Form

/-! ## Section 2: Hops -/

/-- The messages that an event is sent on as: text or bytes, in either form. -/
inductive Event.SentAs (e : Event) : Source → Prop where
  | text {t : Text} (form : Form) : e.wireText? = some t → e.SentAs (.text (form.message t))
  | bytes {t : Text} {bytes : Bytes} (form : Form) :
      e.wireText? = some t → Utf8.encode? (form.message t) = some bytes → e.SentAs (.bytes bytes)

/-- A message is accepted, and its event is sent on as another one. -/
def Hop (settings : Settings) (clock : Clock) (source next : Source) : Prop :=
  ∃ e, (openMessage settings clock source).value = .ok e ∧ e.SentAs next

theorem Event.SentAs.decode {e : Event} {next : Source} (h : e.SentAs next) :
    Envelope.decode next = .ok ⟨eventCommand, e⟩ := by
  cases h with
  | text form ht => exact form.decode_message ht
  | bytes form ht hbytes =>
    exact Envelope.decode_bytes_of_text (form.decode_message ht) (Utf8.decode?_of_encode? hbytes)

variable {settings : Settings} {clock : Clock} {source : Source} {e : Event}

/-- Whether a message is accepted depends on the event that it holds, not on its spelling. -/
theorem openMessage_ok_congr {next : Source} (h : (openMessage settings clock source).value = .ok e)
    (hnext : Envelope.decode next = .ok ⟨eventCommand, e⟩) :
    (openMessage settings clock next).value = .ok e := by
  obtain ⟨envelope, -, -, -, htimely, hauthentic⟩ := (openMessage_ok_iff ..).mp h
  exact (openMessage_ok_iff ..).mpr ⟨_, hnext, rfl, rfl, htimely, hauthentic⟩

/-- A hop preserves what is accepted. -/
theorem openMessage_hop {next : Source} (h : (openMessage settings clock source).value = .ok e)
    (hhop : Hop settings clock source next) :
    (openMessage settings clock next).value = .ok e := by
  -- what is sent on is what was accepted: a message gives one event
  obtain ⟨sent, hsent, hnext⟩ := hhop
  have hsame : e = sent := Except.ok.inj (h.symm.trans hsent)
  rw [← hsame] at hnext
  exact openMessage_ok_congr h hnext.decode

/-- Any number of hops preserves what is accepted. -/
theorem openMessage_hops {final : Source} (h : (openMessage settings clock source).value = .ok e)
    (hhops : Relation.ReflTransGen (Hop settings clock) source final) :
    (openMessage settings clock final).value = .ok e := by
  induction hhops with
  | refl => exact h
  | tail _ hhop ih => exact openMessage_hop ih hhop

/-- What has been accepted has a text. -/
theorem wireText?_of_openMessage (h : (openMessage settings clock source).value = .ok e) :
    ∃ t, e.wireText? = some t := by
  obtain ⟨envelope, -, -, -, -, hauthentic⟩ := (openMessage_ok_iff ..).mp h
  have hsurrogate : e.hasSurrogate = false := hauthentic.wellFormed.2.2.2
  exact ⟨_, Event.wireText?_eq_some_iff.mpr ⟨hsurrogate, rfl⟩⟩

/-- A message is accepted exactly if it holds an event, and that event is accepted from each
    message that is written for it, as text and as bytes.  So no number of hops changes an event
    or loses it. -/
theorem relay_preserves (settings : Settings) (clock : Clock) (source : Source) (e : Event) :
    ((openMessage settings clock source).value = .ok e ↔
      Envelope.decode source = .ok ⟨"EVENT", e⟩ ∧
      ∃ t, e.wireText? = some t ∧ ∀ form : Form,
        (openMessage settings clock (.text (form.message t))).value = .ok e ∧
        ∃ bytes, Utf8.encode? (form.message t) = some bytes ∧
          (openMessage settings clock (.bytes bytes)).value = .ok e) ∧
    ∀ final, Relation.ReflTransGen (Hop settings clock) source final →
      (openMessage settings clock source).value = .ok e →
        (openMessage settings clock final).value = .ok e := by
  refine ⟨⟨fun h => ?_, ?_⟩, fun final hhops h => openMessage_hops h hhops⟩
  · obtain ⟨envelope, hdecode, hcommand, hevent, -, -⟩ := (openMessage_ok_iff ..).mp h
    have henvelope : envelope = ⟨eventCommand, e⟩ := by
      rw [← hcommand, ← hevent]
    obtain ⟨t, ht⟩ := wireText?_of_openMessage h
    refine ⟨henvelope ▸ hdecode, t, ht, fun form => ?_⟩
    obtain ⟨bytes, hbytes⟩ := form.exists_bytes ht
    have htext : e.SentAs (.text (form.message t)) := .text form ht
    have hsent : e.SentAs (.bytes bytes) := .bytes form ht hbytes
    exact ⟨openMessage_ok_congr h htext.decode, bytes, hbytes, openMessage_ok_congr h hsent.decode⟩
  · -- the checks ask for the event alone, so a pass in one spelling counts for the other
    rintro ⟨hdecode, t, -, haccepted⟩
    exact openMessage_ok_congr (haccepted .array).1 hdecode

end SignedEvents
