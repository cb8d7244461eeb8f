import SignedEvents.Event.CanonicalForm
import SignedEvents.Proofs.Json.RoundTrip
import SignedEvents.Proofs.Text.Utf8

/-! # The canonical form says what it signs

  - **read_canonicalText** — the text of the canonical form reads as the signed fields.
  - **canonicalBytes?_eq_none_iff** — there are no bytes exactly if a signed string holds a
    surrogate.
  - **signed_of_canonicalBytes?** — no two events with other signed fields share their bytes.
  - **canonicalForm_faithful** — bytes, text and value of the form.
-/

namespace SignedEvents.Event

open Json (Value Rules)

/-! ## Section 1: The signed fields fit into a message -/

theorem wire_admits {n : Int} (h : n.natAbs < Nat.pow 10 20) : Rules.wire.admits n := by
  refine Json.admits_of_lt h fun most hmost => ?_
  obtain rfl := Option.some.inj hmost
  decide

theorem wordValue_fits (w : UInt64) (depth : Nat) : (wordValue w).Fits .wire depth := by
  have hlt : (w.toNat : Int).natAbs < 2 ^ 64 := w.toNat_lt
  have hpow : 2 ^ 64 < Nat.pow 10 20 := by decide
  exact wire_admits (Nat.lt_trans hlt hpow)

theorem tagsValue_fits (tags : List Tag) {depth : Nat} (hdepth : depth + 1 < 1000) :
    (tagsValue tags).Fits .wire depth := by
  have htag (tag : Tag) : (Value.arr (tag.map .str)).Fits .wire (depth + 1) := by
    refine ⟨decide_eq_true hdepth, (Json.itemsFit_iff _).mpr ?_⟩
    exact List.forall_mem_map.mpr fun t _ => trivial
  refine ⟨decide_eq_true (Nat.lt_of_succ_lt hdepth), (Json.itemsFit_iff _).mpr ?_⟩
  exact List.forall_mem_map.mpr fun tag _ => htag tag

theorem canonicalValue_fits (e : Event) : e.canonicalValue.Fits .wire 0 := by
  have hversion : (Value.int canonicalVersion).Fits .wire 1 := wire_admits (by decide)
  exact ⟨rfl, hversion, trivial, wordValue_fits _ _, wordValue_fits _ _,
    tagsValue_fits _ (by decide), trivial, trivial⟩

/-! ## Section 2: Text and bytes -/

/-- The text of the canonical form reads as the signed fields. -/
theorem read_canonicalText (e : Event) :
    Json.read .wire (.text e.canonicalText) = .ok e.canonicalValue :=
  Json.read_print e.canonicalValue_fits

/-- Does a signed string hold a surrogate? -/
def signsSurrogate (e : Event) : Bool :=
  e.pubkey.hasSurrogate || e.content.hasSurrogate || e.tags.any (·.any Text.hasSurrogate)

theorem hasSurrogate_tagsValue (tags : List Tag) :
    (tagsValue tags).hasSurrogate = tags.any (·.any Text.hasSurrogate) := by
  have htag (tag : Tag) : (Value.arr (tag.map .str)).hasSurrogate = tag.any Text.hasSurrogate := by
    rw [Value.hasSurrogate, Json.itemsHaveSurrogate_eq_any, List.any_map]
    rfl
  rw [tagsValue, Value.hasSurrogate, Json.itemsHaveSurrogate_eq_any, List.any_map]
  congr 1
  funext tag
  exact htag tag

theorem hasSurrogate_canonicalText (e : Event) :
    e.canonicalText.hasSurrogate = e.signsSurrogate := by
  rw [canonicalText, Json.hasSurrogate_print _ e.canonicalValue_fits]
  show (false || (e.pubkey.hasSurrogate || (false || (false || ((tagsValue e.tags).hasSurrogate ||
    (e.content.hasSurrogate || false)))))) = e.signsSurrogate
  rw [hasSurrogate_tagsValue, signsSurrogate]
  simp only [Bool.false_or, Bool.or_false]
  rw [Bool.or_assoc, Bool.or_comm e.content.hasSurrogate]

/-- There are no bytes exactly if a signed string holds a surrogate. -/
theorem canonicalBytes?_eq_none_iff (e : Event) :
    e.canonicalBytes? = none ↔ e.signsSurrogate = true := by
  rw [canonicalBytes?, Utf8.encode?_eq_none_iff, hasSurrogate_canonicalText]

theorem canonicalize_value (e : Event) : e.canonicalize.value = e.canonicalBytes? := by
  unfold canonicalize
  cases e.canonicalBytes? <;> rfl

theorem canonicalForm_value (e : Event) :
    e.canonicalForm.value = e.canonicalBytes?.map fun _ => e.canonicalText := by
  rw [canonicalForm, Trace.bind_value, canonicalize_value]
  cases e.canonicalBytes? <;> rfl

/-- The canonical form can be taken apart again: its bytes are the UTF-8 of its text, and its
    text reads as the array of the signed fields.  There is none exactly if a signed string
    holds a surrogate. -/
theorem canonicalForm_faithful (e : Event) :
    (e.canonicalize.value = none ↔
      (e.pubkey.hasSurrogate || e.content.hasSurrogate ||
        e.tags.any (·.any Text.hasSurrogate)) = true) ∧
    (e.canonicalForm.value = none ↔ e.canonicalize.value = none) ∧
    ∀ bytes, e.canonicalize.value = some bytes →
      ∃ text, Utf8.decode? bytes = some text ∧ e.canonicalForm.value = some text ∧
        Json.read .wire (.text text) =
          .ok (.arr [.int 0, .str e.pubkey, .int e.createdAt.toNat, .int e.kind.toNat,
            .arr (e.tags.map fun tag => .arr (tag.map .str)), .str e.content]) := by
  rw [canonicalize_value, canonicalForm_value]
  refine ⟨e.canonicalBytes?_eq_none_iff, Option.map_eq_none_iff, fun bytes hbytes => ?_⟩
  refine ⟨e.canonicalText, Utf8.decode?_of_encode? hbytes, ?_, e.read_canonicalText⟩
  rw [hbytes, Option.map_some]

/-! ## Section 3: What the bytes determine -/

theorem wordValue_injective {v w : UInt64} (h : wordValue v = wordValue w) : v = w := by
  have hint : (v.toNat : Int) = w.toNat := Value.int.inj h
  exact UInt64.toNat_inj.mp (Int.ofNat_inj.mp hint)

theorem tagsValue_injective {tags tags' : List Tag} (h : tagsValue tags = tagsValue tags') :
    tags = tags' := by
  have htag : Function.Injective fun tag : Tag => Value.arr (tag.map .str) := fun tag tag' h =>
    List.map_injective_iff.mpr (fun _ _ => Value.str.inj) (Value.arr.inj h)
  exact List.map_injective_iff.mpr htag (Value.arr.inj h)

/-- The bytes of the canonical form determine all signed fields. -/
theorem signed_of_canonicalBytes? {a b : Event} {bytes : Bytes}
    (ha : a.canonicalBytes? = some bytes) (hb : b.canonicalBytes? = some bytes) :
    a.pubkey = b.pubkey ∧ a.createdAt = b.createdAt ∧ a.kind = b.kind ∧ a.tags = b.tags ∧
      a.content = b.content := by
  have htext : a.canonicalText = b.canonicalText := Utf8.encode?_injective ha hb
  -- one text has one value
  have hvalue : a.canonicalValue = b.canonicalValue := by
    have hread := a.read_canonicalText
    rw [htext, b.read_canonicalText] at hread
    exact (Except.ok.inj hread).symm
  rw [canonicalValue, canonicalValue] at hvalue
  injection hvalue with hitems
  simp only [List.cons.injEq, Value.str.injEq, and_true, true_and] at hitems
  obtain ⟨hpubkey, hcreated, hkind, htags, hcontent⟩ := hitems
  exact ⟨hpubkey, wordValue_injective hcreated, wordValue_injective hkind,
    tagsValue_injective htags, hcontent⟩

end SignedEvents.Event
