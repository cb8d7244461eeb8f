import Mathlib.Data.List.Basic
import SignedEvents.Envelope

/-! # What has the shape of an event

  Each check of a shape accepts exactly what is written for its result, so the members of an event
  say its fields and nothing else.

  - **Checked.string_ok_iff**, **Checked.word_ok_iff**, **Checked.array_ok_iff** — the checks.
  - **Event.ofMembers_ok_iff** — what stands under the seven names.
  - **Envelope.ofMembers_ok_iff** — what stands under the two names.
-/

namespace SignedEvents

open Json (Value Members)

/-! ## Section 1: Checks -/

namespace Checked

variable {α : Type} {check : Value → Checked α}

theorem under_ok_iff {step : PathStep} {c : Checked α} {a : α} :
    c.under step = .ok a ↔ c = .ok a := by
  cases c with
  | ok b => rfl
  | error ps =>
    constructor <;> intro h <;> cases h

theorem member_ok_iff {members : Members} {name : String} {a : α} :
    member members name check = .ok a ↔
      ∃ v, members.get? name = some v ∧ check v = .ok a := by
  unfold member
  cases members.get? name with
  | none =>
    constructor
    · intro h
      cases h
    · rintro ⟨v, h, -⟩
      cases h
  | some v =>
    simp only [under_ok_iff, Option.some.injEq, exists_eq_left']

theorem string_ok_iff {v : Value} {t : Text} : string v = .ok t ↔ v = .str t := by
  constructor
  · intro h
    cases v with
    | str u =>
      obtain rfl := Except.ok.inj h
      rfl
    | _ => cases h
  · rintro rfl
    rfl

theorem word_ok_iff {v : Value} {w : UInt64} : word v = .ok w ↔ v = Event.wordValue w := by
  constructor
  · intro h
    cases v with
    | int n =>
      rw [word] at h
      by_cases hmin : n < 0
      · rw [if_pos hmin] at h
        cases h
      rw [if_neg hmin] at h
      by_cases hmax : n > 0xFFFFFFFFFFFFFFFF
      · rw [if_pos hmax] at h
        cases h
      rw [if_neg hmax] at h
      obtain rfl := Except.ok.inj h
      have hlt : n.toNat < 2 ^ 64 := by omega
      rw [Event.wordValue, UInt64.toNat_ofNat_of_lt' hlt, Int.toNat_of_nonneg (by omega)]
    | _ => cases h
  · rintro rfl
    have hlt := w.toNat_lt
    have hmin : ¬ ((w.toNat : Int) < 0) := by omega
    have hmax : ¬ ((w.toNat : Int) > 0xFFFFFFFFFFFFFFFF) := by omega
    rw [Event.wordValue, word, if_neg hmin, if_neg hmax, Int.toNat_natCast, UInt64.ofNat_toNat]

theorem collect_ok_iff {checks : List (Checked α)} {as : List α} :
    collect checks = .ok as ↔ checks = as.map .ok := by
  constructor
  · intro h
    induction checks generalizing as with
    | nil =>
      obtain rfl := Except.ok.inj h
      rfl
    | cons check checks ih =>
      rw [collect, List.foldr_cons, ← collect] at h
      cases check with
      | error ps => cases h
      | ok a =>
        cases hrest : collect checks with
        | error ps =>
          rw [hrest] at h
          cases h
        | ok rest =>
          rw [hrest] at h
          obtain rfl := Except.ok.inj h
          rw [List.map_cons, ih hrest]
  · rintro rfl
    induction as with
    | nil => rfl
    | cons a as ih => rw [List.map_cons, collect, List.foldr_cons, ← collect, ih]

theorem map_zipIdx_eq_iff {write : α → Value} (hcheck : ∀ v a, check v = .ok a ↔ v = write a)
    (items : List Value) (as : List α) (start : Nat) :
    (items.zipIdx start).map (fun (v, i) => (check v).under (.index i)) = as.map .ok ↔
      items = as.map write := by
  -- the places in the array only show in problems
  induction items generalizing as start with
  | nil => cases as <;> simp
  | cons v items ih =>
    cases as with
    | nil => simp
    | cons a as =>
      rw [List.zipIdx_cons, List.map_cons, List.map_cons, List.map_cons, List.cons.injEq,
        List.cons.injEq, under_ok_iff, hcheck, ih]

/-- A check of arrays accepts what is written for items, if the check of items does so. -/
theorem array_ok_iff {write : α → Value} (hcheck : ∀ v a, check v = .ok a ↔ v = write a)
    {v : Value} {as : List α} : array check v = .ok as ↔ v = .arr (as.map write) := by
  cases v with
  | arr items => rw [array, collect_ok_iff, map_zipIdx_eq_iff hcheck, Value.arr.injEq]
  | _ =>
    constructor <;> intro h <;> cases h

end Checked

/-! ## Section 2: Events -/

namespace Event

/-- The names of the members that an event looks at. -/
def memberNames : List Text :=
  ["id", "pubkey", "created_at", "kind", "tags", "content", "sig"]

theorem checkTags_ok_iff {v : Value} {tags : List Tag} :
    checkTags v = .ok tags ↔ v = .null ∧ tags = [] ∨ v = tagsValue tags := by
  have htag (v : Value) (tag : Tag) :
      Checked.array Checked.string v = .ok tag ↔ v = .arr (tag.map .str) :=
    Checked.array_ok_iff fun v t => Checked.string_ok_iff
  have htags (v : Value) :
      Checked.array (Checked.array Checked.string) v = .ok tags ↔ v = tagsValue tags :=
    Checked.array_ok_iff htag
  cases v with
  | null =>
    constructor
    · intro h
      exact .inl ⟨rfl, (Except.ok.inj h).symm⟩
    · rintro (⟨-, rfl⟩ | h)
      · rfl
      · cases h
  | _ =>
    constructor
    · intro h
      exact .inr ((htags _).mp h)
    · rintro (⟨h, -⟩ | h)
      · cases h
      · exact (htags _).mpr h

theorem tagsOf_ok_iff {members : Members} {tags : List Tag} :
    tagsOf members = .ok tags ↔
      (members.get? "tags" = none ∨ members.get? "tags" = some .null) ∧ tags = [] ∨
        members.get? "tags" = some (tagsValue tags) := by
  unfold tagsOf
  cases members.get? "tags" with
  | none =>
    constructor
    · intro h
      exact .inl ⟨.inl rfl, (Except.ok.inj h).symm⟩
    · rintro (⟨-, rfl⟩ | h)
      · rfl
      · cases h
  | some v =>
    simp only [Checked.under_ok_iff, checkTags_ok_iff, Option.some.injEq, reduceCtorEq, false_or]

/-- Members hold an event exactly if its fields stand under the seven names.  Tags that are empty
    may be null, or not be there. -/
theorem ofMembers_ok_iff {members : Members} {e : Event} :
    ofMembers members = .ok e ↔
      members.get? "id" = some (.str e.id) ∧
      members.get? "pubkey" = some (.str e.pubkey) ∧
      members.get? "created_at" = some (wordValue e.createdAt) ∧
      members.get? "kind" = some (wordValue e.kind) ∧
      ((members.get? "tags" = none ∨ members.get? "tags" = some .null) ∧ e.tags = [] ∨
        members.get? "tags" = some (tagsValue e.tags)) ∧
      members.get? "content" = some (.str e.content) ∧
      members.get? "sig" = some (.str e.sig) := by
  have hstring (name : String) (t : Text) :
      Checked.member members name Checked.string = .ok t ↔
        members.get? name = some (.str t) := by
    simp only [Checked.member_ok_iff, Checked.string_ok_iff, exists_eq_right]
  have hword (name : String) (w : UInt64) :
      Checked.member members name Checked.word = .ok w ↔
        members.get? name = some (wordValue w) := by
    simp only [Checked.member_ok_iff, Checked.word_ok_iff, exists_eq_right]
  rw [← hstring, ← hstring, ← hword, ← hword, ← tagsOf_ok_iff, ← hstring, ← hstring]
  constructor
  · intro h
    unfold ofMembers at h
    dsimp only at h
    -- the one case in which all checks succeed
    split at h
    · next hid hpubkey hcreated hkind htags hcontent hsig =>
      obtain rfl := Except.ok.inj h
      exact ⟨hid, hpubkey, hcreated, hkind, htags, hcontent, hsig⟩
    · cases h
  · rintro ⟨hid, hpubkey, hcreated, hkind, htags, hcontent, hsig⟩
    rw [ofMembers]
    simp only [hid, hpubkey, hcreated, hkind, htags, hcontent, hsig]

theorem ofValue_ok_iff {v : Value} {e : Event} :
    ofValue v = .ok e ↔ ∃ members, v = .obj members ∧ ofMembers members = .ok e := by
  cases v with
  | obj members => simp [ofValue]
  | _ =>
    constructor
    · intro h
      cases h
    · rintro ⟨members, h, -⟩
      cases h

end Event

/-! ## Section 3: Envelopes -/

namespace Envelope

/-- The names of the members that an envelope looks at. -/
def memberNames : List Text := ["cmd", "event"]

/-- Members hold an envelope exactly if the command and the members of the event stand under the
    two names. -/
theorem ofMembers_ok_iff {members : Members} {envelope : Envelope} :
    ofMembers members = .ok envelope ↔
      members.get? "cmd" = some (.str envelope.command) ∧
      ∃ fields, members.get? "event" = some (.obj fields) ∧
        Event.ofMembers fields = .ok envelope.event := by
  have hcommand (t : Text) : Checked.member members "cmd" Checked.string = .ok t ↔
      members.get? "cmd" = some (.str t) := by
    simp only [Checked.member_ok_iff, Checked.string_ok_iff, exists_eq_right]
  have hevent (e : Event) : Checked.member members "event" Event.ofValue = .ok e ↔
      ∃ fields, members.get? "event" = some (.obj fields) ∧ Event.ofMembers fields = .ok e := by
    simp only [Checked.member_ok_iff, Event.ofValue_ok_iff]
    constructor
    · rintro ⟨_, hv, fields, rfl, he⟩
      exact ⟨fields, hv, he⟩
    · rintro ⟨fields, hv, he⟩
      exact ⟨_, hv, fields, rfl, he⟩
  rw [← hcommand, ← hevent]
  constructor
  · intro h
    unfold ofMembers at h
    dsimp only at h
    split at h
    · next hc he =>
      obtain rfl := Except.ok.inj h
      exact ⟨hc, he⟩
    · cases h
  · rintro ⟨hc, he⟩
    rw [ofMembers]
    simp only [hc, he]

end Envelope

end SignedEvents
