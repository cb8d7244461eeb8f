import Mathlib.Data.List.Forall2
import SignedEvents.Event.Draft
import SignedEvents.Proofs.Event.Acceptance

/-! # The canonical form of drafts

  The fields of a draft may have any type.  The dates, the key and the content are looked at before
  they are signed, and nothing but the right types has a form.  Tags are gone through without a look
  at what they are, so an object counts as the array of its names and a string as the array of its
  code points.

  - **Lists**, **ListsTags** — which values pass for an array of strings, and for tags.
  - **Spells** — a draft that passes for an event.
  - **canonicalize_eq_some_iff** — the drafts with a form are those that pass for an event.
  - **SpellsAll.judge_outcome**, **judge_stands_iff** — they are judged as that event is.
  - **canonicalize_exact** — what has a form, what stands, and which drafts share a form.
  - **canonicalize_loose_tags** — drafts of the wrong types that do.
-/

namespace SignedEvents.Draft

open Json (Value Members)

variable {α β : Type}

/-! ## Section 1: Examinations without their records -/

/-- How an examination ends, without the records. -/
def Examination.outcome (x : Examination α) : Except Defect α := x.run.value

@[simp] theorem outcome_pure (a : α) : (pure a : Examination α).outcome = .ok a := rfl

@[simp] theorem outcome_liftM (x : Trace α) : (liftM x : Examination α).outcome = .ok x.value := rfl

@[simp] theorem outcome_ofExcept (x : Except Defect α) :
    (ofExcept x : Examination α).outcome = x := by
  cases x <;> rfl

@[simp] theorem outcome_field_some (v : Value) : (field (some v)).outcome = .ok v := rfl

theorem outcome_bind (x : Examination α) (f : α → Examination β) :
    (x >>= f).outcome = x.outcome >>= fun a => (f a).outcome := by
  show (ExceptT.bind x f).run.value = _
  simp only [ExceptT.bind, ExceptT.run, ExceptT.mk, Trace.bind_value, ExceptT.bindCont,
    Examination.outcome]
  cases (x : Trace (Except Defect α)).value <;> rfl

theorem ok_bind (a : α) (f : α → Except Defect β) : (Except.ok a >>= f) = f a := rfl

theorem bind_eq_ok_iff {x : Except Defect α} {f : α → Except Defect β} {b : β} :
    x >>= f = .ok b ↔ ∃ a, x = .ok a ∧ f a = .ok b := by
  cases x with
  | error defect =>
    constructor
    · intro h
      cases h
    · rintro ⟨a, h, -⟩
      cases h
  | ok a => simp only [ok_bind, Except.ok.injEq, exists_eq_left']

/-- An examination that comes to an end comes to the end of each of its parts. -/
theorem outcome_bind_eq_ok_iff {x : Examination α} {f : α → Examination β} {b : β} :
    (x >>= f).outcome = .ok b ↔ ∃ a, x.outcome = .ok a ∧ (f a).outcome = .ok b := by
  rw [outcome_bind, bind_eq_ok_iff]

theorem outcome_field_eq_ok_iff {o : Option Value} {v : Value} :
    (field o).outcome = .ok v ↔ o = some v := by
  cases o with
  | none =>
    constructor <;> intro h <;> cases h
  | some w =>
    simp only [outcome_field_some, Except.ok.injEq, Option.some.injEq]

/-! ## Section 2: What passes for tags -/

/-- A value that passes for an array of strings. -/
inductive Lists : Value → List Text → Prop where
  | array (strings : List Text) : Lists (.arr (strings.map .str)) strings
  /-- An object passes for the array of its names. -/
  | object (members : Members) : Lists (.obj members) (members.map (·.1))
  /-- A string passes for the array of its code points. -/
  | string (t : Text) : Lists (.str t) (t.map fun c => [c])

/-- A value that passes for tags. -/
inductive ListsTags : Value → List Tag → Prop where
  | array {items : List Value} {tags : List Tag} (h : List.Forall₂ Lists items tags) :
      ListsTags (.arr items) tags
  /-- An object passes for its names, and these for the arrays of their code points. -/
  | object (members : Members) :
      ListsTags (.obj members) (members.map fun m => m.1.map fun c => [c])
  /-- A string passes for its code points, and each of these for an array of one. -/
  | string (t : Text) : ListsTags (.str t) (t.map fun c => [[c]])

theorem map_str_injective : Function.Injective (List.map Value.str) :=
  List.map_injective_iff.mpr fun _ _ => Value.str.inj

theorem lists_iff (v : Value) (strings : List Text) :
    Lists v strings ↔ elements v = .ok (strings.map .str) := by
  constructor
  · intro h
    cases h with
    | array strings => rfl
    | object members => simp only [elements, List.map_map]; rfl
    | string t => simp only [elements, List.map_map]; rfl
  · intro h
    cases v with
    | arr items =>
      obtain rfl := Except.ok.inj h
      exact .array strings
    | obj members =>
      have hnames : members.map (·.1) = strings := by
        apply map_str_injective
        rw [List.map_map]
        exact Except.ok.inj h
      exact hnames ▸ .object members
    | str t =>
      have hpoints : t.map (fun c => [c]) = strings := by
        apply map_str_injective
        rw [List.map_map]
        exact Except.ok.inj h
      exact hpoints ▸ .string t
    | null | bool b | int n | float x => cases h

theorem lists_rightUnique : Relator.RightUnique Lists := by
  intro v strings others h h'
  rw [lists_iff] at h h'
  exact map_str_injective (Except.ok.inj (h.symm.trans h'))

theorem isString_iff (v : Value) : isString v = true ↔ ∃ t, v = .str t := by
  cases v <;> simp [isString]

theorem all_isString_iff (items : List Value) :
    items.all isString = true ↔ ∃ strings : List Text, items = strings.map .str := by
  simp only [List.all_eq_true, isString_iff]
  constructor
  · intro h
    induction items with
    | nil => exact ⟨[], rfl⟩
    | cons v items ih =>
      obtain ⟨⟨t, rfl⟩, hitems⟩ := List.forall_mem_cons.mp h
      obtain ⟨strings, rfl⟩ := ih hitems
      exact ⟨t :: strings, rfl⟩
  · rintro ⟨strings, rfl⟩
    exact List.forall_mem_map.mpr fun t _ => ⟨t, rfl⟩

/-- Tags are read exactly if each of them passes for an array of strings. -/
theorem tagArrays_eq_some_iff (items arrays : List Value) :
    tagArrays items = .ok (some arrays) ↔
      ∃ tags : List Tag, List.Forall₂ Lists items tags ∧
        arrays = tags.map fun tag => .arr (tag.map .str) := by
  induction items generalizing arrays with
  | nil =>
    constructor
    · intro h
      cases h
      exact ⟨[], .nil, rfl⟩
    · rintro ⟨tags, htags, rfl⟩
      cases htags
      rfl
  | cons tag rest ih =>
    constructor
    · intro h
      rw [tagArrays] at h
      split at h
      · cases h
      next items hitems =>
      split at h
      next hall =>
        obtain ⟨strings, rfl⟩ := (all_isString_iff items).mp hall
        split at h
        next others hothers =>
          cases h
          obtain ⟨tags, htags, rfl⟩ := (ih others).mp hothers
          exact ⟨strings :: tags, .cons ((lists_iff _ _).mpr hitems) htags, rfl⟩
        next hother => exact absurd h (hother arrays)
      · cases h
    · rintro ⟨tags, htags, rfl⟩
      cases htags with
      | @cons _ strings _ tags hstrings hrest =>
        have hall := (all_isString_iff _).mpr ⟨strings, rfl⟩
        rw [tagArrays, (lists_iff _ _).mp hstrings]
        simp only [hall, if_true, (ih _).mpr ⟨tags, hrest, rfl⟩]
        rfl

/-- What passes for tags has elements that pass for arrays of strings. -/
theorem listsTags_iff (v : Value) (tags : List Tag) :
    ListsTags v tags ↔ ∃ items, elements v = .ok items ∧ List.Forall₂ Lists items tags := by
  have hnames (members : Members) :
      List.Forall₂ Lists (members.map fun m => .str m.1)
        (members.map fun m => m.1.map fun c => [c]) := by
    rw [List.forall₂_map_left_iff, List.forall₂_map_right_iff, List.forall₂_same]
    exact fun m _ => .string m.1
  have hpoints (t : Text) :
      List.Forall₂ Lists (t.map fun c => .str [c]) (t.map fun c => [[c]]) := by
    rw [List.forall₂_map_left_iff, List.forall₂_map_right_iff, List.forall₂_same]
    exact fun c _ => .string [c]
  constructor
  · intro h
    cases h with
    | array hitems => exact ⟨_, rfl, hitems⟩
    | object members => exact ⟨_, rfl, hnames members⟩
    | string t => exact ⟨_, rfl, hpoints t⟩
  · rintro ⟨items, helements, hitems⟩
    cases v with
    | arr _ =>
      obtain rfl := Except.ok.inj helements
      exact .array hitems
    | obj members =>
      obtain rfl := Except.ok.inj helements
      rw [List.right_unique_forall₂' lists_rightUnique hitems (hnames members)]
      exact .object members
    | str t =>
      obtain rfl := Except.ok.inj helements
      rw [List.right_unique_forall₂' lists_rightUnique hitems (hpoints t)]
      exact .string t
    | null | bool b | int n | float x => cases helements

/-! ## Section 3: What passes for an event -/

/-- A draft that passes for an event, as far as fields are signed. -/
structure Spells (d : Draft) (e : Event) : Prop where
  createdAt : d.createdAt = some (Event.wordValue e.createdAt)
  kind      : d.kind = some (Event.wordValue e.kind)
  pubkey    : d.pubkey = some (.str e.pubkey)
  content   : d.content = some (.str e.content)
  tags      : ListsTags d.tags e.tags

theorem isWord_iff (v : Value) : isWord v = true ↔ ∃ w : UInt64, v = Event.wordValue w := by
  constructor
  · intro h
    cases v with
    | int n =>
      simp only [isWord, Bool.and_eq_true, decide_eq_true_eq] at h
      refine ⟨.ofNat n.toNat, ?_⟩
      rw [Event.wordValue, UInt64.toNat_ofNat_of_lt' (by simp only [UInt64.size]; omega),
        Int.toNat_of_nonneg h.1]
    | null | bool b | float x | str t | arr items | obj members => cases h
  · rintro ⟨w, rfl⟩
    have hlt := w.toNat_lt
    simp only [Event.wordValue, isWord, Bool.and_eq_true, decide_eq_true_eq]
    omega

/-- A field that is asked for: it is there, and passes its check. -/
theorem checked_eq_some_iff {o : Option Value} {check : Value → Bool}
    {f : Value → Examination (Option α)} {a : α} :
    (do let v ← field o; if !check v then pure none else f v).outcome = .ok (some a) ↔
      ∃ v, o = some v ∧ check v = true ∧ (f v).outcome = .ok (some a) := by
  rw [outcome_bind_eq_ok_iff]
  refine exists_congr fun v => and_congr outcome_field_eq_ok_iff ?_
  cases hcheck : check v with
  | false =>
    constructor
    · intro h
      cases h
    · rintro ⟨h, -⟩
      cases h
  | true =>
    simp only [Bool.not_true, Bool.false_eq_true, if_false, true_and]

/-- The drafts with signed fields are those that pass for an event. -/
theorem canonicalValue_eq_some_iff (d : Draft) (v : Value) :
    d.canonicalValue.outcome = .ok (some v) ↔ ∃ e : Event, d.Spells e ∧ v = e.canonicalValue := by
  unfold canonicalValue
  simp only [checked_eq_some_iff]
  simp only [outcome_bind_eq_ok_iff, outcome_ofExcept, outcome_pure, Except.ok.injEq,
    Option.map_eq_some_iff]
  constructor
  · rintro ⟨_, hcreated, hcreatedWord, _, hkind, hkindWord, _, hpubkey, hpubkeyString, _, hcontent,
      hcontentString, _, htags, arrays, rfl, rfl⟩
    obtain ⟨createdAt, rfl⟩ := (isWord_iff _).mp hcreatedWord
    obtain ⟨kind, rfl⟩ := (isWord_iff _).mp hkindWord
    obtain ⟨pubkey, rfl⟩ := (isString_iff _).mp hpubkeyString
    obtain ⟨content, rfl⟩ := (isString_iff _).mp hcontentString
    obtain ⟨items, hitems, harrays⟩ := bind_eq_ok_iff.mp htags
    obtain ⟨tags, hlists, rfl⟩ := (tagArrays_eq_some_iff items arrays).mp harrays
    -- id and signature are not signed
    let e : Event := { id := [], pubkey, createdAt, kind, tags, content, sig := [] }
    exact ⟨e, ⟨hcreated, hkind, hpubkey, hcontent, (listsTags_iff _ _).mpr ⟨items, hitems, hlists⟩⟩,
      rfl⟩
  · rintro ⟨e, h, rfl⟩
    obtain ⟨items, hitems, hlists⟩ := (listsTags_iff _ _).mp h.tags
    have harrays := (tagArrays_eq_some_iff items _).mpr ⟨e.tags, hlists, rfl⟩
    refine ⟨_, h.createdAt, (isWord_iff _).mpr ⟨_, rfl⟩, _, h.kind, (isWord_iff _).mpr ⟨_, rfl⟩,
      _, h.pubkey, rfl, _, h.content, rfl, _, ?_, _, rfl, rfl⟩
    rw [hitems]
    exact harrays

/-- The drafts with a canonical form are those that pass for an event which has one, and they have
    the same. -/
theorem canonicalize_eq_some_iff (d : Draft) (text : Text) (bytes : Bytes) :
    d.canonicalize.outcome = .ok (some (text, bytes)) ↔
      ∃ e : Event, d.Spells e ∧ text = e.canonicalText ∧ e.canonicalBytes? = some bytes := by
  unfold canonicalize
  rw [outcome_bind_eq_ok_iff]
  constructor
  · rintro ⟨v?, hv, h⟩
    cases v? with
    | none =>
      simp only [outcome_bind_eq_ok_iff, outcome_pure] at h
      obtain ⟨-, -, -, -, h⟩ := h
      cases h
    | some v =>
      obtain ⟨e, he, rfl⟩ := (canonicalValue_eq_some_iff d v).mp hv
      simp only at h
      split at h
      next encoded hencoded =>
        cases h
        exact ⟨e, he, rfl, hencoded⟩
      next =>
        simp only [outcome_bind_eq_ok_iff, outcome_pure] at h
        obtain ⟨-, -, -, -, h⟩ := h
        cases h
  · rintro ⟨e, he, rfl, hbytes⟩
    refine ⟨_, (canonicalValue_eq_some_iff d _).mpr ⟨e, he, rfl⟩, ?_⟩
    have hencoded : Utf8.encode? (Json.print .compact e.canonicalValue) = some bytes := hbytes
    simp only [hencoded]
    rfl

/-! ## Section 4: How drafts are judged -/

variable {d : Draft} {e : Event}

/-- A draft that passes for an event in all of its fields. -/
structure SpellsAll (d : Draft) (e : Event) : Prop extends d.Spells e where
  id  : d.id = some (.str e.id)
  sig : d.sig = some (.str e.sig)

/-- The draft of an event passes for it. -/
theorem spellsAll_ofEvent (e : Event) : (ofEvent e).SpellsAll e where
  createdAt := rfl
  kind := rfl
  pubkey := rfl
  content := rfl
  tags := .array (List.forall₂_map_left_iff.mpr (List.forall₂_same.mpr fun tag _ => .array tag))
  id := rfl
  sig := rfl

theorem SpellsAll.idPrefix_outcome (h : d.SpellsAll e) : d.idPrefix.outcome = .ok e.idPrefix := by
  rw [idPrefix, outcome_bind, h.id]
  rfl

theorem SpellsAll.canonicalize_outcome (h : d.SpellsAll e) :
    d.canonicalize.outcome = .ok (e.canonicalBytes?.map fun bytes => (e.canonicalText, bytes)) := by
  cases hbytes : e.canonicalBytes? with
  | some bytes => exact (canonicalize_eq_some_iff d _ _).mpr ⟨e, h.toSpells, rfl, hbytes⟩
  | none =>
    have hvalue := (canonicalValue_eq_some_iff d _).mpr ⟨e, h.toSpells, rfl⟩
    have hencoded : Utf8.encode? (Json.print .compact e.canonicalValue) = none := hbytes
    rw [canonicalize, outcome_bind, hvalue]
    show Examination.outcome _ = _
    simp only [hencoded, outcome_bind, h.idPrefix_outcome]
    rfl

theorem SpellsAll.examine_outcome (h : d.SpellsAll e) :
    d.examine.outcome = .ok e.examine.value := by
  rw [examine, outcome_bind, h.canonicalize_outcome, Event.examine_value]
  cases e.canonicalBytes? with
  | none => rfl
  | some bytes =>
    -- the two checks that are left look at the same id, signature and key
    simp only [Option.map_some, ok_bind, h.id, h.sig, h.pubkey, outcome_bind,
      outcome_field_some]
    by_cases hid : e.id = Hex.encode (Sha256.hash bytes)
    · simp only [hid, decide_true, Bool.not_true, Bool.false_eq_true, if_false, ne_eq,
        not_true_eq_false, Schnorr.verifyValues, outcome_bind, outcome_field_some, outcome_liftM,
        ok_bind]
      split
      · rfl
      · simp only [outcome_bind, h.idPrefix_outcome, ok_bind]
        rfl
    · simp only [hid, decide_false, Bool.not_false, if_true, ne_eq, not_false_eq_true, outcome_bind,
        h.idPrefix_outcome, outcome_liftM, ok_bind, outcome_pure]

/-- A draft that passes for an event is judged as the event is. -/
theorem SpellsAll.judge_outcome (h : d.SpellsAll e) (settings : Settings) (clock : Clock) :
    (d.judge settings clock).outcome = (e.judge settings clock).value.mapError .time := by
  rw [judge, Event.judge_value]
  cases settings.allowance with
  | none => exact h.examine_outcome
  | some allowance =>
    simp only [outcome_bind, outcome_liftM, ok_bind]
    cases clock.read with
    | error fault => rfl
    | ok now =>
      have hlater : isLater (Event.wordValue e.createdAt) (now + allowance) =
          .ok (e.isAhead allowance now) := rfl
      simp only [h.createdAt, outcome_bind, outcome_field_some, outcome_ofExcept, ok_bind,
        hlater]
      by_cases hahead : e.isAhead allowance now = true
      · simp only [if_pos hahead, outcome_bind, h.idPrefix_outcome, ok_bind]
        rfl
      · simp only [if_neg hahead, h.examine_outcome]
        rfl

/-- What refuses an event after a record has not let it stand. -/
theorem outcome_refusal_ne_stands (x : Examination Text) (log : Text → Trace Unit)
    (failure : Failure) (digest? : Option Text) (digest : Text) :
    (do let start ← x; liftM (log start); return Verdict.fails failure digest?).outcome ≠
      .ok (.stands digest) := by
  intro h
  simp only [outcome_bind_eq_ok_iff, outcome_pure] at h
  obtain ⟨-, -, -, -, h⟩ := h
  cases h

/-- A draft that stands passes for an event: its id has been compared with a digest, and its
    signature has been read. -/
theorem spellsAll_of_examine_stands {digest : Text}
    (h : d.examine.outcome = .ok (.stands digest)) : ∃ e, d.SpellsAll e := by
  obtain ⟨form, hform, h⟩ := outcome_bind_eq_ok_iff.mp h
  cases form with
  | none => cases h
  | some form =>
    obtain ⟨e, he, -⟩ := (canonicalize_eq_some_iff d form.1 form.2).mp hform
    obtain ⟨id, hid, h⟩ := outcome_bind_eq_ok_iff.mp h
    rw [outcome_field_eq_ok_iff] at hid
    cases id with
    | str id =>
      dsimp only at h
      split at h
      · exact absurd h (outcome_refusal_ne_stands _ _ _ _ _)
      obtain ⟨sig, hsig, h⟩ := outcome_bind_eq_ok_iff.mp h
      obtain ⟨pubkey, -, h⟩ := outcome_bind_eq_ok_iff.mp h
      rw [outcome_field_eq_ok_iff] at hsig
      obtain ⟨isValid, hvalid, h⟩ := outcome_bind_eq_ok_iff.mp h
      rw [outcome_liftM, Except.ok.injEq] at hvalid
      split at h
      next hverified =>
        subst hverified
        cases sig with
        | str sig =>
          exact ⟨{ e with id, sig },
            { createdAt := he.createdAt, kind := he.kind, pubkey := he.pubkey,
              content := he.content, tags := he.tags, id := hid, sig := hsig }⟩
        | null | bool b | int n | float x | arr items | obj members => cases hvalid
      · exact absurd h (outcome_refusal_ne_stands _ _ _ _ _)
    | null | bool b | int n | float x | arr items | obj members =>
      exact absurd h (outcome_refusal_ne_stands _ _ _ _ _)

/-- The drafts that stand are those that pass for an event which stands. -/
theorem judge_stands_iff (d : Draft) (settings : Settings) (clock : Clock) (digest : Text) :
    (d.judge settings clock).outcome = .ok (.stands digest) ↔
      ∃ e, d.SpellsAll e ∧ (e.judge settings clock).value = .ok (.stands digest) := by
  constructor
  · intro h
    have hspells : ∃ e, d.SpellsAll e := by
      unfold judge at h
      split at h
      · exact spellsAll_of_examine_stands h
      obtain ⟨-, -, h⟩ := outcome_bind_eq_ok_iff.mp h
      split at h
      · cases h
      obtain ⟨date, -, h⟩ := outcome_bind_eq_ok_iff.mp h
      obtain ⟨isLate, -, h⟩ := outcome_bind_eq_ok_iff.mp h
      split at h
      · obtain ⟨start, -, h⟩ := outcome_bind_eq_ok_iff.mp h
        obtain ⟨seconds, -, h⟩ := outcome_bind_eq_ok_iff.mp h
        obtain ⟨-, -, h⟩ := outcome_bind_eq_ok_iff.mp h
        cases h
      · exact spellsAll_of_examine_stands h
    obtain ⟨e, he⟩ := hspells
    refine ⟨e, he, ?_⟩
    rw [he.judge_outcome] at h
    cases hvalue : (e.judge settings clock).value with
    | error fault =>
      rw [hvalue] at h
      cases h
    | ok verdict =>
      rw [hvalue] at h
      exact congrArg Except.ok (Except.ok.inj h)
  · rintro ⟨e, he, h⟩
    rw [he.judge_outcome, h]
    rfl

/-! ## Section 5: Which drafts share a form -/

/-- Tags with an array in every place where one belongs. -/
def HasArrays (v : Value) : Prop :=
  ∃ items, v = .arr items ∧ ∀ tag ∈ items, ∃ strings, tag = .arr strings

theorem eq_map_of_forall₂_lists {items : List Value} {tags : List Tag}
    (h : List.Forall₂ Lists items tags) (harrays : ∀ tag ∈ items, ∃ strings, tag = .arr strings) :
    items = tags.map fun tag => .arr (tag.map .str) := by
  induction h with
  | nil => rfl
  | @cons item tag items tags hitem _ ih =>
    obtain ⟨⟨strings, rfl⟩, hrest⟩ := List.forall_mem_cons.mp harrays
    cases hitem with
    | array => rw [List.map_cons, ← ih hrest]

/-- Among the values with arrays in their places only tags pass for tags. -/
theorem ListsTags.hasArrays_iff {v : Value} {tags : List Tag} (h : ListsTags v tags) :
    HasArrays v ↔ v = Event.tagsValue tags := by
  constructor
  · rintro ⟨items, rfl, harrays⟩
    cases h with
    | array hitems => exact congrArg Value.arr (eq_map_of_forall₂_lists hitems harrays)
  · rintro rfl
    exact ⟨_, rfl, List.forall_mem_map.mpr fun tag _ => ⟨_, rfl⟩⟩

theorem Spells.of_canonicalBytes? {bytes : Bytes} {text : Text}
    (hbytes : e.canonicalBytes? = some bytes)
    (h : d.canonicalize.outcome = .ok (some (text, bytes))) : d.Spells e := by
  obtain ⟨e', he', -, hbytes'⟩ := (canonicalize_eq_some_iff d text bytes).mp h
  obtain ⟨hpubkey, hcreatedAt, hkind, htags, hcontent⟩ :=
    Event.signed_of_canonicalBytes? hbytes' hbytes
  exact ⟨hcreatedAt ▸ he'.createdAt, hkind ▸ he'.kind, hpubkey ▸ he'.pubkey,
    hcontent ▸ he'.content, htags ▸ he'.tags⟩

/-- A draft has a canonical form exactly if it passes for an event that has one: date, kind, key
    and content have the right types, and the tags pass for arrays of strings.  The bytes are those
    of no other event.  Tags with an array in every place are then those of the event.  What stands
    is judged as the event that it passes for. -/
theorem canonicalize_exact (d : Draft) :
    (∀ text bytes, d.canonicalize.outcome = .ok (some (text, bytes)) ↔
      ∃ e : Event, d.Spells e ∧ text = e.canonicalText ∧ e.canonicalBytes? = some bytes) ∧
    (∀ (e : Event) text bytes, e.canonicalBytes? = some bytes →
      d.canonicalize.outcome = .ok (some (text, bytes)) → d.Spells e) ∧
    (∀ e : Event, d.Spells e → (HasArrays d.tags ↔ d.tags = Event.tagsValue e.tags)) ∧
    ∀ settings clock digest, (d.judge settings clock).outcome = .ok (.stands digest) ↔
      ∃ e : Event, d.SpellsAll e ∧ (e.judge settings clock).value = .ok (.stands digest) :=
  ⟨canonicalize_eq_some_iff d, fun _ _ _ => .of_canonicalBytes?, fun _ h => h.tags.hasArrays_iff,
    judge_stands_iff d⟩

/-- The form of the tags `[["a"], ["b"]]` is also that of a string, of an object, and of strings
    and objects among the tags. -/
theorem canonicalize_loose_tags :
    let e : Event :=
      { id := "1", pubkey := "ab", createdAt := 5, kind := 7, tags := [["a"], ["b"]],
        content := "c", sig := "s" }
    ∃ bytes, e.canonicalBytes? = some bytes ∧
      ∀ tags ∈ [Value.str "ab", .obj [("a", .null), ("b", .null)],
          .arr [.str "a", .obj [("b", .null)]], .arr [.arr [.str "a"], .str "b"]],
        ¬ HasArrays tags ∧
        ({ ofEvent e with tags } : Draft).canonicalize.outcome =
          .ok (some (e.canonicalText, bytes)) := by
  intro e
  have hbytes : e.canonicalBytes?.isSome = true := by decide +kernel
  obtain ⟨bytes, hbytes⟩ := Option.isSome_iff_exists.mp hbytes
  refine ⟨bytes, hbytes, fun tags htags => ?_⟩
  have hlists : ListsTags tags e.tags ∧ tags ≠ Event.tagsValue e.tags := by
    have ha : Lists (.str "a") ["a"] := .string "a"
    have hb : Lists (.str "b") ["b"] := .string "b"
    simp only [List.mem_cons, List.not_mem_nil, or_false] at htags
    obtain rfl | rfl | rfl | rfl := htags
    · exact ⟨.string "ab", nofun⟩
    · exact ⟨.object [("a", .null), ("b", .null)], nofun⟩
    · exact ⟨.array (.cons ha (.cons (.object [("b", .null)]) .nil)), nofun⟩
    · exact ⟨.array (.cons (.array ["a"]) (.cons hb .nil)), nofun⟩
  refine ⟨hlists.1.hasArrays_iff.not.mpr hlists.2, ?_⟩
  exact (canonicalize_eq_some_iff _ _ _).mpr
    ⟨e, ⟨rfl, rfl, rfl, rfl, hlists.1⟩, rfl, hbytes⟩

end SignedEvents.Draft
