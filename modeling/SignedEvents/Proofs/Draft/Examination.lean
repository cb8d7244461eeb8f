import SignedEvents.Proofs.Binary64.Range
import SignedEvents.Proofs.Draft.Form

/-! # Which drafts can be examined

  A draft may hold a value that does not allow an operation.  Its date is compared with a time, its
  tags are gone through, and the start of its id is taken for records; each of these can end an
  examination without a result.

  - **Fields** — seven values, the draft of an event whose fields are all there.
  - **HasStart**, **Stumbles** — where the operations on the id and on the tags end.
  - **IsNumber**, **HasDifference** — the dates that a time can be compared with, and taken from.
  - **canonicalize_ends_iff**, **examine_ends_iff** — when there is a result.
  - **Fields.examination_ends_iff** — both, with the date.
  - **examination_without_end** — drafts whose examination has no result.
-/

namespace SignedEvents.Draft

open Json (Value Members)

variable {α β : Type}

/-! ## Section 1: Examinations with a result -/

/-- The examination has a result. -/
def Examination.Ends (x : Examination α) : Prop := ∃ a, x.outcome = .ok a

theorem ends_pure (a : α) : (pure a : Examination α).Ends := ⟨a, rfl⟩

theorem ends_bind_iff {x : Examination α} {f : α → Examination β} :
    (x >>= f).Ends ↔ ∃ a, x.outcome = .ok a ∧ (f a).Ends := by
  simp only [Examination.Ends, outcome_bind_eq_ok_iff]
  constructor
  · rintro ⟨b, a, ha, hb⟩
    exact ⟨a, ha, b, hb⟩
  · rintro ⟨a, ha, b, hb⟩
    exact ⟨b, a, ha, hb⟩

theorem ends_liftM_bind_iff {x : Trace α} {f : α → Examination β} :
    (liftM x >>= f).Ends ↔ (f x.value).Ends := by
  simp only [ends_bind_iff, outcome_liftM, Except.ok.injEq, exists_eq_left']

theorem ends_field_bind_iff {v : Value} {f : Value → Examination β} :
    (field (some v) >>= f).Ends ↔ (f v).Ends := by
  simp only [ends_bind_iff, outcome_field_some, Except.ok.injEq, exists_eq_left']

/-- A record that needs a text can be made if the text can. -/
theorem ends_record_iff {x : Examination Text} {log : Text → Trace Unit} {a : α} :
    (do let start ← x; liftM (log start); return a : Examination α).Ends ↔ x.Ends := by
  rw [ends_bind_iff]
  constructor
  · rintro ⟨start, hstart, -⟩
    exact ⟨start, hstart⟩
  · rintro ⟨start, hstart⟩
    exact ⟨start, hstart, ends_bind_iff.mpr ⟨(), rfl, ends_pure a⟩⟩

/-! ## Section 2: Fields -/

/-- Seven fields of any value. -/
structure Fields where
  id        : Value
  pubkey    : Value
  createdAt : Value
  kind      : Value
  tags      : Value
  content   : Value
  sig       : Value

/-- The draft of seven fields. -/
def Fields.draft (f : Fields) : Draft where
  id := some f.id
  pubkey := some f.pubkey
  createdAt := some f.createdAt
  kind := some f.kind
  tags := f.tags
  content := some f.content
  sig := some f.sig

@[simp] theorem Fields.draft_createdAt (f : Fields) : f.draft.createdAt = some f.createdAt := rfl

/-- Have the signed fields the right types, as far as they are looked at? -/
def Fields.conform (f : Fields) : Bool :=
  isWord f.createdAt && isWord f.kind && isString f.pubkey && isString f.content

/-! ## Section 3: The id and the tags -/

/-- A value that has a start. -/
inductive HasStart : Value → Prop where
  | string (t : Text) : HasStart (.str t)
  | array (items : List Value) : HasStart (.arr items)

/-- The start of a value, if it has one. -/
def startOf : Value → Except Defect Text
  | .str t => .ok (t.take 8)
  | .arr items => .ok (Json.display (.arr (items.take 8)))
  | _ => .error .wrongType

theorem Fields.idPrefix_outcome (f : Fields) : f.draft.idPrefix.outcome = startOf f.id := by
  show (field (some f.id) >>= _).outcome = _
  rw [outcome_bind]
  cases f.id <;> rfl

theorem idPrefix_ends_iff (f : Fields) : f.draft.idPrefix.Ends ↔ HasStart f.id := by
  rw [Examination.Ends, f.idPrefix_outcome]
  constructor
  · rintro ⟨start, h⟩
    cases hid : f.id with
    | str t => exact .string t
    | arr items => exact .array items
    | null | bool b | int n | float x | obj members =>
      rw [hid] at h
      cases h
  · generalize f.id = id
    intro h
    cases h <;> exact ⟨_, rfl⟩

/-- A value that cannot be gone through: null, a truth value or a number. -/
inductive IsAtom : Value → Prop where
  | null : IsAtom .null
  | bool (b : Bool) : IsAtom (.bool b)
  | int (n : Int) : IsAtom (.int n)
  | float (x : Binary64) : IsAtom (.float x)

theorem elements_ends_iff (v : Value) : (∃ items, elements v = .ok items) ↔ ¬ IsAtom v := by
  constructor
  · rintro ⟨items, h⟩ hatom
    cases hatom <;> cases h
  · intro h
    cases v with
    | null => exact absurd .null h
    | bool b => exact absurd (.bool b) h
    | int n => exact absurd (.int n) h
    | float x => exact absurd (.float x) h
    | str t | arr items | obj members => exact ⟨_, rfl⟩

/-- Among the tags there is one that cannot be gone through, and all before it pass. -/
inductive ItemsStumble : List Value → Prop where
  | here {tag : Value} {rest : List Value} (h : IsAtom tag) : ItemsStumble (tag :: rest)
  | later {tag : Value} {strings : Tag} {rest : List Value} (htag : Lists tag strings)
      (h : ItemsStumble rest) : ItemsStumble (tag :: rest)

/-- Tags that cannot be gone through, or hold one that cannot. -/
inductive Stumbles : Value → Prop where
  | atom {v : Value} (h : IsAtom v) : Stumbles v
  | items {items : List Value} (h : ItemsStumble items) : Stumbles (.arr items)

theorem tagArrays_ends_iff (items : List Value) :
    (∃ arrays, tagArrays items = .ok arrays) ↔ ¬ ItemsStumble items := by
  induction items with
  | nil =>
    refine ⟨fun _ h => ?_, fun _ => ⟨_, rfl⟩⟩
    cases h
  | cons tag rest ih =>
    rw [tagArrays]
    have hatom := elements_ends_iff tag
    cases helements : elements tag with
    | error defect =>
      have htag : IsAtom tag := by
        by_contra htag
        obtain ⟨items, hitems⟩ := hatom.mpr htag
        rw [helements] at hitems
        cases hitems
      constructor
      · rintro ⟨arrays, h⟩
        cases h
      · intro h
        exact absurd (.here htag) h
    | ok items =>
      have htag := hatom.mp ⟨items, helements⟩
      dsimp only
      split
      next hall =>
        obtain ⟨strings, rfl⟩ := (all_isString_iff items).mp hall
        -- a tag that passes leaves it to the others
        have hstumble : ItemsStumble (tag :: rest) ↔ ItemsStumble rest := by
          constructor
          · intro h
            cases h with
            | here h => exact absurd h htag
            | later _ h => exact h
          · exact .later ((lists_iff _ _).mpr helements)
        rw [hstumble, ← ih]
        cases tagArrays rest with
        | error defect => simp only [reduceCtorEq, exists_false]
        | ok arrays => cases arrays <;> simp only [Except.ok.injEq, exists_eq']
      next hall =>
        -- the tags after this one are not looked at
        refine ⟨fun _ h => ?_, fun _ => ⟨_, rfl⟩⟩
        cases h with
        | here h => exact htag h
        | later hlists _ =>
          rw [(lists_iff _ _).mp hlists] at helements
          obtain rfl := Except.ok.inj helements
          exact hall ((all_isString_iff _).mpr ⟨_, rfl⟩)

theorem ItemsStumble.exists_isAtom {items : List Value} (h : ItemsStumble items) :
    ∃ tag ∈ items, IsAtom tag := by
  induction h with
  | here h => exact ⟨_, List.mem_cons_self, h⟩
  | later _ _ ih =>
    obtain ⟨tag, hmem, hatom⟩ := ih
    exact ⟨tag, List.mem_cons_of_mem _ hmem, hatom⟩

theorem not_itemsStumble_of_strings {items : List Value} (h : ∀ tag ∈ items, ∃ t, tag = .str t) :
    ¬ ItemsStumble items := by
  intro hstumble
  obtain ⟨tag, hmem, hatom⟩ := hstumble.exists_isAtom
  obtain ⟨t, rfl⟩ := h tag hmem
  cases hatom

/-- Tags can be read unless something in them stumbles. -/
theorem elements_tagArrays_ends_iff (v : Value) :
    (∃ arrays, elements v >>= tagArrays = .ok arrays) ↔ ¬ Stumbles v := by
  simp only [bind_eq_ok_iff]
  cases v with
  | arr items =>
    have hstumble : Stumbles (.arr items) ↔ ItemsStumble items := by
      refine ⟨fun h => ?_, .items⟩
      cases h with
      | atom h => cases h
      | items h => exact h
    rw [hstumble, ← tagArrays_ends_iff]
    simp only [elements, Except.ok.injEq, exists_eq_left']
  | str t =>
    -- code points are strings
    obtain ⟨arrays, h⟩ := (tagArrays_ends_iff (t.map fun c => .str [c])).mpr
      (not_itemsStumble_of_strings (List.forall_mem_map.mpr fun c _ => ⟨_, rfl⟩))
    refine ⟨fun _ hstumble => ?_, fun _ => ⟨arrays, _, rfl, h⟩⟩
    cases hstumble with
    | atom h => cases h
  | obj members =>
    -- names are strings
    obtain ⟨arrays, h⟩ := (tagArrays_ends_iff (members.map fun m => .str m.1)).mpr
      (not_itemsStumble_of_strings (List.forall_mem_map.mpr fun m _ => ⟨_, rfl⟩))
    refine ⟨fun _ hstumble => ?_, fun _ => ⟨arrays, _, rfl, h⟩⟩
    cases hstumble with
    | atom h => cases h
  | null | bool b | int n | float x =>
    constructor
    · rintro ⟨arrays, items, h, -⟩
      cases h
    · intro h
      exact absurd (.atom (by constructor)) h

/-! ## Section 4: When there is a result -/

/-- The tags are gone through, and something in them stumbles. -/
def Fields.Fail (f : Fields) : Prop := f.conform = true ∧ Stumbles f.tags

/-- A check ends what is left to do, if it fails. -/
theorem ends_checked_iff {v : Value} {check : Value → Bool} {f : Value → Examination (Option α)} :
    (do let v ← field (some v); if !check v then pure none else f v).Ends ↔
      (check v = true → (f v).Ends) := by
  simp only [ends_bind_iff, outcome_field_some, Except.ok.injEq, exists_eq_left']
  cases check v with
  | false =>
    simp only [Bool.not_false, if_true, Bool.false_eq_true, false_imp_iff, iff_true]
    exact ends_pure none
  | true => simp only [Bool.not_true, Bool.false_eq_true, if_false, true_imp_iff]

theorem canonicalValue_ends_iff (f : Fields) : f.draft.canonicalValue.Ends ↔ ¬ f.Fail := by
  unfold canonicalValue
  simp only [Fields.draft, ends_checked_iff]
  simp only [ends_bind_iff, outcome_ofExcept, ends_pure, and_true, elements_tagArrays_ends_iff,
    Fields.Fail, Fields.conform, Bool.and_eq_true, not_and, and_imp]

/-- There is a form, or word of there being none, if the tags can be read and the record can be
    made; without a record the id does not matter. -/
theorem canonicalize_ends_iff (f : Fields) :
    f.draft.canonicalize.Ends ↔
      ¬ f.Fail ∧ (HasStart f.id ∨ ∃ form, f.draft.canonicalize.outcome = .ok (some form)) := by
  rw [← canonicalValue_ends_iff, ← idPrefix_ends_iff]
  constructor
  · intro h
    have hends := h
    obtain ⟨v?, hv, h⟩ := ends_bind_iff.mp h
    refine ⟨⟨v?, hv⟩, ?_⟩
    cases v? with
    | none => exact .inl (ends_record_iff.mp h)
    | some v =>
      dsimp only at h
      split at h
      next bytes hbytes =>
        refine .inr ⟨(Json.print .compact v, bytes), outcome_bind_eq_ok_iff.mpr ⟨_, hv, ?_⟩⟩
        simp only [hbytes, outcome_pure]
      · exact .inl (ends_record_iff.mp h)
  · rintro ⟨⟨v?, hv⟩, hprefix | ⟨form, hform⟩⟩
    · refine ends_bind_iff.mpr ⟨v?, hv, ?_⟩
      cases v? with
      | none => exact ends_record_iff.mpr hprefix
      | some v =>
        dsimp only
        split
        · exact ends_pure _
        · exact ends_record_iff.mpr hprefix
    · exact ⟨_, hform⟩

/-- The checks come to a verdict if the tags can be read and the id has a start: a draft stands
    only with a string for its id, and records are made of all others. -/
theorem examine_ends_iff (f : Fields) : f.draft.examine.Ends ↔ ¬ f.Fail ∧ HasStart f.id := by
  have hid (v : Value) : (field f.draft.id).outcome = .ok v ↔ v = f.id := by
    rw [outcome_field_eq_ok_iff]
    exact Option.some_inj.trans eq_comm
  constructor
  · intro h
    obtain ⟨form, hform, h⟩ := ends_bind_iff.mp h
    obtain ⟨htags, hstart | ⟨form', hform'⟩⟩ := (canonicalize_ends_iff f).mp ⟨form, hform⟩
    · exact ⟨htags, hstart⟩
    refine ⟨htags, ?_⟩
    obtain rfl := Except.ok.inj (hform.symm.trans hform')
    obtain ⟨id, hid', h⟩ := ends_bind_iff.mp h
    rw [hid] at hid'
    subst hid'
    split at h
    next t ht =>
      rw [ht]
      exact .string t
    next =>
      -- it differs from the digest, and the record needs its start
      exact (idPrefix_ends_iff f).mp (ends_record_iff.mp h)
  · rintro ⟨htags, hstart⟩
    have hprefix := (idPrefix_ends_iff f).mpr hstart
    obtain ⟨form, hform⟩ := (canonicalize_ends_iff f).mpr ⟨htags, .inl hstart⟩
    refine ends_bind_iff.mpr ⟨form, hform, ?_⟩
    cases form with
    | none => exact ends_pure _
    | some form =>
      refine ends_bind_iff.mpr ⟨f.id, rfl, ?_⟩
      split
      next =>
        dsimp only
        split
        · exact ends_record_iff.mpr hprefix
        refine ends_bind_iff.mpr ⟨f.sig, rfl, ends_bind_iff.mpr ⟨f.pubkey, rfl, ?_⟩⟩
        refine ends_bind_iff.mpr ⟨_, rfl, ?_⟩
        split
        · exact ends_pure _
        · exact ends_record_iff.mpr hprefix
      next => exact ends_record_iff.mpr hprefix

/-! ## Section 5: Dates -/

/-- A value that can be compared with a time. -/
inductive IsNumber : Value → Prop where
  | bool (b : Bool) : IsNumber (.bool b)
  | int (n : Int) : IsNumber (.int n)
  | float (x : Binary64) : IsNumber (.float x)

theorem isLater_ends_iff (date : Value) (time : Int) :
    (∃ late, isLater date time = .ok late) ↔ IsNumber date := by
  constructor
  · rintro ⟨late, h⟩
    cases date with
    | bool b => exact .bool b
    | int n => exact .int n
    | float x => exact .float x
    | null | str t | arr items | obj members => cases h
  · intro h
    cases h <;> exact ⟨_, rfl⟩

/-- Is the draft dated past the allowance? -/
def Fields.IsAhead (f : Fields) (settings : Settings) (clock : Clock) : Prop :=
  ∃ allowance ∈ settings.allowance, ∃ now, clock.read = .ok now ∧
    isLater f.createdAt (now + allowance) = .ok true

/-- A time can be taken from a date: from a binary64 number only a time in the range of these. -/
inductive HasDifference (now : Int) : Value → Prop where
  | bool (b : Bool) : HasDifference now (.bool b)
  | int (n : Int) : HasDifference now (.int n)
  | float (x : Binary64) (h : Binary64.InRange now) : HasDifference now (.float x)

theorem secondsAhead_ends_iff (date : Value) (now : Int) :
    (∃ seconds?, secondsAhead date now = .ok seconds?) ↔ HasDifference now date := by
  cases date with
  | bool b => exact iff_of_true ⟨_, rfl⟩ (.bool b)
  | int n => exact iff_of_true ⟨_, rfl⟩ (.int n)
  | float x =>
    have hrange := Binary64.isFinite_ofInt_iff now
    unfold secondsAhead
    constructor
    · rintro ⟨seconds?, h⟩
      dsimp only at h
      split at h
      next negative mantissa exponent hnow =>
        exact .float x (hrange.mp ⟨negative, mantissa, exponent, hnow⟩)
      next => cases h
    · intro h
      cases h with
      | float _ hnow =>
        -- whatever the difference is, it is not looked at any further
        obtain ⟨negative, mantissa, exponent, hnow⟩ := hrange.mpr hnow
        dsimp only
        rw [hnow]
        exact ⟨_, rfl⟩
  | null | str t | arr items | obj members =>
    refine iff_of_false ?_ ?_
    · rintro ⟨seconds?, h⟩
      cases h
    · intro h
      cases h

/-- What an allowance asks of a date: it can be compared with the time that the clock shows, and
    the time can be taken from it when it is refused. -/
def Fields.IsDated (f : Fields) (settings : Settings) (clock : Clock) : Prop :=
  ∀ allowance ∈ settings.allowance, ∃ now, clock.read = .ok now ∧ IsNumber f.createdAt ∧
    (isLater f.createdAt (now + allowance) = .ok true → HasDifference now f.createdAt)

theorem ends_ahead_iff (f : Fields) (now : Int) :
    (do
      let start ← f.draft.idPrefix
      let seconds? ← ofExcept (secondsAhead f.createdAt now)
      liftM (logAhead start seconds?)
      return .fails .futureTimestamp none : Examination Verdict).Ends ↔
      HasStart f.id ∧ HasDifference now f.createdAt := by
  rw [← idPrefix_ends_iff, ← secondsAhead_ends_iff, ends_bind_iff]
  simp only [ends_bind_iff (x := ofExcept _), ends_liftM_bind_iff, ends_pure, and_true,
    outcome_ofExcept]
  exact exists_and_right

/-- There is a verdict if the id has a start, the date can be compared where it has to be, and the
    tags can be read unless the date has been refused before. -/
theorem judge_ends_iff (f : Fields) (settings : Settings) (clock : Clock) :
    (f.draft.judge settings clock).Ends ↔
      HasStart f.id ∧ f.IsDated settings clock ∧ (f.Fail → f.IsAhead settings clock) := by
  unfold judge Fields.IsDated Fields.IsAhead
  cases settings.allowance with
  | none =>
    -- nothing is asked of the date
    rw [examine_ends_iff, and_comm]
    simp only [Option.not_mem_none, false_imp_iff, forall_const, false_and, exists_false, true_and,
      imp_false]
  | some allowance =>
    simp only [Option.mem_some_iff, forall_eq', exists_eq_left', ends_liftM_bind_iff]
    cases clock.read with
    | error fault =>
      constructor
      · rintro ⟨verdict, h⟩
        cases h
      · rintro ⟨-, ⟨now, h, -⟩, -⟩
        cases h
    | ok now =>
      simp only [Except.ok.injEq, exists_eq_left', Fields.draft_createdAt, ends_field_bind_iff,
        ← isLater_ends_iff f.createdAt (now + allowance)]
      rw [ends_bind_iff, outcome_ofExcept]
      cases isLater f.createdAt (now + allowance) with
      | error defect => simp only [reduceCtorEq, false_and, exists_false, and_false]
      | ok late =>
        simp only [Except.ok.injEq, exists_eq_left', exists_eq', true_and]
        cases late with
        | false =>
          simp only [Bool.false_eq_true, if_false, false_imp_iff, true_and, imp_false]
          rw [examine_ends_iff, and_comm]
        | true => simp only [if_true, true_imp_iff, imp_true_iff, and_true, ends_ahead_iff]

/-- An infinite date is refused as any other that is too late. -/
example (id pubkey kind tags content sig : Value) (hid : HasStart id) :
    let f : Fields := ⟨id, pubkey, .float (.infinite false), kind, tags, content, sig⟩
    (f.draft.judge ⟨some 0⟩ (.given 2)).outcome = .ok (.fails .futureTimestamp none) := by
  cases hid <;> rfl

/-! ## Section 6: All seven fields -/

/-- Which drafts have a result.  The canonical form, or word of there being none, is there unless
    conforming fields leave tags that cannot be gone through, or a record is made and the id has no
    start.  A verdict needs the start of the id in any case, and under an allowance a time and a
    date that can be compared with it, and from which it can be taken if the date is refused; then
    the tags do not matter.  Events whose types have been checked have both at any time. -/
theorem Fields.examination_ends_iff (f : Fields) (settings : Settings) (clock : Clock) :
    (f.draft.canonicalize.Ends ↔
      ¬ f.Fail ∧ (HasStart f.id ∨ ∃ e : Event, f.draft.Spells e ∧ e.signsSurrogate = false)) ∧
    ((f.draft.judge settings clock).Ends ↔
      HasStart f.id ∧ f.IsDated settings clock ∧ (f.Fail → f.IsAhead settings clock)) ∧
    ∀ (e : Event) (now : Int),
      (ofEvent e).canonicalize.Ends ∧ ((ofEvent e).judge settings (.given now)).Ends := by
  refine ⟨?_, judge_ends_iff f settings clock, fun e now => ?_⟩
  · have hform : (∃ form, f.draft.canonicalize.outcome = .ok (some form)) ↔
        ∃ e : Event, f.draft.Spells e ∧ e.signsSurrogate = false := by
      constructor
      · rintro ⟨form, h⟩
        obtain ⟨e, he, -, hbytes⟩ := (canonicalize_eq_some_iff _ form.1 form.2).mp h
        refine ⟨e, he, ?_⟩
        rw [Bool.eq_false_iff, ne_eq, ← e.canonicalBytes?_eq_none_iff, hbytes]
        exact Option.some_ne_none _
      · rintro ⟨e, he, h⟩
        rw [Bool.eq_false_iff, ne_eq, ← e.canonicalBytes?_eq_none_iff] at h
        obtain ⟨bytes, hbytes⟩ := Option.ne_none_iff_exists'.mp h
        exact ⟨_, (canonicalize_eq_some_iff _ _ bytes).mpr ⟨e, he, rfl, hbytes⟩⟩
    rw [canonicalize_ends_iff, hform]
  · have hspells := spellsAll_ofEvent e
    refine ⟨⟨_, hspells.canonicalize_outcome⟩, ?_⟩
    rw [Examination.Ends, hspells.judge_outcome, Event.judge_value]
    cases settings.allowance with
    | none => exact ⟨_, rfl⟩
    | some allowance =>
      dsimp only [Clock.read]
      split <;> exact ⟨_, rfl⟩

/-- Null or a number in the place of the tags or of a tag, a string in the place of the date under
    an allowance, and null in the place of the id leave an examination without a result. -/
theorem examination_without_end :
    let f : Fields :=
      { id := .str "1", pubkey := .str "ab", createdAt := .int 5, kind := .int 7, tags := .arr [],
        content := .str "c", sig := .str "s" }
    (∀ tags ∈ [Value.null, .int 5, .arr [.null], .arr [.arr [], .int 5]],
      let f := { f with tags }
      f.draft.canonicalize.outcome = .error .wrongType ∧
        (f.draft.judge .unlimited (.given 2)).outcome = .error .wrongType) ∧
    (({ f with createdAt := .str "5" } : Fields).draft.judge ⟨some 0⟩ (.given 2)).outcome =
      .error .wrongType ∧
    ({ f with id := .null, kind := .str "7" } : Fields).draft.canonicalize.outcome =
      .error .wrongType := by
  intro f
  refine ⟨?_, rfl, rfl⟩
  simp only [List.forall_mem_cons, List.not_mem_nil, false_imp_iff, implies_true, and_true]
  exact ⟨⟨rfl, rfl⟩, ⟨rfl, rfl⟩, ⟨rfl, rfl⟩, ⟨rfl, rfl⟩⟩

end SignedEvents.Draft
