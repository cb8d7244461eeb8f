import Mathlib.Data.List.Induction
import SignedEvents.Proofs.Json.RepeatedNames
import SignedEvents.Settings.Steps

/-! # Snapshots of live settings

  A step either swaps in settings that have been checked as a whole, or leaves the snapshot that
  there is.  So what is allowed at any time is what the last step that succeeded and named the
  allowance has set.

  - **Settings.StandsFor** — the allowance that a value stands for.
  - **LiveSettings.change_eq** — changes are checked together with what they do not name.
  - **LiveSettings.Does** — what a step does.
  - **LiveSettings.IsLastSet** — the allowance that was set last.
  - **LiveSettings.run_snapshots** — all snapshots of a run.
-/

namespace SignedEvents

open Json (Value Members)

/-! ## Section 1: Values -/

namespace Settings

/-- The allowance that a value stands for.  Null is no limit; a truth value, an integer, a number
    without a fraction and a numeral stand for an integer, which is not below zero. -/
inductive StandsFor : Value → Option Nat → Prop where
  | null : StandsFor .null none
  | bool (b : Bool) : StandsFor (.bool b) (some b.toNat)
  | int (n : Nat) : StandsFor (.int n) (some n)
  | whole {x : Binary64} {n : Nat} (hvalue : x.truncate? = some (n : Int))
      (hwhole : x.isIntegral = true) (hsize : n < 0x8000000000000000) :
      StandsFor (.float x) (some n)
  | numeral {t : Text} {n : Nat} (hclean : t.hasSurrogate = false)
      (hread : Numeral.read t = .ok (n : Int)) : StandsFor (.str t) (some n)

theorem checkAllowance_ok_iff {r : Except ProblemKind Int} {a : Option Nat} :
    checkAllowance r = .ok a ↔ ∃ n : Nat, r = .ok (n : Int) ∧ a = some n := by
  cases r with
  | error kind =>
    constructor
    · intro h
      cases h
    · rintro ⟨n, h, -⟩
      cases h
  | ok m =>
    constructor
    · intro h
      rw [checkAllowance] at h
      split at h
      · cases h
      · next hm =>
        obtain rfl := Except.ok.inj h
        exact ⟨m.toNat, by rw [Int.toNat_of_nonneg (Int.not_lt.mp hm)], rfl⟩
    · rintro ⟨n, hm, rfl⟩
      obtain rfl := Except.ok.inj hm
      rw [checkAllowance, if_neg (Int.not_lt.mpr (Int.natCast_nonneg n)), Int.toNat_natCast]

theorem readFloat_ok_iff {x : Binary64} {n : Nat} :
    readFloat x = .ok (n : Int) ↔
      x.truncate? = some (n : Int) ∧ x.isIntegral = true ∧ n < 0x8000000000000000 := by
  unfold readFloat
  cases x.truncate? with
  | none => simp
  | some m =>
    dsimp only
    split
    · next hfraction => simp_all
    · next hwhole =>
      split
      · next hsize =>
        simp only [Bool.and_eq_true, decide_eq_true_eq] at hsize
        simp only [Except.ok.injEq, Option.some.injEq]
        constructor
        · rintro rfl
          exact ⟨rfl, by simpa using hwhole, by omega⟩
        · rintro ⟨h, -, -⟩
          exact h
      · next hsize =>
        simp only [Bool.and_eq_true, decide_eq_true_eq] at hsize
        simp only [reduceCtorEq, Option.some.injEq, false_iff]
        rintro ⟨rfl, -, hlt⟩
        omega

theorem readInteger_ok_iff {v : Value} {n : Nat} :
    readInteger v = .ok (n : Int) ↔ StandsFor v (some n) := by
  constructor
  · intro h
    cases v with
    | bool b =>
      have hb : n = b.toNat := by
        cases b <;> exact Int.ofNat.inj (Except.ok.inj h).symm
      rw [hb]
      exact .bool b
    | int m =>
      obtain rfl := Except.ok.inj h
      exact .int n
    | float x =>
      obtain ⟨hvalue, hwhole, hsize⟩ := readFloat_ok_iff.mp h
      exact .whole hvalue hwhole hsize
    | str t =>
      rw [readInteger] at h
      split at h
      · cases h
      · next hclean => exact .numeral (Bool.eq_false_iff.mpr hclean) h
    | _ => cases h
  · intro h
    cases h with
    | bool b => cases b <;> rfl
    | int => rfl
    | whole hvalue hwhole hsize => exact readFloat_ok_iff.mpr ⟨hvalue, hwhole, hsize⟩
    | numeral hclean hread =>
      rw [readInteger, hclean]
      exact hread

theorem readAllowance_ok_iff {v : Value} {a : Option Nat} :
    readAllowance v = .ok a ↔ StandsFor v a := by
  -- all values but null are read as integers
  have hinteger (h : readAllowance v = checkAllowance (readInteger v)) (hv : v ≠ .null) :
      readAllowance v = .ok a ↔ StandsFor v a := by
    rw [h, checkAllowance_ok_iff]
    constructor
    · rintro ⟨n, hn, rfl⟩
      exact readInteger_ok_iff.mp hn
    · intro h
      cases a with
      | none =>
        cases h
        exact absurd rfl hv
      | some n => exact ⟨n, readInteger_ok_iff.mpr h, rfl⟩
  cases v with
  | null =>
    constructor
    · intro h
      obtain rfl := Except.ok.inj h
      exact .null
    · intro h
      cases h
      rfl
  | _ => exact hinteger rfl (by simp)

/-! ## Section 2: Named values -/

/-- The settings as named values. -/
def members (s : Settings) : Members := [(allowanceName, allowanceValue s.allowance)]

theorem ofMembers_ok_iff {ms : Members} {s : Settings} :
    ofMembers ms = .ok s ↔
      match ms.get? allowanceName with
      | none => s = unlimited
      | some v => StandsFor v s.allowance := by
  unfold ofMembers
  cases ms.get? allowanceName with
  | none =>
    dsimp only
    rw [Except.ok.injEq]
    exact eq_comm
  | some v =>
    dsimp only
    rw [← readAllowance_ok_iff, ofChecked]
    cases readAllowance v with
    | error ps => simp [Checked.under]
    | ok a =>
      simp only [Checked.under, Except.ok.injEq]
      constructor
      · rintro rfl
        rfl
      · rintro rfl
        rfl

/-- Settings pass their own check. -/
theorem ofMembers_members (s : Settings) : ofMembers s.members = .ok s := by
  refine ofMembers_ok_iff.mpr ?_
  show StandsFor (allowanceValue s.allowance) s.allowance
  cases s.allowance with
  | none => exact .null
  | some n => exact .int n

end Settings

/-! ## Section 3: Steps -/

namespace LiveSettings

/-- A step names the allowance, and sets it. -/
inductive Step.Sets : Step → Option Nat → Prop where
  | update {changes : Members} {v : Value} {a : Option Nat}
      (hfree : changes.get? holderName = none)
      (hnamed : changes.get? Settings.allowanceName = some v) (hv : Settings.StandsFor v a) :
      Sets (.update changes) a
  | replace (s : Settings) : Sets (.replace s) s.allowance

theorem Step.sets_update_iff {changes : Members} {a : Option Nat} :
    (Step.update changes).Sets a ↔ changes.get? holderName = none ∧
      ∃ v, changes.get? Settings.allowanceName = some v ∧ Settings.StandsFor v a := by
  constructor
  · intro h
    cases h with
    | update hfree hnamed hv => exact ⟨hfree, _, hnamed, hv⟩
  · rintro ⟨hfree, v, hnamed, hv⟩
    exact .update hfree hnamed hv

/-- What a step does.  If it succeeds there is a new snapshot, and if not there is still the same
    one. -/
inductive Does (h : LiveSettings) : Step → LiveSettings → Except Refusal Settings → Prop where
  /-- The allowance is named, and its value stands for an allowance. -/
  | sets {step : Step} {a : Option Nat} (hsets : step.Sets a) :
      Does h step ⟨⟨a⟩, h.version + 1⟩ (.ok ⟨a⟩)
  /-- The allowance is not named. -/
  | keeps {changes : Members} (hfree : changes.get? holderName = none)
      (hunnamed : changes.get? Settings.allowanceName = none) :
      Does h (.update changes) ⟨h.current, h.version + 1⟩ (.ok h.current)
  /-- The allowance is named, and its value stands for none. -/
  | invalid {changes : Members} {v : Value} {problems : List Problem}
      (hfree : changes.get? holderName = none)
      (hnamed : changes.get? Settings.allowanceName = some v)
      (hv : ∀ a, ¬ Settings.StandsFor v a)
      (hchecked : Settings.ofMembers (changes ++ h.current.members) = .error problems) :
      Does h (.update changes) h (.error (.invalid problems))
  /-- The holder itself is named. -/
  | namesHolder {changes : Members} {v : Value} (hnamed : changes.get? holderName = some v) :
      Does h (.update changes) h (.error .namesHolder)

variable (h : LiveSettings)

/-- Changes are checked together with what they do not name. -/
theorem merged_eq (changes : Members) :
    h.merged changes = Settings.ofMembers (changes ++ h.current.members) := by
  have hget := Json.get?_append changes h.current.members Settings.allowanceName
  unfold merged
  cases hchange : changes.get? Settings.allowanceName with
  | none =>
    -- what is left is the snapshot itself, which has been checked before
    rw [hchange, Option.none_or] at hget
    refine (Settings.ofMembers_ok_iff.mpr ?_).symm
    rw [hget]
    exact Settings.ofMembers_ok_iff.mp (Settings.ofMembers_members h.current)
  | some v =>
    rw [hchange, Option.some_or] at hget
    simp only [Settings.ofMembers, hchange, hget]

/-- Changes swap in what they give together with the rest, if that passes the check. -/
theorem change_eq {changes : Members} (hfree : changes.get? holderName = none) :
    h.change changes =
      ((Settings.ofMembers (changes ++ h.current.members)).map h.replace).mapError .invalid := by
  rw [change, hfree, Option.isSome_none, if_neg Bool.false_ne_true, update, merged_eq]
  cases Settings.ofMembers (changes ++ h.current.members) <;> rfl

/-- A step does what the rules say. -/
theorem step_does (step : Step) : h.Does step (h.step step).1 (h.step step).2 := by
  cases step with
  | replace s => exact .sets (.replace s)
  | update changes =>
    rw [LiveSettings.step]
    cases hholder : changes.get? holderName with
    | some v =>
      have hchange : h.change changes = .error .namesHolder := by
        rw [change, hholder]
        rfl
      rw [hchange]
      exact .namesHolder hholder
    | none =>
      rw [h.change_eq hholder]
      have hget := Json.get?_append changes h.current.members Settings.allowanceName
      cases hchecked : Settings.ofMembers (changes ++ h.current.members) with
      | ok s =>
        have hok := Settings.ofMembers_ok_iff.mp hchecked
        rw [hget] at hok
        cases hnamed : changes.get? Settings.allowanceName with
        | some v =>
          rw [hnamed] at hok
          exact .sets (.update hholder hnamed hok)
        | none =>
          rw [hnamed] at hok
          have hsame : Settings.ofMembers h.current.members = .ok s :=
            Settings.ofMembers_ok_iff.mpr hok
          obtain rfl := Except.ok.inj ((Settings.ofMembers_members _).symm.trans hsame)
          exact .keeps hholder hnamed
      | error problems =>
        cases hnamed : changes.get? Settings.allowanceName with
        | none =>
          -- without the name the check cannot fail
          have hsame := h.merged_eq changes
          rw [merged, hnamed, hchecked] at hsame
          cases hsame
        | some v =>
          refine .invalid hholder hnamed (fun a ha => ?_) hchecked
          have hok : Settings.ofMembers (changes ++ h.current.members) = .ok ⟨a⟩ := by
            refine Settings.ofMembers_ok_iff.mpr ?_
            rw [hget, hnamed]
            exact ha
          rw [hchecked] at hok
          cases hok

/-! ## Section 4: Runs -/

/-- The allowance that the last of the steps that set one has set, or else the initial one. -/
inductive IsLastSet (initial : Option Nat) (steps : List Step) : Option Nat → Prop where
  | never (hnone : ∀ step ∈ steps, ∀ a, ¬ step.Sets a) : IsLastSet initial steps initial
  | last {before after : List Step} {step : Step} {a : Option Nat}
      (hsteps : steps = before ++ step :: after) (hsets : step.Sets a)
      (hafter : ∀ later ∈ after, ∀ b, ¬ later.Sets b) : IsLastSet initial steps a

theorem IsLastSet.concat_sets {initial a : Option Nat} {steps : List Step} {step : Step}
    (hsets : step.Sets a) : IsLastSet initial (steps ++ [step]) a :=
  .last rfl hsets fun _ hlater => absurd hlater List.not_mem_nil

theorem IsLastSet.concat_other {initial a : Option Nat} {steps : List Step} {step : Step}
    (h : IsLastSet initial steps a) (hother : ∀ b, ¬ step.Sets b) :
    IsLastSet initial (steps ++ [step]) a := by
  cases h with
  | never hnone =>
    exact .never (List.forall_mem_append.mpr ⟨hnone, List.forall_mem_singleton.mpr hother⟩)
  | @last before after last a hsteps hsets hafter =>
    have hsplit : steps ++ [step] = before ++ last :: (after ++ [step]) := by
      rw [hsteps, List.append_assoc, List.cons_append]
    exact .last hsplit hsets
      (List.forall_mem_append.mpr ⟨hafter, List.forall_mem_singleton.mpr hother⟩)

/-- What a step does to the allowance that was set last. -/
theorem Does.isLastSet {initial : Option Nat} {steps : List Step} {step : Step}
    {next : LiveSettings} {report : Except Refusal Settings} (hdoes : h.Does step next report)
    (hlast : IsLastSet initial steps h.current.allowance) :
    IsLastSet initial (steps ++ [step]) next.current.allowance := by
  cases hdoes with
  | sets hsets => exact .concat_sets hsets
  | keeps hfree hunnamed =>
    exact hlast.concat_other fun b => by simp [Step.sets_update_iff, hunnamed]
  | invalid hfree hnamed hv _ =>
    exact hlast.concat_other fun b => by simp [Step.sets_update_iff, hnamed, hv b]
  | namesHolder hnamed =>
    exact hlast.concat_other fun b => by simp [Step.sets_update_iff, hnamed]

theorem run_concat (steps : List Step) (step : Step) :
    h.run (steps ++ [step]) =
      (((h.run steps).1.step step).1, (h.run steps).2 ++ [((h.run steps).1.step step).2]) := by
  rw [run, List.foldl_concat]
  rfl

theorem length_run (steps : List Step) : (h.run steps).2.length = steps.length := by
  induction steps using List.reverseRecOn with
  | nil => rfl
  | append_singleton steps step ih =>
    rw [run_concat, List.length_append, List.length_append, ih]
    rfl

/-- Every step of a run does what the rules say, from the snapshot that the steps before it have
    left. -/
theorem run_does (steps : List Step) (i : Nat) (step : Step) (hi : steps[i]? = some step) :
    ∃ report, (h.run steps).2[i]? = some report ∧
      (h.run (steps.take i)).1.Does step (h.run (steps.take (i + 1))).1 report := by
  induction steps using List.reverseRecOn with
  | nil => cases hi
  | append_singleton steps last ih =>
    have hlength := h.length_run steps
    rw [run_concat]
    rcases Nat.lt_or_ge i steps.length with hlt | hge
    · -- an earlier step has been made before the last one
      rw [List.getElem?_append_left hlt] at hi
      rw [List.getElem?_append_left (hlength ▸ hlt), List.take_append_of_le_length hlt.le,
        List.take_append_of_le_length hlt]
      exact ih hi
    · rw [List.getElem?_append_right hge] at hi
      obtain ⟨hzero, hlast⟩ := List.getElem?_eq_some_iff.mp hi
      rw [List.length_singleton] at hzero
      obtain rfl : i = steps.length := by omega
      obtain rfl : last = step := by simpa using hlast
      refine ⟨((h.run steps).1.step last).2, ?_, ?_⟩
      · rw [← hlength, List.getElem?_concat_length]
      · rw [List.take_left, ← List.length_singleton (a := last), ← List.length_append,
          List.take_length, run_concat]
        exact (h.run steps).1.step_does last

/-- A run keeps account of the allowance that was set last. -/
theorem isLastSet_run (start : Settings) (steps : List Step) :
    IsLastSet start.allowance steps ((ofSettings start).run steps).1.current.allowance := by
  induction steps using List.reverseRecOn with
  | nil => exact .never fun _ hstep => absurd hstep List.not_mem_nil
  | append_singleton steps step ih =>
    rw [run_concat]
    exact (step_does _ step).isLastSet _ ih

/-- All snapshots of a run are valid: each passes the check of its own values.  A step that fails
    leaves the snapshot that there is, and one that succeeds swaps in another, with the allowance
    that it names or else with the same.  So the allowance after a run is the one that was set last,
    or the initial one. -/
theorem run_snapshots (start : Settings) (steps : List Step) :
    let state (n : Nat) : LiveSettings := ((ofSettings start).run (steps.take n)).1
    let reports := ((ofSettings start).run steps).2
    reports.length = steps.length ∧
    (∀ n, Settings.ofMembers (state n).current.members = .ok (state n).current ∧
      IsLastSet start.allowance (steps.take n) (state n).current.allowance) ∧
    ∀ i step, steps[i]? = some step →
      ∃ report, reports[i]? = some report ∧ (state i).Does step (state (i + 1)) report := by
  intro state reports
  exact ⟨length_run _ steps,
    fun n => ⟨Settings.ofMembers_members _, isLastSet_run start (steps.take n)⟩,
    fun i step hi => run_does _ steps i step hi⟩

/-- A numeral is swapped in, then the same again under a name of no meaning; a number below zero is
    refused. -/
example : ((ofSettings .unlimited).run [.update [(Settings.allowanceName, .str " 5.0 ")],
    .update [("other", .null)], .update [(Settings.allowanceName, .int (-3))]]).1 =
    ⟨⟨some 5⟩, 2⟩ := by
  decide

end LiveSettings

end SignedEvents
