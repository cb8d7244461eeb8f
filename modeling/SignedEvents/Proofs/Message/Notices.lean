import SignedEvents.Proofs.Message.Session

/-! # What notices give away

  Whoever reads the notices of an intake learns the statuses of the messages that were handled, and
  nothing else: not which check failed, and neither events nor settings nor the time.

  - **Bus.named?** — the channel that a name stands for, before and after a move.
  - **Session.Sight**, **Session.sights** — what of a session bears on the notices.
  - **Session.watch** — the channel of notices as a machine of its own, driven by sights.
  - **Session.watches_step**, **Session.watches_run** — in every session it is that machine.
  - **Bus.Alike** — two buses with the same channel of notices.
  - **Session.notices_blind** — two sessions with the same sights.
-/

namespace SignedEvents

variable {α : Type}

/-! ## Section 1: The channel of a name -/

namespace Bus

/-- The channel that a name stands for. -/
def named? (b : Bus α) (name : Text) : Option (Channel α) := (b.find? name).map b.channel

section

variable {b b' : Bus α} {name other : Text} {c : Channel α} {f : Channel α → Channel α}

theorem subscribe_defaultCapacity (b : Bus α) (name : Text) :
    (b.subscribe name).1.defaultCapacity = b.defaultCapacity := by
  rcases b.subscribe_cases name with ⟨id, -, heq⟩ | ⟨-, heq⟩ <;> rw [heq]
  rfl

/-- After a registration the name stands for an empty channel, and the others for what they
    did. -/
theorem named?_register (hnamed : b.IsNamed) (hc : b.named? name = some c) (other : Text)
    (capacity : Option Int) :
    (b.register other capacity).1.named? name =
      some (if other = name then .ofCapacity (capacity.getD b.defaultCapacity) else c) := by
  obtain ⟨id, hid, rfl⟩ := Option.map_eq_some_iff.mp hc
  unfold named?
  by_cases hother : other = name
  · rw [find?_register, if_pos hother.symm, if_pos hother, Option.map_some, channel_register,
      if_pos rfl]
  · obtain ⟨hfind, hchannel⟩ := register_known hnamed hid (Ne.symm hother) capacity
    rw [hfind, if_neg hother, Option.map_some, hchannel]

/-- Whoever subscribes and changes the channel changes what the name stands for. -/
theorem Changes.named? (h : (b.subscribe other).1.Changes (b.subscribe other).2 f b')
    (hnamed : b.IsNamed) (hapart : b.IsApart) (hc : b.named? name = some c) :
    b'.named? name = some (if other = name then f c else c) := by
  obtain ⟨id, hid, rfl⟩ := Option.map_eq_some_iff.mp hc
  obtain ⟨hfind, hchannel, hsame⟩ := subscribe_known hnamed hapart hid other
  rw [Bus.named?, find?_congr h.names, hfind, Option.map_some, h.channel]
  by_cases hother : other = name
  · -- the channel of the name is the one that changes
    have hsubscribed := hsame.mpr hother
    rw [if_pos hsubscribed.symm, if_pos hother, hsubscribed, hchannel]
  · rw [if_neg fun heq => hother (hsame.mp heq.symm), if_neg hother, hchannel]

/-- A known name stands for the channel that its subscribers get. -/
theorem channel_subscribe (hc : b.named? name = some c) :
    (b.subscribe name).1.channel (b.subscribe name).2 = c := by
  obtain ⟨id, hid, rfl⟩ := Option.map_eq_some_iff.mp hc
  rcases b.subscribe_cases name with ⟨id', hid', heq⟩ | ⟨hnone, -⟩
  · rw [heq, ← Option.some.inj (hid.symm.trans hid')]
  · cases hid.symm.trans hnone

end

end Bus

/-! ## Section 2: Sights -/

namespace Session

/-- What bears on the channel of notices. -/
inductive Sight where
  /-- A message was handled, and had a status. -/
  | handled (status : Status)
  /-- The name of the channel was given a new channel. -/
  | renewed (capacity : Option Int)
  /-- Its first parcel was asked for. -/
  | get
  /-- All its parcels were asked for. -/
  | drain
  deriving DecidableEq

namespace Sight

/-- The channel of notices afterwards. -/
def after (defaultCapacity : Int) (c : Channel Parcel) : Sight → Channel Parcel
  | handled status =>
    match status.notice? with
    | none => c
    | some text => c.offer (.notice text)
  | renewed capacity => .ofCapacity (capacity.getD defaultCapacity)
  | get => c.rest
  | drain => c.emptied

/-- What is taken from it. -/
def taken? (c : Channel Parcel) : Sight → Option (List Parcel)
  | get => some c.queue.head?.toList
  | drain => some c.queue
  | _ => none

end Sight

/-- What an action and the report on it show. -/
def Action.sight? : Action → Report → Option Sight
  | .handle _, .handled o => some (.handled o.status)
  | .register name capacity, _ =>
    if name = Intake.noticeChannel then some (.renewed capacity) else none
  | .get name, _ => if name = Intake.noticeChannel then some .get else none
  | .drain name, _ => if name = Intake.noticeChannel then some .drain else none
  | _, _ => none

/-- What was taken from the channel of notices, if it was asked. -/
def Report.noticesTaken? : Report → Option (List Parcel)
  | taken name parcels => if name = Intake.noticeChannel then some parcels else none
  | _ => none

/-- What a run shows. -/
def sights (s : Session) (actions : List Action) : List Sight :=
  (actions.zip (s.run actions).2).filterMap fun (a, r) => a.sight? r

/-- The channel of notices after some sights, and the lists that were taken from it. -/
def watch (defaultCapacity : Int) (c : Channel Parcel) (sights : List Sight) :
    Channel Parcel × List (List Parcel) :=
  sights.foldl
    (fun (c, lists) v => (v.after defaultCapacity c, lists ++ (v.taken? c).toList))
    (c, [])

theorem watch_append_toList (defaultCapacity : Int) (c : Channel Parcel) (sights : List Sight)
    (v? : Option Sight) :
    let (c', lists) := watch defaultCapacity c sights
    watch defaultCapacity c (sights ++ v?.toList) =
      (v?.elim c' (·.after defaultCapacity c'), lists ++ (v?.bind (·.taken? c')).toList) := by
  unfold watch
  rw [List.foldl_append]
  cases v? with
  | none => exact Prod.ext rfl (List.append_nil _).symm
  | some v => rfl

/-! ## Section 3: Actions -/

/-- An action changes the channel of notices as the sight of it tells. -/
structure Watches (s : Session) (v? : Option Sight) (r : Report) (s' : Session) : Prop where
  named           : s'.intake.bus.IsNamed
  apart           : s'.intake.bus.IsApart
  defaultCapacity : s'.intake.bus.defaultCapacity = s.intake.bus.defaultCapacity
  notices         : ∀ c, s.intake.bus.named? Intake.noticeChannel = some c →
    s'.intake.bus.named? Intake.noticeChannel =
        some (v?.elim c (·.after s.intake.bus.defaultCapacity c)) ∧
      r.noticesTaken? = v?.bind (·.taken? c)

section

variable {s s' : Session} {r : Report}
variable (hnamed : s.intake.bus.IsNamed) (hapart : s.intake.bus.IsApart)

include hnamed hapart

/-- The bus is left alone. -/
theorem watches_of_same (hbus : s'.intake.bus = s.intake.bus) (hnotices : r.noticesTaken? = none) :
    s.Watches none r s' where
  named := hbus ▸ hnamed
  apart := hbus ▸ hapart
  defaultCapacity := by rw [hbus]
  notices c hc := by
    rw [hbus]
    exact ⟨hc, hnotices⟩

/-- Something is done with the channel of a name. -/
theorem watches_of_changes {name : Text} {f : Channel Parcel → Channel Parcel}
    {bus : Bus Parcel} {v? : Option Sight}
    (h : (s.intake.bus.subscribe name).1.Changes (s.intake.bus.subscribe name).2 f bus)
    (hafter : ∀ c, (if name = Intake.noticeChannel then f c else c) =
      v?.elim c (·.after s.intake.bus.defaultCapacity c))
    (htaken : ∀ c, s.intake.bus.named? Intake.noticeChannel = some c →
      r.noticesTaken? = v?.bind (·.taken? c)) (settings : LiveSettings) (tally : Tally) :
    s.Watches v? r ⟨⟨settings, tally, bus⟩, s.clock⟩ where
  named := (hnamed.subscribe name).congr h.names h.length
  apart := (hapart.subscribe hnamed name).congr h.names
  defaultCapacity := h.defaultCapacity.trans (s.intake.bus.subscribe_defaultCapacity name)
  notices c hc := by
    refine ⟨?_, htaken c hc⟩
    rw [← hafter c]
    exact h.named? hnamed hapart hc

/-- An outcome is forwarded under its address, and the notice of it depends on its status. -/
theorem watches_handled (o : Outcome) (settings : LiveSettings) (tally : Tally) :
    s.Watches (some (.handled o.status)) (.handled o)
      ⟨⟨settings, tally, (s.intake.bus.publish o.address o.parcel .immediate).1⟩, s.clock⟩ := by
  have hoffer := Bus.changes_offer (hnamed.subscribe_lt o.address) o.parcel
  refine watches_of_changes hnamed hapart hoffer (fun c => ?_) (fun _ _ => rfl) settings tally
  -- neither the address nor the notice depends on more than the status
  cases o <;> rfl

/-- Settings are swapped in, or nothing happens. -/
theorem watches_settle (settled : Except LiveSettings.Refusal Intake)
    (hsame : ∀ g, settled = .ok g → g.bus = s.intake.bus) :
    s.Watches none (s.settle settled).2 (s.settle settled).1 := by
  cases settled with
  | error refusal => exact watches_of_same hnamed hapart rfl rfl
  | ok g => exact watches_of_same hnamed hapart (hsame g rfl) rfl

/-- A name gets a new channel. -/
theorem watches_register (name : Text) (capacity : Option Int) :
    s.Watches (if name = Intake.noticeChannel then some (.renewed capacity) else none)
      (.registered name)
      { s with intake := { s.intake with bus := (s.intake.bus.register name capacity).1 } } where
  named := hnamed.register name capacity
  apart := hapart.register hnamed name capacity
  defaultCapacity := rfl
  notices c hc := by
    show (s.intake.bus.register name capacity).1.named? Intake.noticeChannel = _ ∧ _
    rw [Bus.named?_register hnamed hc name capacity]
    by_cases hname : name = Intake.noticeChannel
    · rw [if_pos hname, if_pos hname]
      exact ⟨rfl, rfl⟩
    · rw [if_neg hname, if_neg hname]
      exact ⟨rfl, rfl⟩

/-- Parcels are taken from the channel of a name. -/
theorem watches_taken {name : Text} {bus : Bus Parcel} {parcels : List Parcel} (v : Sight)
    (h : (s.intake.bus.subscribe name).1.Changes (s.intake.bus.subscribe name).2
      (v.after s.intake.bus.defaultCapacity) bus)
    (htaken : v.taken? ((s.intake.bus.subscribe name).1.channel (s.intake.bus.subscribe name).2) =
      some parcels) :
    s.Watches (if name = Intake.noticeChannel then some v else none) (.taken name parcels)
      { s with intake := { s.intake with bus } } := by
  refine watches_of_changes hnamed hapart h (fun c => ?_) (fun c hc => ?_) _ _
  · split <;> rfl
  · show (if name = Intake.noticeChannel then some parcels else none) = _
    by_cases hname : name = Intake.noticeChannel
    · -- what was taken is what its subscribers find there
      rw [hname, Bus.channel_subscribe hc] at htaken
      rw [if_pos hname, if_pos hname, ← htaken]
      rfl
    · rw [if_neg hname, if_neg hname]
      rfl

/-- Every action changes the channel of notices as the sight of it tells. -/
theorem watches_step (a : Action) :
    s.Watches (a.sight? (s.step a).value.2) (s.step a).value.2 (s.step a).value.1 := by
  cases a with
  | process source =>
    rw [step_process]
    cases (takeIn s.intake.settings.current s.clock source).value <;>
      exact watches_of_same hnamed hapart rfl rfl
  | handle source =>
    rw [step_handle]
    cases (takeIn s.intake.settings.current s.clock source).value with
    | error e => exact watches_of_same hnamed hapart rfl rfl
    | ok o => exact watches_handled hnamed hapart o _ _
  | update changes =>
    exact watches_settle hnamed hapart _ fun g hg => (Intake.update_frame hg).1
  | replace settings =>
    refine watches_settle hnamed hapart _ fun g hg => ?_
    cases settings <;> cases hg
    rfl
  | setClock clock => exact watches_of_same hnamed hapart rfl rfl
  | register name capacity => exact watches_register hnamed hapart name capacity
  | get name =>
    let b := (s.intake.bus.subscribe name).1
    let id := (s.intake.bus.subscribe name).2
    have htaken : Sight.taken? (b.channel id) .get = some (b.get id).2.toList := by
      rw [b.get_item id]
      rfl
    exact watches_taken hnamed hapart .get (b.changes_get id) htaken
  | drain name =>
    let b := (s.intake.bus.subscribe name).1
    let id := (s.intake.bus.subscribe name).2
    exact watches_taken hnamed hapart .drain (b.changes_drain id) rfl

end

/-! ## Section 4: Runs -/

theorem length_reports_run (s : Session) (actions : List Action) :
    (s.run actions).2.length = actions.length := by
  induction actions using List.reverseRecOn with
  | nil => rfl
  | append_singleton actions a ih =>
    rw [run_concat, List.length_append, List.length_append, ih]
    rfl

theorem sights_concat (s : Session) (actions : List Action) (a : Action) :
    s.sights (actions ++ [a]) =
      s.sights actions ++ (a.sight? ((s.run actions).1.step a).value.2).toList := by
  unfold sights
  rw [run_concat, List.zip_append (s.length_reports_run actions).symm, List.zip_cons_cons,
    List.zip_nil_left, filterMap_concat]

/-- Every run drives the channel of notices by what it shows, and nothing else. -/
theorem watches_run {start : Session} {c : Channel Parcel} (hnamed : start.intake.bus.IsNamed)
    (hapart : start.intake.bus.IsApart)
    (hc : start.intake.bus.named? Intake.noticeChannel = some c) (actions : List Action) :
    let s := (start.run actions).1
    let watched := watch start.intake.bus.defaultCapacity c (start.sights actions)
    s.intake.bus.IsNamed ∧ s.intake.bus.IsApart ∧
      s.intake.bus.defaultCapacity = start.intake.bus.defaultCapacity ∧
      s.intake.bus.named? Intake.noticeChannel = some watched.1 ∧
      (start.run actions).2.filterMap Report.noticesTaken? = watched.2 := by
  -- the last action is the last sight, if it is one
  induction actions using List.reverseRecOn with
  | nil => exact ⟨hnamed, hapart, rfl, hc, rfl⟩
  | append_singleton actions a ih =>
    obtain ⟨hnamed', hapart', hdefault, hnotices, htaken⟩ := ih
    have h := watches_step hnamed' hapart' a
    obtain ⟨hafter, hlist⟩ := h.notices _ hnotices
    have hwatch := watch_append_toList start.intake.bus.defaultCapacity c (start.sights actions)
      (a.sight? ((start.run actions).1.step a).value.2)
    rw [hdefault] at hafter
    dsimp only
    rw [sights_concat, run_concat, hwatch, filterMap_concat, htaken, hlist]
    exact ⟨h.named, h.apart, h.defaultCapacity.trans hdefault, hafter, rfl⟩

end Session

/-! ## Section 5: Two sessions -/

/-- Two buses of one default capacity, on which the name of the notices stands for equal channels:
    they hold the same parcels in the same order, and have dropped as many. -/
structure Bus.Alike (b b' : Bus Parcel) : Prop where
  named           : b.IsNamed ∧ b'.IsNamed
  apart           : b.IsApart ∧ b'.IsApart
  defaultCapacity : b.defaultCapacity = b'.defaultCapacity
  notices         : ∃ c, b.named? Intake.noticeChannel = some c ∧
    b'.named? Intake.noticeChannel = some c

/-- Fresh buses are alike if their channels of notices are, whatever else is on them. -/
theorem Bus.IsFresh.alike {b b' : Bus Parcel} (h : b.IsFresh) (h' : b'.IsFresh)
    (hdefault : b.defaultCapacity = b'.defaultCapacity)
    (hnotices : b.named? Intake.noticeChannel = b'.named? Intake.noticeChannel) : b.Alike b' where
  named := ⟨h.named, h'.named⟩
  apart := ⟨h.apart, h'.apart⟩
  defaultCapacity := hdefault
  notices := by
    obtain ⟨id, hid, -⟩ := h.empty Intake.noticeChannel (List.mem_cons_of_mem _ List.mem_cons_self)
    have hc : b.named? Intake.noticeChannel = some (b.channel id) := by
      rw [Bus.named?, hid, Option.map_some]
    exact ⟨b.channel id, hc, hnotices.symm.trans hc⟩

namespace Session

theorem alike_run {start start' : Session} (hbus : start.intake.bus.Alike start'.intake.bus)
    {actions actions' : List Action} (hsights : start.sights actions = start'.sights actions') :
    (start.run actions).1.intake.bus.Alike (start'.run actions').1.intake.bus ∧
      (start.run actions).2.filterMap Report.noticesTaken? =
        (start'.run actions').2.filterMap Report.noticesTaken? := by
  obtain ⟨c, hc, hc'⟩ := hbus.notices
  obtain ⟨hnamed, hapart, hdefault, hnotices, htaken⟩ :=
    watches_run hbus.named.1 hbus.apart.1 hc actions
  obtain ⟨hnamed', hapart', hdefault', hnotices', htaken'⟩ :=
    watches_run hbus.named.2 hbus.apart.2 hc' actions'
  -- both channels are the same machine, and it has seen the same
  rw [← hsights, ← hbus.defaultCapacity] at hnotices' htaken'
  exact
    ⟨{ named := ⟨hnamed, hnamed'⟩
       apart := ⟨hapart, hapart'⟩
       defaultCapacity := by rw [hdefault, hdefault', hbus.defaultCapacity]
       notices := ⟨_, hnotices, hnotices'⟩ },
      htaken.trans htaken'.symm⟩

/-- Two sessions at buses that are alike, in which messages were handled with the same statuses and
    the channel of notices was read and renewed in between at the same points, cannot be told apart
    there, whatever the messages, the reasons, the settings and the clocks were, and whatever else
    was done: the channels hold the same notices in the same order, every reading gave the same
    list, and as many were dropped.  What is there, and what was read, comes from the statuses and
    from nothing else.  If a message is rejected next in both, then they still cannot be told apart,
    whatever the checks were that the events did not pass. -/
theorem notices_blind (start start' : Session) (hbus : start.intake.bus.Alike start'.intake.bus)
    (actions actions' : List Action) (hsights : start.sights actions = start'.sights actions') :
    let s := (start.run actions).1
    let s' := (start'.run actions').1
    s.intake.bus.Alike s'.intake.bus ∧
    (start.run actions).2.filterMap Report.noticesTaken? =
      (start'.run actions').2.filterMap Report.noticesTaken? ∧
    (∀ c, start.intake.bus.named? Intake.noticeChannel = some c →
      let watched := watch start.intake.bus.defaultCapacity c (start.sights actions)
      s.intake.bus.named? Intake.noticeChannel = some watched.1 ∧
        (start.run actions).2.filterMap Report.noticesTaken? = watched.2) ∧
    ∀ source source' reason reason' event event',
      (s.step (.handle source)).value.2 = .handled (.invalid reason event) →
      (s'.step (.handle source')).value.2 = .handled (.invalid reason' event') →
      (s.step (.handle source)).value.1.intake.bus.Alike
        (s'.step (.handle source')).value.1.intake.bus := by
  intro s s'
  obtain ⟨halike, htaken⟩ := alike_run hbus hsights
  refine ⟨halike, htaken, ?_, ?_⟩
  · intro c hc
    exact (watches_run hbus.named.1 hbus.apart.1 hc actions).2.2.2
  · intro source source' reason reason' event event' hreport hreport'
    -- a rejection is one more sight, and both sights are the same
    have hsights' : start.sights (actions ++ [.handle source]) =
        start'.sights (actions' ++ [.handle source']) := by
      rw [sights_concat, sights_concat, hsights, hreport, hreport']
      rfl
    have hnext := (alike_run hbus hsights').1
    rw [run_concat, run_concat] at hnext
    exact hnext

/-- One event is dated too far ahead, and the other has a wrong id.  The second session has more room
    for events, takes in a message that it does not forward, and sets its clock. -/
theorem notices_blind_of_reasons :
    let bus : Bus Parcel := Bus.ofCapacity 1
    let bus' := (bus.register Intake.eventChannel (some 7)).1
    let start : Session := ⟨.ofSettings ⟨some 60⟩ bus, .given (-100)⟩
    let start' : Session := ⟨.ofSettings .unlimited bus', .given 5⟩
    let message : Json.Source := .text (Envelope.blankMessage [])
    let actions : List Action := [.handle message, .drain Intake.noticeChannel]
    let actions' : List Action :=
      [.process message, .handle message, .setClock (.given 9), .drain Intake.noticeChannel]
    let reasons (s : Session) (actions : List Action) := (s.run actions).2.filterMap fun r =>
      match r with
      | .handled o => o.reason?
      | _ => none
    bus.Alike bus' ∧ start.sights actions = start'.sights actions' ∧
      reasons start actions = [.futureTimestamp] ∧ reasons start' actions' = [.idMismatch] ∧
      (start'.run actions').2.filterMap Report.noticesTaken? =
        [[.notice "invalid: event rejected"]] := by
  intro bus bus' start start' message actions actions' reasons
  have hfresh : bus.IsFresh := Bus.isFresh_ofCapacity 1
  have halike : bus.Alike bus' :=
    hfresh.alike (hfresh.register Intake.eventChannel (some 7)) rfl rfl
  have hsights : start.sights actions = start'.sights actions' := by decide +kernel
  obtain ⟨-, hsame, hwatched, -⟩ := notices_blind start start' halike actions actions' hsights
  have htaken := (hwatched ⟨1, [], [], [], 0⟩ rfl).2
  have hlists : (watch 1 ⟨1, [], [], [], 0⟩ (start.sights actions)).2 =
      [[.notice "invalid: event rejected"]] := by
    decide +kernel
  refine ⟨halike, hsights, ?_, ?_, (hsame.symm.trans htaken).trans hlists⟩
  · decide +kernel
  · decide +kernel

end Session

end SignedEvents
