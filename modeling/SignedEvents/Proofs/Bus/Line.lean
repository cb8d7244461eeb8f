import SignedEvents.Proofs.Bus.Delivery

/-! # Who waits for room

  A publisher goes in line only at a full channel.  An item that is taken leaves room for one, and
  wakes one of those in line; whoever comes first may fill it.  So there is never more room than
  there are publishers on their way to it.

  - **Channel.Owes** — the room that is left, while somebody is in line, goes to comers.
  - **Channel.IsServed** — it goes to the publishers that have been woken.
  - **Channel.IsServed.turn**, **rest**, **giveUp** — the moves of a channel keep it so.
  - **Served**, **Sound.served_step**, **Sound.served_run** — one move of the bus, and any number
    of them.
  - **Bus.turn_turn** — after one turn nothing moves.
  - **waits_only_when_full** — when nothing moves, nobody waits for room that there is.
-/

namespace SignedEvents

variable {α : Type}

/-! ## Section 1: Room that is owed -/

namespace Channel

/-- If somebody is in line, then the channel is bounded, and its items and those of some comers
    would fill it. -/
def Owes (c : Channel α) (comers : Nat) : Prop :=
  c.waiting ≠ [] → 0 < c.capacity ∧ c.capacity ≤ c.depth + comers

/-- If somebody is in line, then the publishers that have been woken would fill the channel. -/
def IsServed (c : Channel α) : Prop := c.Owes c.woken.length

theorem isFull_iff (c : Channel α) :
    c.isFull = true ↔ 0 < c.capacity ∧ c.capacity ≤ c.depth := by
  simp [isFull]

@[simp] theorem depth_put (c : Channel α) (item : α) : (c.put item).depth = c.depth + 1 := by
  simp [depth]

/-- A full channel has no room to owe. -/
theorem owes_of_isFull {c : Channel α} (hfull : c.isFull = true) (comers : Nat) :
    c.Owes comers := by
  intro _
  rcases c.isFull_iff.mp hfull with ⟨hbounded, hle⟩
  exact ⟨hbounded, by omega⟩

theorem isServed_ofCapacity (capacity : Int) : (ofCapacity capacity : Channel α).IsServed := by
  intro hwaiting
  exact absurd rfl hwaiting

/-! ## Section 2: The moves of a channel -/

theorem IsServed.put {c : Channel α} (h : c.IsServed) (item : α) : (c.put item).IsServed := by
  intro hwaiting
  rcases h hwaiting with ⟨hbounded, hle⟩
  refine ⟨hbounded, ?_⟩
  have hwoken : (c.put item).woken = c.woken := rfl
  have hcapacity : (c.put item).capacity = c.capacity := rfl
  rw [hwoken, hcapacity, depth_put]
  omega

/-- Who goes in line has found the channel full. -/
theorem owes_wait {c : Channel α} (hfull : c.isFull = true) (p : Publisher α) (comers : Nat) :
    (c.wait p).Owes comers := by
  intro _
  rcases c.isFull_iff.mp hfull with ⟨hbounded, hle⟩
  refine ⟨hbounded, ?_⟩
  show c.capacity ≤ c.depth + comers
  omega

/-- A comer takes the room that was owed to it, or goes in line. -/
theorem Owes.enter {c : Channel α} {comers : Nat} (h : c.Owes (comers + 1)) (p : Publisher α) :
    (c.enter p).1.Owes comers := by
  unfold Channel.enter
  split
  next hfull => exact owes_wait hfull p comers
  next hroom =>
    intro hwaiting
    rcases h hwaiting with ⟨hbounded, hle⟩
    refine ⟨hbounded, ?_⟩
    have hcapacity : (c.put p.item).capacity = c.capacity := rfl
    rw [hcapacity, depth_put]
    omega

/-- When all comers have had their turns, no room is owed any more. -/
theorem Owes.enterAll {c : Channel α} {comers : List (Publisher α)} (h : c.Owes comers.length) :
    (c.enterAll comers).1.Owes 0 := by
  -- one comer less for each that has its turn
  induction comers generalizing c with
  | nil => exact h
  | cons p rest ih =>
    apply ih
    exact h.enter p

theorem woken_enter (c : Channel α) (p : Publisher α) : (c.enter p).1.woken = c.woken := by
  unfold enter
  split <;> rfl

theorem woken_enterAll (c : Channel α) (comers : List (Publisher α)) :
    (c.enterAll comers).1.woken = c.woken := by
  induction comers generalizing c with
  | nil => rfl
  | cons p rest ih =>
    show ((c.enter p).1.enterAll rest).1.woken = c.woken
    rw [ih, woken_enter]

/-- After a turn nobody is on the way. -/
@[simp] theorem woken_turn (c : Channel α) : c.turn.1.woken = [] := woken_enterAll _ _

theorem turn_eq_self {c : Channel α} (hidle : c.woken = []) : c.turn = (c, []) := by
  rcases c with ⟨capacity, queue, waiting, woken, dropped⟩
  obtain rfl : woken = [] := hidle
  rfl

theorem IsServed.turn {c : Channel α} (h : c.IsServed) : c.turn.1.IsServed := by
  have howes : c.turn.1.Owes 0 := Owes.enterAll (c := { c with woken := [] }) h
  unfold IsServed
  rw [woken_turn]
  exact howes

/-- Waking is enough for the room of one item. -/
theorem Owes.wake {c : Channel α} (h : c.Owes (c.woken.length + 1)) : c.wake.IsServed := by
  unfold Channel.wake
  split
  next hnobody =>
    intro hwaiting
    exact absurd hnobody hwaiting
  next p rest hline =>
    intro _
    -- somebody was in line before, the one that is woken
    rcases h (by rw [hline]; exact List.cons_ne_nil p rest) with ⟨hbounded, hle⟩
    refine ⟨hbounded, ?_⟩
    show c.capacity ≤ c.depth + (c.woken ++ [p]).length
    rw [List.length_append, List.length_singleton]
    omega

/-- Taking an item makes room for one, and wakes one. -/
theorem IsServed.rest {c : Channel α} (h : c.IsServed) : c.rest.IsServed := by
  rcases c.rest_cases with ⟨-, heq⟩ | ⟨item, items, hqueue, heq⟩
  · rw [heq]
    exact h
  · rw [heq]
    apply Owes.wake
    intro hwaiting
    rcases h hwaiting with ⟨hbounded, hle⟩
    refine ⟨hbounded, ?_⟩
    have hdepth : c.depth = items.length + 1 := by simp [depth, hqueue]
    show c.capacity ≤ items.length + (c.woken.length + 1)
    omega

/-- Nobody holds a ticket twice, so not more than one publisher leaves. -/
theorem length_le_filter_ticket {ps : List (Publisher α)} (halone : (ps.map (·.ticket)).Nodup)
    (ticket : Nat) : ps.length ≤ (ps.filter (·.ticket ≠ ticket)).length + 1 := by
  induction ps with
  | nil => exact Nat.zero_le _
  | cons p rest ih =>
    rcases List.nodup_cons.mp halone with ⟨hnew, hrest⟩
    by_cases hticket : p.ticket = ticket
    · -- the first one leaves, and the others hold other tickets
      have hsame : rest.filter (·.ticket ≠ ticket) = rest :=
        filter_ticket_of_not_mem (hticket ▸ hnew)
      have hfilter : (p :: rest).filter (·.ticket ≠ ticket) = rest :=
        (List.filter_cons_of_neg (by simpa using hticket)).trans hsame
      exact Nat.le_of_eq (congrArg (·.length + 1) hfilter.symm)
    · have hlength := ih hrest
      rw [List.filter_cons_of_pos (by simpa using hticket), List.length_cons, List.length_cons]
      omega

/-- Whoever gives up after it has been woken wakes another one, if it leaves room. -/
theorem IsServed.giveUp {c : Channel α} (h : c.IsServed)
    (halone : (c.pending.map (·.ticket)).Nodup) (ticket : Nat) : (c.giveUp ticket).IsServed := by
  unfold Channel.giveUp
  split
  · -- it was in line, and no room was owed to it
    intro hwaiting
    have hbefore : c.waiting ≠ [] := by
      intro hnil
      apply hwaiting
      simp [hnil]
    exact h hbefore
  · split
    · -- it was woken: the room that was owed to it may go to another one
      dsimp only
      split
      next hfull => exact owes_of_isFull hfull _
      next hroom =>
        apply Owes.wake
        intro hwaiting
        rcases h hwaiting with ⟨hbounded, hle⟩
        refine ⟨hbounded, ?_⟩
        rw [pending, List.map_append] at halone
        have hlength := length_le_filter_ticket (List.nodup_append.mp halone).2.1 ticket
        show c.capacity ≤ c.depth + (((c.woken.filter (·.ticket ≠ ticket)).length : Int) + 1)
        omega
    · exact h

end Channel

/-! ## Section 3: The bus -/

namespace Bus

/-- Nobody is on the way if a turn changes nothing. -/
theorem woken_of_turn_eq {b : Bus α} (hidle : b.turn = b) (id : ChannelId) :
    (b.channel id).woken = [] := by
  have hsame : b.turn.channel id = b.channel id := by rw [hidle]
  rw [← hsame, channel_turn]
  exact Channel.woken_turn _

/-- If nobody is on the way, a turn changes nothing. -/
theorem turn_eq_self {b : Bus α} (hidle : ∀ c ∈ b.channels, c.woken = []) : b.turn = b := by
  have hturns : b.channels.map Channel.turn = b.channels.map fun c => (c, []) := by
    apply List.map_congr_left
    intro c hc
    exact Channel.turn_eq_self (hidle c hc)
  unfold turn
  rw [hturns]
  simp [Function.comp_def]

/-- After one turn nothing moves. -/
theorem turn_turn (b : Bus α) : b.turn.turn = b.turn := by
  apply turn_eq_self
  intro c hc
  rcases exists_channel_eq hc with ⟨id, rfl⟩
  rw [channel_turn]
  exact Channel.woken_turn _

end Bus

namespace History

variable {h : History α}

/-- Every channel is served. -/
def Served (h : History α) : Prop := ∀ id, (h.bus.channel id).IsServed

theorem Served.register (hserved : h.Served) (name : Text) (capacity : Option Int) :
    (h.register name capacity).Served := by
  intro id
  show ((h.bus.register name capacity).1.channel id).IsServed
  rw [Bus.channel_register]
  split
  · exact Channel.isServed_ofCapacity _
  · exact hserved id

theorem Served.subscribe (hserved : h.Served) (name : Text) : (h.subscribe name).Served := by
  rcases h.bus.subscribe_cases name with ⟨id, -, heq⟩ | ⟨-, heq⟩
  · rw [History.subscribe, heq]
    exact hserved
  · rw [History.subscribe, heq]
    exact hserved.register name none

theorem Served.turn (hserved : h.Served) : h.turn.Served := by
  intro id
  rw [channel_turn]
  exact (hserved id).turn

theorem Served.get (hserved : h.Served) (id : ChannelId) : (h.get id).Served := by
  intro other
  show ((h.bus.get id).1.channel other).IsServed
  rw [(h.bus.changes_get id).channel]
  split
  · exact (hserved id).rest
  · exact hserved other

/-- Nobody else holds the ticket of a publisher that gives up. -/
theorem Served.expire (hserved : h.Served) (hs : h.Sound) (ticket : Nat) :
    (h.expire ticket).Served := by
  intro id
  rw [channel_expire]
  exact (hserved id).giveUp (hs.alone id) ticket

/-- A publish keeps all channels served, if it goes in line only at a full one. -/
theorem Served.post (hserved : h.Served) {id : ChannelId} (hid : id < h.bus.channels.length)
    (item : α) {hasTicket isPut : Bool}
    (hfull : hasTicket = true → isPut = false → (h.bus.channel id).isFull = true) :
    (h.post id item hasTicket isPut).Served := by
  intro other
  rw [channel_post hid]
  split
  · unfold posted
    cases isPut with
    | true => exact (hserved id).put item
    | false =>
      cases hasTicket with
      | true => exact Channel.owes_wait (hfull rfl rfl) _ _
      | false => exact hserved id
  · exact hserved other

/-- A publish that puts its item if there is room. -/
theorem Served.try (hserved : h.Served) {id : ChannelId} (hid : id < h.bus.channels.length)
    (item : α) (hasTicket : Bool) :
    (h.post id item hasTicket (!(h.bus.channel id).isFull)).Served := by
  apply hserved.post hid item
  intro _ hisFull
  simpa using hisFull

theorem Sound.served_publish (hs : h.Sound) (hserved : h.Served) (name : Text) (item : α)
    (mode : Mode) : (h.publish name item mode).Served := by
  have hid := hs.named.subscribe_lt name
  have hsubscribe := hserved.subscribe name
  unfold publish
  cases mode with
  | immediate => exact hsubscribe.try hid item false
  | untilRoom =>
    dsimp only
    split
    next hfull =>
      apply Served.turn
      apply hsubscribe.post hid item
      intro _ _
      exact hfull
    next => exact hsubscribe.try hid item false
  | within seconds =>
    have hturn : _ < (h.subscribe name).turn.bus.channels.length :=
      Nat.lt_of_lt_of_eq hid (Bus.length_channels_turn _).symm
    dsimp only
    split
    · -- it has given up, and nobody goes in line
      apply hsubscribe.turn.post hturn item
      intro hticket
      cases hticket
    · split
      next hforever =>
        apply hsubscribe.turn.post hturn item
        intro _ _
        exact hforever.2
      next => exact hsubscribe.turn.try hturn item false

/-- Every move keeps all channels served. -/
theorem Sound.served_step (hs : h.Sound) (hserved : h.Served) (a : Bus.Action α) :
    (h.step a).Served := by
  cases a with
  | register name capacity => exact hserved.register name capacity
  | subscribe name => exact hserved.subscribe name
  | publish name item mode => exact hs.served_publish hserved name item mode
  | start name item =>
    have hturn : _ < (h.subscribe name).turn.bus.channels.length :=
      Nat.lt_of_lt_of_eq (hs.named.subscribe_lt name) (Bus.length_channels_turn _).symm
    exact (hserved.subscribe name).turn.try hturn item true
  | expire ticket => exact hserved.expire hs ticket
  | get id => exact hserved.get id
  | turn => exact hserved.turn

theorem Sound.served_run (hs : h.Sound) (hserved : h.Served) (actions : List (Bus.Action α)) :
    (h.run actions).Served := by
  -- the accounts go along: they say that nobody else holds the ticket of one that gives up
  induction actions generalizing h with
  | nil => exact hserved
  | cons a rest ih => exact ih (hs.advances_step a).sound (hs.served_step hserved a)

theorem served_ofCapacity (defaultCapacity : Int) :
    (ofCapacity defaultCapacity : History α).Served := by
  -- a bus without channels, before the standard names are registered
  let start : History α :=
    { bus := ⟨defaultCapacity, [], [], []⟩, calls := [], puts := fun _ => [], taken := fun _ => [] }
  have hstart : start.Served := by
    intro id
    exact Channel.isServed_ofCapacity defaultCapacity
  exact (hstart.register "events_out" none).register "notices" none

/-! ## Section 4: Who waits when nothing moves -/

/-- A publish that is reported to wait is one of those that wait at its channel, in line or
    woken. -/
theorem Sound.exists_waiting_iff (hs : h.Sound) (id : ChannelId) :
    (∃ call ∈ h.calls, call.channel = id ∧ h.report call = .waiting) ↔
      (h.bus.channel id).pending ≠ [] := by
  constructor
  · rintro ⟨call, hcall, rfl, hreport⟩
    cases hreceipt : call.receipt with
    | answer isPut =>
      rw [report, hreceipt] at hreport
      cases isPut <;> cases hreport
    | ticket t =>
      have hmem := hs.pending_of_report hcall hreceipt hreport
      intro hnobody
      rw [hnobody] at hmem
      cases hmem
  · intro hsomebody
    rcases List.exists_mem_of_ne_nil _ hsomebody with ⟨p, hp⟩
    rcases hs.holders id p hp with ⟨call, hcall, hreceipt, hid, -⟩
    exact ⟨call, hcall, hid, hs.report_of_pending hreceipt (List.mem_map_of_mem hp)⟩

/-- In every run, for every channel that was ever made: when nothing moves any more, a publish still
    waits only if the channel is bounded and its queue holds exactly as many items as its capacity
    allows.  One turn is always enough until nothing moves. -/
theorem waits_only_when_full (defaultCapacity : Int) (actions : List (Bus.Action α)) :
    let h := (ofCapacity defaultCapacity).run actions
    h.bus = (Bus.ofCapacity defaultCapacity).run actions ∧
    h.bus.turn.turn = h.bus.turn ∧
    ∀ id,
      ((∃ call ∈ h.calls, call.channel = id ∧ h.report call = .waiting) ↔
        (h.bus.channel id).pending ≠ []) ∧
      (h.bus.turn = h.bus → (h.bus.channel id).pending ≠ [] →
        0 < (h.bus.channel id).capacity ∧
          ((h.bus.channel id).depth : Int) = (h.bus.channel id).capacity) := by
  intro h
  have hs : h.Sound := ((sound_ofCapacity defaultCapacity).advances_run actions).sound
  have hserved : h.Served :=
    (sound_ofCapacity defaultCapacity).served_run (served_ofCapacity defaultCapacity) actions
  refine ⟨run_bus _ actions, h.bus.turn_turn, fun id => ⟨hs.exists_waiting_iff id, ?_⟩⟩
  intro hidle hsomebody
  -- nobody is on the way, so whoever waits is in line, and no room is owed
  have hwoken := Bus.woken_of_turn_eq hidle id
  have hwaiting : (h.bus.channel id).waiting ≠ [] := by
    intro hnil
    apply hsomebody
    rw [Channel.pending, hnil, hwoken]
    rfl
  rcases hserved id hwaiting with ⟨hbounded, hfull⟩
  have hdepth := hs.bounded id hbounded
  rw [hwoken, List.length_nil] at hfull
  exact ⟨hbounded, by omega⟩

/-- At a channel for one item two publishes wait.  One item is taken, but the room goes to a publish
    that does not wait, and both wait on. -/
theorem waits_only_when_full_of_steal :
    let actions : List (Bus.Action Nat) :=
      [.publish "notices" 1 .immediate, .start "notices" 2, .start "notices" 3, .get 1,
        .publish "notices" 4 .immediate, .turn]
    let h := (ofCapacity 1).run actions
    h.bus.turn = h.bus ∧ (h.bus.channel 1).pending.map (·.item) = [3, 2] ∧
      0 < (h.bus.channel 1).capacity ∧
      ((h.bus.channel 1).depth : Int) = (h.bus.channel 1).capacity := by
  intro actions h
  have hidle : h.bus.turn = h.bus := by rfl
  have hline : (h.bus.channel 1).pending.map (·.item) = [3, 2] := by decide
  have hsomebody : (h.bus.channel 1).pending ≠ [] := by
    intro hnil
    rw [hnil] at hline
    cases hline
  rcases waits_only_when_full 1 actions with ⟨-, -, hchannels⟩
  exact ⟨hidle, hline, (hchannels 1).2 hidle hsomebody⟩

end History

end SignedEvents
